import Protobus.PubChannel.Owner

/-!
# The confirm slots

A slot is held from admission until the publication's `settle` has run to its end, by
exactly as many publications as there are occupied slots. An unsettled publication always
has somebody left who will settle it, so that a channel that has shut down holds no slot.
-/
namespace Protobus.PubChannel
open Library

variable {cfg : Config} {s : State} {i : Nat}

/-! ## Counting -/

/-- Changing a predicate at one point below `n`. -/
theorem countP_range_update {p q : Nat → Bool} {n i : Nat} (hi : i < n)
    (same : ∀ j, j ≠ i → q j = p j) :
    (List.range n).countP q + (p i).toNat = (List.range n).countP p + (q i).toNat := by
  induction n with
  | zero => omega
  | succ n ih =>
    simp only [List.range_succ, List.countP_append, List.countP_singleton]
    by_cases last : i = n
    · subst last
      have below : (List.range i).countP q = (List.range i).countP p := by
        refine List.countP_congr fun j hj => ?_
        rw [same j (by have := List.mem_range.mp hj; omega)]
      cases hp : p i <;> cases hq : q i <;> simp [below]
    · have := ih (by omega)
      rw [same n (Ne.symm last)]
      omega

/-- Admitted, and its `settle` has not given the slot back. -/
def State.holds (s : State) (i : Nat) : Bool :=
  (s.calls i).pc.admitted && (s.calls i).releases == 0

/-- How many publications hold a slot. -/
def State.held (s : State) : Nat := (List.range s.started).countP s.holds

theorem held_congr (s t : State) (started : t.started = s.started)
    (holds : ∀ j, t.holds j = s.holds j) : t.held = s.held := by
  simp only [State.held, started, funext holds]

/-- One publication takes a slot. -/
theorem held_succ (s t : State) (started : t.started = s.started) (hi : i < s.started)
    (others : ∀ j, j ≠ i → t.holds j = s.holds j) (before : s.holds i = false)
    (after : t.holds i = true) : t.held = s.held + 1 := by
  have := countP_range_update hi others
  simp only [before, after, Bool.toNat_false, Bool.toNat_true] at this
  simp only [State.held, started]
  omega

/-- One publication gives its slot back. -/
theorem held_pred (s t : State) (started : t.started = s.started) (hi : i < s.started)
    (others : ∀ j, j ≠ i → t.holds j = s.holds j) (before : s.holds i = true)
    (after : t.holds i = false) : t.held = s.held - 1 := by
  have := countP_range_update hi others
  simp only [before, after, Bool.toNat_false, Bool.toNat_true] at this
  simp only [State.held, started]
  omega

theorem Pc.admitted_of_handedOff {p : Pc} (h : p.handedOff = true) : p.admitted = true := by
  cases p <;> simp_all [Pc.handedOff, Pc.admitted]

/-! ## Slots and publications agree -/

theorem held_caller (shape : Shape s) (sound : ∀ i, Sound s i) (hs : s.slots = s.held) {k : Nat}
    {a : CallerAction} (en : callerEnabled cfg s k a = true) :
    (callerNext cfg s k a).slots = (callerNext cfg s k a).held := by
  have others (j : Nat) (ne : j ≠ k) : (callerNext cfg s k a).holds j = s.holds j := by
    simp [State.holds, callerNext, ne]
  have started : k < s.started := shape.started_of_ne_idle fun idle => by
    cases a <;> simp [callerEnabled, idle] at en
  cases a with
  | takeSlot =>
    have pc : (s.calls k).pc = .wantSlot := by simp_all [callerEnabled]
    have zero := (sound k).releases_eq_zero_of_unsettled ((sound k).early (by rw [pc]; rfl))
    have held := held_succ s (callerNext cfg s k .takeSlot) rfl started others
      (by simp [State.holds, pc, Pc.admitted])
      (by simp [State.holds, callerNext, callerEffect, Pc.admitted, zero])
    rw [held, ← hs]
    rfl
  | release r =>
    have pc : (s.calls k).pc = .releasing r := by simp_all [callerEnabled]
    have zero := (sound k).releases_eq_zero (releasers_of_pc pc)
    have held := held_pred s (callerNext cfg s k (.release r)) rfl started others
      (by simp [State.holds, pc, Pc.admitted, zero])
      (by simp [State.holds, callerNext, callerEffect, Call.release])
    rw [held, ← hs]
    rfl
  | _ =>
    refine hs.trans (held_congr s (callerNext cfg s k _) rfl fun j => ?_).symm
    by_cases own : j = k
    · subst own
      simp only [callerEnabled, State.holds, callerNext, callerEffect, calls_update] at en ⊢
      grind [Pc.admitted, Call.record, Call.finish]
    · exact others j own

/-- The second half of a `settle` by the writer or the loop. -/
theorem held_release (shape : Shape s) (sound : Sound s i) (hs : s.slots = s.held)
    (handed : (s.calls i).pc.handedOff = true) (owner : 0 < s.releasers i) {t : State}
    (started : t.started = s.started) (slots : t.slots = s.slots - 1)
    (calls : ∀ j, t.calls j = if j = i then (s.calls i).release else s.calls j) :
    t.slots = t.held := by
  have zero := sound.releases_eq_zero owner
  have idle : (s.calls i).pc ≠ .idle := fun idle => by simp [idle, Pc.handedOff] at handed
  have held := held_pred s t started (shape.started_of_ne_idle idle)
    (fun j ne => by simp [State.holds, calls j, ne])
    (by simp [State.holds, Pc.admitted_of_handedOff handed, zero])
    (by simp [State.holds, calls i, Call.release])
  rw [held, slots, hs]

theorem held_writer (shape : Shape s) (sound : Sound s i) (hs : s.slots = s.held)
    {a : WriterAction} (busy : s.writer = .busy i a.stage) :
    (writerNext s i a).slots = (writerNext s i a).held := by
  cases a with
  | release =>
    exact held_release shape sound hs (shape.of_writer busy) (releasers_of_writer busy) rfl rfl
      (calls_update _ i · Call.release)
  | _ =>
    refine hs.trans (held_congr s (writerNext s i _) rfl fun j => ?_).symm
    simp only [State.holds, pc_writerNext]
    simp only [writerNext, calls_update] <;> grind [Call.record]

theorem held_loop (shape : Shape s) (sound : ∀ i, Sound s i) (hs : s.slots = s.held)
    {a : LoopAction} (en : loopEnabled s a = true) :
    (loopNext s a).slots = (loopNext s a).held := by
  cases a with
  | release k v =>
    simp only [loopEnabled, Bool.and_eq_true, decide_eq_true_eq] at en
    exact held_release shape (sound k) hs
      (shape.known k (.inr (.inr (.inr (.inl ⟨v, true, en.1⟩)))))
      (releasers_of_settling en.1) rfl rfl (calls_update _ k · Call.release)
  | takeReturn r pub =>
    have holds (j : Nat) : (loopNext s (.takeReturn r pub)).holds j = s.holds j := by
      rcases markReturned_cases { s with wire := s.wire.tail } r with eq | ⟨t, k, -, -, eq⟩ <;>
        simp only [State.holds, loopNext, eq, calls_update]
      grind
    obtain ⟨calls, eq⟩ := markReturned_frame { s with wire := s.wire.tail } r
    rw [held_congr s _ (by rw [loopNext, eq]) holds, ← hs, loopNext, eq]
  | takeConfirm c =>
    have holds (j : Nat) : (loopNext s (.takeConfirm c)).holds j = s.holds j := by
      rcases resolve_cases { s with confirms := s.confirms.tail } c with eq | ⟨k, -, eq⟩ <;>
        simp only [State.holds, loopNext, eq, calls_update]
      grind
    obtain ⟨calls, pending, settling, eq⟩ := resolve_frame { s with confirms := s.confirms.tail } c
    rw [held_congr s _ (by rw [loopNext, eq]) holds, ← hs, loopNext, eq]
  | settle k v =>
    refine hs.trans (held_congr s (loopNext s (.settle k v)) rfl fun j => ?_).symm
    simp only [State.holds, loopNext, calls_update]
    grind [Call.record]
  | _ => exact hs

theorem held_env (hs : s.slots = s.held) (a : EnvAction) :
    (envNext s a).slots = (envNext s a).held := by
  cases a with
  | call exchange key messageId uuid mandatory =>
    -- the new call has not been let in, and it is the only one whose record changes
    let t := envNext s (.call exchange key messageId uuid mandatory)
    have below : (List.range s.started).countP t.holds = (List.range s.started).countP s.holds := by
      refine List.countP_congr fun j hj => ?_
      have ne : j ≠ s.started := by have := List.mem_range.mp hj; omega
      simp [State.holds, t, envNext, ne]
    have fresh : t.holds s.started = false := by simp [State.holds, t, envNext, Pc.admitted]
    change s.slots = (List.range (s.started + 1)).countP t.holds
    rw [List.range_succ, List.countP_append, below, List.countP_singleton, fresh, hs]
    rfl
  | endCtx k e =>
    refine hs.trans (held_congr s (envNext s (.endCtx k e)) rfl fun j => ?_).symm
    simp only [State.holds, envNext, calls_update]
    grind
  | _ => exact hs

theorem held_next (shape : Shape s) (sound : ∀ i, Sound s i) (hs : s.slots = s.held) {a : Action}
    (en : enabled cfg s a = true) : (next cfg s a).slots = (next cfg s a).held := by
  cases a with
  | caller k a => exact held_caller shape sound hs en
  | handOff k =>
    simp only [enabled, Bool.and_eq_true, decide_eq_true_eq] at en
    refine hs.trans (held_congr s (next cfg s (.handOff k)) rfl fun j => ?_).symm
    simp only [State.holds, next, calls_update]
    grind [Pc.admitted]
  | writer k a =>
    simp only [enabled, Bool.and_eq_true, decide_eq_true_eq] at en
    exact held_writer shape (sound k) hs en.1
  | stop => exact hs
  | loop a => exact held_loop shape sound hs en
  | env a => exact held_env hs a

theorem slots_eq_held (reach : (system cfg).Reachable s) : s.slots = s.held := by
  refine reach.invariant (fun s => s.slots = s.held) ?_ ?_
  · rintro s rfl
    rfl
  · intro s a t before hs hstep
    obtain ⟨en, rfl⟩ := step_iff.mp hstep
    exact held_next (shape_tags_of_reachable before).1 (sound_of_reachable before) hs en

/-- A slot is only taken while one is free. -/
theorem slots_le (reach : (system cfg).Reachable s) : s.slots ≤ cfg.maxOutstandingConfirms := by
  refine reach.invariant (fun s => s.slots ≤ cfg.maxOutstandingConfirms) ?_ ?_
  · rintro s rfl
    exact Nat.zero_le _
  · intro s a t before hs hstep
    obtain ⟨en, rfl⟩ := step_iff.mp hstep
    cases a with
    | caller k a =>
      cases a <;> simp only [next, callerNext, slots_update, callerSlots] <;>
        simp only [enabled, callerEnabled] at en <;> grind
    | writer k a => cases a <;> simp only [next, writerNext, slots_update] <;> omega
    | loop a =>
      cases a with
      | takeReturn r pub =>
        obtain ⟨calls, eq⟩ := markReturned_frame { s with wire := s.wire.tail } r
        simpa only [next, loopNext, eq] using hs
      | takeConfirm c =>
        obtain ⟨calls, pending, settling, eq⟩ :=
          resolve_frame { s with confirms := s.confirms.tail } c
        simpa only [next, loopNext, eq] using hs
      | _ => simp only [next, loopNext, slots_update]; omega
    | env a =>
      obtain ⟨_, _, _, _, _, _, _, eq⟩ := envNext_frame s a
      simpa only [next, eq] using hs
    | _ => exact hs

/-! ## The accounting -/

/-- The publications that hold a slot are those nobody has settled, and those whose `settle`
has recorded the outcome and is about to give the slot back. -/
theorem Sound.holds_iff (sound : Sound s i) : s.holds i = true ↔ (s.calls i).pc.admitted = true ∧
    ((s.calls i).outcome = none ∨ 0 < s.releasers i) := by
  have balance := sound.releases
  have settles := sound.settles
  simp only [State.holds, Bool.and_eq_true, beq_iff_eq]
  cases h : (s.calls i).outcome <;> simp [h] at settles ⊢ <;> grind

/-- The tag of an unsettled publication is the writer's next number, or was written. -/
theorem tag_unique (tags : Tags s) (owned : Owned s) {j t : Nat}
    (handedI : (s.calls i).pc.handedOff = true) (handedJ : (s.calls j).pc.handedOff = true)
    (openI : (s.calls i).outcome = none) (openJ : (s.calls j).outcome = none)
    (tagI : (s.calls i).tag = some t) (tagJ : (s.calls j).tag = some t) : i = j := by
  have sent {k : Nat} (tag : (s.calls k).tag = some t) (h : ∃ t, (t, k) ∈ s.transmitted) :
      (t, k) ∈ s.transmitted := by
    obtain ⟨t', mem⟩ := h
    rw [owned.sentTag t' k mem] at tag
    exact Option.some.inj tag ▸ mem
  rcases owned.owner i handedI openI with ⟨st, busyI⟩ | ⟨sentI, -⟩ <;>
    rcases owned.owner j handedJ openJ with ⟨st', busyJ⟩ | ⟨sentJ, -⟩
  · rw [busyI] at busyJ
    exact (Writer.busy.inj busyJ).1
  · have := tags.number i st t busyI tagI
    have := tags.written t j (sent tagJ sentJ)
    omega
  · have := tags.number j st' t busyJ tagJ
    have := tags.written t i (sent tagI sentI)
    omega
  · exact tags.unique t i j (sent tagI sentI) (sent tagJ sentJ)

/-- Nothing is left to settle once the loop and the writer have ended and the calls are over. -/
theorem held_eq_zero (tags : Tags s) (sound : ∀ i, Sound s i) (owned : Owned s)
    (loop : s.loop = .finished) (writer : s.writer = .stopped)
    (settled : ∀ i, i < s.started → (s.calls i).pc.result ≠ none) : s.held = 0 := by
  have settling := owned.finished loop
  refine List.countP_eq_zero.mpr fun i hi held => ?_
  obtain ⟨admitted, unsettled⟩ := (sound i).holds_iff.mp held
  have result := settled i (List.mem_range.mp hi)
  have noReleaser : s.releasers i = 0 := by
    cases h : (s.calls i).pc <;> simp_all [State.releasers, Pc.isReleasing, Pc.result]
  have unsettled : (s.calls i).outcome = none := unsettled.resolve_right (by omega)
  by_cases handed : (s.calls i).pc.handedOff = true
  · rcases owned.owner i handed unsettled with ⟨st, busy⟩ | ⟨-, ⟨t, mem⟩ | todo | ⟨v, hand⟩⟩
    · simp [writer] at busy
    · obtain ⟨st, busy, -⟩ := tags.swapped (by rw [loop]; rfl) t i mem
      simp [writer] at busy
    · simp [loop, Loop.todo] at todo
    · simp [settling] at hand
  · refine (sound i).late ?_ (by simpa using handed) unsettled
    cases h : (s.calls i).pc <;> simp_all [Pc.isEarly, Pc.admitted, Pc.result, Pc.handedOff]

/-- The accounting of the confirm slots, in every reachable state. A publication is settled
when its `settle` has run to the end. -/
theorem slots_exact (reach : (system cfg).Reachable s) :
    s.slots = s.held ∧ s.slots ≤ cfg.maxOutstandingConfirms ∧
    -- who holds a slot, and that nobody gives one back twice
    (∀ i, (s.holds i = true ↔ (s.calls i).pc.admitted = true ∧
        ((s.calls i).outcome = none ∨ 0 < s.releasers i)) ∧
      (s.calls i).settles ≤ 1 ∧ (s.calls i).releases ≤ 1) ∧
    -- tags name one unsettled publication
    (∀ t i j, (t, i) ∈ s.pending → (t, j) ∈ s.pending → i = j) ∧
    (∀ t i j, (s.calls i).pc.handedOff = true → (s.calls j).pc.handedOff = true →
      (s.calls i).outcome = none → (s.calls j).outcome = none →
      (s.calls i).tag = some t → (s.calls j).tag = some t → i = j) ∧
    -- giving up after the commit
    (∀ i a, a = .timeout ∨ (∃ e, a = .abandon e) → enabled cfg s (.caller i a) = true →
      (next cfg s (.caller i a)).slots = s.slots ∧ (next cfg s (.caller i a)).held = s.held ∧
      ∀ j, ((next cfg s (.caller i a)).calls j).settles = (s.calls j).settles ∧
        ((next cfg s (.caller i a)).calls j).releases = (s.calls j).releases) ∧
    -- after the end
    (s.closed = true → s.loop = .finished → s.writer = .stopped →
      (∀ i, i < s.started → (s.calls i).pc.result ≠ none) → s.slots = 0) := by
  obtain ⟨shape, tags⟩ := shape_tags_of_reachable reach
  have sound := sound_of_reachable reach
  have owned := owned_of_reachable reach
  have slots := slots_eq_held reach
  refine ⟨slots, slots_le reach, fun i => ⟨(sound i).holds_iff, (sound i).settles_le,
    (sound i).releases_le⟩, fun t i j => tags.pending_unique, fun t i j => tag_unique tags owned,
    fun i a givesUp en => ?_, fun _ loop writer settled => ?_⟩
  · have same : (next cfg s (.caller i a)).slots = s.slots := by
      rcases givesUp with rfl | ⟨e, rfl⟩ <;> rfl
    refine ⟨same, ?_, fun j => ?_⟩
    · rw [← held_next shape sound slots en, same, slots]
    · rcases givesUp with rfl | ⟨e, rfl⟩ <;>
        simp only [next, callerNext, callerEffect, calls_update] <;> grind [Call.finish]
  · rw [slots, held_eq_zero tags sound owned loop writer settled]

/-- The caller gives up on a written publication, and the channel then closes under it. -/
theorem slots_exact_abandoned : ∃ s, (system ⟨1, []⟩).Reachable s ∧ s.loop = .finished ∧
    s.writer = .stopped ∧ (s.calls 0).pc.result ≠ none ∧ s.slots = 0 := by
  have reach : (system ⟨1, []⟩).Reachable _ := .run (.init rfl) (rfl : (system ⟨1, []⟩).run
    [.env (.call [1] [2] [3] [4] true), .caller 0 .enter, .caller 0 .takeSlot, .handOff 0,
      .writer 0 .checkCtx, .writer 0 .checkClosed, .writer 0 .register, .writer 0 (.commit 1),
      .writer 0 (.transmit 1), .caller 0 .seeCommit, .caller 0 .timeout,
      .env (.closeTransport none), .loop (.seeClose none), .loop (.endDrain (lit "channel closed")),
      .loop (.closeDone [0]), .loop (.sweep 0 [0]), .loop (.settle 0 (some .channelClosed)),
      .loop (.release 0 (some .channelClosed)), .loop .finish, .stop] .start = some _)
  refine ⟨_, reach, rfl, rfl, nofun, (slots_exact reach).2.2.2.2.2.2 rfl rfl rfl fun i hi => ?_⟩
  obtain rfl : i = 0 := Nat.lt_one_iff.mp hi
  nofun

end Protobus.PubChannel
