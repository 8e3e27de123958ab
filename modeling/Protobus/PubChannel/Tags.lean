import Protobus.PubChannel.Frame

/-!
# Delivery tags

A publication that the writer or the loop knows was handed off, and the tags under which
publications are registered follow the transport's sequence numbers: a tag is reused only
after a failed write, and by then nobody else holds it.
-/
namespace Protobus.PubChannel
open Library

variable {cfg : Config} {s : State} {i : Nat}

/-- The writer, the loop or the transport has the publication. -/
def Known (s : State) (i : Nat) : Prop :=
  (∃ st, s.writer = .busy i st) ∨ (∃ t, (t, i) ∈ s.pending) ∨ i ∈ s.loop.todo ∨
    (∃ v b, s.settling = some ⟨i, v, b⟩) ∨ ∃ t, (t, i) ∈ s.transmitted

theorem known_of_touches {a : LoopAction} (en : loopEnabled s a = true) (h : a.touches s i) :
    Known s i := by
  cases a <;> simp only [LoopAction.touches, loopEnabled] at h en <;> grind [Known]

/-- Publications become known by the hand-off and are then only passed on. -/
theorem known_next {a : Action} (en : enabled cfg s a = true) (known : Known (next cfg s a) i) :
    Known s i ∨ a = .handOff i := by
  cases a with
  | caller k a => exact .inl known
  | handOff k => simp only [next, Known] at known ⊢; grind
  | writer k a =>
    refine .inl ?_
    simp only [enabled, Bool.and_eq_true, decide_eq_true_eq] at en
    cases a <;> simp only [next, writerNext, Known] at known ⊢ <;> grind [mem_forget]
  | stop => simp only [next, Known] at known ⊢; grind
  | loop a =>
    refine .inl ?_
    cases a with
    | takeReturn r pub =>
      obtain ⟨calls, eq⟩ := markReturned_frame { s with wire := s.wire.tail } r
      simp only [next, loopNext, eq] at known
      exact known
    | takeConfirm c =>
      rcases resolve_cases { s with confirms := s.confirms.tail } c with eq | ⟨k, mem, eq⟩ <;>
        simp only [next, loopNext, eq, Known] at known ⊢ <;> grind [mem_forget]
    | _ => simp only [enabled, loopEnabled, next, loopNext, Known] at en known ⊢; grind [Loop.todo]
  | env a =>
    obtain ⟨_, _, _, _, _, _, _, eq⟩ := envNext_frame s a
    simp only [next, eq] at known
    exact .inl known

/-- A caller past the hand-off stays past it. -/
theorem handedOff_callerEffect {a : CallerAction} (en : callerEnabled cfg s i a = true)
    (h : (s.calls i).pc.handedOff = true) :
    (callerEffect cfg s (s.calls i) a).pc.handedOff = true := by
  cases a with
  | seeCommit => rfl
  | seeDone o => rfl
  | timeout => rfl
  | abandon e => rfl
  -- the other steps are of callers that still want to hand off
  | _ =>
    simp only [callerEnabled, Bool.and_eq_true, decide_eq_true_eq] at en
    simp_all [Pc.handedOff]

structure Shape (s : State) : Prop where
  unstarted : ∀ i, s.started ≤ i → s.calls i = {}
  known : ∀ i, Known s i → (s.calls i).pc.handedOff = true
  untagged : ∀ i, (s.calls i).pc.handedOff = false → (s.calls i).tag = none

namespace Shape
variable (inv : Shape s)
include inv

theorem not_known (h : (s.calls i).pc.handedOff = false) : ¬Known s i := fun known => by
  simp [inv.known i known] at h

theorem of_writer {st : Stage} (h : s.writer = .busy i st) : (s.calls i).pc.handedOff = true :=
  inv.known i (.inl ⟨st, h⟩)

theorem of_pending {t : Nat} (h : (t, i) ∈ s.pending) : (s.calls i).pc.handedOff = true :=
  inv.known i (.inr (.inl ⟨t, h⟩))

theorem of_transmitted {t : Nat} (h : (t, i) ∈ s.transmitted) : (s.calls i).pc.handedOff = true :=
  inv.known i (.inr (.inr (.inr (.inr ⟨t, h⟩))))

theorem started_of_ne_idle (h : (s.calls i).pc ≠ .idle) : i < s.started := by
  by_contra late
  rw [inv.unstarted i (by omega)] at h
  exact h rfl

theorem handedOff_next {a : Action} (en : enabled cfg s a = true)
    (h : (s.calls i).pc.handedOff = true) : ((next cfg s a).calls i).pc.handedOff = true := by
  have started := inv.started_of_ne_idle (i := i) (by intro idle; simp [idle, Pc.handedOff] at h)
  cases a with
  | caller k a =>
    simp only [next, callerNext, calls_update]
    split_ifs with eq
    · subst eq
      exact handedOff_callerEffect en h
    · exact h
  | handOff k =>
    simp only [next, calls_update]
    split_ifs
    · rfl
    · exact h
  | writer k a => rwa [next, pc_writerNext]
  | stop => exact h
  | loop a => rwa [next, pc_loopNext]
  | env a =>
    cases a with
    | call =>
      have ne : i ≠ s.started := by omega
      simpa [next, envNext, ne] using h
    | endCtx k e =>
      simp only [next, envNext, calls_update]
      split_ifs with eq
      · exact eq ▸ h
      · exact h
    | _ => exact h

/-- Only a started call changes: an idle call takes no step, and what the others work on was
handed off. -/
theorem calls_next_of_unstarted {a : Action} (en : enabled cfg s a = true)
    (h : (next cfg s a).started ≤ i) : (next cfg s a).calls i = s.calls i := by
  have idle {j : Nat} (late : s.started ≤ j) : (s.calls j).pc = .idle := by
    rw [inv.unstarted j late]
  have unknown {j : Nat} (late : s.started ≤ j) : ¬Known s j :=
    inv.not_known (by rw [idle late]; rfl)
  cases a with
  | caller k a =>
    have ne : i ≠ k := by
      rintro rfl
      have := idle h
      cases a <;> simp_all [enabled, callerEnabled]
    simp [next, callerNext, ne]
  | handOff k =>
    have ne : i ≠ k := by
      rintro rfl
      have := idle h
      simp_all [enabled]
    simp [next, ne]
  | writer k a =>
    obtain ⟨_, _, _, _, _, _, eq⟩ := writerNext_frame s k a
    have late : s.started ≤ i := by simpa only [next, eq] using h
    simp only [enabled, Bool.and_eq_true, decide_eq_true_eq] at en
    exact calls_writerNext_of_ne a fun e => unknown late (.inl ⟨_, e ▸ en.1⟩)
  | stop => rfl
  | loop a =>
    obtain ⟨_, _, _, _, _, _, _, _, _, eq⟩ := loopNext_frame s a
    have late : s.started ≤ i := by simpa only [next, eq] using h
    exact calls_loopNext_of_not_touches a fun t => unknown late (known_of_touches en t)
  | env a =>
    cases a with
    | call =>
      have ne : i ≠ s.started := by
        rintro rfl
        exact absurd h (by simp [next, envNext])
      simp [next, envNext, ne]
    | endCtx k e =>
      simp only [enabled, envEnabled, Bool.and_eq_true, decide_eq_true_eq] at en
      have ne : i ≠ k := by
        rintro rfl
        exact absurd en.1 (Nat.not_lt.mpr h)
      simp [next, envNext, ne]
    | _ => rfl

theorem next {a : Action} (en : enabled cfg s a = true) : Shape (next cfg s a) := by
  refine ⟨fun i late => ?_, fun i known => ?_, fun i early => ?_⟩
  · have before : s.started ≤ i := by
      cases a with
      | writer k a =>
        obtain ⟨_, _, _, _, _, _, eq⟩ := writerNext_frame s k a
        simpa only [PubChannel.next, eq] using late
      | loop a =>
        obtain ⟨_, _, _, _, _, _, _, _, _, eq⟩ := loopNext_frame s a
        simpa only [PubChannel.next, eq] using late
      | env a => cases a <;> simp only [PubChannel.next, envNext] at late <;> grind
      | _ => exact late
    rw [inv.calls_next_of_unstarted en late, inv.unstarted i before]
  · rcases known_next en known with old | rfl
    · exact inv.handedOff_next en (inv.known i old)
    · simp [PubChannel.next, Pc.handedOff]
  · have before : (s.calls i).pc.handedOff = false := by
      by_contra h
      simp [inv.handedOff_next en (by simpa using h)] at early
    have untagged := inv.untagged i before
    have unknown := inv.not_known before
    cases a with
    | caller k a =>
      simp only [PubChannel.next, callerNext, calls_update]
      cases a <;> grind [callerEffect, Call.record, Call.release, Call.finish]
    | handOff k => simp only [PubChannel.next, calls_update]; grind
    | writer k a =>
      simp only [enabled, Bool.and_eq_true, decide_eq_true_eq] at en
      rw [PubChannel.next, calls_writerNext_of_ne a fun e => unknown (.inl ⟨_, e ▸ en.1⟩)]
      exact untagged
    | stop => exact untagged
    | loop a =>
      rw [PubChannel.next,
        calls_loopNext_of_not_touches a fun t => unknown (known_of_touches en t)]
      exact untagged
    | env a => cases a <;> simp only [PubChannel.next, envNext, calls_update] <;> grind

end Shape

/-- The tag that a stage of `send` carries. -/
@[grind] def Stage.tag? : Stage → Option Nat
  | registered t | committed t | failed t _ => some t
  | _ => none

/-- How tags, sequence numbers and confirms hang together. -/
structure Tags (s : State) : Prop where
  /-- Written tags are below the next number and each names one publication. -/
  written : ∀ t i, (t, i) ∈ s.transmitted → t < s.nextSeq
  unique : ∀ t i j, (t, i) ∈ s.transmitted → (t, j) ∈ s.transmitted → i = j
  /-- The writer's publication has not been written, and holds at most the next number. -/
  unsent : ∀ i st t, s.writer = .busy i st → (t, i) ∉ s.transmitted
  stage : ∀ i st t, s.writer = .busy i st → st.tag? = some t → (s.calls i).tag = some t
  number : ∀ i st t, s.writer = .busy i st → (s.calls i).tag = some t → t = s.nextSeq
  /-- What is pending was written or is being written. -/
  pending : ∀ t i, (t, i) ∈ s.pending → (s.calls i).tag = some t ∧
    ((t, i) ∈ s.transmitted ∨ ∃ st, s.writer = .busy i st ∧ st.tag? = some t)
  /-- Only written tags are confirmed. -/
  confirmed : ∀ c ∈ s.confirmed, ∃ i, (c.deliveryTag, i) ∈ s.transmitted
  queued : ∀ c ∈ s.confirms, c ∈ s.confirmed
  wired : ∀ c, .confirm c ∈ s.wire → c ∈ s.confirmed
  /-- After the swap nothing is written any more, so only the writer's own entry is left. -/
  noticed : s.loop ≠ .running → s.notice ≠ none
  swapped : s.loop.consuming = false → ∀ t i, (t, i) ∈ s.pending →
    ∃ st, s.writer = .busy i st ∧ st.tag? = some t

namespace Tags
variable (inv : Tags s)
include inv

/-- A tag in `pending` names one publication. -/
theorem pending_unique {t i j : Nat} (hi : (t, i) ∈ s.pending) (hj : (t, j) ∈ s.pending) :
    i = j := by
  obtain ⟨tagI, sentI | ⟨st, wI, -⟩⟩ := inv.pending t i hi <;>
    obtain ⟨tagJ, sentJ | ⟨st', wJ, -⟩⟩ := inv.pending t j hj
  · exact inv.unique t i j sentI sentJ
  · have := inv.written t i sentI
    have := inv.number j st' t wJ tagJ
    omega
  · have := inv.written t j sentJ
    have := inv.number i st t wI tagI
    omega
  · rw [wI] at wJ
    exact (Writer.busy.inj wJ).1

theorem lookup_pending {t i : Nat} (hi : (t, i) ∈ s.pending) : s.pending.lookup t = some i := by
  cases found : s.pending.lookup t with
  | none =>
    have := List.lookup_eq_none_iff.mp found _ hi
    simp at this
  | some j => rw [inv.pending_unique hi (mem_of_lookup found)]

/-- A confirm in the buffer belongs to the publication pending under its tag. -/
theorem sent_of_confirm {c : Confirmation} {i : Nat} (hc : c ∈ s.confirms)
    (hi : (c.deliveryTag, i) ∈ s.pending) : (c.deliveryTag, i) ∈ s.transmitted := by
  obtain ⟨j, sent⟩ := inv.confirmed c (inv.queued c hc)
  obtain ⟨tag, sentI | ⟨st, busy, -⟩⟩ := inv.pending _ _ hi
  · exact sentI
  · have := inv.written _ _ sent
    have := inv.number i st _ busy tag
    omega

/-- Steps that write nothing, register nothing and forget nothing: the stage may change, but
not the tag it carries. -/
theorem move (w : Writer) (calls : Nat → Call) (slots : Nat)
    (same : ∀ j, (calls j).tag = (s.calls j).tag)
    (back : ∀ i st, w = .busy i st → ∃ st', s.writer = .busy i st' ∧ st.tag? = st'.tag?)
    (forth : ∀ i st t, s.writer = .busy i st → st.tag? = some t →
      ∃ st', w = .busy i st' ∧ st'.tag? = some t) :
    Tags { s with writer := w, calls := calls, slots := slots } where
  written := inv.written
  unique := inv.unique
  unsent i st t hw := by
    obtain ⟨st', hw, -⟩ := back i st hw
    exact inv.unsent i st' t hw
  stage i st t hw ht := by
    obtain ⟨st', hw, eq⟩ := back i st hw
    exact (same i).trans (inv.stage i st' t hw (eq ▸ ht))
  number i st t hw ht := by
    obtain ⟨st', hw, -⟩ := back i st hw
    exact inv.number i st' t hw ((same i).symm.trans ht)
  pending t i hp := by
    obtain ⟨tag, sent | ⟨st, hw, ht⟩⟩ := inv.pending t i hp
    · exact ⟨(same i).trans tag, .inl sent⟩
    · exact ⟨(same i).trans tag, .inr (forth i st t hw ht)⟩
  confirmed := inv.confirmed
  queued := inv.queued
  wired := inv.wired
  noticed := inv.noticed
  swapped hl t i hp := by
    obtain ⟨st, hw, ht⟩ := inv.swapped hl t i hp
    exact forth i st t hw ht

theorem caller (k : Nat) (a : CallerAction) : Tags (callerNext cfg s k a) := by
  refine inv.move s.writer _ _ (fun j => ?_) (fun i st h => ⟨st, h, rfl⟩)
    fun i st t h ht => ⟨st, h, ht⟩
  rw [Function.update_apply]
  split_ifs with eq
  · subst eq
    cases a <;> grind [callerEffect, Call.record, Call.release, Call.finish]
  · rfl

theorem handOff (shape : Shape s) (k : Nat) (hk : (s.calls k).pc = .haveSlot)
    (idle : s.writer = .idle) : Tags (next cfg s (.handOff k)) := by
  have early : (s.calls k).pc.handedOff = false := by rw [hk]; rfl
  have untagged := shape.untagged k early
  have unknown := shape.not_known early
  obtain ⟨written, unique, unsent, stage, number, pending, confirmed, queued, wired, noticed,
    swapped⟩ := inv
  refine ⟨written, unique, ?_, ?_, ?_, ?_, confirmed, queued, wired, noticed, ?_⟩
  · rintro i st t ⟨⟩ sent
    exact unknown (.inr (.inr (.inr (.inr ⟨t, sent⟩))))
  all_goals simp only [next, calls_update]; grind [Stage.tag?]

theorem register (k : Nat) (hw : s.writer = .busy k .opened) :
    Tags (writerNext s k .register) := by
  have unsent := inv.unsent k .opened
  constructor
  case pending =>
    intro t i hp
    simp only [writerNext, pending_update, List.mem_cons, Prod.mk.injEq, mem_forget] at hp
    have old := inv.pending t i
    simp only [writerNext, calls_update, transmitted_update, writer_update]
    grind
  case swapped =>
    intro hl t i hp
    simp only [writerNext, pending_update, List.mem_cons, Prod.mk.injEq, mem_forget] at hp
    have old := inv.swapped hl t i
    simp only [writerNext, writer_update]
    grind
  case unsent | stage | number => simp only [writerNext, calls_update]; grind
  case written => exact inv.written
  case unique => exact inv.unique
  case confirmed => exact inv.confirmed
  case queued => exact inv.queued
  case wired => exact inv.wired
  case noticed => exact inv.noticed

theorem transmit (k t : Nat) (hw : s.writer = .busy k (.committed t)) (hn : s.notice = none) :
    Tags (writerNext s k (.transmit t)) := by
  have number := inv.number k _ t hw (inv.stage k _ t hw rfl)
  have running : s.loop = .running := by
    by_contra h
    exact inv.noticed h hn
  constructor
  case written | unique =>
    have written := inv.written
    have unique := inv.unique
    simp only [writerNext, List.mem_append, List.mem_singleton, Prod.mk.injEq]
    grind
  case pending =>
    intro t' i hp
    obtain ⟨tag, sent | ⟨st, busy, ht⟩⟩ := inv.pending t' i hp
    · exact ⟨tag, .inl (List.mem_append_left _ sent)⟩
    · obtain ⟨rfl, rfl⟩ := Writer.busy.inj (hw.symm.trans busy)
      cases ht
      exact ⟨tag, .inl (by simp [writerNext, number])⟩
  case confirmed =>
    intro c hc
    obtain ⟨i, sent⟩ := inv.confirmed c hc
    exact ⟨i, List.mem_append_left _ sent⟩
  case unsent | stage | number => simp [writerNext]
  case queued => exact inv.queued
  case wired => exact inv.wired
  case noticed => exact inv.noticed
  case swapped =>
    intro hl
    simp [writerNext, running, Loop.consuming] at hl

theorem forgetTag (k t : Nat) (e : Err) (hw : s.writer = .busy k (.failed t e)) :
    Tags (writerNext s k (.forgetTag t e)) := by
  -- what stays pending is not the writer's: its own entry is the one that goes
  have other {t' i : Nat} (hp : (t', i) ∈ (writerNext s k (.forgetTag t e)).pending) :
      (t', i) ∈ s.pending ∧ i ≠ k := by
    have own := inv.stage k _ t hw rfl
    simp only [writerNext] at hp
    split_ifs at hp with found
    · obtain ⟨old, ne⟩ := mem_forget.mp hp
      refine ⟨old, fun eq => ne ?_⟩
      have tag := (inv.pending t' i old).1
      rw [eq, own] at tag
      exact (Option.some.inj tag).symm
    · refine ⟨hp, fun eq => found ?_⟩
      subst eq
      have tag := (inv.pending t' i hp).1
      rw [own] at tag
      obtain rfl := Option.some.inj tag
      exact inv.lookup_pending hp
  constructor
  case pending =>
    intro t' i hp
    obtain ⟨old, ne⟩ := other hp
    obtain ⟨tag, sent | ⟨st, busy, -⟩⟩ := inv.pending t' i old
    · exact ⟨tag, .inl sent⟩
    · exact absurd (Writer.busy.inj (busy.symm.trans hw)).1 ne
  case swapped =>
    intro hl t' i hp
    obtain ⟨old, ne⟩ := other hp
    obtain ⟨st, busy, -⟩ := inv.swapped hl t' i old
    exact absurd (Writer.busy.inj (busy.symm.trans hw)).1 ne
  case unsent | stage | number =>
    have := inv.unsent
    have := inv.number
    simp only [writerNext]; grind
  case written => exact inv.written
  case unique => exact inv.unique
  case confirmed => exact inv.confirmed
  case queued => exact inv.queued
  case wired => exact inv.wired
  case noticed => exact inv.noticed

theorem writer (k : Nat) (a : WriterAction) (hw : s.writer = .busy k a.stage)
    (en : writerEnabled s k a = true) : Tags (writerNext s k a) := by
  cases a with
  | register => exact inv.register k hw
  | transmit t => exact inv.transmit k t hw (by simpa [writerEnabled] using en)
  | forgetTag t e => exact inv.forgetTag k t e hw
  | commit t | settle e | release =>
    refine inv.move _ _ _ (fun j => ?_) ?_ ?_
    · rw [Function.update_apply]
      grind [Call.record, Call.release]
    all_goals simp only [WriterAction.stage] at hw; grind
  | _ =>
    refine inv.move _ s.calls s.slots (fun _ => rfl) ?_ ?_ <;>
      simp only [WriterAction.stage] at hw <;> grind

/-- Steps that only take things away. The loop leaves its main select only after the close
notification. -/
theorem shrink {t : State} (writer : t.writer = s.writer) (nextSeq : t.nextSeq = s.nextSeq)
    (sent : t.transmitted = s.transmitted) (notice : t.notice = s.notice)
    (answered : t.confirmed = s.confirmed)
    (same : ∀ j, (t.calls j).tag = (s.calls j).tag) (pending : ∀ e ∈ t.pending, e ∈ s.pending)
    (confirms : ∀ c ∈ t.confirms, c ∈ s.confirms) (wire : ∀ f ∈ t.wire, f ∈ s.wire)
    (noticed : t.loop ≠ .running → s.notice ≠ none)
    (swapped : t.loop.consuming = false → s.loop.consuming = false ∨ t.pending = []) : Tags t where
  written := by rw [sent, nextSeq]; exact inv.written
  unique := by rw [sent]; exact inv.unique
  unsent := by rw [writer, sent]; exact inv.unsent
  stage i st tag hw ht := (same i).trans (inv.stage i st tag (writer ▸ hw) ht)
  number i st tag hw ht :=
    (inv.number i st tag (writer ▸ hw) ((same i).symm.trans ht)).trans nextSeq.symm
  pending tag i hp := by
    obtain ⟨tagI, holder⟩ := inv.pending tag i (pending _ hp)
    rw [sent, writer, same i]
    exact ⟨tagI, holder⟩
  confirmed := by rw [answered, sent]; exact inv.confirmed
  queued c hc := answered ▸ inv.queued c (confirms c hc)
  wired c hc := answered ▸ inv.wired c (wire _ hc)
  noticed hl := notice ▸ noticed hl
  swapped hl tag i hp := by
    rcases swapped hl with before | none
    · rw [writer]
      exact inv.swapped before tag i (pending _ hp)
    · rw [none] at hp
      cases hp

theorem loop (a : LoopAction) (en : loopEnabled s a = true) : Tags (loopNext s a) := by
  obtain ⟨_, _, _, _, _, _, _, _, _, eq⟩ := loopNext_frame s a
  refine inv.shrink (by rw [eq]) (by rw [eq]) (by rw [eq]) (by rw [eq]) (by rw [eq])
    ?_ ?_ ?_ ?_ ?_ ?_ <;> clear eq
  all_goals
    have noticed := inv.noticed
    cases a with
    | takeReturn r pub =>
      rcases markReturned_cases { s with wire := s.wire.tail } r with eq | ⟨t, i, -, -, eq⟩ <;>
        simp only [loopEnabled, loopNext, eq, calls_update] at en ⊢ <;>
        grind [Loop.consuming, List.mem_of_mem_tail]
    | takeConfirm c =>
      rcases resolve_cases { s with confirms := s.confirms.tail } c with eq | ⟨i, -, eq⟩ <;>
        simp only [loopEnabled, loopNext, eq, calls_update] at en ⊢ <;>
        grind [Loop.consuming, List.mem_of_mem_tail, mem_forget]
    | _ =>
      simp only [loopEnabled, loopNext, calls_update] at en ⊢
      grind [Loop.consuming, Call.record, Call.release]

theorem env (shape : Shape s) (a : EnvAction) (en : envEnabled cfg s a = true) :
    Tags (envNext s a) := by
  cases a with
  | call exchange key messageId uuid mandatory =>
    refine inv.shrink rfl rfl rfl rfl rfl (fun j => ?_) (fun _ h => h) (fun _ h => h)
      (fun _ h => h) inv.noticed .inl
    have fresh := shape.unstarted j
    simp only [envNext, calls_update]
    grind
  | endCtx k e =>
    refine inv.shrink rfl rfl rfl rfl rfl (fun j => ?_) (fun _ h => h) (fun _ h => h)
      (fun _ h => h) inv.noticed .inl
    simp only [envNext, calls_update]
    grind
  | closeTransport e => exact { inv with noticed := fun _ => by simp [envNext] }
  | read c =>
    have head : .confirm c ∈ s.wire := by
      simp only [envEnabled, Bool.and_eq_true, decide_eq_true_eq] at en
      exact List.mem_of_head? en.1
    exact { inv with
      queued := fun c' hc => by
        rcases List.mem_append.mp hc with old | new
        · exact inv.queued c' old
        · rw [List.mem_singleton.mp new]
          exact inv.wired c head
      wired := fun c' hc => inv.wired c' (List.mem_of_mem_tail hc) }
  | brokerReturn r pub =>
    exact { inv with wired := fun c hc => inv.wired c (by simpa [envNext] using hc) }
  | brokerConfirm c =>
    have sent : ∃ i, (c.deliveryTag, i) ∈ s.transmitted := by
      simp only [envEnabled, Bool.and_eq_true, decide_eq_true_eq] at en
      obtain ⟨⟨t, i⟩, mem, eq⟩ := List.mem_map.mp en.1
      exact ⟨i, eq ▸ mem⟩
    exact { inv with
      confirmed := fun c' hc => by
        rcases List.mem_append.mp hc with old | new
        · exact inv.confirmed c' old
        · rw [List.mem_singleton.mp new]
          exact sent
      queued := fun c' hc => List.mem_append_left _ (inv.queued c' hc)
      wired := fun c' hc => by
        rcases List.mem_append.mp hc with old | new
        · exact List.mem_append_left _ (inv.wired c' old)
        · exact List.mem_append_right _ (by simpa using new) }

theorem next (shape : Shape s) {a : Action} (en : enabled cfg s a = true) :
    Tags (next cfg s a) := by
  cases a with
  | caller k a => exact inv.caller k a
  | handOff k =>
    simp only [enabled, Bool.and_eq_true, decide_eq_true_eq] at en
    exact inv.handOff shape k en.1 en.2
  | writer k a =>
    simp only [enabled, Bool.and_eq_true, decide_eq_true_eq] at en
    exact inv.writer k a en.1 en.2
  | stop =>
    simp only [enabled, Bool.and_eq_true, decide_eq_true_eq] at en
    exact inv.move .stopped s.calls s.slots (fun _ => rfl) (by simp) (by simp [en.1])
  | loop a => exact inv.loop a en
  | env a => exact inv.env shape a en

end Tags

theorem shape_start : Shape .start := by
  refine ⟨fun _ _ => rfl, fun i known => ?_, fun _ _ => rfl⟩
  simp [Known, State.start, Loop.todo] at known

theorem tags_start : Tags .start := by
  constructor <;> simp [State.start, Loop.consuming]

theorem shape_tags_of_reachable (reach : (system cfg).Reachable s) : Shape s ∧ Tags s := by
  refine reach.invariant (fun s => Shape s ∧ Tags s) ?_ ?_
  · rintro s rfl
    exact ⟨shape_start, tags_start⟩
  · rintro s a t - ⟨shape, tags⟩ hstep
    obtain ⟨en, rfl⟩ := step_iff.mp hstep
    exact ⟨shape.next en, tags.next shape en⟩

end Protobus.PubChannel
