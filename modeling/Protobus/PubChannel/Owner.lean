import Protobus.PubChannel.Life

/-!
# Who settles a publication

Between the hand-off and the recording of an outcome there is always somebody left to
record it: the writer, or, once the publication was written, the loop, which finds it in
`pending`, in the map it swapped out, or has it in hand.
-/
namespace Protobus.PubChannel
open Library

variable {cfg : Config} {s : State} {i : Nat}

/-- The loop will get to the publication. -/
def Awaited (s : State) (i : Nat) : Prop :=
  (∃ t, (t, i) ∈ s.pending) ∨ i ∈ s.loop.todo ∨ ∃ v, s.settling = some ⟨i, v, false⟩

def Owner (s : State) (i : Nat) : Prop :=
  (∃ st, s.writer = .busy i st) ∨ ((∃ t, (t, i) ∈ s.transmitted) ∧ Awaited s i)

structure Owned (s : State) : Prop where
  sentTag : ∀ t i, (t, i) ∈ s.transmitted → (s.calls i).tag = some t
  /-- Nobody takes the writer's publication out of `pending` before the swap. -/
  registered : ∀ i st t, s.writer = .busy i st → st.tag? = some t → s.loop.consuming = true →
    (t, i) ∈ s.pending
  finished : s.loop = .finished → s.settling = none
  owner : ∀ i, (s.calls i).pc.handedOff = true → (s.calls i).outcome = none → Owner s i

namespace Owned
variable (inv : Owned s)
include inv

theorem caller {k : Nat} {a : CallerAction} (en : callerEnabled cfg s k a = true) :
    Owned (callerNext cfg s k a) := by
  have calls (j : Nat) : ((callerNext cfg s k a).calls j).tag = (s.calls j).tag ∧
      (((callerNext cfg s k a).calls j).pc.handedOff = true →
        ((callerNext cfg s k a).calls j).outcome = none →
        (s.calls j).pc.handedOff = true ∧ (s.calls j).outcome = none) := by
    simp only [callerNext, calls_update]
    split_ifs with own
    · subst own
      cases a <;> simp only [callerEnabled, callerEffect] at en ⊢ <;>
        grind [Pc.handedOff, Call.record, Call.release, Call.finish]
    · exact ⟨rfl, fun h n => ⟨h, n⟩⟩
  refine ⟨fun t j sent => (calls j).1.trans (inv.sentTag t j sent), inv.registered, inv.finished,
    fun j handed unsettled => ?_⟩
  obtain ⟨handed, unsettled⟩ := (calls j).2 handed unsettled
  exact inv.owner j handed unsettled

theorem handOff (shape : Shape s) {k : Nat} (pc : (s.calls k).pc = .haveSlot)
    (idle : s.writer = .idle) : Owned (next cfg s (.handOff k)) := by
  have unknown := shape.not_known (i := k) (by rw [pc]; rfl)
  refine ⟨fun t j sent => ?_, ?_, inv.finished, fun j handed unsettled => ?_⟩
  · have := inv.sentTag t j sent
    simp only [next, calls_update]
    grind
  · rintro j st t ⟨⟩ ⟨⟩
  · by_cases own : j = k
    · exact .inl ⟨.received, by simp [next, own]⟩
    · simp only [next, calls_update, own, ↓reduceIte] at handed unsettled
      rcases inv.owner j handed unsettled with ⟨st, busy⟩ | loop
      · simp [idle] at busy
      · exact .inr loop

/-- A written publication is pending under the tag it was written under. -/
theorem pending_of_sent (tags : Tags s) {t t' : Nat} (sent : (t, i) ∈ s.transmitted)
    (mem : (t', i) ∈ s.pending) : t' = t := by
  have := (tags.pending t' i mem).1
  rw [inv.sentTag t i sent] at this
  exact (Option.some.inj this).symm

/-- The writer's steps keep the owners of all other publications, which are the loop's. -/
theorem owner_writer (tags : Tags s) {t : State} {k : Nat} {st : Stage}
    (busy : s.writer = .busy k st) (loop : t.loop = s.loop) (settling : t.settling = s.settling)
    (calls : ∀ j, j ≠ k → t.calls j = s.calls j) (sent : ∀ e ∈ s.transmitted, e ∈ t.transmitted)
    (pending : ∀ tag j, j ≠ k → (tag, j) ∈ s.pending → (tag, j) ∈ s.transmitted →
      (tag, j) ∈ t.pending)
    (own : (t.calls k).outcome = none → Owner t k) (j : Nat)
    (handed : (t.calls j).pc.handedOff = true) (unsettled : (t.calls j).outcome = none) :
    Owner t j := by
  by_cases eq : j = k
  · subst eq
    exact own unsettled
  · rw [calls j eq] at handed unsettled
    rcases inv.owner j handed unsettled with ⟨st', busy'⟩ | ⟨⟨tag, hsent⟩, place⟩
    · rw [busy] at busy'
      exact absurd (Writer.busy.inj busy').1.symm eq
    · refine .inr ⟨⟨tag, sent _ hsent⟩, ?_⟩
      rw [Awaited, loop, settling]
      refine place.imp_left fun ⟨tag', mem⟩ => ⟨tag', pending tag' j eq mem ?_⟩
      rwa [inv.pending_of_sent tags hsent mem]

theorem writer (tags : Tags s) (sound : ∀ i, Sound s i) {k : Nat}
    {a : WriterAction} (busy : s.writer = .busy k a.stage) (en : writerEnabled s k a = true) :
    Owned (writerNext s k a) := by
  obtain ⟨_, _, _, _, _, _, frame⟩ := writerNext_frame s k a
  have unsent (t : Nat) : (t, k) ∉ s.transmitted := tags.unsent k _ t busy
  have owner := inv.owner_writer (t := writerNext s k a) tags busy (by rw [frame]) (by rw [frame])
    (fun j ne => calls_writerNext_of_ne a ne)
  -- a written publication is no longer the writer's, so none of these steps changes its tag
  have sentTag (t j : Nat) (sent : (t, j) ∈ s.transmitted) :
      ((writerNext s k a).calls j).tag = some t := by
    have ne : j ≠ k := fun eq => unsent t (eq ▸ sent)
    rw [calls_writerNext_of_ne a ne]
    exact inv.sentTag t j sent
  have registered := inv.registered
  have finished : (writerNext s k a).loop = .finished → (writerNext s k a).settling = none := by
    rw [frame]
    exact inv.finished
  clear frame
  cases a with
  | register =>
    refine ⟨sentTag, ?_, finished, owner (fun _ h => h) ?_ fun _ => .inl ⟨_, rfl⟩⟩
    · rintro j st t ⟨⟩ ⟨⟩ -
      simp [writerNext]
    · intro tag j _ mem sent
      have := tags.written tag j sent
      exact List.mem_cons_of_mem _ (mem_forget.mpr ⟨mem, by omega⟩)
  | transmit t =>
    have tag := tags.stage k _ t busy rfl
    have running : s.loop.consuming = true := by
      have noNotice : s.notice = none := by simpa [writerEnabled] using en
      by_contra h
      exact tags.noticed (fun running => h (by rw [running]; rfl)) noNotice
    refine ⟨fun t' j sent => ?_, by rintro j st t' ⟨⟩, finished,
      owner (fun _ h => List.mem_append_left _ h) (fun _ _ _ h _ => h) fun _ => .inr ?_⟩
    · rcases List.mem_append.mp sent with old | new
      · exact sentTag t' j old
      · obtain ⟨rfl, rfl⟩ := Prod.mk.inj (List.mem_singleton.mp new)
        rw [← tags.number j _ t busy tag]
        exact tag
    · exact ⟨⟨s.nextSeq, by simp [writerNext]⟩, .inl ⟨t, registered k _ t busy rfl running⟩⟩
  | forgetTag t e =>
    refine ⟨sentTag, by rintro j st t' ⟨⟩ ⟨⟩, finished, owner (fun _ h => h) ?_
      fun _ => .inl ⟨_, rfl⟩⟩
    intro tag j ne mem sent
    simp only [writerNext]
    split_ifs with found
    · refine mem_forget.mpr ⟨mem, fun eq => ne ?_⟩
      exact tags.pending_unique mem (by simpa [← eq] using mem_of_lookup found)
    · exact mem
  | release =>
    refine ⟨sentTag, by rintro j st t' ⟨⟩, finished, owner (fun _ h => h) (fun _ _ _ h _ => h)
      fun unsettled => absurd ?_ ((sound k).outcome_of_releasers (releasers_of_writer busy))⟩
    simpa [writerNext, Call.release] using unsettled
  | skip e =>
    refine ⟨sentTag, by rintro j st t' ⟨⟩, finished, owner (fun _ h => h) (fun _ _ _ h _ => h)
      fun unsettled => ?_⟩
    simp_all [writerEnabled, writerNext]
  | commit t | writeFails t b =>
    refine ⟨sentTag, ?_, finished, owner (fun _ h => h) (fun _ _ _ h _ => h) fun _ => .inl ⟨_, rfl⟩⟩
    rintro j st t' ⟨⟩ ⟨⟩
    exact registered k _ t busy rfl
  | checkCtx =>
    refine ⟨sentTag, ?_, finished, owner (fun _ h => h) (fun _ _ _ h _ => h) fun _ => .inl ?_⟩
    · rintro j st t' h
      simp only [writerNext] at h
      split at h <;> obtain ⟨rfl, rfl⟩ := Writer.busy.inj h <;> rintro ⟨⟩
    · simp only [writerNext]
      split <;> exact ⟨_, rfl⟩
  | checkClosed =>
    refine ⟨sentTag, ?_, finished, owner (fun _ h => h) (fun _ _ _ h _ => h) fun _ => .inl ⟨_, rfl⟩⟩
    rintro j st t' ⟨⟩
    split_ifs <;> rintro ⟨⟩
  | settle e =>
    exact ⟨sentTag, by rintro j st t' ⟨⟩ ⟨⟩, finished, owner (fun _ h => h)
      (fun _ _ _ h _ => h) fun _ => .inl ⟨_, rfl⟩⟩

/-- The loop changes neither tags nor what was written, and only adds outcomes. -/
theorem loop_move {a : LoopAction}
    (registered : ∀ i st t, s.writer = .busy i st → st.tag? = some t →
      (loopNext s a).loop.consuming = true → (t, i) ∈ (loopNext s a).pending)
    (finished : (loopNext s a).loop = .finished → (loopNext s a).settling = none)
    (awaited : ∀ j, (s.calls j).outcome = none → ((loopNext s a).calls j).outcome = none →
      (∃ t, (t, j) ∈ s.transmitted) → Awaited s j → Awaited (loopNext s a) j) :
    Owned (loopNext s a) := by
  obtain ⟨_, _, _, _, calls, _, _, _, _, frame⟩ := loopNext_frame s a
  have writer : (loopNext s a).writer = s.writer := by rw [frame]
  have sent : (loopNext s a).transmitted = s.transmitted := by rw [frame]
  refine ⟨fun t j mem => ?_, by rwa [writer], finished, fun j handed unsettled => ?_⟩
  · rw [tag_loopNext]
    exact inv.sentTag t j (sent ▸ mem)
  · rw [pc_loopNext] at handed
    have before := outcome_of_loopNext a unsettled
    rw [Owner, writer, sent]
    exact (inv.owner j handed before).imp_right fun ⟨hsent, place⟩ =>
      ⟨hsent, awaited j before unsettled hsent place⟩

theorem takeConfirm (tags : Tags s) {c : Confirmation}
    (en : loopEnabled s (.takeConfirm c) = true) : Owned (loopNext s (.takeConfirm c)) := by
  simp only [loopEnabled, Bool.and_eq_true, decide_eq_true_eq] at en
  obtain ⟨⟨consuming, idle⟩, head⟩ := en
  rcases resolve_cases { s with confirms := s.confirms.tail } c with eq | ⟨k, mem, eq⟩
  · refine inv.loop_move ?_ ?_ ?_ <;> simp only [loopNext, eq]
    · exact inv.registered
    · exact inv.finished
    · exact fun _ _ _ _ place => place
  · refine inv.loop_move ?_ ?_ ?_ <;> simp only [loopNext, eq, Awaited, pending_update, loop_update,
      settling_update]
    · intro j st t busy tag consuming
      obtain ⟨k', sent⟩ := tags.confirmed c (tags.queued c (List.mem_of_mem_head? head))
      have := tags.written _ _ sent
      have := tags.number j st t busy (tags.stage j st t busy tag)
      exact mem_forget.mpr ⟨inv.registered j st t busy tag consuming, by omega⟩
    · intro done
      simp [done, Loop.consuming] at consuming
    · rintro j - - - (⟨t, place⟩ | todo | ⟨v, settling⟩)
      · by_cases own : j = k
        · exact .inr (.inr ⟨_, by rw [own]⟩)
        · refine .inl ⟨t, mem_forget.mpr ⟨place, fun same => own ?_⟩⟩
          exact tags.pending_unique place (by simpa [← same] using mem)
      · exact .inr (.inl todo)
      · simp [idle] at settling

theorem loop (tags : Tags s) {a : LoopAction}
    (en : loopEnabled s a = true) : Owned (loopNext s a) := by
  cases a with
  | takeReturn r pub =>
    obtain ⟨calls, eq⟩ := markReturned_frame { s with wire := s.wire.tail } r
    refine inv.loop_move ?_ ?_ ?_ <;> simp only [loopNext, eq]
    · exact inv.registered
    · exact inv.finished
    · exact fun _ _ _ _ place => place
  | takeConfirm c => exact inv.takeConfirm tags en
  | seeClose e =>
    simp only [loopEnabled, Bool.and_eq_true, decide_eq_true_eq] at en
    refine inv.loop_move (fun j st t busy tag _ => ?_) (by rintro ⟨⟩) fun j _ _ _ place => ?_
    · exact inv.registered j st t busy tag (by rw [en.1.1]; rfl)
    · simpa [Awaited, loopNext, en.1.1, Loop.todo] using place
  | endDrain reason =>
    simp only [loopEnabled, Bool.and_eq_true, decide_eq_true_eq] at en
    refine inv.loop_move (by rintro j st t busy tag ⟨⟩) (by rintro ⟨⟩)
      fun j _ _ _ place => ?_
    rcases place with ⟨t, mem⟩ | todo | ⟨v, settling⟩
    · exact .inr (.inl (List.mem_map_of_mem mem))
    · simp [en.1.1, Loop.todo] at todo
    · simp [en.1.2] at settling
  | closeDone todo =>
    simp only [loopEnabled, decide_eq_true_eq] at en
    refine inv.loop_move (by rintro j st t busy tag ⟨⟩) (by rintro ⟨⟩)
      fun j _ _ _ place => ?_
    simpa [Awaited, loopNext, en, Loop.todo] using place
  | sweep k todo =>
    simp only [loopEnabled, Bool.and_eq_true, decide_eq_true_eq] at en
    refine inv.loop_move (by rintro j st t busy tag ⟨⟩) (by rintro ⟨⟩)
      fun j _ _ _ place => ?_
    by_cases own : j = k
    · exact .inr (.inr ⟨_, by rw [own]; rfl⟩)
    · rcases place with pending | mem | ⟨v, settling⟩
      · exact .inl pending
      · rw [en.1.1] at mem
        exact .inr (.inl ((List.mem_erase_of_ne own).mpr mem))
      · simp [en.1.2] at settling
  | finish =>
    simp only [loopEnabled, Bool.and_eq_true, decide_eq_true_eq] at en
    refine inv.loop_move (by rintro j st t busy tag ⟨⟩) (fun _ => en.2)
      fun j _ _ _ place => ?_
    simpa [Awaited, loopNext, en.1, Loop.todo] using place
  | settle k v =>
    simp only [loopEnabled, Bool.and_eq_true, decide_eq_true_eq] at en
    refine inv.loop_move inv.registered (fun h => ?_) fun j _ unsettled _ place => ?_
    · simp [inv.finished h] at en
    · have ne : j ≠ k := by
        rintro rfl
        simp [loopNext, Call.record] at unsettled
      refine place.imp_right (Or.imp_right ?_)
      rintro ⟨v', settling⟩
      refine absurd ?_ ne
      simp_all
  | skip k v =>
    simp only [loopEnabled, Bool.and_eq_true, decide_eq_true_eq] at en
    refine inv.loop_move inv.registered (fun _ => rfl) fun j unsettled _ _ place => ?_
    refine place.imp_right (Or.imp_right ?_)
    rintro ⟨v', settling⟩
    refine absurd ?_ en.1.2
    simp_all
  | release k v =>
    simp only [loopEnabled, Bool.and_eq_true, decide_eq_true_eq] at en
    refine inv.loop_move inv.registered (fun _ => rfl) fun j unsettled _ _ place => ?_
    refine place.imp_right (Or.imp_right ?_)
    rintro ⟨v', settling⟩
    simp [en.1] at settling

theorem env (shape : Shape s) (a : EnvAction) : Owned (envNext s a) := by
  have calls (j : Nat) : ((∃ t, (t, j) ∈ s.transmitted) →
        ((envNext s a).calls j).tag = (s.calls j).tag) ∧
      (((envNext s a).calls j).pc.handedOff = true → ((envNext s a).calls j).outcome = none →
        (s.calls j).pc.handedOff = true ∧ (s.calls j).outcome = none) := by
    cases a with
    | call exchange key messageId uuid mandatory =>
      simp only [envNext, calls_update]
      by_cases new : j = s.started
      · rw [if_pos new]
        refine ⟨?_, by rintro ⟨⟩⟩
        rintro ⟨t, sent⟩
        have handed := shape.of_transmitted sent
        simp [new, shape.unstarted, Pc.handedOff] at handed
      · rw [if_neg new]
        exact ⟨fun _ => rfl, fun h n => ⟨h, n⟩⟩
    | endCtx k e =>
      simp only [envNext, calls_update]
      grind
    | _ => exact ⟨fun _ => rfl, fun h n => ⟨h, n⟩⟩
  obtain ⟨_, _, _, _, _, _, _, frame⟩ := envNext_frame s a
  rw [frame] at calls ⊢
  refine ⟨fun t j sent => ((calls j).1 ⟨t, sent⟩).trans (inv.sentTag t j sent), inv.registered,
    inv.finished, fun j handed unsettled => ?_⟩
  obtain ⟨handed, unsettled⟩ := (calls j).2 handed unsettled
  exact inv.owner j handed unsettled

theorem next (shape : Shape s) (tags : Tags s) (sound : ∀ i, Sound s i) {a : Action}
    (en : enabled cfg s a = true) : Owned (next cfg s a) := by
  cases a with
  | caller k a => exact inv.caller en
  | handOff k =>
    simp only [enabled, Bool.and_eq_true, decide_eq_true_eq] at en
    exact inv.handOff shape en.1 en.2
  | writer k a =>
    simp only [enabled, Bool.and_eq_true, decide_eq_true_eq] at en
    exact inv.writer tags sound en.1 en.2
  | stop =>
    simp only [enabled, Bool.and_eq_true, decide_eq_true_eq] at en
    refine ⟨inv.sentTag, by rintro j st t ⟨⟩, inv.finished, fun j handed unsettled => ?_⟩
    rcases inv.owner j handed unsettled with ⟨st, busy⟩ | loop
    · simp [en.1] at busy
    · exact .inr loop
  | loop a => exact inv.loop tags en
  | env a => exact inv.env shape a

end Owned

theorem owned_of_reachable (reach : (system cfg).Reachable s) : Owned s := by
  refine reach.invariant Owned ?_ ?_
  · rintro s rfl
    constructor <;> simp [State.start, Pc.handedOff]
  · intro s a t before inv hstep
    obtain ⟨en, rfl⟩ := step_iff.mp hstep
    obtain ⟨shape, tags⟩ := shape_tags_of_reachable before
    exact inv.next shape tags (sound_of_reachable before) en

end Protobus.PubChannel
