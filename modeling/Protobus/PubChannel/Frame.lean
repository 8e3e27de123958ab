import Protobus.PubChannel.Model
import Mathlib.Data.List.Induction

/-!
# What each goroutine leaves alone

A call changes itself and the slots, the writer never touches the loop's variables, the loop
never writes to the transport, and the environment never touches the channel. With these
facts an invariant only has to be checked for the goroutines that work on what it is about.
-/
namespace Protobus.PubChannel

variable {s : State} {i j : Nat}

/-! ## The two critical sections of the loop -/

theorem mem_forget {pending : List (Nat × Nat)} {tag : Nat} {e : Nat × Nat} :
    e ∈ forget pending tag ↔ e ∈ pending ∧ e.1 ≠ tag := by
  simp [forget]

theorem mem_of_lookup {pending : List (Nat × Nat)} {tag i : Nat}
    (found : pending.lookup tag = some i) : (tag, i) ∈ pending := by
  obtain ⟨front, back, rfl, -⟩ := List.lookup_eq_some_iff.mp found
  simp

/-- `oldest` finds the eligible entry with the smallest tag. -/
theorem oldest_spec (eligible : Nat → Bool) (pending : List (Nat × Nat)) :
    match oldest eligible pending with
    | none => ∀ e ∈ pending, eligible e.2 = false
    | some b => b ∈ pending ∧ eligible b.2 = true ∧
      ∀ e ∈ pending, eligible e.2 = true → b.1 ≤ e.1 := by
  unfold oldest
  induction pending using List.reverseRecOn with
  | nil => simp
  | append_singleton pending e ih =>
    rw [List.foldl_append]
    generalize List.foldl _ none pending = best at ih
    cases best <;> grind

/-- A return marks one eligible publication that is still pending, or none. -/
theorem markReturned_cases (s : State) (r : Return) : markReturned s r = s ∨
    ∃ t i, (t, i) ∈ s.pending ∧ (s.calls i).eligible r = true ∧
      markReturned s r = s.update i fun c => { c with returned := true } := by
  have spec := oldest_spec (fun i => (s.calls i).eligible r) s.pending
  unfold markReturned
  split at spec
  · exact .inl (by simp [*])
  · next b found =>
    obtain ⟨mem, eligible, -⟩ := spec
    exact .inr ⟨b.1, b.2, mem, eligible, by simp [found]⟩

/-- A confirm starts to settle the publication pending under its tag, if there is one. -/
theorem resolve_cases (s : State) (c : Confirmation) : resolve s c = s ∨
    ∃ i, (c.deliveryTag, i) ∈ s.pending ∧ resolve s c = { s with
      pending := forget s.pending c.deliveryTag
      settling := some ⟨i, (s.calls i).judge c.ack, false⟩ }.update i
        fun call => { call with verdict := some c.ack } := by
  unfold resolve
  split
  · exact .inl rfl
  · next i found => exact .inr ⟨i, mem_of_lookup found, rfl⟩

/-! ## Frames -/

theorem writerNext_frame (s : State) (i : Nat) (a : WriterAction) :
    ∃ slots pending calls writer nextSeq transmitted, writerNext s i a = { s with
      slots := slots, pending := pending, calls := calls, writer := writer
      nextSeq := nextSeq, transmitted := transmitted } := by
  cases a <;> exact ⟨_, _, _, _, _, _, rfl⟩

theorem markReturned_frame (s : State) (r : Return) :
    ∃ calls, markReturned s r = { s with calls := calls } := by
  rcases markReturned_cases s r with eq | ⟨t, i, -, -, eq⟩
  · exact ⟨s.calls, eq⟩
  · exact ⟨_, eq⟩

theorem resolve_frame (s : State) (c : Confirmation) : ∃ calls pending settling,
    resolve s c = { s with calls := calls, pending := pending, settling := settling } := by
  rcases resolve_cases s c with eq | ⟨i, -, eq⟩
  · exact ⟨s.calls, s.pending, s.settling, eq⟩
  · exact ⟨_, _, _, eq⟩

theorem loopNext_frame (s : State) (a : LoopAction) :
    ∃ slots pending closed closeErr calls loop settling wire confirms, loopNext s a = { s with
      slots := slots, pending := pending, closed := closed, closeErr := closeErr, calls := calls
      loop := loop, settling := settling, wire := wire, confirms := confirms } := by
  cases a with
  | takeReturn r pub =>
    obtain ⟨calls, eq⟩ := markReturned_frame { s with wire := s.wire.tail } r
    exact ⟨_, _, _, _, _, _, _, _, _, eq⟩
  | takeConfirm c =>
    obtain ⟨calls, pending, settling, eq⟩ := resolve_frame { s with confirms := s.confirms.tail } c
    exact ⟨_, _, _, _, _, _, _, _, _, eq⟩
  | _ => exact ⟨_, _, _, _, _, _, _, _, _, rfl⟩

theorem envNext_frame (s : State) (a : EnvAction) :
    ∃ started calls notice wire confirms confirmed bounced, envNext s a = { s with
      started := started, calls := calls, notice := notice, wire := wire
      confirms := confirms, confirmed := confirmed, bounced := bounced } := by
  cases a <;> exact ⟨_, _, _, _, _, _, _, rfl⟩

/-! ## What happens to one call -/

theorem calls_writerNext_of_ne (a : WriterAction) (ne : j ≠ i) :
    (writerNext s i a).calls j = s.calls j := by
  cases a <;> simp [writerNext, ne]

/-- The publication that a step of the loop changes. -/
def LoopAction.touches (s : State) (i : Nat) : LoopAction → Prop
  | takeReturn _ _ | takeConfirm _ => ∃ t, (t, i) ∈ s.pending
  | settle j _ | release j _ => i = j
  | _ => False

theorem calls_loopNext_of_not_touches (a : LoopAction) (no : ¬a.touches s j) :
    (loopNext s a).calls j = s.calls j := by
  cases a with
  | takeReturn r pub =>
    rcases markReturned_cases { s with wire := s.wire.tail } r with eq | ⟨t, i, mem, -, eq⟩
    · simp [loopNext, eq]
    · have ne : j ≠ i := fun h => no ⟨t, h ▸ mem⟩
      simp [loopNext, eq, ne]
  | takeConfirm c =>
    rcases resolve_cases { s with confirms := s.confirms.tail } c with eq | ⟨i, mem, eq⟩
    · simp [loopNext, eq]
    · have ne : j ≠ i := fun h => no ⟨_, h ▸ mem⟩
      simp [loopNext, eq, ne]
  | settle i v | release i v =>
    have ne : j ≠ i := no
    simp [loopNext, ne]
  | _ => rfl

theorem pc_writerNext (a : WriterAction) : ((writerNext s i a).calls j).pc = (s.calls j).pc := by
  cases a <;> simp only [writerNext, calls_update] <;> split_ifs <;>
    simp_all [Call.record, Call.release]

theorem pc_loopNext (a : LoopAction) : ((loopNext s a).calls j).pc = (s.calls j).pc := by
  cases a with
  | takeReturn r pub =>
    rcases markReturned_cases { s with wire := s.wire.tail } r with eq | ⟨t, i, mem, -, eq⟩ <;>
      simp only [loopNext, eq, calls_update]
    split_ifs <;> simp_all
  | takeConfirm c =>
    rcases resolve_cases { s with confirms := s.confirms.tail } c with eq | ⟨i, mem, eq⟩ <;>
      simp only [loopNext, eq, calls_update]
    split_ifs <;> simp_all
  | settle i v | release i v =>
    simp only [loopNext, calls_update]
    split_ifs <;> simp_all [Call.record, Call.release]
  | _ => rfl

theorem tag_loopNext (a : LoopAction) (j : Nat) :
    ((loopNext s a).calls j).tag = (s.calls j).tag := by
  cases a with
  | takeReturn r pub =>
    rcases markReturned_cases { s with wire := s.wire.tail } r with eq | ⟨t, k, -, -, eq⟩ <;>
      simp only [loopNext, eq, calls_update]
    grind
  | takeConfirm c =>
    rcases resolve_cases { s with confirms := s.confirms.tail } c with eq | ⟨k, -, eq⟩ <;>
      simp only [loopNext, eq, calls_update]
    grind
  | settle k v | release k v =>
    simp only [loopNext, calls_update]
    grind [Call.record, Call.release]
  | _ => rfl

theorem outcome_of_loopNext (a : LoopAction) {j : Nat}
    (unsettled : ((loopNext s a).calls j).outcome = none) : (s.calls j).outcome = none := by
  cases a with
  | takeReturn r pub =>
    rcases markReturned_cases { s with wire := s.wire.tail } r with eq | ⟨t, k, -, -, eq⟩ <;>
      simp only [loopNext, eq, calls_update] at unsettled <;> grind
  | takeConfirm c =>
    rcases resolve_cases { s with confirms := s.confirms.tail } c with eq | ⟨k, -, eq⟩ <;>
      simp only [loopNext, eq, calls_update] at unsettled <;> grind
  | settle k v | release k v =>
    simp only [loopNext, calls_update] at unsettled
    grind [Call.record, Call.release]
  | _ => exact unsettled

end Protobus.PubChannel
