import Protobus.PubChannel.Owner

/-!
# Which publication a return is for

A `basic.return` names a message id and a destination, not a delivery tag, and
`markReturned` gives it to the oldest matching publication in `pending`. That is the one the
broker returned as long as no older match that was routed is still there; with one there, the
two outcomes are exchanged.
-/
namespace Protobus.PubChannel
open Library

variable {cfg : Config} {s : State} {i : Nat}

/-- The return that the broker sends for a publication. -/
def Call.returnOf (c : Call) : Return := ⟨c.messageId, c.exchange, c.key⟩

/-- A broker returns mandatory publications it has read, in the order in which they were
published, with their own id and destination, and each before it confirms it. -/
def orderly (s : State) : Action → Bool
  | .env (.brokerReturn r pub) => (s.calls pub).mandatory && r = (s.calls pub).returnOf &&
    s.transmitted.any fun e => e.2 = pub && !(e.1 ∈ s.confirmed.map Confirmation.deliveryTag) &&
      s.transmitted.all fun older => !(older.2 ∈ s.bounced) || older.1 < e.1
  | _ => true

/-- The loop takes a return while every older match in `pending` was returned as well. -/
def unambiguous (s : State) : Action → Bool
  | .loop (.takeReturn r pub) => s.pending.all fun e => !(s.calls e.2).eligible r ||
    e.2 ∈ s.bounced || (s.calls pub).tag.all (· < e.1)
  | _ => true

/-! ## The invariant -/

/-- A confirm is sent after the return, and returns are sent in the order of the tags. -/
def InOrder (s : State) : Frame → Frame → Prop
  | .confirm c, .ret _ i => (c.deliveryTag, i) ∉ s.transmitted
  | .ret _ i, .ret _ j => ∀ t u, (t, i) ∈ s.transmitted → (u, j) ∈ s.transmitted → t < u
  | _, _ => True

structure Attributed (s : State) : Prop where
  sent : ∀ i ∈ s.bounced, ∃ t, (t, i) ∈ s.transmitted
  /-- A return on the wire has not been taken, and no confirm overtook it. -/
  framed : ∀ r i, .ret r i ∈ s.wire → i ∈ s.bounced ∧ (s.calls i).mandatory = true ∧
    r = (s.calls i).returnOf ∧ (s.calls i).returned = false ∧ (s.calls i).verdict = none ∧
    ∀ c ∈ s.confirms, (c.deliveryTag, i) ∉ s.transmitted
  order : s.wire.Pairwise (InOrder s)
  returned : ∀ i, (s.calls i).returned = true → i ∈ s.bounced
  bounced : ∀ i ∈ s.bounced, (s.calls i).returned = true ∨ ∃ r, .ret r i ∈ s.wire
  /-- Until the swap, what was written waits in `pending` for its confirm. -/
  present : s.loop.consuming = true → ∀ t i, (t, i) ∈ s.transmitted →
    (s.calls i).verdict = none → (t, i) ∈ s.pending ∧ (s.calls i).outcome = none
  hand : s.loop.consuming = true → ∀ i v b, s.settling = some ⟨i, v, b⟩ →
    (s.calls i).verdict ≠ none
  unswept : s.loop.consuming = true → ∀ i o, (s.calls i).outcome = some o →
    o.verdict ≠ some .channelClosed
  swept : ∀ i ∈ s.loop.todo, (s.calls i).verdict = none
  /-- What is being recorded, and what was, for a publication whose confirm was taken. -/
  settling : ∀ i v b ack, s.settling = some ⟨i, v, b⟩ → (s.calls i).verdict = some ack →
    v = (s.calls i).judge ack
  outcome : ∀ i o ack, (s.calls i).outcome = some o → (s.calls i).verdict = some ack →
    o = ⟨(s.calls i).judge ack, none⟩
  unroutable : ∀ i o, (s.calls i).outcome = some o → o.verdict = some .unroutable →
    (s.calls i).verdict = some true

/-- What the invariant reads in a call, apart from its outcome. -/
def Call.mark (c : Call) : Bool × Option Bool × Bool × Return :=
  (c.returned, c.verdict, c.mandatory, c.returnOf)

theorem Call.judge_congr {c d : Call} (same : d.mark = c.mark) (ack : Bool) :
    d.judge ack = c.judge ack := by
  simp only [Call.mark, Prod.mk.injEq] at same
  simp [Call.judge, same]

namespace Attributed
variable (inv : Attributed s)
include inv

/-- Steps that leave the wire and the broker alone. -/
theorem congr (sound : ∀ i, Sound s i) {t : State}
    (mark : ∀ i, (t.calls i).mark = (s.calls i).mark)
    (wire : t.wire = s.wire) (confirms : t.confirms = s.confirms) (bounced : t.bounced = s.bounced)
    (transmitted : t.transmitted = s.transmitted)
    (consuming : t.loop.consuming = true → s.loop.consuming = true)
    (present : t.loop.consuming = true → ∀ tag i, (tag, i) ∈ s.transmitted →
      (tag, i) ∈ s.pending → (tag, i) ∈ t.pending)
    (swept : ∀ i ∈ t.loop.todo, (s.calls i).verdict = none)
    (settling : ∀ i v b, t.settling = some ⟨i, v, b⟩ → (∃ b', s.settling = some ⟨i, v, b'⟩) ∨
      t.loop.consuming = false ∧ (s.calls i).verdict = none)
    (outcome : ∀ i o, (t.calls i).outcome = some o → (s.calls i).outcome = some o ∨
      ((∀ tag, (tag, i) ∉ s.transmitted) ∧ o.verdict = none) ∨
      ∃ v b, s.settling = some ⟨i, v, b⟩ ∧ o = ⟨v, none⟩) :
    Attributed t := by
  have mark' (i : Nat) := mark i
  simp only [Call.mark, Prod.mk.injEq] at mark'
  have order : InOrder t = InOrder s := by
    funext f g
    cases f <;> cases g <;> simp only [InOrder, transmitted]
  refine ⟨by rw [bounced, transmitted]; exact inv.sent, fun r i mem => ?_, ?_, fun i h => ?_,
    fun i mem => ?_, fun run tag i sent none => ?_, fun run i v b h => ?_, fun run i o ho => ?_,
    fun i mem => ?_, fun i v b ack h verdict => ?_, fun i o ack ho verdict => ?_,
    fun i o ho unroutable => ?_⟩
  · rw [wire] at mem
    simpa only [bounced, confirms, transmitted, mark' i] using inv.framed r i mem
  · rw [wire, order]
    exact inv.order
  · rw [bounced]
    exact inv.returned i ((mark' i).1 ▸ h)
  · rw [wire, (mark' i).1]
    exact inv.bounced i (bounced ▸ mem)
  · rw [transmitted] at sent
    rw [(mark' i).2.1] at none
    have before := inv.present (consuming run) tag i sent none
    refine ⟨present run tag i sent before.1, Option.eq_none_iff_forall_ne_some.mpr fun o ho => ?_⟩
    rcases outcome i o ho with same | ⟨unsent, -⟩ | ⟨v, b, h, -⟩
    · simp [before.2] at same
    · exact unsent tag sent
    · exact inv.hand (consuming run) i v b h none
  · rw [(mark' i).2.1]
    rcases settling i v b h with ⟨b', h⟩ | ⟨stop, -⟩
    · exact inv.hand (consuming run) i v b' h
    · simp [run] at stop
  · rcases outcome i o ho with ho | ⟨-, none⟩ | ⟨v, b, h, rfl⟩
    · exact inv.unswept (consuming run) i o ho
    · simp [none]
    · obtain ⟨ack, verdict⟩ := Option.ne_none_iff_exists'.mp (inv.hand (consuming run) i v b h)
      simp only [inv.settling i v b ack h verdict, Call.judge]
      grind
  · rw [(mark' i).2.1]
    exact swept i mem
  · rw [(mark' i).2.1] at verdict
    rw [Call.judge_congr (mark i)]
    rcases settling i v b h with ⟨b', h⟩ | ⟨-, none⟩
    · exact inv.settling i v b' ack h verdict
    · simp [none] at verdict
  · rw [(mark' i).2.1] at verdict
    rw [Call.judge_congr (mark i)]
    rcases outcome i o ho with ho | ⟨unsent, -⟩ | ⟨v, b, h, rfl⟩
    · exact inv.outcome i o ack ho verdict
    · simp [(sound i).verdict_none unsent] at verdict
    · rw [inv.settling i v b ack h verdict]
  · rw [(mark' i).2.1]
    rcases outcome i o ho with ho | ⟨-, none⟩ | ⟨v, b, h, rfl⟩
    · exact inv.unroutable i o ho unroutable
    · simp [none] at unroutable
    · cases unroutable
      exact (sound i).judged _ b h

theorem caller (shape : Shape s) (sound : ∀ i, Sound s i) {k : Nat} {a : CallerAction}
    (en : callerEnabled cfg s k a = true) : Attributed (callerNext cfg s k a) := by
  refine inv.congr sound (fun j => ?_) rfl rfl rfl rfl id (fun _ _ _ _ h => h) inv.swept
    (fun _ _ b h => .inl ⟨b, h⟩) fun j o ho => ?_
  · simp only [callerNext, calls_update]
    cases a <;> simp only [callerEffect] <;>
      grind [Call.mark, Call.returnOf, Call.record, Call.release, Call.finish]
  · by_cases withdraws : j = k ∧ (s.calls k).pc = .haveSlot
    · -- a publication that is withdrawn was never written
      obtain ⟨rfl, pc⟩ := withdraws
      have unsent (t : Nat) (sent : (t, j) ∈ s.transmitted) : False := by
        have handed := shape.of_transmitted sent
        simp [pc, Pc.handedOff] at handed
      have unsettled := (sound j).early (by rw [pc]; rfl)
      refine .inr (.inl ⟨unsent, ?_⟩)
      simp only [callerNext, calls_update, ↓reduceIte] at ho
      cases a <;> simp_all [callerEnabled, callerEffect, Call.record]
      simp [← ho]
    · left
      simp only [callerNext, calls_update] at ho
      cases a <;> simp only [callerEnabled, callerEffect] at en ho <;>
        grind [Call.record, Call.release, Call.finish]

/-- Until the swap, nobody but the writer settles what it is about to write. -/
theorem unsettled_of_writer (tags : Tags s) (shape : Shape s) (sound : Sound s i) {t : Nat}
    (consuming : s.loop.consuming = true) (busy : s.writer = .busy i (.committed t)) :
    (s.calls i).outcome = none := by
  refine Option.eq_none_iff_forall_ne_some.mpr fun o ho => ?_
  have explained := sound.outcome (shape.of_writer busy) o ho
  have unswept := inv.unswept consuming i o ho
  have verdict := sound.verdict_none fun t => tags.unsent i _ t busy
  obtain ⟨v, sendErr⟩ := o
  cases sendErr with
  | some e => exact nomatch explained.2.2.2 _ busy
  | none =>
    cases v with
    | none => simp [Explained, Judged, verdict] at explained
    | some v => cases v <;> simp_all [Explained, Judged]

theorem transmit (shape : Shape s) (tags : Tags s) (sound : ∀ i, Sound s i) (owned : Owned s)
    {k t : Nat} (busy : s.writer = .busy k (.committed t)) :
    Attributed (writerNext s k (.transmit t)) := by
  have bounced (j : Nat) (hj : j ∈ s.bounced) : j ≠ k := by
    rintro rfl
    obtain ⟨t, sent⟩ := inv.sent j hj
    exact tags.unsent j _ t busy sent
  refine ⟨fun j hj => ?_, fun r j mem => ?_, ?_, inv.returned, inv.bounced, ?_, inv.hand,
    inv.unswept, inv.swept, inv.settling, inv.outcome, inv.unroutable⟩
  · obtain ⟨t, sent⟩ := inv.sent j hj
    exact ⟨t, List.mem_append_left _ sent⟩
  · obtain ⟨hj, mandatory, data, unmarked, untaken, last⟩ := inv.framed r j mem
    refine ⟨hj, mandatory, data, unmarked, untaken, fun c hc sent => ?_⟩
    rcases List.mem_append.mp sent with old | new
    · exact last c hc old
    · simp [bounced j hj] at new
  · -- the new entry is not a returned publication
    refine inv.order.imp_of_mem fun {f g} hf hg => ?_
    cases f <;> cases g <;> simp only [InOrder, writerNext, List.mem_append, List.mem_singleton]
    · have := bounced _ (inv.framed _ _ hf).1
      have := bounced _ (inv.framed _ _ hg).1
      grind
    · exact id
    · have := bounced _ (inv.framed _ _ hg).1
      grind
    · exact id
  · intro consuming tag j sent none
    rcases List.mem_append.mp sent with old | new
    · exact inv.present consuming tag j old none
    · obtain ⟨rfl, rfl⟩ := Prod.mk.inj (List.mem_singleton.mp new)
      have tag := tags.number j _ t busy (tags.stage j _ t busy rfl)
      exact ⟨tag ▸ owned.registered j _ t busy rfl consuming,
        inv.unsettled_of_writer tags shape (sound j) consuming busy⟩

theorem writer (shape : Shape s) (tags : Tags s) (sound : ∀ i, Sound s i) (owned : Owned s)
    {k : Nat} {a : WriterAction} (busy : s.writer = .busy k a.stage) :
    Attributed (writerNext s k a) := by
  have unsent (t : Nat) : (t, k) ∉ s.transmitted := tags.unsent k _ t busy
  have mark (j : Nat) : ((writerNext s k a).calls j).mark = (s.calls j).mark := by
    cases a <;> simp only [writerNext, calls_update] <;>
      grind [Call.mark, Call.returnOf, Call.record, Call.release]
  have settling (j : Nat) (v : Option Cause) (b : Bool) (h : s.settling = some ⟨j, v, b⟩) :
      (∃ b', s.settling = some ⟨j, v, b'⟩) ∨
        s.loop.consuming = false ∧ (s.calls j).verdict = none :=
    .inl ⟨b, h⟩
  have outcome (j : Nat) (o : Outcome) (ho : ((writerNext s k a).calls j).outcome = some o) :
      (s.calls j).outcome = some o ∨ ((∀ tag, (tag, j) ∉ s.transmitted) ∧ o.verdict = none) ∨
      ∃ v b, s.settling = some ⟨j, v, b⟩ ∧ o = ⟨v, none⟩ := by
    by_cases own : j = k
    · subst own
      cases a <;> simp only [writerNext, calls_update] at ho <;>
        grind [Call.record, Call.release]
    · rw [calls_writerNext_of_ne a own] at ho
      exact .inl ho
  cases a with
  | transmit t => exact inv.transmit shape tags sound owned busy
  | register =>
    refine inv.congr sound mark rfl rfl rfl rfl id (fun _ tag j sent mem => ?_) inv.swept settling
      outcome
    have := tags.written tag j sent
    exact List.mem_cons_of_mem _ (mem_forget.mpr ⟨mem, by omega⟩)
  | forgetTag t e =>
    refine inv.congr sound mark rfl rfl rfl rfl id (fun _ tag j sent mem => ?_) inv.swept settling
      outcome
    simp only [writerNext]
    split_ifs with found
    · refine mem_forget.mpr ⟨mem, fun eq => unsent tag ?_⟩
      have same := tags.pending_unique mem (by simpa [← eq] using mem_of_lookup found)
      exact same ▸ sent
    · exact mem
  | _ =>
    exact inv.congr sound mark rfl rfl rfl rfl id (fun _ _ _ _ mem => mem) inv.swept settling
      outcome

/-- The return at the head of the wire goes to the publication it was sent for. -/
theorem markReturned_eq (tags : Tags s) (owned : Owned s) {r : Return} {pub : Nat}
    {rest : List Frame} (wire : s.wire = .ret r pub :: rest) (consuming : s.loop.consuming = true)
    (clear : unambiguous s (.loop (.takeReturn r pub)) = true) :
    markReturned { s with wire := s.wire.tail } r =
      { s with wire := rest }.update pub fun c => { c with returned := true } := by
  obtain ⟨hpub, mandatory, rfl, unmarked, untaken, -⟩ :=
    inv.framed r pub (wire ▸ List.mem_cons_self)
  obtain ⟨t, sent⟩ := inv.sent pub hpub
  have mem := (inv.present consuming t pub sent untaken).1
  have eligible : (s.calls pub).eligible (s.calls pub).returnOf = true := by
    simp [Call.eligible, Call.returnOf, mandatory, unmarked]
  have spec := oldest_spec (fun i => (s.calls i).eligible (s.calls pub).returnOf) s.pending
  simp only [unambiguous, List.all_eq_true] at clear
  unfold markReturned
  split at spec
  · simp [spec _ mem] at eligible
  · next b found =>
    obtain ⟨memB, eligibleB, least⟩ := spec
    have le : b.1 ≤ t := least _ mem eligible
    -- `b` was returned too, and its frame would have come first
    have bounced : b.2 ∈ s.bounced := by
      have := clear b memB
      simp only [eligibleB, owned.sentTag t pub sent, Option.all_some] at this
      grind
    have same : b.2 = pub := by
      rcases inv.bounced b.2 bounced with marked | ⟨r', frame⟩
      · simp [Call.eligible, marked] at eligibleB
      · rw [wire] at frame
        rcases List.mem_cons.mp frame with head | later
        · exact (Frame.ret.inj head).2
        · obtain ⟨u, sentB⟩ := inv.sent b.2 bounced
          have order := inv.order
          rw [wire, List.pairwise_cons] at order
          have lt := order.1 _ later t u sent sentB
          have : b.1 = u := owned.pending_of_sent tags sentB memB
          omega
    simp only [found, same, wire, List.tail_cons]

theorem takeReturn (tags : Tags s) (owned : Owned s) {r : Return} {pub : Nat}
    (en : loopEnabled s (.takeReturn r pub) = true)
    (clear : unambiguous s (.loop (.takeReturn r pub)) = true) :
    Attributed (loopNext s (.takeReturn r pub)) := by
  simp only [loopEnabled, Bool.and_eq_true, decide_eq_true_eq] at en
  obtain ⟨⟨consuming, idle⟩, head⟩ := en
  obtain ⟨rest, wire⟩ : ∃ rest, s.wire = .ret r pub :: rest := by
    cases h : s.wire <;> simp_all
  obtain ⟨hpub, -, -, -, untaken, -⟩ := inv.framed r pub (wire ▸ List.mem_cons_self)
  obtain ⟨t, sent⟩ := inv.sent pub hpub
  have order := inv.order
  rw [wire, List.pairwise_cons] at order
  have later (r' : Return) (j : Nat) (mem : .ret r' j ∈ rest) : j ≠ pub := by
    rintro rfl
    exact Nat.lt_irrefl _ (order.1 _ mem t t sent sent)
  rw [loopNext, inv.markReturned_eq tags owned wire consuming clear]
  refine ⟨inv.sent, fun r' j mem => ?_, order.2, fun j h => ?_, fun j mem => ?_,
    fun _ tag j hsent none => ?_, fun _ j v b h => ?_, fun _ j o ho => ?_, fun j mem => ?_,
    fun j v b ack h => ?_, fun j o ack ho verdict => ?_, fun j o ho => ?_⟩
  · have := inv.framed r' j (wire ▸ List.mem_cons_of_mem _ mem)
    simpa [later r' j mem] using this
  · simp only [calls_update] at h
    grind [inv.returned j]
  · by_cases own : j = pub
    · exact .inl (by simp [own])
    · have := inv.bounced j mem
      rw [wire] at this
      simpa [own] using this
  · simp only [calls_update] at none ⊢
    have := inv.present consuming tag j hsent
    grind
  · simp [idle] at h
  · simp only [calls_update] at ho
    have := inv.unswept consuming j o
    grind
  · simp only [calls_update]
    have := inv.swept j mem
    grind
  · simp [idle] at h
  · simp only [calls_update] at ho verdict ⊢
    have := inv.outcome j o ack
    grind
  · simp only [calls_update] at ho ⊢
    have := inv.unroutable j o
    grind

/-- Fewer confirms wait at the loop. -/
theorem takeUnknown {confirms : List Confirmation} (fewer : confirms ⊆ s.confirms) :
    Attributed { s with confirms := confirms } := by
  refine { inv with framed := fun r j mem => ?_ }
  obtain ⟨hj, mandatory, data, unmarked, untaken, last⟩ := inv.framed r j mem
  exact ⟨hj, mandatory, data, unmarked, untaken, fun c hc => last c (fewer hc)⟩

theorem takeConfirm (tags : Tags s) (sound : ∀ i, Sound s i) {c : Confirmation}
    (en : loopEnabled s (.takeConfirm c) = true) : Attributed (loopNext s (.takeConfirm c)) := by
  simp only [loopEnabled, Bool.and_eq_true, decide_eq_true_eq] at en
  obtain ⟨⟨consuming, idle⟩, head⟩ := en
  have hc : c ∈ s.confirms := List.mem_of_mem_head? head
  have fewer : s.confirms.tail ⊆ s.confirms := fun _ => List.mem_of_mem_tail
  rcases resolve_cases { s with confirms := s.confirms.tail } c with eq | ⟨k, mem, eq⟩
  · rw [loopNext, eq]
    exact inv.takeUnknown fewer
  · have sent := tags.sent_of_confirm hc mem
    have ne (r : Return) (j : Nat) (frame : .ret r j ∈ s.wire) : j ≠ k := by
      rintro rfl
      exact (inv.framed r j frame).2.2.2.2.2 c hc sent
    -- it has not been settled: this confirm is the first it gets
    have unsettled := (inv.present consuming _ k sent ((sound k).pending _ mem)).2
    have todo : s.loop.todo = [] := by
      cases h : s.loop <;> simp_all [Loop.consuming, Loop.todo]
    rw [loopNext, eq]
    refine ⟨inv.sent, fun r j frame => ?_, inv.order, fun j h => ?_, fun j hj => ?_,
      fun _ tag j hsent none => ?_, fun _ j v b h => ?_, fun _ j o ho => ?_, fun j hj => ?_,
      fun j v b ack h verdict => ?_, fun j o ack ho verdict => ?_, fun j o ho => ?_⟩
    · obtain ⟨hj, mandatory, data, unmarked, untaken, last⟩ := inv.framed r j frame
      simp only [calls_update, ne r j frame, ↓reduceIte]
      exact ⟨hj, mandatory, data, unmarked, untaken, fun c hc => last c (fewer hc)⟩
    · simp only [calls_update] at h
      have := inv.returned j
      grind
    · have := inv.bounced j hj
      simp only [calls_update, wire_update]
      grind
    · simp only [calls_update] at none ⊢
      have own : j ≠ k := by
        rintro rfl
        simp at none
      rw [if_neg own] at none ⊢
      obtain ⟨place, unsettled⟩ := inv.present consuming tag j hsent none
      refine ⟨mem_forget.mpr ⟨place, fun same => own ?_⟩, unsettled⟩
      exact tags.pending_unique place (by simpa [← same] using mem)
    · cases h
      simp
    · simp only [calls_update] at ho
      have := inv.unswept consuming j o
      grind
    · simp [todo] at hj
    · cases h
      simp only [calls_update, ↓reduceIte] at verdict ⊢
      cases verdict
      rfl
    · simp only [calls_update] at ho verdict ⊢
      by_cases own : j = k
      · simp [own, unsettled] at ho
      · rw [if_neg own] at ho verdict ⊢
        exact inv.outcome j o ack ho verdict
    · simp only [calls_update] at ho ⊢
      have := inv.unroutable j o
      grind

theorem loop (tags : Tags s) (sound : ∀ i, Sound s i) (owned : Owned s) {a : LoopAction}
    (en : loopEnabled s a = true) (clear : unambiguous s (.loop a) = true) :
    Attributed (loopNext s a) := by
  have keep (i : Nat) (v : Option Cause) (b : Bool) (h : s.settling = some ⟨i, v, b⟩) :
      (∃ b', s.settling = some ⟨i, v, b'⟩) ∨
      (loopNext s a).loop.consuming = false ∧ (s.calls i).verdict = none := .inl ⟨b, h⟩
  have same (i : Nat) (o : Outcome) (ho : (s.calls i).outcome = some o) :
      (s.calls i).outcome = some o ∨ ((∀ tag, (tag, i) ∉ s.transmitted) ∧ o.verdict = none) ∨
      ∃ v b, s.settling = some ⟨i, v, b⟩ ∧ o = ⟨v, none⟩ := .inl ho
  cases a with
  | takeReturn r pub => exact inv.takeReturn tags owned en clear
  | takeConfirm c => exact inv.takeConfirm tags sound en
  | seeClose e =>
    simp only [loopEnabled, Bool.and_eq_true, decide_eq_true_eq] at en
    exact inv.congr sound (fun _ => rfl) rfl rfl rfl rfl (fun _ => by rw [en.1.1]; rfl)
      (fun _ _ _ _ h => h) (by rintro _ ⟨⟩) keep same
  | endDrain reason =>
    refine inv.congr sound (fun _ => rfl) rfl rfl rfl rfl (by rintro ⟨⟩) (by rintro ⟨⟩)
      (fun i mem => ?_) keep same
    obtain ⟨e, he, rfl⟩ := List.mem_map.mp mem
    exact (sound e.2).pending e.1 he
  | closeDone todo =>
    simp only [loopEnabled, decide_eq_true_eq] at en
    refine inv.congr sound (fun _ => rfl) rfl rfl rfl rfl (by rintro ⟨⟩) (by rintro ⟨⟩)
      (fun i mem => ?_) keep same
    exact inv.swept i (by rw [en]; exact mem)
  | sweep k todo =>
    simp only [loopEnabled, Bool.and_eq_true, decide_eq_true_eq] at en
    refine inv.congr sound (fun _ => rfl) rfl rfl rfl rfl (by rintro ⟨⟩) (by rintro ⟨⟩)
      (fun i mem => ?_) (fun i v b h => ?_) same
    · exact inv.swept i (by rw [en.1.1]; exact List.mem_of_mem_erase mem)
    · cases h
      exact .inr ⟨rfl, inv.swept k (by rw [en.1.1]; exact en.2)⟩
  | finish =>
    exact inv.congr sound (fun _ => rfl) rfl rfl rfl rfl (by rintro ⟨⟩) (by rintro ⟨⟩)
      (by rintro _ ⟨⟩) keep same
  | settle k v =>
    simp only [loopEnabled, Bool.and_eq_true, decide_eq_true_eq] at en
    refine inv.congr sound (fun i => ?_) rfl rfl rfl rfl id (fun _ _ _ _ h => h) inv.swept
      (fun i v' b h => ?_) fun i o ho => ?_
    · simp only [loopNext, calls_update]
      grind [Call.mark, Call.returnOf, Call.record]
    · cases h
      exact .inl ⟨false, en.1⟩
    · simp only [loopNext, calls_update] at ho
      by_cases own : i = k
      · simp only [own, ↓reduceIte, Call.record, Option.some.injEq] at ho
        exact .inr (.inr ⟨v, false, own ▸ en.1, ho.symm⟩)
      · exact .inl (by simpa [own] using ho)
  | skip k v =>
    exact inv.congr sound (fun _ => rfl) rfl rfl rfl rfl id (fun _ _ _ _ h => h) inv.swept
      (by rintro _ _ _ ⟨⟩) same
  | release k v =>
    refine inv.congr sound (fun i => ?_) rfl rfl rfl rfl id (fun _ _ _ _ h => h) inv.swept
      (by rintro _ _ _ ⟨⟩) fun i o ho => .inl ?_
    · simp only [loopNext, calls_update]
      grind [Call.mark, Call.returnOf, Call.release]
    · simp only [loopNext, calls_update] at ho
      grind [Call.release]

theorem newCall (shape : Shape s) (exchange key messageId uuid : Bytes) (mandatory : Bool) :
    Attributed (envNext s (.call exchange key messageId uuid mandatory)) := by
  have unsent (t : Nat) : (t, s.started) ∉ s.transmitted := fun sent => by
    have handed := shape.of_transmitted sent
    simp [shape.unstarted, Pc.handedOff] at handed
  have ne (j : Nat) (hj : j ∈ s.bounced) : j ≠ s.started := by
    rintro rfl
    obtain ⟨t, sent⟩ := inv.sent _ hj
    exact unsent t sent
  have fresh := shape.unstarted s.started (Nat.le_refl _)
  refine ⟨inv.sent, fun r j mem => ?_, inv.order, fun j h => ?_, fun j mem => ?_,
    fun run tag j sent none => ?_, fun run j v b h => ?_, fun run j o ho => ?_, fun j mem => ?_,
    fun j v b ack h verdict => ?_, fun j o ack ho verdict => ?_, fun j o ho => ?_⟩ <;>
    simp only [envNext, calls_update] at *
  · have := inv.framed r j mem
    rw [if_neg (ne j this.1)]
    exact this
  · have := inv.returned j
    grind
  · rw [if_neg (ne j mem)]
    exact inv.bounced j mem
  · have := inv.present run tag j sent
    grind
  · have := inv.hand run j v b h
    grind
  · have := inv.unswept run j o
    grind
  · have := inv.swept j mem
    grind
  · have := inv.settling j v b ack h
    grind
  · have := inv.outcome j o ack
    grind
  · have := inv.unroutable j o
    grind

theorem brokerReturn (tags : Tags s) (sound : ∀ i, Sound s i) (owned : Owned s) {r : Return}
    {pub : Nat} (ok : orderly s (.env (.brokerReturn r pub)) = true) :
    Attributed (envNext s (.brokerReturn r pub)) := by
  simp only [orderly, Bool.and_eq_true, decide_eq_true_eq, List.any_eq_true, Bool.not_eq_true',
    decide_eq_false_iff_not, List.all_eq_true, Bool.or_eq_true] at ok
  obtain ⟨⟨mandatory, rfl⟩, ⟨t, pub⟩, sent, ⟨rfl, unconfirmed⟩, first⟩ := ok
  have unanswered (c : Confirmation) (hc : c ∈ s.confirmed) :
      (c.deliveryTag, pub) ∉ s.transmitted := fun sent' => by
    have same := (owned.sentTag _ _ sent).symm.trans (owned.sentTag _ _ sent')
    exact unconfirmed (List.mem_map.mpr ⟨c, hc, (Option.some.inj same).symm⟩)
  have older (j u : Nat) (hj : j ∈ s.bounced) (sentJ : (u, j) ∈ s.transmitted) : u < t :=
    (first _ sentJ).resolve_left (absurd hj)
  have new : pub ∉ s.bounced := fun mem => Nat.lt_irrefl t (older pub t mem sent)
  refine { inv with
    sent := fun j hj => ?_
    framed := fun r j mem => ?_
    order := List.pairwise_append.mpr ⟨inv.order, List.pairwise_singleton _ _, fun f hf g hg => ?_⟩
    returned := fun j h => List.mem_cons_of_mem _ (inv.returned j h)
    bounced := fun j hj => ?_ }
  · rcases List.mem_cons.mp hj with rfl | old
    · exact ⟨t, sent⟩
    · exact inv.sent j old
  · rcases List.mem_append.mp mem with old | last
    · obtain ⟨hj, rest⟩ := inv.framed r j old
      exact ⟨List.mem_cons_of_mem _ hj, rest⟩
    · obtain ⟨rfl, rfl⟩ := Frame.ret.inj (List.mem_singleton.mp last)
      refine ⟨List.mem_cons_self, mandatory, rfl, ?_, ?_, fun c hc => ?_⟩
      · exact Bool.eq_false_iff.mpr fun marked => new (inv.returned j marked)
      · refine Option.eq_none_iff_forall_ne_some.mpr fun ack verdict => ?_
        obtain ⟨u, sent', answer⟩ := (sound j).verdict ack verdict
        exact unanswered _ answer sent'
      · exact unanswered c (tags.queued c hc)
  · obtain rfl := List.mem_singleton.mp hg
    cases f with
    | confirm c => exact unanswered c (tags.wired c hf)
    | ret r j =>
      intro u t' sentJ sent'
      have same := (owned.sentTag _ _ sent).symm.trans (owned.sentTag _ _ sent')
      have := older j u (inv.framed r j hf).1 sentJ
      cases same
      exact this
  · rcases List.mem_cons.mp hj with rfl | old
    · exact .inr ⟨_, List.mem_append_right _ (List.mem_singleton_self _)⟩
    · exact (inv.bounced j old).imp_right fun ⟨r, mem⟩ => ⟨r, List.mem_append_left _ mem⟩

theorem env (shape : Shape s) (tags : Tags s) (sound : ∀ i, Sound s i) (owned : Owned s)
    {a : EnvAction} (en : envEnabled cfg s a = true) (ok : orderly s (.env a) = true) :
    Attributed (envNext s a) := by
  cases a with
  | call exchange key messageId uuid mandatory => exact inv.newCall shape ..
  | endCtx k e =>
    refine inv.congr sound (fun i => ?_) rfl rfl rfl rfl id (fun _ _ _ _ h => h) inv.swept
      (fun _ _ b h => .inl ⟨b, h⟩) fun i o ho => .inl ?_
    · simp only [envNext, calls_update]
      grind [Call.mark, Call.returnOf]
    · simp only [envNext, calls_update] at ho
      grind
  | closeTransport e =>
    exact inv.congr sound (fun _ => rfl) rfl rfl rfl rfl id (fun _ _ _ _ h => h) inv.swept
      (fun _ _ b h => .inl ⟨b, h⟩) fun _ _ ho => .inl ho
  | read c =>
    simp only [envEnabled, Bool.and_eq_true, decide_eq_true_eq] at en
    obtain ⟨rest, wire⟩ : ∃ rest, s.wire = .confirm c :: rest := by
      cases h : s.wire <;> simp_all
    have order := inv.order
    rw [wire, List.pairwise_cons] at order
    refine { inv with
      framed := fun r j mem => ?_
      order := by simp only [envNext, wire, List.tail_cons]; exact order.2
      bounced := fun j hj => ?_ }
    · simp only [envNext, wire, List.tail_cons] at mem
      obtain ⟨hj, mandatory, data, unmarked, untaken, last⟩ :=
        inv.framed r j (wire ▸ List.mem_cons_of_mem _ mem)
      refine ⟨hj, mandatory, data, unmarked, untaken, fun c' hc => ?_⟩
      rcases List.mem_append.mp hc with old | new
      · exact last c' old
      · exact List.mem_singleton.mp new ▸ order.1 _ mem
    · simpa [wire, envNext] using inv.bounced j hj
  | brokerReturn r pub => exact inv.brokerReturn tags sound owned ok
  | brokerConfirm c =>
    refine { inv with
      framed := fun r j mem => inv.framed r j (by simpa [envNext] using mem)
      order := List.pairwise_append.mpr
        ⟨inv.order, List.pairwise_singleton _ _, fun f hf g hg => ?_⟩
      bounced := fun j hj => by simpa [envNext] using inv.bounced j hj }
    obtain rfl := List.mem_singleton.mp hg
    cases f <;> trivial

theorem next (shape : Shape s) (tags : Tags s) (sound : ∀ i, Sound s i) (owned : Owned s)
    {a : Action} (en : enabled cfg s a = true) (ok : orderly s a = true)
    (clear : unambiguous s a = true) : Attributed (next cfg s a) := by
  cases a with
  | caller k a => exact inv.caller shape sound en
  | handOff k =>
    refine inv.congr sound (fun i => ?_) rfl rfl rfl rfl id (fun _ _ _ _ h => h) inv.swept
      (fun _ _ b h => .inl ⟨b, h⟩) fun i o ho => .inl ?_
    · simp only [PubChannel.next, calls_update]
      grind [Call.mark, Call.returnOf]
    · simp only [PubChannel.next, calls_update] at ho
      grind
  | writer k a =>
    simp only [enabled, Bool.and_eq_true, decide_eq_true_eq] at en
    exact inv.writer shape tags sound owned en.1
  | stop =>
    exact inv.congr sound (fun _ => rfl) rfl rfl rfl rfl id (fun _ _ _ _ h => h) inv.swept
      (fun _ _ b h => .inl ⟨b, h⟩) fun _ _ ho => .inl ho
  | loop a => exact inv.loop tags sound owned en clear
  | env a => exact inv.env shape tags sound owned en ok

end Attributed

theorem attributed_of_reachable
    (reach : ((system cfg).restrict fun s a => orderly s a && unambiguous s a).Reachable s) :
    Attributed s := by
  refine reach.invariant Attributed ?_ ?_
  · rintro s rfl
    constructor <;> simp [State.start, Loop.todo]
  · intro s a t before inv hstep
    obtain ⟨ok, hstep⟩ := System.restrict_step.mp hstep
    obtain ⟨en, rfl⟩ := step_iff.mp hstep
    simp only [Bool.and_eq_true] at ok
    have base := before.of_restrict
    obtain ⟨shape, tags⟩ := shape_tags_of_reachable base
    exact inv.next shape tags (sound_of_reachable base) (owned_of_reachable base) en ok.1 ok.2

/-! ## Attribution -/

/-- With an orderly broker, and returns that the loop takes only while no older match that was
routed is in `pending`: a publication settles with `ErrUnroutable` if and only if the broker
returned it and the loop took its ack, and one that was not returned settles with `nil` on
its ack. -/
theorem returns_attributed
    (reach : ((system cfg).restrict fun s a => orderly s a && unambiguous s a).Reachable s)
    (i : Nat) (o : Outcome) (settled : (s.calls i).outcome = some o) :
    (o.verdict = some .unroutable ↔ i ∈ s.bounced ∧ (s.calls i).verdict = some true) ∧
    ((s.calls i).verdict = some true → Answered s i true ∧ (i ∉ s.bounced → o = ⟨none, none⟩)) := by
  have inv := attributed_of_reachable reach
  have sound := sound_of_reachable reach.of_restrict i
  -- no return is on its way any more once the confirm was taken
  have returned (taken : (s.calls i).verdict = some true) :
      (s.calls i).returned = true ↔ i ∈ s.bounced := by
    refine ⟨inv.returned i, fun mem => (inv.bounced i mem).resolve_right ?_⟩
    rintro ⟨r, frame⟩
    simp [(inv.framed r i frame).2.2.2.2.1] at taken
  have judge (taken : (s.calls i).verdict = some true) :
      o = ⟨if i ∈ s.bounced then some .unroutable else none, none⟩ := by
    rw [inv.outcome i o true settled taken, Call.judge]
    simp [returned taken]
  refine ⟨⟨?_, ?_⟩, fun taken => ⟨sound.verdict true taken, fun routed => ?_⟩⟩
  · intro unroutable
    have taken := inv.unroutable i o settled unroutable
    refine ⟨by_contra fun routed => ?_, taken⟩
    simp [judge taken, routed] at unroutable
  · rintro ⟨mem, taken⟩
    rw [judge taken, if_pos mem]
  · rw [judge taken, if_neg routed]

/-- One call of `publish` up to its write, under the tag `t`. -/
def publishes (i t : Nat) : List Action :=
  [.env (.call [1] [2] [3] [4] true), .caller i .enter, .caller i .takeSlot, .handOff i,
    .writer i .checkCtx, .writer i .checkClosed, .writer i .register, .writer i (.commit t),
    .writer i (.transmit t), .caller i .seeCommit]

/-- The ack of the tag `t`, and the publication `i` settled with the verdict `v`. -/
def acks (i t : Nat) (v : Option Cause) : List Action :=
  [.env (.brokerConfirm ⟨t, true⟩), .env (.read ⟨t, true⟩), .loop (.takeConfirm ⟨t, true⟩),
    .loop (.settle i v), .loop (.release i v), .caller i (.seeDone ⟨v, none⟩)]

/-- Two publications with one id and destination; the broker returns the first only. -/
theorem returns_attributed_older : ∃ s, (∃ as, (system ⟨2, []⟩).run as .start = some s) ∧
    s.bounced = [0] ∧ (s.calls 0).outcome = some ⟨some .unroutable, none⟩ ∧
    (s.calls 1).outcome = some ⟨none, none⟩ ∧ 0 ∈ s.bounced ∧ Answered s 1 true := by
  let as := publishes 0 1 ++ publishes 1 2 ++ [.env (.brokerReturn ⟨[3], [1], [2]⟩ 0),
    .loop (.takeReturn ⟨[3], [1], [2]⟩ 0)] ++ acks 0 1 (some .unroutable) ++ acks 1 2 none
  have reach : ((system ⟨2, []⟩).restrict fun s a => orderly s a && unambiguous s a).Reachable _ :=
    .run (.init rfl) (rfl : System.run _ as State.start = some _)
  exact ⟨_, ⟨as, rfl⟩, rfl, rfl, rfl, ((returns_attributed reach 0 _ rfl).1.mp rfl).1,
    ((returns_attributed reach 1 _ rfl).2 rfl).1⟩

/-- The broker routes the first of two publications with one id and destination, returns the
second and acks both. The first call fails with `ErrUnroutable`, the second returns `nil`. -/
theorem return_misattributed : ∃ s, ((system ⟨2, []⟩).restrict orderly).Reachable s ∧
    s.bounced = [1] ∧ Answered s 0 true ∧ Answered s 1 true ∧
    (s.calls 0).outcome = some ⟨some .unroutable, none⟩ ∧
    (s.calls 1).outcome = some ⟨none, none⟩ ∧ (s.calls 1).pc.result = some none := by
  let as := publishes 0 1 ++ publishes 1 2 ++ [.env (.brokerReturn ⟨[3], [1], [2]⟩ 1),
    .loop (.takeReturn ⟨[3], [1], [2]⟩ 1)] ++ acks 0 1 (some .unroutable) ++ acks 1 2 none
  have reach : ((system ⟨2, []⟩).restrict orderly).Reachable _ :=
    .run (.init rfl) (rfl : System.run _ as State.start = some _)
  exact ⟨_, reach, rfl, ⟨1, by decide, by decide⟩, ⟨2, by decide, by decide⟩, rfl, rfl, rfl⟩

end Protobus.PubChannel
