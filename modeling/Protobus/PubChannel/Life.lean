import Protobus.PubChannel.Tags

/-!
# The life of one publication

What holds of a single publication whatever happens to the others: it is settled at most
once, its slot is given back by the one settler that recorded an outcome, every recorded
outcome has its cause, and every result that the call returned is explained by one.
-/
namespace Protobus.PubChannel
open Library

variable {cfg : Config} {s : State} {i : Nat}

/-- Not a `PublishError`. -/
def Err.definite : Err → Bool
  | publish _ => false
  | _ => true

theorem Why.definite_result (w : Why) : w.result.definite = true := by cases w <;> rfl

/-- What a call that gives up reports. -/
theorem PublishError.ambiguous_of_giving_up {e : PublishError}
    (h : e.err = .confirmTimeout ∨ ∃ c, e.err = .ctx c) : e.ambiguous = true := by
  rcases h with h | ⟨c, h⟩
  · simp [ambiguous, h]
  · cases c <;> simp [ambiguous, h]

/-- No outcome can have been recorded yet. -/
def Pc.isEarly : Pc → Bool
  | idle | entered | wantSlot | refused _ | haveSlot => true
  | _ => false

def Pc.isReleasing : Pc → Bool
  | releasing _ => true
  | _ => false

/-- The error that the writer is about to settle with. -/
def Stage.err? : Stage → Option Err
  | failed _ e | settling e => some e
  | _ => none

/-- How many goroutines are between the two halves of `settle` for this publication. -/
def State.releasers (s : State) (i : Nat) : Nat :=
  (if (s.calls i).pc.isReleasing then 1 else 0) + (if s.writer = .busy i .releasing then 1 else 0) +
    (if s.settling.any (fun x => x.pub = i && x.recorded) then 1 else 0)

/-- The broker's answer to a publication, under the tag it was written under. -/
def Answered (s : State) (i : Nat) (ack : Bool) : Prop :=
  ∃ t, (t, i) ∈ s.transmitted ∧ ⟨t, ack⟩ ∈ s.confirmed

/-- What a verdict of the loop is based on. -/
def Judged (c : Call) : Option Cause → Prop
  | none => c.verdict = some true
  | some .nacked => c.verdict = some false
  | some .unroutable => c.verdict = some true
  | some .channelClosed => True
  | some _ => False

/-- What a recorded outcome is based on. An outcome with a `sendErr` is final: the
publication was not written and the writer is done with it. -/
def Explained (s : State) (i : Nat) (o : Outcome) : Prop :=
  match o.sendErr with
  | none => Judged (s.calls i) o.verdict
  | some e => o.verdict = none ∧ e.definite = true ∧ (∀ t, (t, i) ∉ s.transmitted) ∧
    ∀ st, s.writer = .busy i st → st = .releasing

/-- What the call may have returned. -/
def Reported (c : Call) : Pc → Prop
  | .refused r | .releasing r | .withdrawn r => r.definite = true
  | .returned r seen =>
    (∃ o closeErr, c.outcome = some o ∧ r = c.report closeErr o ∧
      (seen = true ∨ o.sendErr ≠ none ∨ o.verdict = some .channelClosed)) ∨
    ∃ e, r = some (.publish e) ∧ e.ambiguous = true
  | _ => True

structure Sound (s : State) (i : Nat) : Prop where
  early : (s.calls i).pc.isEarly = true → (s.calls i).outcome = none
  late : (s.calls i).pc.isEarly = false → (s.calls i).pc.handedOff = false →
    (s.calls i).outcome ≠ none
  settles : (s.calls i).settles = if (s.calls i).outcome.isSome then 1 else 0
  releases : (s.calls i).releases + s.releasers i = (s.calls i).settles
  err : ∀ st e, s.writer = .busy i st → st.err? = some e → e.definite = true
  judged : ∀ v b, s.settling = some ⟨i, v, b⟩ → Judged (s.calls i) v
  pending : ∀ t, (t, i) ∈ s.pending → (s.calls i).verdict = none
  verdict : ∀ ack, (s.calls i).verdict = some ack → Answered s i ack
  outcome : (s.calls i).pc.handedOff = true → ∀ o, (s.calls i).outcome = some o → Explained s i o
  result : Reported (s.calls i) (s.calls i).pc

/-- What the reports of a call are made of. -/
def Call.reportData (c : Call) : Option Outcome × Bytes × Bytes × Bytes :=
  (c.outcome, c.messageId, c.exchange, c.key)

/-- What `Sound` looks at in a call besides its position and its releases. -/
def Call.core (c : Call) : Nat × Option Bool × Option Outcome × Bytes × Bytes × Bytes :=
  (c.settles, c.verdict, c.reportData)

theorem Judged.congr {c d : Call} (same : d.verdict = c.verdict) {v : Option Cause}
    (h : Judged c v) : Judged d v := by
  unfold Judged at h ⊢
  rwa [same]

theorem Reported.congr {c d : Call} (same : d.reportData = c.reportData) {p : Pc}
    (h : Reported c p) : Reported d p := by
  simp only [Call.reportData, Prod.mk.injEq] at same
  cases p with
  | returned r seen => simpa [Reported, Call.report, Call.fail, same] using h
  | _ => exact h

/-- A result reported while nothing was recorded stays right when something is. -/
theorem Reported.record {c : Call} (unsettled : c.outcome = none) {p : Pc} (h : Reported c p)
    (d : Call) : Reported d p := by
  cases p with
  | returned r seen =>
    rcases h with ⟨o, -, ho, -⟩ | gaveUp
    · rw [unsettled] at ho
      cases ho
    · exact .inr gaveUp
  | _ => exact h

theorem Pc.isEarly_of_handedOff {p : Pc} (h : p.handedOff = true) : p.isEarly = false := by
  cases p <;> simp_all [Pc.handedOff, Pc.isEarly]

/-- The loop is between the two halves of `settle` for this publication. -/
theorem any_recorded (o : Option Settling) :
    o.any (fun x => x.pub = i && x.recorded) = true ↔ ∃ v, o = some ⟨i, v, true⟩ := by
  cases o with
  | none => simp
  | some x =>
    obtain ⟨p, v, b⟩ := x
    simp

namespace Sound
variable (inv : Sound s i)
include inv

/-! ## Steps in general -/

/-- A step that records nothing. Giving the slot back moves one from the releasers to the
releases. -/
theorem move {t : State} (core : (t.calls i).core = (s.calls i).core)
    (sum : (t.calls i).releases + t.releasers i = (s.calls i).releases + s.releasers i)
    (early : (t.calls i).pc.isEarly = true → (s.calls i).outcome = none)
    (late : (t.calls i).pc.isEarly = false → (t.calls i).pc.handedOff = false →
      (s.calls i).outcome ≠ none)
    (handed : (t.calls i).pc.handedOff = true → (s.calls i).outcome ≠ none →
      (s.calls i).pc.handedOff = true)
    (err : ∀ st e, t.writer = .busy i st → st.err? = some e → e.definite = true)
    (judged : ∀ v b, t.settling = some ⟨i, v, b⟩ → Judged (s.calls i) v)
    (pending : ∀ tag, (tag, i) ∈ t.pending → (s.calls i).verdict = none)
    (sent : ∀ tag, (tag, i) ∈ s.transmitted → (tag, i) ∈ t.transmitted)
    (confirmed : ∀ c ∈ s.confirmed, c ∈ t.confirmed)
    (final : (s.calls i).pc.handedOff = true → ∀ o e, (s.calls i).outcome = some o →
      o.sendErr = some e → Explained s i o → Explained t i o)
    (result : Reported (s.calls i) (t.calls i).pc) : Sound t i := by
  simp only [Call.core, Prod.mk.injEq] at core
  obtain ⟨settles, verdict, data⟩ := core
  have outcome : (t.calls i).outcome = (s.calls i).outcome := congrArg Prod.fst data
  refine ⟨?_, ?_, ?_, ?_, err, ?_, ?_, ?_, ?_, result.congr data⟩
  · rwa [outcome]
  · rwa [outcome]
  · rw [settles, outcome]
    exact inv.settles
  · rw [sum, settles]
    exact inv.releases
  · exact fun v b h => (judged v b h).congr verdict
  · intro tag h
    rw [verdict]
    exact pending tag h
  · intro ack h
    obtain ⟨tag, ht, hc⟩ := inv.verdict ack (verdict ▸ h)
    exact ⟨tag, sent tag ht, confirmed _ hc⟩
  · intro h o ho
    rw [outcome] at ho
    have before := handed h (by simp [ho])
    have old := inv.outcome before o ho
    cases he : o.sendErr with
    | some e => exact final before o e ho he old
    | none =>
      simp only [Explained, he] at old ⊢
      exact old.congr verdict

/-- The first half of `settle`. -/
theorem record {t : State} (o : Outcome) (unsettled : (s.calls i).outcome = none)
    (core : (t.calls i).core = ((s.calls i).record o).core)
    (sum : (t.calls i).releases + t.releasers i = (s.calls i).releases + s.releasers i + 1)
    (late : (t.calls i).pc.isEarly = false)
    (err : ∀ st e, t.writer = .busy i st → st.err? = some e → e.definite = true)
    (judged : ∀ v b, t.settling = some ⟨i, v, b⟩ → Judged (s.calls i) v)
    (pending : t.pending = s.pending) (sent : t.transmitted = s.transmitted)
    (confirmed : t.confirmed = s.confirmed)
    (explained : (t.calls i).pc.handedOff = true → Explained t i o)
    (result : Reported (s.calls i) (t.calls i).pc) : Sound t i := by
  simp only [Call.core, Call.reportData, Call.record, Prod.mk.injEq] at core
  obtain ⟨settles, verdict, outcome, -⟩ := core
  have zero : (s.calls i).settles = 0 := by simpa [unsettled] using inv.settles
  refine ⟨?_, ?_, ?_, ?_, err, ?_, ?_, ?_, ?_, result.record unsettled _⟩
  · simp [late]
  · simp [outcome]
  · simp [settles, outcome, zero]
  · rw [sum, settles, ← inv.releases]
  · exact fun v b h => (judged v b h).congr verdict
  · rw [pending, verdict]
    exact inv.pending
  · intro ack h
    obtain ⟨tag, ht, hc⟩ := inv.verdict ack (verdict ▸ h)
    exact ⟨tag, sent ▸ ht, confirmed ▸ hc⟩
  · intro h o' ho
    rw [outcome] at ho
    cases ho
    exact explained h

/-- A step that does not concern the publication. -/
theorem congr {t : State} (call : t.calls i = s.calls i)
    (writer : ∀ st, t.writer = .busy i st ↔ s.writer = .busy i st)
    (settling : ∀ v b, t.settling = some ⟨i, v, b⟩ ↔ s.settling = some ⟨i, v, b⟩)
    (pending : ∀ tag, (tag, i) ∈ t.pending → (tag, i) ∈ s.pending)
    (sent : ∀ tag, (tag, i) ∈ t.transmitted ↔ (tag, i) ∈ s.transmitted)
    (confirmed : ∀ c ∈ s.confirmed, c ∈ t.confirmed) : Sound t i := by
  have releasers : t.releasers i = s.releasers i := by
    have any : t.settling.any (fun x => x.pub = i && x.recorded) =
        s.settling.any (fun x => x.pub = i && x.recorded) := by
      rw [Bool.eq_iff_iff, any_recorded, any_recorded]
      simp only [settling]
    simp only [State.releasers, call, any, writer]
  refine inv.move (by rw [call]) (by rw [call, releasers]) (by rw [call]; exact inv.early)
    (by rw [call]; exact inv.late) (by rw [call]; exact fun h _ => h)
    (fun st e h => inv.err st e ((writer st).mp h))
    (fun v b h => inv.judged v b ((settling v b).mp h))
    (fun tag h => inv.pending tag (pending tag h)) (fun tag => (sent tag).mpr) confirmed ?_
    (by rw [call]; exact inv.result)
  intro _ o e _ he old
  simp only [Explained, he, sent, writer] at old ⊢
  exact old

/-- A step that touches nothing the facts about this publication read. -/
theorem untouched {t : State} (call : t.calls i = s.calls i) (writer : t.writer = s.writer)
    (settling : t.settling = s.settling) (pending : t.pending = s.pending)
    (sent : t.transmitted = s.transmitted) (confirmed : t.confirmed = s.confirmed) : Sound t i :=
  inv.congr call (fun _ => by rw [writer]) (fun _ _ => by rw [settling])
    (fun _ h => by rwa [← pending]) (fun _ => by rw [sent]) fun _ h => by rwa [confirmed]

/-! ## The call's own steps -/

/-- A step of the call that records nothing. -/
theorem caller_move (c : Call) (slots : Nat) (core : c.core = (s.calls i).core)
    (sum : c.releases + (if c.pc.isReleasing then 1 else 0) =
      (s.calls i).releases + (if (s.calls i).pc.isReleasing then 1 else 0))
    (early : c.pc.isEarly = true → (s.calls i).outcome = none)
    (late : c.pc.isEarly = false → c.pc.handedOff = false → (s.calls i).outcome ≠ none)
    (handed : c.pc.handedOff = true → (s.calls i).outcome ≠ none →
      (s.calls i).pc.handedOff = true)
    (result : Reported (s.calls i) c.pc) :
    Sound ({ s with slots := slots }.update i fun _ => c) i := by
  have call : ({ s with slots := slots }.update i fun _ => c).calls i = c := by simp
  refine inv.move (by rwa [call]) ?_ (by rwa [call]) (by rwa [call]) (by rwa [call]) inv.err
    inv.judged inv.pending (fun _ h => h) (fun _ h => h) (fun _ o e _ he old => ?_) (by rwa [call])
  · simp only [State.releasers, calls_update, ↓reduceIte, writer_update, settling_update]
    grind
  · simp only [Explained, he] at old ⊢
    exact old

/-- Where an outcome was recorded by the loop before the channel closed, the loop had the
broker's verdict. -/
theorem seen_of_outcome (handed : (s.calls i).pc.handedOff = true) {o : Outcome}
    (ho : (s.calls i).outcome = some o) :
    (s.calls i).verdict.isSome = true ∨ o.sendErr ≠ none ∨ o.verdict = some .channelClosed := by
  have explained := inv.outcome handed o ho
  obtain ⟨v, e⟩ := o
  cases e with
  | some e => simp
  | none =>
    cases v with
    | none => simp_all [Explained, Judged]
    | some v => cases v <;> simp_all [Explained, Judged]

theorem withdraw (why : Why) (hp : (s.calls i).pc = .haveSlot) :
    Sound (callerNext cfg s i (.withdraw why)) i := by
  refine inv.record ⟨none, why.sendErr⟩ (inv.early (by rw [hp]; rfl)) ?_ ?_ ?_ inv.err inv.judged
    rfl rfl rfl ?_ ?_ <;> simp only [callerNext, callerEffect, calls_update, ↓reduceIte]
  · rfl
  · simp only [State.releasers, calls_update, ↓reduceIte, writer_update, settling_update, hp,
      Pc.isReleasing, Call.record]
    grind
  · rfl
  · simp [Pc.handedOff]
  · exact why.definite_result

theorem caller (a : CallerAction) (en : callerEnabled cfg s i a = true) :
    Sound (callerNext cfg s i a) i := by
  have early := inv.early
  have result := inv.result
  cases a with
  | withdraw why => exact inv.withdraw why (by simp_all [callerEnabled])
  | release r =>
    have hp : (s.calls i).pc = .releasing r := by simp_all [callerEnabled]
    rw [hp] at result
    exact inv.caller_move _ _ rfl (by simp [Call.release, callerEffect, hp, Pc.isReleasing])
      (by simp [callerEffect, Pc.isEarly]) (fun _ _ => inv.late (by rw [hp]; rfl) (by rw [hp]; rfl))
      (by simp [callerEffect, Pc.handedOff]) result
  | seeDone o =>
    simp only [callerEnabled, Bool.and_eq_true, Bool.or_eq_true, decide_eq_true_eq] at en
    obtain ⟨pc, ho⟩ := en
    have handed : (s.calls i).pc.handedOff = true := by rcases pc with pc | pc <;> rw [pc] <;> rfl
    refine inv.caller_move _ _ rfl ?_ (by simp [callerEffect, Call.finish, Pc.isEarly])
      (by simp [callerEffect, Call.finish, Pc.handedOff]) (fun _ _ => handed)
      (.inl ⟨o, s.closeErr, ho, rfl, inv.seen_of_outcome handed ho⟩)
    rcases pc with pc | pc <;> simp [callerEffect, Call.finish, pc, Pc.isReleasing]
  | timeout | abandon e =>
    simp only [callerEnabled, Bool.and_eq_true, decide_eq_true_eq] at en
    refine inv.caller_move _ _ rfl ?_ (by simp [callerEffect, Call.finish, Pc.isEarly])
      (by simp [callerEffect, Call.finish, Pc.handedOff]) (by simp [en, Pc.handedOff])
      (.inr ⟨_, rfl, PublishError.ambiguous_of_giving_up (by simp)⟩)
    simp [callerEffect, Call.finish, en, Pc.isReleasing]
  | enter | takeSlot | refuse why | seeCommit =>
    refine inv.caller_move _ _ ?_ ?_ ?_ ?_ ?_ ?_ <;>
      simp only [callerEnabled, callerEffect, Call.core, Call.reportData] at en ⊢ <;>
      grind [Pc.isReleasing, Pc.isEarly, Pc.handedOff, Reported, Err.definite, Why.definite_result]

theorem handOff (hp : (s.calls i).pc = .haveSlot) (idle : s.writer = .idle) :
    Sound (next cfg s (.handOff i)) i := by
  have unsettled := inv.early (by rw [hp]; rfl)
  refine inv.move ?_ ?_ ?_ ?_ ?_ ?_ inv.judged inv.pending (fun _ h => h) (fun _ h => h) ?_ ?_ <;>
    simp only [next, calls_update, ↓reduceIte, writer_update]
  · rfl
  · simp only [State.releasers, calls_update, ↓reduceIte, writer_update, settling_update, hp,
      idle, Pc.isReleasing]
    grind
  · simp [Pc.isEarly]
  · simp [Pc.handedOff]
  · simp [unsettled]
  · rintro st e ⟨⟩ ⟨⟩
  · simp [unsettled]
  · trivial

/-! ## The writer's steps on its publication -/

/-- The steps of `send` before `settle`, the write included. While the writer has not
settled the publication, whatever was recorded was recorded by the loop. -/
theorem writer_move {t : State} {st : Stage} (core : (t.calls i).core = (s.calls i).core)
    (releases : (t.calls i).releases = (s.calls i).releases)
    (pc : (t.calls i).pc = (s.calls i).pc) (settling : t.settling = s.settling)
    (confirmed : t.confirmed = s.confirmed)
    (before : s.writer = .busy i st) (ne : st ≠ .releasing) (after : t.writer ≠ .busy i .releasing)
    (err : ∀ st' e, t.writer = .busy i st' → st'.err? = some e → e.definite = true)
    (sent : ∀ e ∈ s.transmitted, e ∈ t.transmitted)
    (pending : ∀ tag, (tag, i) ∈ t.pending → (s.calls i).verdict = none) : Sound t i := by
  have beforeNe : s.writer ≠ .busy i .releasing := by
    rw [before]
    exact fun h => ne (Writer.busy.inj h).2
  refine inv.move core ?_ (by rw [pc]; exact inv.early) (by rw [pc]; exact inv.late)
    (by rw [pc]; exact fun h _ => h) err
    (fun v b h => inv.judged v b (settling ▸ h)) pending (fun tag => sent _)
    (by rw [confirmed]; exact fun _ h => h) ?_ (by rw [pc]; exact inv.result)
  · simp only [State.releasers, releases, pc, settling, after, beforeNe]
  · intro _ o e _ he old
    simp only [Explained, he] at old
    exact absurd (old.2.2.2 st before) ne

/-- A publication that was not written has no verdict. -/
theorem verdict_none (unsent : ∀ t, (t, i) ∉ s.transmitted) : (s.calls i).verdict = none := by
  cases h : (s.calls i).verdict with
  | none => rfl
  | some ack =>
    obtain ⟨t, ht, -⟩ := inv.verdict ack h
    exact absurd ht (unsent t)

theorem writer (shape : Shape s) (tags : Tags s) (a : WriterAction)
    (busy : s.writer = .busy i a.stage) (en : writerEnabled s i a = true) :
    Sound (writerNext s i a) i := by
  have unsent : ∀ t, (t, i) ∉ s.transmitted := fun t => tags.unsent i _ t busy
  have noVerdict := inv.verdict_none unsent
  have handed := shape.of_writer busy
  have err := inv.err a.stage
  cases a with
  | settle e =>
    have unsettled : (s.calls i).outcome = none := by simpa [writerEnabled] using en
    have definite := err e busy rfl
    refine inv.record ⟨none, some e⟩ unsettled ?_ ?_ ?_ ?_ inv.judged rfl rfl rfl ?_ ?_ <;>
      simp only [writerNext, calls_update, ↓reduceIte, writer_update]
    · simp only [State.releasers, calls_update, ↓reduceIte, writer_update, settling_update, busy,
        Call.record, WriterAction.stage]
      grind
    · exact Pc.isEarly_of_handedOff handed
    · rintro st e' ⟨⟩ ⟨⟩
    · exact fun _ => ⟨rfl, definite, unsent, by rintro st ⟨⟩; rfl⟩
    · exact inv.result
  | release =>
    refine inv.move ?_ ?_ ?_ ?_ ?_ ?_ inv.judged inv.pending (fun _ h => h) (fun _ h => h) ?_ ?_ <;>
      simp only [writerNext, calls_update, ↓reduceIte, writer_update]
    · rfl
    · simp only [State.releasers, calls_update, ↓reduceIte, writer_update, settling_update, busy,
        Call.release, WriterAction.stage]
      grind
    · exact inv.early
    · exact inv.late
    · exact fun h _ => h
    · rintro st e ⟨⟩
    · intro _ o e _ he old
      simp only [Explained, he] at old ⊢
      exact ⟨old.1, old.2.1, unsent, by rintro st ⟨⟩⟩
    · exact inv.result
  | _ =>
    refine inv.writer_move ?_ ?_ ?_ ?_ ?_ busy (by simp [WriterAction.stage]) ?_ ?_ ?_
      (fun _ _ => noVerdict) <;>
      simp only [writerNext, calls_update, ↓reduceIte, writer_update] <;>
      grind [Call.core, Call.reportData, WriterAction.stage, Stage.err?, Err.definite]

/-! ## The loop's steps -/

/-- A confirm for the publication: it was written under that tag, and nothing that is
recorded for it can rest on another verdict. -/
theorem takeConfirm (shape : Shape s) (tags : Tags s) {c : Confirmation}
    (head : c ∈ s.confirms) (idle : s.settling = none) (mem : (c.deliveryTag, i) ∈ s.pending)
    {t : State} (eq : t = { s with
      confirms := s.confirms.tail
      pending := forget s.pending c.deliveryTag
      settling := some ⟨i, (s.calls i).judge c.ack, false⟩ }.update i
        fun call => { call with verdict := some c.ack }) : Sound t i := by
  have handed := shape.of_pending mem
  have noVerdict := inv.pending _ mem
  have sent := tags.sent_of_confirm head mem
  have call : t.calls i = { s.calls i with verdict := some c.ack } := by simp [eq]
  constructor
  case early =>
    intro h
    rw [call] at h
    simp [Pc.isEarly_of_handedOff handed] at h
  case late =>
    rw [call]
    exact inv.late
  case settles =>
    rw [call]
    exact inv.settles
  case releases =>
    have releases := inv.releases
    simp only [State.releasers, idle] at releases
    simp only [State.releasers, eq, writer_update, settling_update]
    grind
  case err => rw [eq]; exact inv.err
  case judged =>
    intro v b h
    simp only [eq, settling_update, Option.some.injEq, Settling.mk.injEq, true_and] at h
    obtain ⟨rfl, -⟩ := h
    rw [call]
    grind [Call.judge, Judged]
  case pending =>
    intro tag h
    simp only [eq, pending_update, mem_forget] at h
    have first := (tags.pending _ _ mem).1
    have second := (tags.pending _ _ h.1).1
    rw [first] at second
    exact absurd (Option.some.inj second).symm h.2
  case verdict =>
    intro ack h
    rw [call] at h
    cases h
    exact ⟨c.deliveryTag, by rw [eq]; exact sent, by rw [eq]; exact tags.queued c head⟩
  case outcome =>
    intro _ o ho
    rw [call] at ho
    have old := inv.outcome handed o ho
    obtain ⟨v, e⟩ := o
    cases e with
    | some e => exact absurd sent (old.2.2.1 _)
    | none =>
      cases v with
      | none => simp [Explained, Judged, noVerdict] at old
      | some v => cases v <;> simp_all [Explained, Judged]
  case result =>
    rw [call]
    exact inv.result.congr rfl

/-- The loop's steps on a publication that leave the broker's verdict and the outcome. -/
theorem loop_move {t : State} (core : (t.calls i).core = (s.calls i).core)
    (pc : (t.calls i).pc = (s.calls i).pc)
    (sum : (t.calls i).releases + t.releasers i = (s.calls i).releases + s.releasers i)
    (writer : t.writer = s.writer) (pending : t.pending = s.pending)
    (sent : t.transmitted = s.transmitted) (confirmed : t.confirmed = s.confirmed)
    (judged : ∀ v b, t.settling = some ⟨i, v, b⟩ → Judged (s.calls i) v) : Sound t i := by
  refine inv.move core sum (by rw [pc]; exact inv.early) (by rw [pc]; exact inv.late)
    (by rw [pc]; exact fun h _ => h)
    (by rw [writer]; exact inv.err) judged (by rw [pending]; exact inv.pending)
    (by rw [sent]; exact fun _ h => h) (by rw [confirmed]; exact fun _ h => h) ?_
    (by rw [pc]; exact inv.result)
  intro _ o e _ he old
  simp only [Explained, he, writer, sent] at old ⊢
  exact old

/-- The loop's steps on other publications. -/
theorem loop_congr {t : State} {j : Nat} (ne : i ≠ j) (call : t.calls i = s.calls i)
    (writer : t.writer = s.writer) (pending : t.pending = s.pending)
    (sent : t.transmitted = s.transmitted) (confirmed : t.confirmed = s.confirmed)
    (before : ∀ x, s.settling = some x → x.pub = j) (after : ∀ x, t.settling = some x → x.pub = j) :
    Sound t i := by
  refine inv.congr call (by simp [writer]) (fun v b => ⟨fun h => ?_, fun h => ?_⟩)
    (by simp [pending]) (by simp [sent]) (by simp [confirmed])
  · exact absurd (after _ h) ne
  · exact absurd (before _ h) ne

theorem settle_verdict (shape : Shape s) {v : Option Cause}
    (settling : s.settling = some ⟨i, v, false⟩) (unsettled : (s.calls i).outcome = none) :
    Sound (loopNext s (.settle i v)) i := by
  have judged := inv.judged v false settling
  have handed := shape.known i (.inr (.inr (.inr (.inl ⟨v, false, settling⟩))))
  refine inv.record ⟨v, none⟩ unsettled ?_ ?_ ?_ inv.err ?_ rfl rfl rfl ?_ ?_ <;>
    simp only [loopNext, calls_update, ↓reduceIte, settling_update]
  · simp only [State.releasers, calls_update, ↓reduceIte, writer_update, settling_update, settling,
      Call.record]
    grind
  · exact Pc.isEarly_of_handedOff handed
  · rintro v' b ⟨⟩
    exact judged
  · intro _
    simp only [Explained, calls_update, ↓reduceIte]
    exact judged.congr rfl
  · exact inv.result

theorem loop (shape : Shape s) (tags : Tags s) (a : LoopAction) (en : loopEnabled s a = true) :
    Sound (loopNext s a) i := by
  cases a with
  | takeReturn r pub =>
    rcases markReturned_cases { s with wire := s.wire.tail } r with eq | ⟨t, j, -, -, eq⟩
    · rw [loopNext, eq]
      exact inv.untouched rfl rfl rfl rfl rfl rfl
    · rw [loopNext, eq]
      refine inv.loop_move ?_ ?_ ?_ rfl rfl rfl rfl inv.judged <;>
        simp only [calls_update, State.releasers, writer_update, settling_update] <;>
        grind [Call.core, Call.reportData]
  | takeConfirm c =>
    simp only [loopEnabled, Bool.and_eq_true, decide_eq_true_eq] at en
    have head := List.mem_of_head? en.2
    rcases resolve_cases { s with confirms := s.confirms.tail } c with eq | ⟨j, mem, eq⟩
    · rw [loopNext, eq]
      exact inv.untouched rfl rfl rfl rfl rfl rfl
    · by_cases own : i = j
      · subst own
        exact inv.takeConfirm shape tags head en.1.2 mem eq
      · rw [loopNext, eq]
        refine inv.congr (by simp [own]) (fun _ => .rfl) (fun v b => ?_)
          (fun _ h => (mem_forget.mp h).1) (fun _ => .rfl) fun _ h => h
        simp only [settling_update, en.1.2]
        grind
  | sweep j todo =>
    simp only [loopEnabled, Bool.and_eq_true, decide_eq_true_eq] at en
    by_cases own : i = j
    · subst own
      refine inv.loop_move rfl rfl ?_ rfl rfl rfl rfl ?_
      · simp only [loopNext, State.releasers, en.1.2]
        grind
      · rintro v b ⟨⟩
        trivial
    · exact inv.loop_congr own rfl rfl rfl rfl rfl (by simp [en.1.2]) (by simp [loopNext])
  | settle j v =>
    simp only [loopEnabled, Bool.and_eq_true, decide_eq_true_eq] at en
    by_cases own : i = j
    · subst own
      exact inv.settle_verdict shape en.1 en.2
    · exact inv.loop_congr own (by simp [loopNext, own]) rfl rfl rfl rfl (by simp [en.1])
        (by simp [loopNext])
  | skip j v =>
    simp only [loopEnabled, Bool.and_eq_true, decide_eq_true_eq] at en
    by_cases own : i = j
    · subst own
      refine inv.loop_move rfl rfl ?_ rfl rfl rfl rfl (by simp [loopNext])
      simp only [loopNext, State.releasers, en.1.1]
      grind
    · exact inv.loop_congr own rfl rfl rfl rfl rfl (by simp [en.1.1]) (by simp [loopNext])
  | release j v =>
    simp only [loopEnabled, Bool.and_eq_true, decide_eq_true_eq] at en
    by_cases own : i = j
    · subst own
      refine inv.loop_move ?_ ?_ ?_ rfl rfl rfl rfl (by simp [loopNext]) <;>
        simp only [loopNext, calls_update, ↓reduceIte]
      · rfl
      · rfl
      · simp only [State.releasers, calls_update, ↓reduceIte, writer_update, settling_update, en.1,
          Call.release]
        grind
    · exact inv.loop_congr own (by simp [loopNext, own]) rfl rfl rfl rfl (by simp [en.1])
        (by simp [loopNext])
  | endDrain reason =>
    exact inv.congr rfl (fun _ => .rfl) (fun _ _ => .rfl) (by simp [loopNext]) (fun _ => .rfl)
      fun _ h => h
  | _ => exact inv.untouched rfl rfl rfl rfl rfl rfl

/-! ## All steps -/

theorem env (shape : Shape s) (a : EnvAction) : Sound (envNext s a) i := by
  cases a with
  | call exchange key messageId uuid mandatory =>
    by_cases own : i = s.started
    · subst own
      have idle := shape.unstarted s.started (Nat.le_refl _)
      have unknown := shape.not_known (i := s.started) (by rw [idle]; rfl)
      have releases := inv.releases
      simp only [State.releasers, idle] at releases
      constructor <;> simp only [envNext, calls_update, ↓reduceIte]
      case releases =>
        simp only [State.releasers, calls_update, ↓reduceIte, writer_update, settling_update]
        grind [Pc.isReleasing]
      case err => exact inv.err
      case judged =>
        intro v b h
        exact absurd (.inr (.inr (.inr (.inl ⟨v, b, h⟩)))) unknown
      case settles => rfl
      case result => trivial
      case late => simp [Pc.isEarly]
      all_goals simp
    · exact inv.untouched (by simp [envNext, own]) rfl rfl rfl rfl rfl
  | endCtx k e =>
    refine inv.loop_move ?_ ?_ ?_ rfl rfl rfl rfl inv.judged <;>
      simp only [envNext, calls_update, State.releasers, writer_update, settling_update] <;>
      grind [Call.core, Call.reportData]
  | brokerConfirm c =>
    exact inv.congr rfl (fun _ => .rfl) (fun _ _ => .rfl) (fun _ h => h) (fun _ => .rfl)
      fun _ h => List.mem_append_left _ h
  | _ => exact inv.untouched rfl rfl rfl rfl rfl rfl

theorem next (shape : Shape s) (tags : Tags s) {a : Action} (en : enabled cfg s a = true) :
    Sound (next cfg s a) i := by
  cases a with
  | caller k a =>
    by_cases own : i = k
    · subst own
      exact inv.caller a en
    · exact inv.untouched (by simp [PubChannel.next, callerNext, own]) rfl rfl rfl rfl rfl
  | handOff k =>
    simp only [enabled, Bool.and_eq_true, decide_eq_true_eq] at en
    by_cases own : i = k
    · subst own
      exact inv.handOff en.1 en.2
    · refine inv.congr (by simp [PubChannel.next, own]) ?_ (fun _ _ => .rfl)
        (fun _ h => h) (fun _ => .rfl) fun _ h => h
      simp only [PubChannel.next, writer_update, en.2]
      grind
  | writer k a =>
    simp only [enabled, Bool.and_eq_true, decide_eq_true_eq] at en
    by_cases own : i = k
    · subst own
      exact inv.writer shape tags a en.1 en.2
    · refine inv.congr (calls_writerNext_of_ne a own) ?_ ?_ ?_ ?_ ?_ <;>
        cases a <;> simp only [PubChannel.next, writerNext, writer_update, en.1] <;>
        grind [mem_forget]
  | stop =>
    simp only [enabled, Bool.and_eq_true, decide_eq_true_eq] at en
    exact inv.congr rfl (by simp [PubChannel.next, en.1]) (fun _ _ => .rfl)
      (fun _ h => h) (fun _ => .rfl) fun _ h => h
  | loop a => exact inv.loop shape tags a en
  | env a => exact inv.env shape a

end Sound

/-! ## Who releases -/

namespace Sound
variable (sound : Sound s i)
include sound

theorem settles_le : (s.calls i).settles ≤ 1 := by
  rw [sound.settles]
  split <;> omega

theorem releases_le : (s.calls i).releases ≤ 1 := by
  have := sound.releases
  have := sound.settles_le
  omega

/-- Whoever is between the two halves of `settle` is the only one to release. -/
theorem releases_eq_zero (h : 0 < s.releasers i) : (s.calls i).releases = 0 := by
  have := sound.releases
  have := sound.settles_le
  omega

theorem releases_eq_zero_of_unsettled (h : (s.calls i).outcome = none) :
    (s.calls i).releases = 0 := by
  have := sound.releases
  have := sound.settles
  simp only [h, Option.isSome_none, Bool.false_eq_true, ↓reduceIte] at this
  omega

theorem outcome_of_releasers (h : 0 < s.releasers i) : (s.calls i).outcome ≠ none := by
  intro none
  have := sound.releases
  have := sound.settles
  simp only [none, Option.isSome_none, Bool.false_eq_true, ↓reduceIte] at this
  omega

end Sound

theorem releasers_of_pc {r : Err} (h : (s.calls i).pc = .releasing r) : 0 < s.releasers i := by
  simp only [State.releasers, h, Pc.isReleasing]
  grind

theorem releasers_of_writer (h : s.writer = .busy i .releasing) : 0 < s.releasers i := by
  simp only [State.releasers, h]
  grind

theorem releasers_of_settling {v : Option Cause} (h : s.settling = some ⟨i, v, true⟩) :
    0 < s.releasers i := by
  simp only [State.releasers, h]
  grind

theorem sound_start (i : Nat) : Sound .start i := by
  constructor <;> simp [State.start, State.releasers, Pc.isReleasing, Pc.isEarly, Reported]

theorem sound_of_reachable (reach : (system cfg).Reachable s) (i : Nat) : Sound s i := by
  refine reach.invariant (fun s => Sound s i) ?_ ?_
  · rintro s rfl
    exact sound_start i
  · intro s a t before inv hstep
    obtain ⟨en, rfl⟩ := step_iff.mp hstep
    obtain ⟨shape, tags⟩ := shape_tags_of_reachable before
    exact inv.next shape tags en

end Protobus.PubChannel
