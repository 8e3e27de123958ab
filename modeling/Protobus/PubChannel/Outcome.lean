import Protobus.PubChannel.Life

/-!
# What the results of `publish` mean

Every result of every call is sound, however the calls, the writer, the loop, the transport
and the broker interleave: `nil` and the definite verdicts rest on an answer of the broker,
the other definite errors mean that nothing was sent, and in all other cases the caller is
told that the outcome is open.
-/
namespace Protobus.PubChannel
open Library

variable {cfg : Config} {s : State} {i : Nat}

/-- Whether the loop had the broker's verdict when the call returned. -/
def Pc.verdictSeen : Pc → Bool
  | returned _ seen => seen
  | _ => false

/-- A call that has returned takes no further step. -/
theorem pc_next_of_result (shape : Shape s) {a : Action} (en : enabled cfg s a = true)
    {r : Option Err} (hr : (s.calls i).pc.result = some r) :
    ((next cfg s a).calls i).pc = (s.calls i).pc := by
  cases a with
  | caller k a =>
    have ne : i ≠ k := by
      rintro rfl
      cases a <;> simp only [enabled, callerEnabled] at en <;> grind [Pc.result]
    simp [next, callerNext, ne]
  | handOff k =>
    have ne : i ≠ k := by
      rintro rfl
      simp only [enabled] at en
      grind [Pc.result]
    simp [next, ne]
  | writer k a => exact pc_writerNext a
  | stop => rfl
  | loop a => exact pc_loopNext a
  | env a =>
    have started := shape.started_of_ne_idle (i := i) (by intro idle; simp [idle, Pc.result] at hr)
    cases a <;> simp only [next, envNext, calls_update] <;> grind

theorem pc_run_of_result {as : List Action} {t : State} (reach : (system cfg).Reachable s)
    (hrun : (system cfg).run as s = some t) {r : Option Err}
    (hr : (s.calls i).pc.result = some r) : (t.calls i).pc = (s.calls i).pc := by
  induction as generalizing s with
  | nil => cases hrun; rfl
  | cons a as ih =>
    rw [System.run] at hrun
    cases hstep : (system cfg).step s a with
    | none => simp [hstep] at hrun
    | some u =>
      rw [hstep] at hrun
      obtain ⟨en, rfl⟩ := step_iff.mp hstep
      have same := pc_next_of_result (shape_tags_of_reachable reach).1 en hr
      rw [ih (reach.step hstep) hrun (same ▸ hr), same]

/-- A result that is not a `PublishError` is only reported for a publication that was not
written. -/
theorem not_transmitted_of_definite (reach : (system cfg).Reachable s) {e : Err}
    (hr : (s.calls i).pc.result = some (some e)) (definite : e.definite = true) (t : Nat) :
    (t, i) ∉ s.transmitted := by
  have sound := sound_of_reachable reach i
  have shape := (shape_tags_of_reachable reach).1
  have result := sound.result
  intro sent
  have handed := shape.of_transmitted sent
  cases pc : (s.calls i).pc with
  | returned r seen =>
    rw [pc] at result hr
    cases hr
    rcases result with ⟨o, closeErr, ho, report, -⟩ | ⟨e', he, -⟩
    · have explained := sound.outcome handed o ho
      obtain ⟨v, sendErr⟩ := o
      cases sendErr with
      | some e' => exact explained.2.2.1 t sent
      | none =>
        cases v with
        | none => simp [Call.report] at report
        | some v =>
          simp only [Call.report, Call.fail, Option.some.injEq] at report
          simp [report, Err.definite] at definite
    · cases he
      simp [Err.definite] at definite
  | _ => simp_all [Pc.result, Pc.handedOff]

/-- `nil` and an unambiguous `PublishError` rest on a verdict that the loop had seen. -/
theorem answered_of_verdict (reach : (system cfg).Reachable s) {r : Option Err}
    (hr : (s.calls i).pc.result = some r) (publish : ∀ e, r = some e → e.definite = false)
    (clear : ∀ e, r = some (.publish e) → e.ambiguous = false) :
    (s.calls i).pc.verdictSeen = true ∧ ∃ ack, Answered s i ack ∧ (r = none → ack = true) := by
  have sound := sound_of_reachable reach i
  have result := sound.result
  cases pc : (s.calls i).pc with
  | returned r' seen =>
    have handed : (s.calls i).pc.handedOff = true := by rw [pc]; rfl
    rw [pc] at result hr
    cases hr
    rcases result with ⟨⟨v, sendErr⟩, closeErr, ho, rfl, saw⟩ | ⟨e, rfl, amb⟩
    · have explained := sound.outcome handed _ ho
      cases sendErr with
      | some e =>
        have := publish e rfl
        simp [explained.2.1] at this
      | none =>
        -- the verdicts of `resolve` carry the confirm; that of `shutdown` is ambiguous
        cases v with
        | none =>
          exact ⟨by simpa [Pc.verdictSeen] using saw, true, sound.verdict true explained,
            fun _ => rfl⟩
        | some v =>
          have clear := clear _ rfl
          cases v with
          | nacked =>
            exact ⟨by simpa [Pc.verdictSeen] using saw, false, sound.verdict false explained, nofun⟩
          | unroutable =>
            exact ⟨by simpa [Pc.verdictSeen] using saw, true, sound.verdict true explained, nofun⟩
          | channelClosed => simp [PublishError.ambiguous] at clear
          | _ => exact explained.elim
    · simp [clear e rfl] at amb
  | refused e | withdrawn e =>
    rw [pc] at result hr
    cases hr
    have := publish e rfl
    simp only [Reported] at result
    simp [result] at this
  | _ => simp [pc, Pc.result] at hr

/-- What a call of `publish` that has returned `r` may conclude. (1) `nil`: the broker acked
the tag the publication was written under. (2) Not a `PublishError`: it was not written, and
never will be. (3) A `PublishError` that is not ambiguous: the broker answered for its tag.
(4) Written, and no verdict seen before the return: an ambiguous `PublishError`. -/
theorem publish_outcome_sound (reach : (system cfg).Reachable s) (i : Nat) (r : Option Err)
    (hr : (s.calls i).pc.result = some r) :
    (r = none → Answered s i true) ∧
    (∀ e, r = some e → e.definite = true → ∀ as t, (system cfg).run as s = some t →
      ∀ tag, (tag, i) ∉ t.transmitted) ∧
    (∀ e, r = some (.publish e) → e.ambiguous = false → ∃ ack, Answered s i ack) ∧
    ((∃ tag, (tag, i) ∈ s.transmitted) → (s.calls i).pc.verdictSeen = false →
      ∃ e, r = some (.publish e) ∧ e.ambiguous = true) := by
  refine ⟨?_, ?_, ?_, ?_⟩
  · rintro rfl
    obtain ⟨-, ack, answered, isAck⟩ := answered_of_verdict reach hr nofun nofun
    exact isAck rfl ▸ answered
  · rintro e rfl definite as t hrun
    have same := pc_run_of_result reach hrun hr
    exact not_transmitted_of_definite (reach.run hrun) (same ▸ hr) definite
  · rintro e rfl clear
    obtain ⟨-, ack, answered, -⟩ := answered_of_verdict reach hr (by rintro _ ⟨⟩; rfl)
      (by rintro _ ⟨⟩; exact clear)
    exact ⟨ack, answered⟩
  · rintro ⟨tag, sent⟩ unseen
    by_contra none
    have publish (e : Err) (he : r = some e) : e.definite = false := by
      by_contra definite
      exact not_transmitted_of_definite reach (he ▸ hr) (by simpa using definite) tag sent
    have seen := (answered_of_verdict reach hr publish fun e he => by
      by_contra amb
      exact none ⟨e, he, by simpa using amb⟩).1
    simp [seen] at unseen

/-- One publication, written and acked. -/
theorem publish_outcome_sound_acked : ∃ s, (system ⟨1, []⟩).Reachable s ∧
    (s.calls 0).pc.result = some none ∧ Answered s 0 true := by
  have reach : (system ⟨1, []⟩).Reachable _ := .run (.init rfl) (rfl : (system ⟨1, []⟩).run
    [.env (.call [1] [2] [3] [4] true), .caller 0 .enter, .caller 0 .takeSlot, .handOff 0,
      .writer 0 .checkCtx, .writer 0 .checkClosed, .writer 0 .register, .writer 0 (.commit 1),
      .writer 0 (.transmit 1), .caller 0 .seeCommit, .env (.brokerConfirm ⟨1, true⟩),
      .env (.read ⟨1, true⟩), .loop (.takeConfirm ⟨1, true⟩), .loop (.settle 0 none),
      .loop (.release 0 none), .caller 0 (.seeDone ⟨none, none⟩)] .start = some _)
  exact ⟨_, reach, rfl, (publish_outcome_sound reach 0 none rfl).1 rfl⟩

end Protobus.PubChannel
