import Protobus.Stream.Call
import Protobus.Library.ProtowireReference

/-!
# Streams that end with an error

A service error is the body of a final frame. When the runs of a handler differ, that frame can
carry a number that the caller has seen from an earlier run: `push` then drops its body and
still takes the stream for ended. Where no error comes under an old number, every stream that
ends with one ends the caller's range with an error.
-/
namespace Protobus.Stream
open Library Amqp Consumer

section
variable (cfg : Setting)

/-- The final frame of a stream that the service ended with an error. -/
def isErrorEnd (f : Delivery) : Bool :=
  streamFinal cfg.wide f.headers && isResponseError cfg.pw f.body

/-- The number of the frame, if it has one, has not been seen. -/
def unseen (s : ClientStream) (f : Delivery) : Bool :=
  match streamSeq cfg.wide f.headers with
  | some seq => int64 (s.lastSeq + 1) ≤ seq
  | none => true

/-- No error end reaches a stream that goes on under a number it has seen. -/
def freshErrors (s : State) : Action → Bool
  | .deliver r i => match (s.runs r).stream.stored[i]? with
    | some f =>
      let dl := f.deliver cfg.d.replyTo
      s.client.ended || !isErrorEnd cfg dl || unseen cfg s.client dl
    | none => true
  | _ => true

variable {cfg}

theorem body_ne_nil {f : Delivery} (isError : isErrorEnd cfg f = true) : f.body ≠ [] := by
  intro nil
  simp [isErrorEnd, isResponseError, nil, Wire.decodeResponse, Wire.walk, Wire.walkLoop] at isError

end

/-- An error that ended the stream is buffered or has been handed out, as long as the stream has
not failed otherwise. It has been handed out when the end is reported. -/
structure ErrorKept (cfg : Setting) (s : State) : Prop where
  going : s.client.ended = false → s.endedBy = none ∧ s.report ≠ some none
  held : ∀ f, s.endedBy = some f → isErrorEnd cfg f = true → s.client.err = none →
    f.body ∈ s.handed ∨ f.body ∈ s.client.chunks
  reported : ∀ f, s.endedBy = some f → isErrorEnd cfg f = true → s.report = some none →
    f.body ∈ s.handed

namespace ErrorKept
variable {cfg : Setting}

theorem start : ErrorKept cfg .start := ⟨fun _ => ⟨rfl, nofun⟩, nofun, nofun⟩

variable {s : State} (inv : ErrorKept cfg s)
include inv

/-- A step that fails the stream. -/
theorem failed {c : ClientStream} (buffered : Int) (err : c.err ≠ none) (ended : c.ended = true) :
    ErrorKept cfg { s with client := c, buffered } where
  going running := absurd ended (Bool.eq_false_iff.mp running)
  held _ _ _ none := absurd none err
  reported := inv.reported

theorem deliver {dl : Delivery} {c : ClientStream} (buffered : Int)
    (going : s.client.ended = false)
    (fresh : isErrorEnd cfg dl = true → unseen cfg s.client dl = true)
    (pushed : Pushed cfg.wide s.client dl c) :
    ErrorKept cfg { s with
      client := c
      buffered
      endedBy := if c.ended then some dl else s.endedBy } := by
  obtain ⟨notBy, notDone⟩ := inv.going going
  refine ⟨?_, ?_, fun _ _ _ done => absurd done notDone⟩
  · intro (running : c.ended = false)
    exact ⟨by simp [running, notBy], notDone⟩
  · intro f endedBy isError noErr
    have ended : c.ended = true := by
      by_contra running
      simp [running, notBy] at endedBy
    obtain rfl : dl = f := by simpa [ended] using endedBy
    cases pushed with
    | old number older =>
      -- the body would be lost here
      have unseen := fresh isError
      simp only [Stream.unseen, number, decide_eq_true_eq] at unseen
      omega
    | failed err _ => exact absurd noErr err
    | taken _ _ chunks _ =>
      right
      rw [chunks]
      simp [body_ne_nil isError]

theorem next {t : State} (answer : Nexts s t) : ErrorKept cfg t := by
  cases answer with
  | failed err isErr =>
    have before (done : (s.report <|> some (some err)) = some none) : s.report = some none := by
      cases report : s.report <;> simp_all
    refine ⟨fun running => ⟨(inv.going running).1, mt before (inv.going running).2⟩, inv.held, ?_⟩
    intro f endedBy isError done
    exact inv.reported f endedBy isError (before done)
  | chunk bytes buffered noErr chunks =>
    refine ⟨inv.going, ?_, ?_⟩
    · intro f endedBy isError _
      have held := inv.held f endedBy isError noErr
      rw [chunks] at held
      simp only [List.mem_append, List.mem_cons] at held ⊢
      tauto
    · intro f endedBy isError done
      exact List.mem_append_left _ (inv.reported f endedBy isError done)
  | done noErr drained ended =>
    refine ⟨fun running => absurd ended (Bool.eq_false_iff.mp running), inv.held, ?_⟩
    intro f endedBy isError _
    simpa [drained] using inv.held f endedBy isError noErr
  | wait => exact inv

end ErrorKept

theorem errorKept_reachable {cfg : Setting} {s : State}
    (reach : ((system cfg).restrict (freshErrors cfg)).Reachable s) : ErrorKept cfg s := by
  apply reach.invariant (ErrorKept cfg)
  · rintro s rfl
    exact .start
  · intro s a t _ inv hstep
    obtain ⟨fresh, hstep⟩ := System.restrict_step.mp hstep
    cases steps_of_step hstep with
    | pushed buffered stored going pushed =>
      refine inv.deliver buffered going (fun isError => ?_) pushed
      simpa [freshErrors, stored, going, isError] using fresh
    | next answer => exact inv.next answer
    | fail err buffered _ failed ended => exact inv.failed buffered failed ended
    | release buffered failed ended => exact inv.failed buffered failed ended
    | run | ignored | tooLate | others => exact ⟨inv.going, inv.held, inv.reported⟩

/-! ## Draining an ended stream -/

theorem report_nextStep {s : State} (reported : s.report.isSome) :
    (nextStep s).report.isSome := by
  have answer := nextStep_cases s
  generalize nextStep s = t at answer
  cases answer <;> simp [reported]

/-- Once the stream has ended, `next` comes to the end after the chunks that are buffered. -/
theorem report_drained {s : State} (ended : s.client.ended = true) :
    (nextStep^[s.client.chunks.length + 1] s).report.isSome := by
  induction count : s.client.chunks.length generalizing s with
  | zero =>
    rw [zero_add, Function.iterate_one]
    have answer := nextStep_cases s
    generalize nextStep s = t at answer
    cases answer with
    | failed | done => simp
    | chunk _ _ _ chunks => simp [chunks] at count
    | wait _ _ going => simp [ended] at going
  | succ n ih =>
    rw [Function.iterate_succ_apply]
    have answer := nextStep_cases s
    generalize nextStep s = t at answer
    cases answer with
    | chunk _ _ _ chunks => exact ih ended (by simpa [chunks] using count)
    | failed | done =>
      exact Function.Iterate.rec (fun s : State => s.report.isSome = true)
        (by simp) (fun _ => report_nextStep) _
    | wait _ _ going => simp [ended] at going

theorem endedBy_nextStep (s : State) : (nextStep s).endedBy = s.endedBy := by
  have answer := nextStep_cases s
  generalize nextStep s = t at answer
  cases answer <;> rfl

theorem rangeEnd_of_report (pw : Protowire) (method : Bytes) (unmarshal : Bytes → Bool)
    (handed : List Bytes) {report : Option (Option ClientErr)} (reported : report.isSome) :
    rangeEnd pw method unmarshal handed report ≠ .running := by
  induction handed with
  | nil =>
    obtain ⟨report, rfl⟩ := Option.isSome_iff_exists.mp reported
    cases report <;> simp [rangeEnd]
  | cons chunk rest ih =>
    simp only [rangeEnd]
    split
    · simp
    · exact ih

/-! ## The caller's range -/

/-- The range does not finish after a stream that the service ended with an error. -/
theorem rangeEnd_ne_finished {cfg : Setting} {s : State} (unmarshal : Bytes → Bool)
    (inv : ErrorKept cfg s) {f : Delivery} (endedBy : s.endedBy = some f)
    (isError : isErrorEnd cfg f = true) :
    rangeEnd cfg.pw cfg.method unmarshal s.handed s.report ≠ .finished := by
  intro finished
  obtain ⟨done, results⟩ := decodes_of_finished finished
  have handed := inv.reported f endedBy isError done
  have isResponse : isResponseError cfg.pw f.body = true := (Bool.and_eq_true_iff.mp isError).2
  simp [results f.body handed] at isResponse

/-- Where no error comes under a number already seen, a stream that the service ended with an
error never finishes the caller's range, and ends it with an error as soon as the caller has
drained it. -/
theorem error_ends_range {cfg : Setting} {s : State} (unmarshal : Bytes → Bool)
    (reach : ((system cfg).restrict (freshErrors cfg)).Reachable s) {f : Delivery}
    (endedBy : s.endedBy = some f) (isError : isErrorEnd cfg f = true) :
    rangeEnd cfg.pw cfg.method unmarshal s.handed s.report ≠ .finished ∧
      (let drained := nextStep^[s.client.chunks.length + 1] s
       rangeEnd cfg.pw cfg.method unmarshal drained.handed drained.report = .failed) := by
  have inv := errorKept_reachable reach
  refine ⟨rangeEnd_ne_finished unmarshal inv endedBy isError, ?_⟩
  intro drained
  have ended : s.client.ended = true := by
    by_contra running
    simp [(inv.going (Bool.eq_false_iff.mpr running)).1] at endedBy
  have after : ErrorKept cfg drained ∧ drained.endedBy = some f := by
    refine Function.Iterate.rec (fun s => ErrorKept cfg s ∧ s.endedBy = some f) ⟨inv, endedBy⟩ ?_ _
    rintro s ⟨inv, endedBy⟩
    exact ⟨inv.next (nextStep_cases s), (endedBy_nextStep s).trans endedBy⟩
  have notRunning := rangeEnd_of_report cfg.pw cfg.method unmarshal drained.handed
    (report_drained ended)
  have notFinished := rangeEnd_ne_finished unmarshal after.1 after.2 isError
  cases result : rangeEnd cfg.pw cfg.method unmarshal drained.handed drained.report with
  | running => exact absurd result notRunning
  | finished => exact absurd result notFinished
  | failed => rfl

/-- One run that sends a message and fails. -/
theorem error_ends_range_single :
    let sc : Script := ⟨[lit "a"], some ⟨lit "no", lit "E"⟩, by decide⟩
    let cfg : Setting := ⟨.reference, 0, ⟨256, 1024, 4096⟩, { replyTo := lit "caller" },
      lit "Log.tail", fun _ => sc⟩
    ∃ s, ((system cfg).restrict (freshErrors cfg)).Reachable s ∧
      (let drained := nextStep^[s.client.chunks.length + 1] s
       rangeEnd cfg.pw cfg.method (fun _ => true) drained.handed drained.report = .failed) := by
  intro sc cfg
  let ok : Moment := ⟨false, .ok⟩
  let steps : List Action :=
    [.send 0 none none ok, .finish 0 false ok ok, .deliver 0 0, .deliver 0 1, .next]
  have ran : (((system cfg).restrict (freshErrors cfg)).run steps State.start).map
      (fun s => s.endedBy.any (isErrorEnd cfg)) = some true := by
    decide +kernel
  obtain ⟨s, run, result⟩ := Option.map_eq_some_iff.mp ran
  obtain ⟨f, endedBy, isError⟩ := (Option.any_eq_true _ _).mp result
  have reach : ((system cfg).restrict (freshErrors cfg)).Reachable s := .run (.init rfl) run
  exact ⟨s, reach, (error_ends_range (fun _ => true) reach endedBy isError).2⟩

/-- A run stores two frames and cannot publish its third. The run after it fails at its second
message: its error comes under the number 1, which the caller has seen, and is dropped, so the
range finishes. -/
theorem error_end_dropped :
    let cfg : Setting := ⟨.reference, 0, ⟨256, 1024, 4096⟩, { replyTo := lit "caller" },
      lit "Log.tail", fun r => if r = 0 then ⟨[lit "a", lit "b", lit "c"], none, by decide⟩
        else ⟨[lit "a"], some ⟨lit "no", lit "E"⟩, by decide⟩⟩
    ∃ s f, (system cfg).Reachable s ∧ s.endedBy = some f ∧ isErrorEnd cfg f = true ∧
      rangeEnd cfg.pw cfg.method (fun _ => true) s.handed s.report = .finished := by
  intro cfg
  let ok : Moment := ⟨false, .ok⟩
  let lost : Moment := ⟨false, .failed (lit "closed") false⟩
  let steps : List Action :=
    [.send 0 none none ok, .send 0 none none ok, .send 0 none none ok, .finish 0 false lost ok,
      .deliver 0 0, .deliver 0 1, .send 1 none none ok, .finish 1 false ok ok,
      .deliver 1 0, .deliver 1 1, .next, .next, .next]
  have ran : ((system cfg).run steps State.start).map (fun s => (s.endedBy.any (isErrorEnd cfg),
      rangeEnd cfg.pw cfg.method (fun _ => true) s.handed s.report)) = some (true, .finished) := by
    decide +kernel
  obtain ⟨s, run, result⟩ := Option.map_eq_some_iff.mp ran
  obtain ⟨isEnd, finished⟩ := Prod.mk.inj result
  obtain ⟨f, endedBy, isError⟩ := (Option.any_eq_true _ _).mp isEnd
  exact ⟨s, f, .run (.init rfl) run, endedBy, isError, finished⟩

end Protobus.Stream
