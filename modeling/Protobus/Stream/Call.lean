import Protobus.Stream.Client
import Protobus.Library.Transition
import Mathlib.Logic.Function.Basic

/-!
# A streaming call

The runs of a handler for one call (the first, its retries and overlapping redeliveries), the
frames they have stored with the broker, and the caller's stream. The broker delivers stored
frames in any order, any number of times or never.
-/
namespace Protobus.Stream
open Library Amqp Consumer

/-- A run of the handler: how many messages it has sent, and whether it has ended. A run that
gets an error from `SendMsg` is cut off there. -/
structure Run where
  stream : ServerStream := {}
  sent : Nat := 0
  stopped : Bool := false

section
variable (pw : Protowire) (d : Delivery) (method : Bytes) (run : Run)

def Run.send (ctx : Option Cause) (data : Except Bytes Bytes) (m : Moment) : Run :=
  match sendMsg pw d method run.stream ctx data m with
  | (stream, none) => { run with stream, sent := run.sent + 1 }
  | (stream, some _) => { run with stream, stopped := true }

def Run.finish (cancelled : Bool) (handlerErr : Option HandlerError) (m m' : Moment) : Run :=
  { run with
    stream := (Stream.finish pw d method run.stream cancelled handlerErr m m').1
    stopped := true }

end

/-- `handed` and `report` are what `next` has returned so far; `endedBy` is the frame that
ended the stream. -/
structure State where
  runs : Nat → Run
  client : ClientStream
  buffered : Int
  handed : List Bytes
  report : Option (Option ClientErr)
  endedBy : Option Delivery

def State.start : State where
  runs := fun _ => {}
  client := {}
  buffered := 0
  handed := []
  report := none
  endedBy := none

inductive Action
  | send (r : Nat) (ctx : Option Cause) (marshalErr : Option Bytes) (m : Moment)
  | finish (r : Nat) (cancelled : Bool) (m m' : Moment)
  /-- A frame that the run `r` has stored reaches the caller. -/
  | deliver (r i : Nat)
  | next
  | fail (err : Bytes)
  | release
  /-- Other streams of the process take or return bytes. -/
  | others (buffered : Int)

/-- What is fixed for a call: the request, and what each run does. -/
structure Setting where
  pw : Protowire
  wide : Int
  limits : Limits
  d : Delivery
  method : Bytes
  script : Nat → Script

section
variable (cfg : Setting) (s : State)

def setClient (c : ClientStream × Int) : State := { s with client := c.1, buffered := c.2 }

def sendStep (r : Nat) (ctx : Option Cause) (marshalErr : Option Bytes) (m : Moment) :
    Option State :=
  let run := s.runs r
  match run.stopped, (cfg.script r).messages[run.sent]? with
  | false, some data =>
    let data := match marshalErr with | some err => .error err | none => .ok data
    some { s with
      runs := Function.update s.runs r (run.send cfg.pw cfg.d cfg.method ctx data m) }
  | _, _ => none

def finishStep (r : Nat) (cancelled : Bool) (m m' : Moment) : Option State :=
  let run := s.runs r
  if run.stopped || run.sent ≠ (cfg.script r).messages.length then none
  else
    let run := run.finish cfg.pw cfg.d cfg.method cancelled (cfg.script r).ending m m'
    some { s with runs := Function.update s.runs r run }

def deliverStep (f : Publishing) : State :=
  let dl := f.deliver cfg.d.replyTo
  let c := push cfg.wide cfg.limits s.client s.buffered dl
  { setClient s c with endedBy := if !s.client.ended && c.1.ended then some dl else s.endedBy }

/-- The first end that `next` reports is the one the caller sees. -/
def nextStep : State :=
  match next s.client s.buffered with
  | (c, .chunk body) => { setClient s c with handed := s.handed ++ [body] }
  | (c, .done err) => { setClient s c with report := s.report <|> some err }
  | (c, .wait) => setClient s c

def step : Action → Option State
  | .send r ctx marshalErr m => sendStep cfg s r ctx marshalErr m
  | .finish r cancelled m m' => finishStep cfg s r cancelled m m'
  | .deliver r i => ((s.runs r).stream.stored[i]?).map (deliverStep cfg s)
  | .next => some (nextStep s)
  | .fail err => some (setClient s (fail s.client s.buffered err))
  | .release => some (setClient s (release s.client s.buffered))
  | .others buffered => some { s with buffered }

end

def system (cfg : Setting) : System State Action where
  init s := s = .start
  step := step cfg

/-! ## The steps -/

section
variable (cfg : Setting)

/-- What the run `r` of a call may do next. -/
inductive Advances (r : Nat) (run : Run) : Run → Prop
  | send {data : Bytes} (ctx : Option Cause) (marshalErr : Option Bytes) (m : Moment) :
      run.stopped = false → (cfg.script r).messages[run.sent]? = some data →
      Advances r run (run.send cfg.pw cfg.d cfg.method ctx
        (match marshalErr with | some err => .error err | none => .ok data) m)
  | finish (cancelled : Bool) (m m' : Moment) :
      run.stopped = false → run.sent = (cfg.script r).messages.length →
      Advances r run (run.finish cfg.pw cfg.d cfg.method cancelled (cfg.script r).ending m m')

/-- The four answers of `next`. -/
inductive Nexts (s : State) : State → Prop
  | failed (err : ClientErr) : s.client.err = some err →
      Nexts s { s with report := s.report <|> some (some err) }
  | chunk {chunk : Bytes} {rest : List Bytes} (bytes buffered : Int) :
      s.client.err = none → s.client.chunks = chunk :: rest →
      Nexts s { s with
        client := { s.client with chunks := rest, bytes }
        buffered
        handed := s.handed ++ [chunk] }
  | done : s.client.err = none → s.client.chunks = [] → s.client.ended = true →
      Nexts s { s with report := s.report <|> some none }
  | wait : s.client.err = none → s.client.chunks = [] → s.client.ended = false → Nexts s s

theorem nextStep_cases (s : State) : Nexts s (nextStep s) := by
  cases err : s.client.err with
  | some e => simpa [nextStep, next, err, setClient] using Nexts.failed e err
  | none =>
    cases chunks : s.client.chunks with
    | cons chunk rest =>
      simpa [nextStep, next, err, chunks, setClient] using Nexts.chunk _ _ err chunks
    | nil =>
      cases ended : s.client.ended with
      | true =>
        simpa [nextStep, next, err, chunks, ended, setClient] using Nexts.done err chunks ended
      | false =>
        simpa [nextStep, next, err, chunks, ended, setClient] using Nexts.wait err chunks ended

/-- The steps of a call, with their guards. -/
inductive Steps (s : State) : Action → State → Prop
  | run {a : Action} {r : Nat} {run : Run} : Advances cfg r (s.runs r) run →
      Steps s a { s with runs := Function.update s.runs r run }
  | ignored {r i : Nat} : s.client.ended = true → Steps s (.deliver r i) s
  | pushed {r i : Nat} {f : Publishing} {c : ClientStream} (buffered : Int) :
      (s.runs r).stream.stored[i]? = some f → s.client.ended = false →
      Pushed cfg.wide s.client (f.deliver cfg.d.replyTo) c →
      Steps s (.deliver r i) { s with
        client := c
        buffered
        endedBy := if c.ended then some (f.deliver cfg.d.replyTo) else s.endedBy }
  | next {t : State} : Nexts s t → Steps s .next t
  | fail {c : ClientStream} (err : Bytes) (buffered : Int) : s.client.ended = false →
      c.err ≠ none → c.ended = true → Steps s (.fail err) { s with client := c, buffered }
  | tooLate (err : Bytes) : s.client.ended = true → Steps s (.fail err) s
  | release {c : ClientStream} (buffered : Int) : c.err ≠ none → c.ended = true →
      Steps s .release { s with client := c, buffered }
  | others (buffered : Int) : Steps s (.others buffered) { s with buffered }

variable {cfg}

theorem steps_of_step {s t : State} {a : Action} (hstep : (system cfg).step s a = some t) :
    Steps cfg s a t := by
  cases a with
  | send r ctx marshalErr m =>
    simp only [system, step, sendStep] at hstep
    split at hstep
    · next data going more =>
      cases hstep
      exact .run (.send ctx marshalErr m going more)
    · cases hstep
  | finish r cancelled m m' =>
    simp only [system, step, finishStep] at hstep
    split at hstep
    · cases hstep
    · next guard =>
      cases hstep
      simp only [Bool.or_eq_true, decide_eq_true_eq, not_or, Bool.not_eq_true, not_not] at guard
      exact .run (.finish cancelled m m' guard.1 guard.2)
  | deliver r i =>
    obtain ⟨f, stored, rfl⟩ := Option.map_eq_some_iff.mp hstep
    cases ended : s.client.ended with
    | true => simpa [deliverStep, push, ended, setClient] using Steps.ignored ended
    | false =>
      have pushed := push_cases cfg.wide cfg.limits ended s.buffered (f.deliver cfg.d.replyTo)
      simpa [deliverStep, setClient, ended] using Steps.pushed _ stored ended pushed
  | next =>
    cases hstep
    exact .next (nextStep_cases s)
  | fail err =>
    cases hstep
    cases ended : s.client.ended with
    | true => simpa [fail, ended, setClient] using Steps.tooLate err ended
    | false =>
      simp only [fail, ended, Bool.false_eq_true, if_false]
      exact .fail err _ ended nofun rfl
  | release =>
    cases hstep
    apply Steps.release
    · cases err : s.client.err <;> simp [release, dropBuffer, err]
    · rfl
  | others buffered =>
    cases hstep
    exact .others buffered

end

/-! ## What a run stores -/

section
variable {pw : Protowire} {d : Delivery} {method : Bytes}

/-- All frames of the list belong to the complete run. -/
def FramesOf (pw : Protowire) (d : Delivery) (method : Bytes) (sc : Script)
    (stored : List Publishing) : Prop :=
  ∀ f ∈ stored, ∃ i < (sc.bodies pw method).length, f = sc.frame pw d method i

/-- A run of the script has stored frames of the complete run only. While it goes on, it has
the last message sent in hand and has published those before it. -/
structure RunOf (pw : Protowire) (d : Delivery) (method : Bytes) (sc : Script) (run : Run) :
    Prop where
  stored : FramesOf pw d method sc run.stream.stored
  le : run.sent ≤ sc.messages.length
  clean : run.stopped = false → run.stream.err = none ∧ run.stream.done = false
  seq : run.stopped = false → run.stream.seq = (run.sent - 1 : Nat)
  pending : run.stopped = false → run.stream.pending =
    match run.sent with
    | 0 => none
    | k + 1 => some (resultBody pw method (sc.messages.getD k []))

section
variable (pw : Protowire) (method : Bytes) (sc : Script)

theorem length_bodies : (sc.bodies pw method).length =
    if sc.ending.isSome then sc.messages.length + 1 else max 1 sc.messages.length := by
  unfold Script.bodies
  cases sc.ending with
  | some e => simp
  | none =>
    by_cases empty : sc.messages = []
    · simp [empty]
    · have := List.length_pos_iff.mpr empty
      simp [empty]
      omega

theorem messages_le : sc.messages.length ≤ (sc.bodies pw method).length := by
  rw [length_bodies]
  split <;> omega

theorem bodies_message {i : Nat} (lt : i < sc.messages.length) :
    (sc.bodies pw method).getD i [] = resultBody pw method (sc.messages.getD i []) := by
  have some : sc.messages ≠ [] := List.ne_nil_of_length_pos (by omega)
  unfold Script.bodies
  cases sc.ending <;> simp [some, lt, List.getElem?_append_left]

end

variable {sc : Script}

/-- The frame of a message that is followed by another frame. -/
theorem frame_message {i : Nat} (lt : i < sc.messages.length)
    (more : i + 1 < (sc.bodies pw method).length) :
    frame d (resultBody pw method (sc.messages.getD i [])) false i = sc.frame pw d method i := by
  have notLast : ¬i + 1 = (sc.bodies pw method).length := by omega
  rw [Script.frame, bodies_message pw method sc lt]
  simp [notLast]

/-- The final frame of a run that ends well. -/
theorem frame_last {n : Nat} (ending : sc.ending = none) (last : sc.messages.length = n + 1) :
    frame d (resultBody pw method (sc.messages.getD n [])) true n = sc.frame pw d method n := by
  have length : (sc.bodies pw method).length = n + 1 := by
    simp [length_bodies, ending, last]
  rw [Script.frame, bodies_message pw method sc (by omega), length]
  simp

/-- The final frame of an empty stream that ends well. -/
theorem frame_empty (ending : sc.ending = none) (empty : sc.messages.length = 0) :
    frame d [] true 0 = sc.frame pw d method 0 := by
  simp [Script.frame, Script.bodies, ending, List.length_eq_zero_iff.mp empty]

/-- The final frame of a run that fails. -/
theorem frame_error {e : HandlerError} (ending : sc.ending = some e) :
    frame d (serviceErrorBody pw method e) true sc.messages.length =
      sc.frame pw d method sc.messages.length := by
  simp [Script.frame, Script.bodies, ending]

/-- One publish, of the frame that is due, stores it or nothing. It goes on to the next number
if it succeeds. -/
theorem publish_due {s : ServerStream} {body : Bytes} {final : Bool} {i : Nat}
    (before : FramesOf pw d method sc s.stored) (lt : i < (sc.bodies pw method).length)
    (due : frame d body final s.seq = sc.frame pw d method i) (m : Moment) :
    ∃ stored, FramesOf pw d method sc stored ∧
      (publish d s body final m = ({ s with seq := int64 (s.seq + 1), stored }, none) ∨
        ∃ err, publish d s body final m = ({ s with stored }, some err)) := by
  obtain ⟨cancelled, reply⟩ := m
  have after : FramesOf pw d method sc (s.stored ++ [frame d body final s.seq]) := by
    intro f mem
    rcases List.mem_append.mp mem with old | new
    · exact before f old
    · exact ⟨i, lt, (List.mem_singleton.mp new).trans due⟩
  unfold publish
  split
  · exact ⟨_, before, .inl rfl⟩
  · split
    · exact ⟨_, before, .inr ⟨_, rfl⟩⟩
    · cases reply with
      | ok => exact ⟨_, after, .inl rfl⟩
      | failed err stored =>
        cases stored with
        | false => exact ⟨_, before, .inr ⟨_, rfl⟩⟩
        | true => exact ⟨_, after, .inr ⟨_, rfl⟩⟩

theorem FramesOf.publish {s : ServerStream} {body : Bytes} {final : Bool} {i : Nat}
    (before : FramesOf pw d method sc s.stored) (lt : i < (sc.bodies pw method).length)
    (due : frame d body final s.seq = sc.frame pw d method i) (m : Moment) :
    FramesOf pw d method sc (publish d s body final m).1.stored := by
  obtain ⟨stored, frames, result | ⟨err, result⟩⟩ := publish_due before lt due m
  · rwa [result]
  · rwa [result]

namespace RunOf
variable {run : Run}

theorem fresh : RunOf pw d method sc {} where
  stored _ mem := absurd mem List.not_mem_nil
  le := Nat.zero_le _
  clean _ := ⟨rfl, rfl⟩
  seq _ := rfl
  pending _ := rfl

variable (inv : RunOf pw d method sc run) (going : run.stopped = false)
include inv

/-- A run that ends here, with what it has stored. -/
theorem stop {stream : ServerStream} (stored : FramesOf pw d method sc stream.stored) :
    RunOf pw d method sc { run with stream, stopped := true } :=
  ⟨stored, inv.le, nofun, nofun, nofun⟩

include going

/-- The frame of the message in hand, when another frame follows it. -/
theorem due {k : Nat} (sent : run.sent = k + 1) (more : k + 1 < (sc.bodies pw method).length) :
    frame d (resultBody pw method (sc.messages.getD k [])) false run.stream.seq =
      sc.frame pw d method k := by
  have le := inv.le
  rw [inv.seq going, sent]
  exact frame_message (by omega) more

/-- Publishing the message in hand comes to the number of the next frame. -/
theorem seq_succ {k : Nat} (sent : run.sent = k + 1) :
    int64 (run.stream.seq + 1) = (k + 1 : Nat) := by
  have le := inv.le
  have := sc.countable
  rw [inv.seq going, sent, int64_eq] <;> omega

theorem send {data : Bytes} (next : sc.messages[run.sent]? = some data)
    (ctx : Option Cause) (marshalErr : Option Bytes) (m : Moment) :
    RunOf pw d method sc (run.send pw d method ctx
      (match marshalErr with | some err => .error err | none => .ok data) m) := by
  have lt : run.sent < sc.messages.length := (List.getElem?_eq_some_iff.mp next).1
  have held : data = sc.messages.getD run.sent [] := by
    rw [List.getD_eq_getElem?_getD, next, Option.getD_some]
  obtain ⟨err, done⟩ := inv.clean going
  have seq := inv.seq going
  have pending := inv.pending going
  cases ctx with
  | some cause => exact inv.stop inv.stored
  | none =>
    cases marshalErr with
    | some err => exact inv.stop inv.stored
    | none =>
      cases sent : run.sent with
      | zero =>
        simp only [sent] at pending seq lt held
        simp only [Run.send, sendMsg, done, err, pending, sent]
        exact ⟨inv.stored, lt, fun _ => ⟨rfl, rfl⟩, fun _ => seq, fun _ => by simp [held]⟩
      | succ k =>
        simp only [sent] at pending seq lt held
        have more : k + 1 < (sc.bodies pw method).length :=
          lt.trans_le (messages_le pw method sc)
        obtain ⟨stored, frames, result⟩ :=
          publish_due inv.stored (k.lt_succ_self.trans more) (inv.due going sent more) m
        rcases result with result | ⟨e, result⟩
        · have count := inv.seq_succ going sent
          simp only [Run.send, sendMsg, done, err, pending, result, sent]
          exact ⟨frames, lt, fun _ => ⟨rfl, rfl⟩, fun _ => count, fun _ => by simp [held]⟩
        · simp only [Run.send, sendMsg, done, err, pending, result]
          exact inv.stop frames

/-- A run that ends well has one frame left, the final one. -/
theorem finish_well (sent : run.sent = sc.messages.length) (ending : sc.ending = none)
    (m m' : Moment) : FramesOf pw d method sc
      (Stream.finish pw d method run.stream false none m m').1.stored := by
  obtain ⟨err, -⟩ := inv.clean going
  have seq := inv.seq going
  have pending := inv.pending going
  have length := length_bodies pw method sc
  simp only [ending, Option.isSome_none, Bool.false_eq_true, if_false] at length
  simp only [Stream.finish, err, Bool.false_eq_true, if_false]
  cases n : sc.messages.length with
  | zero =>
    simp only [sent, n] at pending seq
    have due : frame d [] true run.stream.seq = sc.frame pw d method 0 := by
      rw [seq]
      exact frame_empty ending n
    simp only [pending]
    refine FramesOf.publish (i := 0) ?_ ?_ ?_ m
    exacts [inv.stored, by omega, due]
  | succ k =>
    simp only [sent, n] at pending seq
    have due : _ = sc.frame pw d method k := frame_last ending n
    simp only [pending]
    refine FramesOf.publish ?_ ?_ (seq ▸ due) m
    exacts [inv.stored, by omega]

/-- A run that fails publishes the message in hand, if any, and then its error. -/
theorem finish_failed (sent : run.sent = sc.messages.length) {e : HandlerError}
    (ending : sc.ending = some e) (m m' : Moment) : FramesOf pw d method sc
      (Stream.finish pw d method run.stream false (some e) m m').1.stored := by
  obtain ⟨err, -⟩ := inv.clean going
  have seq := inv.seq going
  have pending := inv.pending going
  have length := length_bodies pw method sc
  have due : _ = sc.frame pw d method _ := frame_error ending
  simp only [ending, Option.isSome_some, if_true] at length
  simp only [Stream.finish, err, Bool.false_eq_true, if_false]
  cases n : sc.messages.length with
  | zero =>
    simp only [sent, n] at pending seq due
    simp only [pending]
    refine FramesOf.publish ?_ ?_ (seq ▸ due) m'
    exacts [inv.stored, by omega]
  | succ k =>
    simp only [sent, n] at pending due
    have more : k + 1 < (sc.bodies pw method).length := by omega
    obtain ⟨stored, frames, result⟩ := publish_due (s := { run.stream with done := true })
      inv.stored (k.lt_succ_self.trans more) (inv.due going (sent.trans n) more) m
    simp only [err, pending] at result
    rcases result with result | ⟨e', result⟩
    · have count := inv.seq_succ going (sent.trans n)
      simp only [pending, result]
      exact FramesOf.publish frames more (count ▸ due) m'
    · simpa only [pending, result] using frames

theorem finish (sent : run.sent = sc.messages.length) (cancelled : Bool) (m m' : Moment) :
    RunOf pw d method sc (run.finish pw d method cancelled sc.ending m m') := by
  apply inv.stop
  cases cancelled with
  | true => exact inv.stored
  | false =>
    cases ending : sc.ending with
    | none => exact inv.finish_well going sent ending m m'
    | some e => exact inv.finish_failed going sent ending m m'

end RunOf

/-- Every run of a call stores frames of its own script. -/
theorem runOf_reachable {cfg : Setting} {s : State} (reach : (system cfg).Reachable s) (r : Nat) :
    RunOf cfg.pw cfg.d cfg.method (cfg.script r) (s.runs r) := by
  refine reach.invariant (fun s => ∀ r, RunOf cfg.pw cfg.d cfg.method (cfg.script r) (s.runs r))
    ?_ ?_ r
  · rintro s rfl r
    exact RunOf.fresh
  · intro s a t _ inv hstep r
    cases steps_of_step hstep with
    | @run _ q run due =>
      by_cases same : r = q
      · subst same
        simp only [Function.update_self]
        cases due with
        | send ctx marshalErr m going more => exact (inv r).send going more ctx marshalErr m
        | finish cancelled m m' going sent => exact (inv r).finish going sent cancelled m m'
      · simpa only [Function.update_of_ne same] using inv r
    | next answer => cases answer <;> exact inv r
    | _ => exact inv r

end
end Protobus.Stream
