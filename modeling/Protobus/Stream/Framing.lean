import Protobus.Library.ProtowireReference
import Protobus.Library.Transition
import Protobus.Stream.Server

/-!
# The frames of one run of a handler

All runs of one `serverStream`: the handler's goroutines call `SendMsg`, the context ends at any
point, publishes fail in any pattern, and the handler returns once, with or without an error. The
frames that were published with success are numbered from 0 without a gap and carry the accepted
messages in order; only the last frame of a complete stream is final.
-/
namespace Protobus.Stream
open Library Protowire Amqp Consumer

/-! ## Runs -/

/-- A run of the handler. `accepted` are the messages that `SendMsg` took, as `marshal` encodes
them, `published` the frames whose publish returned no error, `failed` says whether one returned an
error, and `returned` is the error the handler returned, once it has. -/
structure Handling where
  stream : ServerStream := {}
  cancelled : Bool := false
  accepted : List Bytes := []
  published : List Publishing := []
  failed : Bool := false
  returned : Option (Option HandlerError) := none

inductive Act
  /-- The context ends with `ErrCancelled`. -/
  | cancel
  /-- A call of `SendMsg` gets the mutex. Its first check, `ctx`, may be older than a
  cancellation. -/
  | send (ctx : Option Cause) (data : Except Bytes Bytes) (reply : Reply)
  /-- The handler returns. The context may end before either publish of `finish`. -/
  | finish (handlerErr : Option HandlerError) (m m' : Moment)

/-- The error of a publish that was tried. -/
def isPublish : Option ServerErr → Bool
  | some (.publish _) => true
  | _ => false

def Handling.afterSend (s : Handling) (data : Except Bytes Bytes)
    (result : ServerStream × Option ServerErr) (frames : List Publishing) : Handling :=
  { s with
    stream := result.1
    accepted := match result.2, data with
      | none, .ok data => s.accepted ++ [data]
      | _, _ => s.accepted
    published := s.published ++ frames
    failed := s.failed || isPublish result.2 }

def Handling.afterFinish (s : Handling) (handlerErr : Option HandlerError) (cancelled : Bool)
    (result : ServerStream × Option ServerErr) (frames : List Publishing) : Handling :=
  { s with
    stream := result.1
    cancelled
    published := s.published ++ frames
    failed := s.failed || isPublish result.2
    returned := some handlerErr }

section
variable (pw : Protowire) (d : Delivery) (method : Bytes)

/-- The frame of a publish that returns no error, if there is anybody to send it to. -/
def confirmed (s : ServerStream) (body : Bytes) (final : Bool) (m : Moment) : List Publishing :=
  if d.replyTo ≠ [] ∧ (publish d s body final m).2.isNone then [frame d body final s.seq] else []

def sendFrames (s : ServerStream) (ctx : Option Cause) (data : Except Bytes Bytes) (m : Moment) :
    List Publishing :=
  match (sendMsg pw d method s ctx data m).2, s.pending with
  | none, some held => confirmed d s held false m
  | _, _ => []

def finishFrames (s : ServerStream) (cancelled : Bool) (handlerErr : Option HandlerError)
    (m m' : Moment) : List Publishing :=
  let s := { s with done := true }
  if cancelled || s.err.isSome then []
  else match handlerErr with
    | none => confirmed d s (s.pending.getD []) true m
    | some e => match s.pending with
      | some held =>
        match publish d s held false m with
        | (_, some _) => []
        | (s', none) => confirmed d s held false m ++
            confirmed d s' (serviceErrorBody pw method e) true m'
      | none => confirmed d s (serviceErrorBody pw method e) true m'

def handlingStep (s : Handling) : Act → Option Handling
  | .cancel => some { s with cancelled := true }
  | .send ctx data reply =>
    let m : Moment := ⟨s.cancelled, reply⟩
    some (s.afterSend data (sendMsg pw d method s.stream ctx data m)
      (sendFrames pw d method s.stream ctx data m))
  | .finish handlerErr m m' =>
    -- a context that has ended stays so
    if s.returned.isSome || (s.cancelled && !m.cancelled) || (m.cancelled && !m'.cancelled) then
      none
    else some (s.afterFinish handlerErr m'.cancelled
      (finish pw d method s.stream s.cancelled handlerErr m m')
      (finishFrames pw d method s.stream s.cancelled handlerErr m m'))

def handling : System Handling Act where
  init s := s = {}
  step := handlingStep pw d method

/-- What the frames of the stream carry, as far as it is known. -/
def Handling.bodies (s : Handling) : List Bytes :=
  match s.returned with
  | some (some e) => s.accepted.map (resultBody pw method) ++ [serviceErrorBody pw method e]
  | some none => if s.accepted = [] then [[]] else s.accepted.map (resultBody pw method)
  | none => s.accepted.map (resultBody pw method)

/-- The frames for a list of bodies, numbered from 0 as an `int64` counts, the last one final or
not. -/
def framesOf (bodies : List Bytes) (final : Bool) : List Publishing :=
  bodies.mapIdx fun i body => frame d body (final && i + 1 = bodies.length) (int64 i)

end

/-! ## Frames in a row -/

theorem int64_succ (n : Nat) : int64 (int64 n + 1) = int64 (n + 1 : Nat) := by
  simp [int64, Int.bmod_add_bmod]

section
variable {pw : Protowire} {d : Delivery} {method : Bytes}

theorem framesOf_concat (bodies : List Bytes) (body : Bytes) (final : Bool) :
    framesOf d (bodies ++ [body]) final =
      framesOf d bodies false ++ [frame d body final (int64 bodies.length)] := by
  have front : (bodies.mapIdx fun i b =>
      frame d b (final && i + 1 = (bodies ++ [body]).length) (int64 i)) =
      framesOf d bodies false := by
    apply List.mapIdx_eq_mapIdx_iff.mpr
    intro i lt
    simp [Nat.ne_of_lt lt]
  rw [framesOf, List.mapIdx_append, front]
  simp

/-! ## What a publish can do -/

/-- The outcomes of a publish to somebody. -/
inductive Published (d : Delivery) (s : ServerStream) (body : Bytes) (final : Bool) (m : Moment) :
    ServerStream × Option ServerErr → List Publishing → Prop
  | ok : m.cancelled = false → Published d s body final m
      ({ s with
        seq := int64 (s.seq + 1)
        stored := s.stored ++ [frame d body final s.seq] }, none) [frame d body final s.seq]
  | cancelled : m.cancelled = true → Published d s body final m (s, some .cancelled) []
  | failed (err : Bytes) (stored : List Publishing) : Published d s body final m
      ({ s with stored }, some (.publish err)) []

theorem publish_cases (asked : d.replyTo ≠ []) (s : ServerStream) (body : Bytes) (final : Bool)
    (m : Moment) :
    Published d s body final m (publish d s body final m) (confirmed d s body final m) := by
  obtain ⟨cancelled, reply⟩ := m
  rw [confirmed, publish, if_neg asked]
  cases cancelled with
  | true => simpa using .cancelled rfl
  | false =>
    cases reply with
    | ok => simpa [asked] using .ok rfl
    | failed err stored => simpa using .failed err _

/-! ## What a call can do -/

/-- A call of `SendMsg` that finds the stream going and no error. -/
inductive Sent (pw : Protowire) (d : Delivery) (method : Bytes) (s : ServerStream) (data : Bytes)
    (m : Moment) : ServerStream × Option ServerErr → List Publishing → Prop
  | first : s.pending = none → Sent pw d method s data m
      ({ s with pending := some (resultBody pw method data) }, none) []
  | next {held : Bytes} {s' : ServerStream} {frames : List Publishing} : s.pending = some held →
      Published d s held false m (s', none) frames → Sent pw d method s data m
      ({ s' with pending := some (resultBody pw method data) }, none) frames
  | broken {held : Bytes} {s' : ServerStream} {err : ServerErr} : s.pending = some held →
      Published d s held false m (s', some err) [] → Sent pw d method s data m
      ({ s' with err := some err }, some err) []

theorem send_cases (asked : d.replyTo ≠ []) (s : ServerStream) (data : Bytes) (m : Moment)
    (going : s.done = false) (fine : s.err = none) :
    Sent pw d method s data m (sendMsg pw d method s none (.ok data) m)
      (sendFrames pw d method s none (.ok data) m) := by
  obtain ⟨seq, pending, err, done, stored⟩ := s
  obtain rfl : done = false := going
  obtain rfl : err = none := fine
  cases pending with
  | none => exact .first rfl
  | some held =>
    have published := publish_cases asked ⟨seq, some held, none, false, stored⟩ held false m
    cases result : publish d ⟨seq, some held, none, false, stored⟩ held false m with
    | mk s' err =>
      rw [result] at published
      cases err with
      | none => simpa [sendMsg, sendFrames, result] using .next rfl published
      | some err =>
        have silent : confirmed d ⟨seq, some held, none, false, stored⟩ held false m = [] := by
          simp [confirmed, result]
        rw [silent] at published
        simpa [sendMsg, sendFrames, result] using .broken rfl published

/-- A call that is refused: it changes nothing. -/
theorem send_refused (s : ServerStream) (ctx : Option Cause) (data : Except Bytes Bytes)
    (m : Moment)
    (refused : ctx ≠ none ∨ (∀ bytes, data ≠ .ok bytes) ∨ s.done = true ∨ s.err ≠ none) :
    ∃ err, sendMsg pw d method s ctx data m = (s, some err) ∧
      sendFrames pw d method s ctx data m = [] ∧
      (isPublish (some err) = true → isPublish s.err = true) := by
  cases ctx with
  | some cause => exact ⟨.ended cause, rfl, rfl, by simp [isPublish]⟩
  | none =>
    cases data with
    | error err => exact ⟨.encoding err, rfl, rfl, by simp [isPublish]⟩
    | ok bytes =>
      cases done : s.done with
      | true => exact ⟨.finished, by simp [sendMsg, done], by simp [sendFrames, sendMsg, done],
          by simp [isPublish]⟩
      | false =>
        cases known : s.err with
        | some err => exact ⟨err, by simp [sendMsg, done, known],
            by simp [sendFrames, sendMsg, done, known], id⟩
        | none => simp [done, known] at refused

/-- A publish that goes through continues the row. -/
theorem Published.extend {s s' : ServerStream} {body : Bytes} {final : Bool} {m : Moment}
    {frames : List Publishing} (published : Published d s body final m (s', none) frames)
    {sent : List Bytes} (seq : s.seq = int64 sent.length) :
    framesOf d sent false ++ frames = framesOf d (sent ++ [body]) final ∧
      s'.seq = int64 (sent ++ [body]).length ∧ s' = { s' with
        pending := s.pending
        err := s.err
        done := s.done } ∧ m.cancelled = false := by
  cases published with
  | ok fine =>
    refine ⟨by rw [framesOf_concat, seq], ?_, rfl, fine⟩
    rw [List.length_append, List.length_singleton, ← int64_succ, ← seq]

/-- One that does not is known as a failure or as a cancellation. -/
theorem Published.broken {s s' : ServerStream} {body : Bytes} {final : Bool} {m : Moment}
    {frames : List Publishing} {err : ServerErr}
    (published : Published d s body final m (s', some err) frames) :
    frames = [] ∧ (isPublish (some err) = true ∨ m.cancelled = true) ∧ s' = { s' with
        pending := s.pending
        err := s.err
        done := s.done } := by
  cases published with
  | cancelled gone => exact ⟨rfl, .inr gone, rfl⟩
  | failed err stored => exact ⟨rfl, .inl rfl, rfl⟩

/-! ## Every run -/

/-- The bodies of the messages that were accepted. -/
def Handling.sent (pw : Protowire) (method : Bytes) (s : Handling) : List Bytes :=
  s.accepted.map (resultBody pw method)

structure Framed (pw : Protowire) (d : Delivery) (method : Bytes) (s : Handling) : Prop where
  /-- What was published is a row of frames for the first bodies; with a final frame it is
  complete. -/
  row : ∃ front rest final, s.bodies pw method = front ++ rest ∧
    s.published = framesOf d front final ∧
    (final = true → s.returned.isSome = true ∧ rest = [] ∧ s.failed = false)
  /-- While the handler runs and nothing has failed, one message is held back. -/
  ready : s.returned = none → s.stream.err = none →
    s.published = framesOf d (s.sent pw method).dropLast false ∧
    s.stream.pending = (s.sent pw method).getLast? ∧
    s.stream.seq = int64 (s.sent pw method).dropLast.length
  done : s.stream.done = s.returned.isSome
  noted : isPublish s.stream.err = true → s.failed = true
  broken : s.stream.err ≠ none → s.failed = true ∨ s.cancelled = true
  sticky : s.returned = none → s.failed = true → s.stream.err ≠ none
  complete : s.returned.isSome = true → s.failed = false → s.cancelled = false →
    s.published = framesOf d (s.bodies pw method) true

theorem Framed.start : Framed pw d method {} where
  row := ⟨[], [], false, rfl, rfl, by simp⟩
  ready _ _ := by
    have zero : (0 : Int) = int64 (0 : Nat) := (int64_eq (by decide) (by decide)).symm
    exact ⟨rfl, rfl, zero⟩
  done := rfl
  noted h := by cases h
  broken h := absurd rfl h
  sticky _ h := by cases h
  complete h := by cases h

theorem Framed.cancel {s : Handling} (inv : Framed pw d method s) :
    Framed pw d method { s with cancelled := true } :=
  { inv with
    broken := fun _ => .inr rfl
    complete := fun _ _ h => by cases h }

/-- A refused call leaves the run as it is. -/
theorem Framed.refused {s : Handling} (inv : Framed pw d method s) {ctx : Option Cause}
    {data : Except Bytes Bytes} {reply : Reply}
    (refused : ctx ≠ none ∨ (∀ bytes, data ≠ .ok bytes) ∨ s.stream.done = true ∨
      s.stream.err ≠ none) :
    handlingStep pw d method s (.send ctx data reply) = some s := by
  obtain ⟨err, result, frames, known⟩ :=
    @send_refused pw d method s.stream ctx data ⟨s.cancelled, reply⟩ refused
  have failed : (s.failed || isPublish (some err)) = s.failed := by
    cases publish : isPublish (some err) with
    | false => simp
    | true => simp [inv.noted (known publish)]
  simp [handlingStep, Handling.afterSend, result, frames, failed]

theorem Handling.sent_afterSend (s : Handling) (data : Bytes) (stream : ServerStream)
    (frames : List Publishing) :
    (s.afterSend (.ok data) (stream, none) frames).sent pw method =
      s.sent pw method ++ [resultBody pw method data] := by
  simp [Handling.sent, Handling.afterSend]

theorem Handling.bodies_running {s : Handling} (running : s.returned = none) :
    s.bodies pw method = s.sent pw method := by
  rw [Handling.bodies, running]
  rfl

/-- The invariant of a stream that goes on. -/
theorem Framed.going {s : Handling} (running : s.returned = none) (fine : s.stream.err = none)
    (done : s.stream.done = false) (clean : s.failed = false)
    (published : s.published = framesOf d (s.sent pw method).dropLast false)
    (pending : s.stream.pending = (s.sent pw method).getLast?)
    (seq : s.stream.seq = int64 (s.sent pw method).dropLast.length) : Framed pw d method s where
  row := by
    refine ⟨(s.sent pw method).dropLast, (s.sent pw method).drop ((s.sent pw method).length - 1),
      false, ?_, published, by simp⟩
    rw [Handling.bodies_running running, List.dropLast_eq_take, List.take_append_drop]
  ready _ _ := ⟨published, pending, seq⟩
  done := by rw [done, running]; rfl
  noted h := by simp [fine, isPublish] at h
  broken h := absurd fine h
  sticky _ h := by simp [clean] at h
  complete h := by simp [running] at h

/-- A call that finds the stream going and no error. -/
theorem Framed.send (asked : d.replyTo ≠ []) {s : Handling} (inv : Framed pw d method s)
    (running : s.returned = none) (fine : s.stream.err = none) (data : Bytes) (reply : Reply) :
    Framed pw d method (s.afterSend (.ok data)
      (sendMsg pw d method s.stream none (.ok data) ⟨s.cancelled, reply⟩)
      (sendFrames pw d method s.stream none (.ok data) ⟨s.cancelled, reply⟩)) := by
  obtain ⟨published, pending, seq⟩ := inv.ready running fine
  have done : s.stream.done = false := by rw [inv.done, running]; rfl
  have clean : s.failed = false :=
    Bool.eq_false_iff.mpr fun failed => inv.sticky running failed fine
  have call := @send_cases pw d method asked s.stream data ⟨s.cancelled, reply⟩ done fine
  generalize sendMsg pw d method s.stream none (.ok data) ⟨s.cancelled, reply⟩ = result at call ⊢
  generalize sendFrames pw d method s.stream none (.ok data) ⟨s.cancelled, reply⟩ = frames at call ⊢
  cases call with
  | first absent =>
    have empty : s.sent pw method = [] := List.getLast?_eq_none_iff.mp (pending.symm.trans absent)
    rw [empty] at published seq
    apply Framed.going
    · exact running
    · exact fine
    · exact done
    · simpa [Handling.afterSend, isPublish] using clean
    · rw [Handling.sent_afterSend, List.dropLast_concat, empty]
      simpa [Handling.afterSend] using published
    · rw [Handling.sent_afterSend, List.getLast?_concat]
      rfl
    · rw [Handling.sent_afterSend, List.dropLast_concat, empty]
      exact seq
  | next held sent =>
    obtain ⟨front, split⟩ := List.getLast?_eq_some_iff.mp (pending.symm.trans held)
    rw [split, List.dropLast_concat] at published seq
    obtain ⟨extended, seq', same, -⟩ := sent.extend seq
    rw [← split] at extended seq'
    rw [same]
    apply Framed.going
    · exact running
    · exact fine
    · exact done
    · simpa [Handling.afterSend, isPublish] using clean
    · rw [Handling.sent_afterSend, List.dropLast_concat, ← extended, ← published]
      rfl
    · rw [Handling.sent_afterSend, List.getLast?_concat]
      rfl
    · rw [Handling.sent_afterSend, List.dropLast_concat]
      exact seq'
  | broken held sent =>
    obtain ⟨-, known, same⟩ := sent.broken
    rw [same]
    obtain ⟨front, rest, final, split, row, last⟩ := inv.row
    have running_on : final = false := by simpa [running] using last
    exact {
      row := ⟨front, rest, final, split, by simpa [Handling.afterSend] using row, by
        simp [running_on]⟩
      ready := fun _ h => by cases h
      done := inv.done
      noted := fun h => by simpa [Handling.afterSend] using .inr h
      broken := fun _ => known.imp (fun h => by simp [Handling.afterSend, h]) id
      sticky := fun _ _ h => by cases h
      complete := fun h => by simp [Handling.afterSend, running] at h }

/-- The last body of a stream: what is held back, or the error. -/
def closing (pw : Protowire) (method : Bytes) (pending : Option Bytes) :
    Option HandlerError → Bytes
  | none => pending.getD []
  | some e => serviceErrorBody pw method e

/-- The bodies once the handler has returned. -/
theorem Handling.bodies_afterFinish (s : Handling) (handlerErr : Option HandlerError)
    (cancelled : Bool) (result : ServerStream × Option ServerErr) (frames : List Publishing) :
    (s.afterFinish handlerErr cancelled result frames).bodies pw method =
      (if handlerErr.isSome then s.sent pw method else (s.sent pw method).dropLast) ++
        [closing pw method (s.sent pw method).getLast? handlerErr] := by
  cases handlerErr with
  | some e => rfl
  | none =>
    cases split : s.accepted.getLast? with
    | none =>
      have empty := List.getLast?_eq_none_iff.mp split
      simp [Handling.bodies, Handling.afterFinish, Handling.sent, closing, empty]
    | some data =>
      obtain ⟨front, split⟩ := List.getLast?_eq_some_iff.mp split
      simp [Handling.bodies, Handling.afterFinish, Handling.sent, closing, split]

theorem Handling.sent_append_eq_bodies (s : Handling) (handlerErr : Option HandlerError)
    (cancelled : Bool) (result : ServerStream × Option ServerErr) (frames : List Publishing) :
    ∃ rest, (s.afterFinish handlerErr cancelled result frames).bodies pw method =
      s.sent pw method ++ rest := by
  rw [Handling.bodies_afterFinish]
  cases handlerErr with
  | some e => exact ⟨_, rfl⟩
  | none =>
    cases split : (s.sent pw method).getLast? with
    | none =>
      rw [List.getLast?_eq_none_iff.mp split]
      exact ⟨_, rfl⟩
    | some held =>
      obtain ⟨front, split⟩ := List.getLast?_eq_some_iff.mp split
      exact ⟨[], by simp [split, closing]⟩

/-- The handler returned and its stream stays incomplete. -/
theorem Framed.stop {s : Handling} {handlerErr : Option HandlerError} {cancelled : Bool}
    {stream : ServerStream} {err : Option ServerErr} {frames : List Publishing}
    {front rest : List Bytes} (split : s.sent pw method = front ++ rest)
    (published : s.published ++ frames = framesOf d front false) (done : stream.done = true)
    (noted : isPublish stream.err = true → s.failed = true)
    (incomplete : (s.failed || isPublish err) = true ∨ cancelled = true) :
    Framed pw d method (s.afterFinish handlerErr cancelled (stream, err) frames) where
  row := by
    obtain ⟨more, bodies⟩ := s.sent_append_eq_bodies handlerErr cancelled (stream, err) frames
    exact ⟨front, rest ++ more, false, by rw [bodies, split, List.append_assoc], published, by simp⟩
  ready h := by cases h
  done := done
  noted h := by simp [Handling.afterFinish, noted h]
  broken _ := incomplete
  sticky h := by cases h
  complete _ clean going := by
    rcases incomplete with failed | gone
    · cases clean.symm.trans failed
    · cases going.symm.trans gone

/-- The handler returned and the last frame went out. -/
theorem Framed.finish_complete {s : Handling} {handlerErr : Option HandlerError} {cancelled : Bool}
    {stream : ServerStream} {frames : List Publishing} (clean : s.failed = false)
    (published : s.published ++ frames = framesOf d
      ((s.afterFinish handlerErr cancelled (stream, none) frames).bodies pw method) true)
    (done : stream.done = true) (fine : stream.err = none) :
    Framed pw d method (s.afterFinish handlerErr cancelled (stream, none) frames) where
  row := ⟨_, [], true, (List.append_nil _).symm, published, fun _ =>
    ⟨rfl, rfl, by simp [Handling.afterFinish, clean, isPublish]⟩⟩
  ready h := by cases h
  done := done
  noted h := by simp [Handling.afterFinish, fine, isPublish] at h
  broken h := absurd fine h
  sticky h := by cases h
  complete _ _ _ := published

/-- The publish of the last body, after the frames for all before it. -/
theorem Framed.close (asked : d.replyTo ≠ []) {s : Handling} (clean : s.failed = false)
    (stream : ServerStream) (done : stream.done = true) (fine : stream.err = none)
    {before frames : List Publishing} {front rest : List Bytes} {body : Bytes} {m : Moment}
    (all : frames = before ++ confirmed d stream body true m)
    (split : s.sent pw method = front ++ rest)
    (published : s.published ++ before = framesOf d front false)
    (seq : stream.seq = int64 front.length) {handlerErr : Option HandlerError} {cancelled : Bool}
    (later : m.cancelled = true → cancelled = true)
    (whole : ∀ result frames, (s.afterFinish handlerErr cancelled result frames).bodies pw method =
      front ++ [body]) :
    Framed pw d method (s.afterFinish handlerErr cancelled (publish d stream body true m)
      frames) := by
  subst all
  have outcome := publish_cases asked stream body true m
  cases result : publish d stream body true m with
  | mk stream' err =>
    rw [result] at outcome
    cases err with
    | none =>
      obtain ⟨extended, -, same, -⟩ := outcome.extend seq
      apply Framed.finish_complete clean
      · rw [whole, ← extended, ← published, List.append_assoc]
      · rw [same]
        exact done
      · rw [same]
        exact fine
    | some err =>
      obtain ⟨silent, known, same⟩ := outcome.broken
      apply Framed.stop split
      · rw [silent, List.append_nil]
        exact published
      · rw [same]
        exact done
      · rw [same]
        exact fun h => by simp [fine, isPublish] at h
      · exact known.imp (fun h => by simp [h]) later

/-! `finish` of a stream that is neither cancelled nor broken -/

theorem finish_success {s : ServerStream} (fine : s.err = none) (m m' : Moment) :
    Stream.finish pw d method s false none m m' =
      publish d { s with done := true } (s.pending.getD []) true m ∧
    finishFrames pw d method s false none m m' =
      confirmed d { s with done := true } (s.pending.getD []) true m := by
  obtain ⟨seq, pending, err, done, stored⟩ := s
  obtain rfl : err = none := fine
  exact ⟨rfl, rfl⟩

theorem finish_error_alone {s : ServerStream} (fine : s.err = none) (empty : s.pending = none)
    (e : HandlerError) (m m' : Moment) :
    Stream.finish pw d method s false (some e) m m' =
      publish d { s with done := true } (serviceErrorBody pw method e) true m' ∧
    finishFrames pw d method s false (some e) m m' =
      confirmed d { s with done := true } (serviceErrorBody pw method e) true m' := by
  obtain ⟨seq, pending, err, done, stored⟩ := s
  obtain rfl : err = none := fine
  obtain rfl : pending = none := empty
  exact ⟨rfl, rfl⟩

theorem finish_error_broken {s s' : ServerStream} (fine : s.err = none) {held : Bytes}
    (full : s.pending = some held) {m : Moment} {err : ServerErr}
    (result : publish d { s with done := true } held false m = (s', some err)) (e : HandlerError)
    (m' : Moment) :
    Stream.finish pw d method s false (some e) m m' = (s', some err) ∧
    finishFrames pw d method s false (some e) m m' = [] := by
  obtain ⟨seq, pending, err, done, stored⟩ := s
  obtain rfl : err = none := fine
  obtain rfl : pending = some held := full
  simp only at result
  simp [Stream.finish, finishFrames, result]

theorem finish_error_held {s s' : ServerStream} (fine : s.err = none) {held : Bytes}
    (full : s.pending = some held) {m : Moment}
    (result : publish d { s with done := true } held false m = (s', none)) (e : HandlerError)
    (m' : Moment) :
    Stream.finish pw d method s false (some e) m m' =
      publish d s' (serviceErrorBody pw method e) true m' ∧
    finishFrames pw d method s false (some e) m m' =
      confirmed d { s with done := true } held false m ++
        confirmed d s' (serviceErrorBody pw method e) true m' := by
  obtain ⟨seq, pending, err, done, stored⟩ := s
  obtain rfl : err = none := fine
  obtain rfl : pending = some held := full
  simp only at result
  simp [Stream.finish, finishFrames, result]

theorem Framed.finish (asked : d.replyTo ≠ []) {s : Handling} (inv : Framed pw d method s)
    (running : s.returned = none) (handlerErr : Option HandlerError) {m m' : Moment}
    (later : s.cancelled = true → m.cancelled = true)
    (later' : m.cancelled = true → m'.cancelled = true) :
    Framed pw d method (s.afterFinish handlerErr m'.cancelled
      (Stream.finish pw d method s.stream s.cancelled handlerErr m m')
      (finishFrames pw d method s.stream s.cancelled handlerErr m m')) := by
  obtain ⟨front, rest, final, split, row, last⟩ := inv.row
  rw [Handling.bodies_running running] at split
  obtain rfl : final = false := by simpa [running] using last
  rw [← List.append_nil s.published] at row
  cases gone : s.cancelled with
  | true =>
    exact Framed.stop split (by simpa [finishFrames] using row) rfl inv.noted
      (.inr (later' (later gone)))
  | false =>
    cases fine : s.stream.err with
    | some err =>
      have failed : s.failed = true := by simpa [gone] using inv.broken (by simp [fine])
      simp only [Stream.finish, finishFrames, fine]
      exact Framed.stop split row rfl (fun _ => failed) (.inl (by simp [failed]))
    | none =>
      have clean : s.failed = false :=
        Bool.eq_false_iff.mpr fun failed => inv.sticky running failed fine
      obtain ⟨published, pending, seq⟩ := inv.ready running fine
      cases handlerErr with
      | none =>
        obtain ⟨result, frames⟩ := @finish_success pw d method _ fine m m'
        rw [result, frames]
        have split : s.sent pw method = (s.sent pw method).dropLast ++
            (s.sent pw method).drop ((s.sent pw method).length - 1) := by
          rw [List.dropLast_eq_take, List.take_append_drop]
        refine Framed.close asked clean { s.stream with done := true } rfl fine
          (List.nil_append _).symm split ((List.append_nil _).trans published) seq later' ?_
        intro _ _
        rw [Handling.bodies_afterFinish, ← pending]
        rfl
      | some e =>
        cases held : s.stream.pending with
        | none =>
          have empty := List.getLast?_eq_none_iff.mp (pending.symm.trans held)
          rw [empty] at published seq
          obtain ⟨result, frames⟩ := @finish_error_alone pw d method _ fine held e m m'
          rw [result, frames]
          refine Framed.close asked clean { s.stream with done := true } rfl fine
            (List.nil_append _).symm empty ((List.append_nil _).trans published) seq id ?_
          intro _ _
          rw [Handling.bodies_afterFinish, empty]
          rfl
        | some held' =>
          obtain ⟨front, split⟩ := List.getLast?_eq_some_iff.mp (pending.symm.trans held)
          rw [split, List.dropLast_concat] at published seq
          have outcome := publish_cases asked { s.stream with done := true } held' false m
          cases first : publish d { s.stream with done := true } held' false m with
          | mk s' err =>
            rw [first] at outcome
            cases err with
            | some err =>
              obtain ⟨silent, known, same⟩ := outcome.broken
              obtain ⟨result, frames⟩ :=
                @finish_error_broken pw d method _ _ fine _ held _ _ first e m'
              rw [result, frames]
              apply Framed.stop split ((List.append_nil _).trans published)
              · rw [same]
              · rw [same]
                exact fun h => by simp [fine, isPublish] at h
              · exact known.imp (fun h => by simp [h]) later'
            | none =>
              obtain ⟨extended, seq', same, -⟩ := outcome.extend seq
              rw [← split] at extended seq'
              obtain ⟨result, frames⟩ := @finish_error_held pw d method _ _ fine _ held _ first e m'
              rw [result, frames]
              refine Framed.close asked clean s' (by rw [same]) (by rw [same]; exact fine) rfl
                (List.append_nil _).symm (by rw [published, extended]) seq' id ?_
              exact fun _ _ => s.bodies_afterFinish (some e) _ _ _

/-- The handler returns once, and a context that has ended stays so. -/
theorem handlingStep_finish {s t : Handling} {handlerErr : Option HandlerError} {m m' : Moment}
    (step : handlingStep pw d method s (.finish handlerErr m m') = some t) :
    s.returned = none ∧ (s.cancelled = true → m.cancelled = true) ∧
      (m.cancelled = true → m'.cancelled = true) ∧
      t = s.afterFinish handlerErr m'.cancelled
        (Stream.finish pw d method s.stream s.cancelled handlerErr m m')
        (finishFrames pw d method s.stream s.cancelled handlerErr m m') := by
  rw [handlingStep] at step
  split at step
  · cases step
  · next guard =>
    simp only [Bool.or_eq_true, Bool.and_eq_true, Bool.not_eq_true', not_or, not_and,
      Bool.not_eq_false, Bool.not_eq_true, Option.isSome_eq_false_iff,
      Option.isNone_iff_eq_none] at guard
    exact ⟨guard.1.1, guard.1.2, guard.2, (Option.some.inj step).symm⟩

theorem framed_of_reachable (asked : d.replyTo ≠ []) {s : Handling}
    (reach : (handling pw d method).Reachable s) : Framed pw d method s := by
  refine reach.invariant _ (fun s hs => hs ▸ Framed.start) ?_
  intro s a t _ inv step
  cases a with
  | cancel =>
    obtain rfl := Option.some.inj step
    exact inv.cancel
  | send ctx data reply =>
    by_cases refused : ctx ≠ none ∨ (∀ bytes, data ≠ .ok bytes) ∨ s.stream.done = true ∨
        s.stream.err ≠ none
    · obtain rfl := Option.some.inj ((inv.refused refused).symm.trans step)
      exact inv
    · simp only [not_or, not_not, not_forall] at refused
      obtain ⟨rfl, ⟨data, rfl⟩, done, fine⟩ := refused
      obtain rfl := Option.some.inj step
      refine inv.send asked ?_ fine data reply
      rwa [inv.done, Bool.not_eq_true, Option.isSome_eq_false_iff,
        Option.isNone_iff_eq_none] at done
  | finish handlerErr m m' =>
    obtain ⟨running, later, later', rfl⟩ := handlingStep_finish step
    exact inv.finish asked running handlerErr later later'

/-! ## What the theorem needs beside the invariant -/

theorem done_publish (s : ServerStream) (body : Bytes) (final : Bool) (m : Moment) :
    (publish d s body final m).1.done = s.done := by
  unfold publish
  split_ifs
  · rfl
  · rfl
  · cases m.reply <;> rfl

theorem done_sendMsg (s : ServerStream) (ctx : Option Cause) (data : Except Bytes Bytes)
    (m : Moment) : (sendMsg pw d method s ctx data m).1.done = s.done := by
  unfold sendMsg
  have := fun held => @done_publish d s held false m
  grind

theorem done_finish (s : ServerStream) (cancelled : Bool) (handlerErr : Option HandlerError)
    (m m' : Moment) : (Stream.finish pw d method s cancelled handlerErr m m').1.done = true := by
  unfold Stream.finish
  have := @done_publish d
  grind

theorem done_of_reachable {s : Handling} (reach : (handling pw d method).Reachable s) :
    s.stream.done = s.returned.isSome := by
  refine reach.invariant (fun s => s.stream.done = s.returned.isSome) (fun s hs => hs ▸ rfl) ?_
  intro s a t _ inv step
  cases a with
  | cancel =>
    obtain rfl := Option.some.inj step
    exact inv
  | send ctx data reply =>
    obtain rfl := Option.some.inj step
    exact (done_sendMsg ..).trans inv
  | finish handlerErr m m' =>
    obtain ⟨-, -, -, rfl⟩ := handlingStep_finish step
    exact done_finish ..

/-- A frame with the final flag. -/
def Final (f : Publishing) : Prop := f.headers headerFinal = some (.bool true)

theorem final_frame {body : Bytes} {final : Bool} {seq : Int} :
    Final (frame d body final seq) ↔ final = true := by
  have other : headerFinal ≠ headerSeq := by decide
  simp [Final, frame, other]

theorem confirmed_unasked (unasked : d.replyTo = []) (s : ServerStream) (body : Bytes)
    (final : Bool) (m : Moment) : confirmed d s body final m = [] := by
  simp [confirmed, unasked]

theorem mem_confirmed {s : ServerStream} {body : Bytes} {final : Bool} {m : Moment}
    {f : Publishing} (mem : f ∈ confirmed d s body final m) :
    f = frame d body final s.seq ∧ m.cancelled = false := by
  by_cases asked : d.replyTo = []
  · simp [confirmed_unasked asked] at mem
  · have outcome := publish_cases asked s body final m
    generalize publish d s body final m = result at outcome
    generalize confirmed d s body final m = frames at outcome mem
    cases outcome with
    | ok fine => exact ⟨List.mem_singleton.mp mem, fine⟩
    | cancelled | failed => cases mem

theorem not_final_of_send {s : ServerStream} {ctx : Option Cause} {data : Except Bytes Bytes}
    {m : Moment} {f : Publishing} (mem : f ∈ sendFrames pw d method s ctx data m) : ¬Final f := by
  unfold sendFrames at mem
  split at mem
  · rw [(mem_confirmed mem).1, final_frame]
    simp
  · cases mem

/-- When `finish` publishes its last frame. -/
def lastMoment (handlerErr : Option HandlerError) (m m' : Moment) : Moment :=
  if handlerErr.isSome then m' else m

theorem final_of_finish {s : ServerStream} {cancelled : Bool} {handlerErr : Option HandlerError}
    {m m' : Moment} {f : Publishing}
    (mem : f ∈ finishFrames pw d method s cancelled handlerErr m m') (final : Final f) :
    cancelled = false ∧ s.err = none ∧ (lastMoment handlerErr m m').cancelled = false := by
  unfold finishFrames at mem
  simp only at mem
  split at mem
  · cases mem
  · next going =>
    simp only [Bool.or_eq_true, not_or, Bool.not_eq_true, Option.isSome_eq_false_iff,
      Option.isNone_iff_eq_none] at going
    refine ⟨going.1, going.2, ?_⟩
    cases handlerErr with
    | none => exact (mem_confirmed mem).2
    | some e =>
      simp only at mem
      split at mem
      · split at mem
        · cases mem
        · rcases List.mem_append.mp mem with mem | mem
          · rw [(mem_confirmed mem).1, final_frame] at final
            cases final
          · exact (mem_confirmed mem).2
      · exact (mem_confirmed mem).2

/-- After the handler has returned, `SendMsg` reports that or what its own checks found. -/
theorem send_after_finish {s : ServerStream} (done : s.done = true) (ctx : Option Cause)
    (data : Except Bytes Bytes) (m : Moment) :
    ∃ err, sendMsg pw d method s ctx data m = (s, some err) ∧
      sendFrames pw d method s ctx data m = [] ∧
      (err = .finished ∨ (∃ cause, ctx = some cause ∧ err = .ended cause) ∨
        ∃ e, data = .error e ∧ err = .encoding e) := by
  cases ctx with
  | some cause => exact ⟨.ended cause, rfl, rfl, .inr (.inl ⟨cause, rfl, rfl⟩)⟩
  | none =>
    cases data with
    | error e => exact ⟨.encoding e, rfl, rfl, .inr (.inr ⟨e, rfl, rfl⟩)⟩
    | ok bytes => exact ⟨.finished, by simp [sendMsg, done], by simp [sendFrames, sendMsg, done],
        .inl rfl⟩

theorem bodies_ne_nil {s : Handling} (returned : s.returned.isSome = true) :
    s.bodies pw method ≠ [] := by
  obtain ⟨handlerErr, eq⟩ := Option.isSome_iff_exists.mp returned
  rw [Handling.bodies, eq]
  cases handlerErr with
  | some e => simp
  | none =>
    by_cases empty : s.accepted = [] <;> simp [empty]

theorem published_unasked (unasked : d.replyTo = []) {s : Handling}
    (reach : (handling pw d method).Reachable s) : s.published = [] := by
  refine reach.invariant (fun s => s.published = []) (fun s hs => hs ▸ rfl) ?_
  intro s a t _ empty step
  cases a with
  | cancel =>
    obtain rfl := Option.some.inj step
    exact empty
  | send ctx data reply =>
    obtain rfl := Option.some.inj step
    simp only [Handling.afterSend, empty, List.nil_append, sendFrames, confirmed_unasked unasked]
    split <;> rfl
  | finish handlerErr m m' =>
    obtain ⟨-, -, -, rfl⟩ := handlingStep_finish step
    simp only [Handling.afterFinish, empty, List.nil_append, finishFrames,
      confirmed_unasked unasked]
    grind

end

/-! ## The law -/

section
variable (pw : Protowire) (d : Delivery) (method : Bytes)

/-- In every run of a handler: the published frames are a row, numbered from 0, for the accepted
messages and the error the handler may have returned; a final frame completes it. It comes from
`finish` only, before which no publish had failed, and at a moment when the stream was not
cancelled. If the request names a reply queue and nothing fails or is cancelled, the row is
complete once the handler has returned; if it names none, no frame is ever published. A later
`SendMsg` does nothing. -/
theorem framing_well_formed :
    (∀ s, (handling pw d method).Reachable s → ∃ front rest final,
      s.bodies pw method = front ++ rest ∧ s.published = framesOf d front final ∧
      (final = true → s.returned.isSome = true ∧ rest = [] ∧ s.failed = false)) ∧
    (∀ s a t, (handling pw d method).Reachable s → (handling pw d method).step s a = some t →
      ∃ frames, t.published = s.published ++ frames ∧ ∀ f ∈ frames, Final f →
        ∃ handlerErr m m', a = .finish handlerErr m m' ∧ s.returned = none ∧ s.failed = false ∧
          s.cancelled = false ∧ (lastMoment handlerErr m m').cancelled = false) ∧
    (d.replyTo ≠ [] → ∀ s, (handling pw d method).Reachable s → s.returned.isSome = true →
      s.failed = false → s.cancelled = false →
      s.published = framesOf d (s.bodies pw method) true ∧ s.bodies pw method ≠ []) ∧
    (d.replyTo = [] → ∀ s, (handling pw d method).Reachable s → s.published = []) ∧
    (∀ s, (handling pw d method).Reachable s → s.returned.isSome = true → ∀ ctx data m,
      ∃ err, sendMsg pw d method s.stream ctx data m = (s.stream, some err) ∧
        sendFrames pw d method s.stream ctx data m = [] ∧
        (err = .finished ∨ (∃ cause, ctx = some cause ∧ err = .ended cause) ∨
          ∃ e, data = .error e ∧ err = .encoding e)) := by
  refine ⟨fun s reach => ?_, fun s a t reach step => ?_,
    fun asked s reach returned clean going => ?_,
    fun unasked _ reach => published_unasked unasked reach,
    fun s reach returned => send_after_finish ((done_of_reachable reach).trans returned)⟩
  · by_cases asked : d.replyTo = []
    · exact ⟨[], _, false, rfl, published_unasked asked reach, by simp⟩
    · exact (framed_of_reachable asked reach).row
  · cases a with
    | cancel =>
      obtain rfl := Option.some.inj step
      exact ⟨[], (List.append_nil _).symm, by simp⟩
    | send ctx data reply =>
      obtain rfl := Option.some.inj step
      exact ⟨_, rfl, fun f mem final => absurd final (not_final_of_send mem)⟩
    | finish handlerErr m m' =>
      obtain ⟨running, -, -, rfl⟩ := handlingStep_finish step
      refine ⟨_, rfl, fun f mem final => ?_⟩
      obtain ⟨going, fine, moment⟩ := final_of_finish mem final
      have asked : d.replyTo ≠ [] := by
        intro unasked
        have silent := List.append_eq_nil_iff.mp (published_unasked unasked (reach.step step))
        rw [silent.2] at mem
        cases mem
      have clean : s.failed = false := Bool.eq_false_iff.mpr fun failed =>
        (framed_of_reachable asked reach).sticky running failed fine
      exact ⟨handlerErr, m, m', rfl, running, clean, going, moment⟩
  · exact ⟨(framed_of_reachable asked reach).complete returned clean going, bodies_ne_nil returned⟩

end

/-- Nobody asked for the frames: the stream ends well and publishes none. -/
theorem unasked_stream_silent :
    ∃ s, (handling reference {} (lit "Log.Service.tail")).Reachable s ∧ s.returned.isSome = true ∧
      s.accepted = [lit "a"] ∧ s.failed = false ∧ s.cancelled = false ∧
      s.published.isEmpty = true := by
  have run : ((handling reference {} (lit "Log.Service.tail")).run
      [.send none (.ok (lit "a")) .ok, .finish none ⟨false, .ok⟩ ⟨false, .ok⟩] {}).map
      (fun s => decide (s.returned.isSome = true ∧ s.accepted = [lit "a"] ∧ s.failed = false ∧
        s.cancelled = false ∧ s.published.isEmpty = true)) = some true := by
    decide +kernel
  obtain ⟨s, run, eq⟩ := Option.map_eq_some_iff.mp run
  exact ⟨s, System.Reachable.run (.init rfl) run, of_decide_eq_true eq⟩

/-- Two messages and an error are three frames. -/
theorem framing_well_formed_error :
    let d : Delivery := { replyTo := lit "caller" }
    ∃ s, (handling reference d (lit "Log.Service.tail")).Reachable s ∧
      s.published = framesOf d (s.bodies reference (lit "Log.Service.tail")) true ∧
      (s.bodies reference (lit "Log.Service.tail")).length = 3 := by
  intro d
  have run : ((handling reference d (lit "Log.Service.tail")).run
      [.send none (.ok (lit "a")) .ok, .send none (.error (lit "bad")) .ok,
        .send none (.ok (lit "b")) .ok,
        .finish (some ⟨lit "no more", lit "GONE"⟩) ⟨false, .ok⟩ ⟨false, .ok⟩,
        .send none (.ok (lit "c")) .ok] {}).map
      (fun s => decide (s.returned.isSome = true ∧ s.failed = false ∧ s.cancelled = false ∧
        (s.bodies reference (lit "Log.Service.tail")).length = 3)) = some true := by
    decide +kernel
  obtain ⟨s, run, eq⟩ := Option.map_eq_some_iff.mp run
  obtain ⟨returned, clean, going, length⟩ := of_decide_eq_true eq
  have reach : (handling reference d (lit "Log.Service.tail")).Reachable s :=
    System.Reachable.run (.init rfl) run
  refine ⟨s, reach, ?_, length⟩
  exact ((framing_well_formed reference d _).2.2.1 (by decide) s reach returned clean going).1

end Protobus.Stream
