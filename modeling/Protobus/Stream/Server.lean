import Protobus.Consumer.Model
import Protobus.Wire.Codec

/-!
# The sending side of a stream

`serverStream` publishes the frames of one run of a streaming handler, numbered from 0. The
last frame carries the final flag, so each is held back until the next arrives or the handler
returns.
-/
namespace Protobus.Stream
open Library Amqp Consumer

/-- Arithmetic on `int64`. -/
def int64 (n : Int) : Int := n.bmod (2 ^ 64)

theorem int64_eq {n : Int} (lo : -2 ^ 63 ≤ n) (hi : n < 2 ^ 63) : int64 n = n := by
  rw [int64, Int.bmod_eq_of_le] <;> omega

/-- An error of the handler as `sanitizeForCaller` shows it. -/
structure HandlerError where
  message : Bytes
  code : Bytes

inductive ServerErr
  | ended (cause : Cause)
  | encoding (err : Bytes)
  | finished
  | cancelled
  | publish (err : Bytes)

/-- `stored` is what has reached the broker so far. -/
structure ServerStream where
  seq : Int := 0
  pending : Option Bytes := none
  err : Option ServerErr := none
  done : Bool := false
  stored : List Publishing := []

/-- The answer of `publishReply`. A publish that fails may have been stored. -/
inductive Reply
  | ok
  | failed (err : Bytes) (stored : Bool)

/-- What one publish meets: whether the caller has cancelled by then, and the answer. -/
structure Moment where
  cancelled : Bool
  reply : Reply

section
variable (pw : Protowire) (d : Delivery) (method : Bytes)

def resultBody (data : Bytes) : Bytes :=
  (Wire.appendResponse pw .nil ⟨some ⟨method, data⟩, none⟩).1.data

def serviceErrorBody (e : HandlerError) : Bytes :=
  (Wire.appendResponse pw .nil ⟨none, some ⟨method, e.message, e.code⟩⟩).1.data

def frame (body : Bytes) (final : Bool) (seq : Int) : Publishing :=
  { replyMsg d body with
    headers := (Table.empty.set headerFinal (.bool final)).set headerSeq (intHeader seq) }

def publish (s : ServerStream) (body : Bytes) (final : Bool) (m : Moment) :
    ServerStream × Option ServerErr :=
  if d.replyTo = [] then ({ s with seq := int64 (s.seq + 1) }, none)
  else if m.cancelled then (s, some .cancelled)
  else match m.reply with
    | .ok => ({ s with
        seq := int64 (s.seq + 1)
        stored := s.stored ++ [frame d body final s.seq] }, none)
    | .failed err stored => ({ s with
        stored := if stored then s.stored ++ [frame d body final s.seq] else s.stored },
        some (.publish err))

/-- `ctx` is the cause of the context's end, if it has ended when the call is made; `data` is
the message as `marshal` encodes it. -/
def sendMsg (s : ServerStream) (ctx : Option Cause) (data : Except Bytes Bytes) (m : Moment) :
    ServerStream × Option ServerErr :=
  match ctx, data with
  | some cause, _ => (s, some (.ended cause))
  | none, .error err => (s, some (.encoding err))
  | none, .ok data =>
    if s.done then (s, some .finished)
    else match s.err with
      | some err => (s, some err)
      | none =>
        let body := resultBody pw method data
        match s.pending with
        | some held =>
          match publish d s held false m with
          | (s, some err) => ({ s with err := some err }, some err)
          | (s, none) => ({ s with pending := some body }, none)
        | none => ({ s with pending := some body }, none)

/-- `cancelled` is whether the caller has cancelled when `finish` is called. -/
def finish (s : ServerStream) (cancelled : Bool) (handlerErr : Option HandlerError)
    (m m' : Moment) : ServerStream × Option ServerErr :=
  let s := { s with done := true }
  if cancelled then (s, none)
  else match s.err with
    | some err => (s, some err)
    | none => match handlerErr with
      | none => publish d s (s.pending.getD []) true m
      | some e => match s.pending with
        | some held =>
          match publish d s held false m with
          | (s, some err) => (s, some err)
          | (s, none) => publish d s (serviceErrorBody pw method e) true m'
        | none => publish d s (serviceErrorBody pw method e) true m'

end

/-! ## Complete runs -/

/-- What a handler does: the messages it sends, which an `int` can count, and how it ends. -/
structure Script where
  messages : List Bytes
  ending : Option HandlerError
  countable : messages.length < 2 ^ 63

section
variable (pw : Protowire) (d : Delivery) (method : Bytes)

/-- The bodies of the frames of a complete run. An empty stream is one empty frame. -/
def Script.bodies (sc : Script) : List Bytes :=
  match sc.ending with
  | some e => sc.messages.map (resultBody pw method) ++ [serviceErrorBody pw method e]
  | none => if sc.messages = [] then [[]] else sc.messages.map (resultBody pw method)

/-- The frame `i` of a complete run. -/
def Script.frame (sc : Script) (i : Nat) : Publishing :=
  Stream.frame d ((sc.bodies pw method).getD i []) (i + 1 = (sc.bodies pw method).length) i

end
end Protobus.Stream
