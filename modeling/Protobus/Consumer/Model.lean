import Protobus.Amqp.Headers
import Protobus.Library.Program

/-!
# A consumer's handling of one delivery

`process` runs the handler and settles the delivery: it publishes first (the reply, the retry
copy or the dead-letter copy) and acknowledges second. Each operation on the broker can fail
on its own, so the handling is a program over these operations.
-/
namespace Protobus.Consumer
open Library Amqp

structure Delivery where
  headers : Table := .empty
  contentType : Bytes := []
  contentEncoding : Bytes := []
  priority : UInt8 := 0
  timestamp : Int := 0
  type : Bytes := []
  appId : Bytes := []
  correlationId : Bytes := []
  replyTo : Bytes := []
  messageId : Bytes := []
  routingKey : Bytes := []
  body : Bytes := []

structure Publishing where
  headers : Table := .empty
  contentType : Bytes := []
  contentEncoding : Bytes := []
  deliveryMode : UInt8 := 0
  priority : UInt8 := 0
  timestamp : Int := 0
  type : Bytes := []
  appId : Bytes := []
  correlationId : Bytes := []
  replyTo : Bytes := []
  messageId : Bytes := []
  body : Bytes := []

/-- A message as the broker delivers it, under the key it was routed by. -/
def Publishing.deliver (p : Publishing) (key : Bytes) : Delivery :=
  { p with routingKey := key }

def persistent : UInt8 := 2

def contentTypeOctetStream := lit "application/octet-stream"

/-- An error, by the summary that `safeErrorSummary` gives of it. -/
abbrev Failure := Bytes

structure HandlerResult where
  reply : Option Bytes := none
  err : Option Failure := none
  errReply : Option Bytes := none
  handled : Bool := false

structure RetrySpec where
  maxRetries : Nat
  exchange : Bytes
  queue : Bytes
  dlq : Bytes

/-- The names of the retry topology of a queue. -/
def RetrySpec.of (name : Bytes) (maxRetries : Nat) : RetrySpec where
  maxRetries
  exchange := name ++ lit ".Retry.Exchange"
  queue := name ++ lit ".Retry"
  dlq := name ++ lit ".DLQ"

structure Spec where
  queue : Bytes
  lateAck : Bool
  retry : Option RetrySpec
  dlqHandled : Bool
  timeoutReply : Option (Delivery → Failure → Bytes)

/-- How the handler goroutine ended, or that the processing timeout came first. -/
inductive Ended
  | returned (r : HandlerResult)
  | panicked (err : Failure)
  | timedOut (err : Failure)

/-- `context.Cause` of the handler's context, as far as `process` looks at it. -/
inductive Cause
  | none
  | cancelled
  | disconnected
  | closed
  | other

/-- What `run` leaves behind, and the two readings of the clock that settling may take. -/
structure Ran where
  ended : Ended
  cause : Cause
  failedAt : Int64
  deadLetteredAt : Int64

inductive Op
  | run
  /-- A publish to the callbacks exchange, not mandatory. -/
  | publishReply (key : Bytes) (msg : Publishing)
  | publish (exchange key : Bytes) (mandatory : Bool) (msg : Publishing)
  | ack
  | nack (requeue : Bool)
  | reject (requeue : Bool)

/-- All but `run` answer whether they succeeded. -/
abbrev Op.Answer : Op → Type
  | run => Ran
  | _ => Bool

abbrev Code := Program Op Op.Answer

/-- The answers when the handler ends in the given way and the broker does what it is asked to. -/
def Op.obliged (ran : Ran) : (o : Op) → o.Answer
  | run => ran
  | publishReply _ _ | publish _ _ _ _ | ack | nack _ | reject _ => true

section
-- the platform's `int64(2^63)`
variable (wide : Int) (spec : Spec)

def run (d : Delivery) : Ended → HandlerResult
  | .returned r => r
  | .panicked err | .timedOut err =>
    { err := some err, errReply := spec.timeoutReply.map fun reply => reply d err }

def carriedProperties (d : Delivery) : Publishing where
  contentType := d.contentType
  contentEncoding := d.contentEncoding
  priority := d.priority
  timestamp := d.timestamp
  type := d.type
  appId := d.appId

def originalRoutingKey (d : Delivery) : Bytes := d.routingKey

def republishedHeaders (d : Delivery) : Table := (d.headers.delete (lit "CC")).delete (lit "BCC")

def firstFailure (d : Delivery) (now : Int64) : Value :=
  match d.headers headerFirstFailure with
  | some v => if (headerInt wide v).any (· ≠ 0) then v else .int64 now
  | none => .int64 now

def replyMsg (d : Delivery) (body : Bytes) : Publishing where
  contentType := contentTypeOctetStream
  correlationId := d.correlationId
  body := body

def retryMsg (d : Delivery) (attempt : Nat) (cause : Failure) (now : Int64) : Publishing :=
  { carriedProperties d with
    headers := (((republishedHeaders d).set headerRetryCount (intHeader (attempt + 1 : Nat))).set
      headerOriginalKey (.string (originalRoutingKey d))).set
      headerFirstFailure (firstFailure wide d now) |>.set headerLastError (.string cause)
    deliveryMode := persistent
    correlationId := d.correlationId
    messageId := d.messageId
    replyTo := d.replyTo
    body := d.body }

/-- No `replyTo`: nothing should answer from the dead-letter queue. -/
def deadLetterMsg (d : Delivery) (attempt : Nat) (cause : Failure) (failedAt now : Int64) :
    Publishing :=
  { carriedProperties d with
    headers := (((republishedHeaders d).set headerRetryCount (intHeader attempt)).set
      headerOriginalKey (.string (originalRoutingKey d))).set
      headerOriginalQueue (.string spec.queue) |>.set
      headerFirstFailure (firstFailure wide d failedAt) |>.set
      headerDeadLetterTime (.int64 now) |>.set headerLastError (.string cause)
    deliveryMode := persistent
    correlationId := d.correlationId
    messageId := d.messageId
    body := d.body }

/-- A failed ack is only logged: the channel is gone and the broker redelivers. -/
def ack : Code := .perform .ack fun _ => .done

def requeueLater : Code :=
  if spec.lateAck then .perform (.nack true) fun _ => .done else .done

/-- Best effort: settling goes on whether the caller could be told or not. -/
def replyError (d : Delivery) (body : Option Bytes) (next : Code) : Code :=
  match body with
  | some body =>
    if d.replyTo = [] then next
    else .perform (.publishReply d.replyTo (replyMsg d body)) fun _ => next
  | none => next

def deadLetter (retry : RetrySpec) (d : Delivery) (attempt : Nat) (res : HandlerResult)
    (err : Failure) (ran : Ran) : Code :=
  replyError d res.errReply <|
    .perform (.publish [] retry.dlq true
        (deadLetterMsg wide spec d attempt err ran.failedAt ran.deadLetteredAt)) fun ok =>
      if ok then ack else requeueLater spec

def settle (d : Delivery) (ran : Ran) : Code :=
  let res := run spec d ran.ended
  match res.err with
  | none =>
    let settled := if spec.lateAck then ack else .done
    match res.reply with
    | some reply =>
      if d.replyTo = [] then settled
      else .perform (.publishReply d.replyTo (replyMsg d reply)) fun ok =>
        if ok then settled else requeueLater spec
    | none => settled
  | some err =>
    if !spec.lateAck then replyError d res.errReply .done
    else match spec.retry with
      | some retry =>
        if !res.handled then
          let attempt := retryCount wide d.headers
          if attempt < retry.maxRetries then
            .perform (.publish retry.exchange (originalRoutingKey d) true
                (retryMsg wide d attempt err ran.failedAt)) fun ok =>
              if ok then ack else requeueLater spec
          else deadLetter wide spec retry d attempt res err ran
        else if spec.dlqHandled then
          deadLetter wide spec retry d (retryCount wide d.headers) res err ran
        else replyError d res.errReply (.perform (.reject false) fun _ => .done)
      | none => replyError d res.errReply (.perform (.reject false) fun _ => .done)

/-- Without late ack the message is acknowledged before the handler sees it. -/
def process (d : Delivery) : Code :=
  let handle : Code := .perform .run fun ran =>
    match ran.cause with
    | .cancelled => if spec.lateAck then ack else .done
    | .disconnected | .closed => .done
    | _ => settle wide spec d ran
  if spec.lateAck then handle
  else .perform .ack fun ok => if ok then handle else .done

end

end Protobus.Consumer
