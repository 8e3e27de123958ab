import Protobus.Consumer.Model
import Protobus.Topic.Match
import Protobus.Library.Transition

/-!
# The queues of a late-ack consumer with a retry topology

The consumer's queue, the retry queue and the dead-letter queue, with any number of processes
that take deliveries and run `process` on them. Everything can fail: an operation may fail and
still have taken effect, and a channel may be lost with all that is unacknowledged on it.
-/
namespace Protobus.Consumer
open Library Amqp Topic

/-- Whether a topic exchange routes a key to the queue with these bindings. -/
def routes (bindings : List (Bytes × Bytes)) (exchange key : Bytes) : Bool :=
  bindings.any fun b => b.1 = exchange && topicMatch (splitDots b.2) (splitDots key)

theorem splitDots_hash : splitDots (lit "#") = [hash] := by decide

/-- What `restoreTopology` and `declareRetryTopology` set up. What the retry queue
dead-letters comes back to the consumer's queue, whichever binding brought it there. -/
structure Topology where
  spec : Spec
  retry : RetrySpec
  bindings : List (Bytes × Bytes)
  deadLetterTo : Bytes
  late : spec.lateAck = true
  retries : spec.retry = some retry
  named : retry.exchange ≠ []
  returns : ∀ exchange key, routes bindings exchange key = true →
    routes bindings deadLetterTo key = true

theorem RetrySpec.of_named (name : Bytes) (maxRetries : Nat) :
    (RetrySpec.of name maxRetries).exchange ≠ [] := by
  have : lit ".Retry.Exchange" ≠ [] := by decide
  simp [RetrySpec.of, this]

/-- `requestSpec`: the retry queue dead-letters to the bus exchange. -/
def Topology.service (busExchange name : Bytes) (maxRetries : Nat)
    (timeoutReply : Delivery → Failure → Bytes) : Topology where
  spec := ⟨name, true, some (.of name maxRetries), false, some timeoutReply⟩
  retry := .of name maxRetries
  bindings := [(busExchange, lit "REQUEST." ++ name ++ lit ".*")]
  deadLetterTo := busExchange
  late := rfl
  retries := rfl
  named := RetrySpec.of_named name maxRetries
  returns := fun exchange key h => by
    simp only [routes, List.any_cons, List.any_nil, Bool.or_false, Bool.and_eq_true] at h ⊢
    exact ⟨by simp, h.2⟩

/-- `newEventListener`: the retry queue dead-letters to an exchange of the listener's own,
from which its queue gets everything. -/
def Topology.listener (eventsExchange queue : Bytes) (patterns : List Bytes) (maxRetries : Nat) :
    Topology where
  spec := ⟨queue, true, some (.of queue maxRetries), true, none⟩
  retry := .of queue maxRetries
  bindings := patterns.map (eventsExchange, ·) ++ [(queue ++ lit ".Redelivery", lit "#")]
  deadLetterTo := queue ++ lit ".Redelivery"
  late := rfl
  retries := rfl
  named := RetrySpec.of_named queue maxRetries
  returns := fun exchange key _ => by
    simp [routes, splitDots_hash]

/-! ## States -/

/-- A copy of the message `msg`. Copies are numbered in the order in which they come up. -/
structure Copy where
  inst : Nat
  msg : Nat
  d : Delivery

/-- What a thread has seen so far: how its handler ended, and which publishes succeeded. -/
structure Past where
  ran : Option Ran := none
  replied : Bool := false
  copied : Bool := false

def Past.record (past : Past) : (o : Op) → o.Answer → Past
  | .run, ran => { past with ran := some ran }
  | .publishReply _ _, ok => { past with replied := past.replied || ok }
  | .publish _ _ _ _, ok => { past with copied := past.copied || ok }
  | .ack, _ | .nack _, _ | .reject _, _ => past

/-- A goroutine in `process`. It holds its delivery until it is settled or its channel is
lost. -/
structure Thread where
  copy : Copy
  channel : Nat
  held : Bool
  code : Code
  past : Past

/-- An ack or reject that the broker carried out. -/
structure Receipt where
  copy : Copy
  past : Past
  rejected : Bool

structure State where
  queue : List Copy
  retry : List Copy
  dlq : List Copy
  started : Nat
  threads : Nat → Option Thread
  instances : Nat
  messages : Nat
  receipts : List Receipt

def State.start : State where
  queue := []
  retry := []
  dlq := []
  started := 0
  threads := fun _ => none
  instances := 0
  messages := 0
  receipts := []

/-- The delivery of a thread whose channel is being lost. -/
def Thread.dropped (channel : Nat) (th : Thread) : Option Copy :=
  if th.channel = channel && th.held then some th.copy else none

def Thread.lose (channel : Nat) (th : Thread) : Thread :=
  if th.channel = channel then { th with held := false } else th

/-! ## Steps -/

inductive Action
  /-- A message comes in through one of the bindings. -/
  | accept (exchange : Bytes) (d : Delivery)
  | deliver (i channel : Nat)
  /-- The next operation of a thread. One that fails may have taken effect all the same. -/
  | perform (k : Nat) (answer : (o : Op) → o.Answer) (effect : Bool)
  | lose (channel : Nat)
  /-- The time of a message on the retry queue is over. The broker adds headers of its own. -/
  | expire (i : Nat) (headers : Table)

section
variable (wide : Int) (t : Topology) (s : State)

/-- A stored copy: to the dead-letter queue by its name, to the retry queue through its
exchange, whose one binding is `#`. -/
def store (exchange key : Bytes) (c : Copy) : State :=
  if exchange = [] && key = t.retry.dlq then { s with dlq := c :: s.dlq }
  else if exchange = t.retry.exchange && topicMatch (splitDots (lit "#")) (splitDots key) then
    { s with retry := c :: s.retry }
  else s

/-- What the broker does for an operation of a thread. An ack, nack or reject counts only
while the delivery is held on its channel. -/
def carryOut (th : Thread) : Op → State × Thread
  | .publish exchange key _ msg =>
    (store t { s with instances := s.instances + 1 } exchange key
      ⟨s.instances, th.copy.msg, msg.deliver key⟩, th)
  | .ack => if th.held then ({ s with receipts := ⟨th.copy, th.past, false⟩ :: s.receipts },
      { th with held := false }) else (s, th)
  | .nack requeue => if th.held then
      ({ s with queue := if requeue then s.queue ++ [th.copy] else s.queue },
        { th with held := false }) else (s, th)
  | .reject requeue => if th.held then
      ({ s with
        queue := if requeue then s.queue ++ [th.copy] else s.queue
        receipts := ⟨th.copy, th.past, true⟩ :: s.receipts }, { th with held := false })
    else (s, th)
  | _ => (s, th)

/-- Whether an operation with this answer takes effect. -/
def takesEffect (effect : Bool) : (o : Op) → o.Answer → Bool
  | .run, _ => false
  | .publishReply _ _, ok | .publish _ _ _ _, ok | .ack, ok | .nack _, ok | .reject _, ok =>
    ok || effect

def performOp (k : Nat) (th : Thread) (o : Op) (next : o.Answer → Code) (a : o.Answer)
    (effect : Bool) : State :=
  let (s, th) := if takesEffect effect o a then carryOut t s th o else (s, th)
  { s with
    threads := Function.update s.threads k
      (some { th with code := next a, past := th.past.record o a }) }

def step : Action → Option State
  | .accept exchange d =>
    if routes t.bindings exchange d.routingKey then
      some { s with
        queue := s.queue ++ [⟨s.instances, s.messages, d⟩]
        instances := s.instances + 1
        messages := s.messages + 1 }
    else none
  | .deliver i channel => (s.queue[i]?).map fun c => { s with
      queue := s.queue.eraseIdx i
      started := s.started + 1
      threads := Function.update s.threads s.started
        (some ⟨c, channel, true, process wide t.spec c.d, {}⟩) }
  | .perform k answer effect => match s.threads k with
    | some th => match th.code with
      | .perform o next => some (performOp t s k th o next (answer o) effect)
      | .done => none
    | none => none
  | .lose channel => some { s with
      queue := s.queue ++
        (List.range s.started).filterMap fun k => (s.threads k).bind (Thread.dropped channel)
      threads := fun k => (s.threads k).map (Thread.lose channel) }
  | .expire i headers => (s.retry[i]?).map fun c => { s with
      retry := s.retry.eraseIdx i
      queue := if routes t.bindings t.deadLetterTo c.d.routingKey
        then s.queue ++ [{ c with d.headers := headers }] else s.queue }

end

def system (wide : Int) (t : Topology) : System State Action where
  init s := s = .start
  step := step wide t

end Protobus.Consumer
