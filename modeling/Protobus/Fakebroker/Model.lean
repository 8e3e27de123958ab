import Protobus.Library.Bytes
import Protobus.Library.Transition
import Protobus.Topic.Match

/-!
# The in-memory broker

The broker behind `protobustest`: exchanges, queues with a TTL, a dead-letter exchange or
priorities, connections with channels, and consumers with a prefetch. Every operation runs under one
lock, so a state here is one between two operations; within one, queues, maps and counters are
updated in the order of the source.

Pointers are places in tables that only grow. An instance of a message has a number. Two histories
stand beside the state: `log` has each instance as it was accepted, with the queue that took it, and
`fates` says what became of those that are no longer in the broker. What a caller is told (confirms,
returns, deliveries, notifications, the log of operations) is left out.
-/
namespace Protobus.Fakebroker
open Library Topic

/-! ## States -/

/-- An entry of the `x-death` header, without its time; the count is always 1. -/
structure Death where
  reason : Bytes
  queue : Bytes
  exchange : Bytes
  key : Bytes
deriving DecidableEq

/-- What the broker looks at in a message. -/
structure Publishing where
  priority : Nat
  xDeath : List Death
deriving DecidableEq

structure Message where
  id : Nat
  pub : Publishing
  exchange : Bytes
  key : Bytes
  redelivered : Bool
deriving DecidableEq

inductive Kind
  | direct
  | topic
  | fanout
  | unknown (name : Bytes)
deriving DecidableEq

structure Binding where
  queue : Bytes
  key : Bytes
deriving DecidableEq

structure Exchange where
  name : Bytes
  kind : Kind
  durable : Bool
  autoDelete : Bool
  intern : Bool
  bindings : List Binding
deriving DecidableEq

/-- An argument of a queue, as `argsEquivalent` sees it: integers of all widths are one class. -/
inductive Arg
  | int (n : Int)
  | string (s : Bytes)
  | other (text : Bytes)
deriving DecidableEq

structure Queue where
  name : Bytes
  durable : Bool
  autoDelete : Bool
  exclusive : Bool
  owner : Option Nat
  args : List (Bytes × Arg)
  ttl : Int := 0
  dlx : Option Bytes := none
  dlxKey : Option Bytes := none
  maxPriority : Nat := 0
  msgs : List Message := []
  consumers : List Nat := []
  rr : Nat := 0
  hadConsumer : Bool := false
  deleted : Bool := false

structure Consumer where
  tag : Bytes
  ch : Nat
  q : Nat
  autoAck : Bool
  exclusive : Bool
  prefetch : Int
  unacked : Int := 0
deriving DecidableEq

/-- An unacknowledged delivery. -/
structure Inflight where
  tag : Nat
  msg : Message
  q : Nat
  cons : Nat
deriving DecidableEq

/-- `unacked` is in the order of the tags. -/
structure Channel where
  conn : Nat
  id : Nat
  closed : Bool := false
  prefetch : Int := 0
  nextTag : Nat := 0
  consumers : List (Bytes × Nat) := []
  unacked : List Inflight := []
  ctagSeq : Nat := 0

structure Conn where
  closed : Bool := false
  nextID : Nat := 0

/-- The ends of a message instance; a dead-lettered one with the instances routed in its place. -/
inductive Fate
  | acked
  | autoAcked
  | rejected (copies : List Nat)
  | expired (copies : List Nat)
  | gone
deriving DecidableEq

/-- `names` is the map of queues. The default exchange has no name and no bindings. -/
structure State where
  exchanges : List Exchange := [⟨[], .direct, true, false, false, []⟩]
  queues : List Queue := []
  names : List (Bytes × Nat) := []
  conns : List Conn := []
  channels : List Channel := []
  consumers : List Consumer := []
  nameSeq : Nat := 0
  log : List (Nat × Message) := []
  fates : List (Nat × Fate) := []

/-- The number of the next instance. -/
def State.nextMsg (s : State) : Nat := s.log.length

/-- The ranges over maps, which have any order. -/
inductive Site
  | conns
  | channels (conn : Nat)
  | queues (conn : Nat)
  | consumers (ch : Nat)
  | touched

structure Order where
  pick : Site → List Nat → List Nat
  perm : ∀ site xs, (pick site xs).Perm xs

/-! ## Delivery -/

def Consumer.hasCapacity (c : Consumer) : Bool :=
  c.autoAck || c.prefetch = 0 || c.unacked < c.prefetch

def deliver (s : State) (c q : Nat) (m : Message) : State :=
  match s.consumers[c]? with
  | none => s
  | some cons => match s.channels[cons.ch]? with
    | none => s
    | some chan =>
      if cons.autoAck then
        { s with
          channels := s.channels.set cons.ch { chan with nextTag := chan.nextTag + 1 }
          fates := s.fates ++ [(m.id, .autoAcked)] }
      else
        { s with
          channels := s.channels.set cons.ch { chan with
            nextTag := chan.nextTag + 1
            unacked := chan.unacked ++ [⟨chan.nextTag + 1, m, q, c⟩] }
          consumers := s.consumers.set c { cons with unacked := cons.unacked + 1 } }

/-- The highest priority, and the first of its messages. -/
def Queue.next (queue : Queue) : Nat :=
  if queue.maxPriority = 0 then 0
  else (queue.msgs.zipIdx.foldl (fun (best : Nat × Int) (p : Message × Nat) =>
    let priority : Int := min p.1.pub.priority queue.maxPriority
    if best.2 < priority then (p.2, priority) else best) (0, -1)).1

/-- The next consumer with spare capacity, round-robin, and where to go on. -/
def Queue.target (queue : Queue) (consumers : List Consumer) : Option (Nat × Nat) :=
  (List.range queue.consumers.length).findSome? fun i =>
    let n := queue.consumers.length
    (queue.consumers[(queue.rr + i) % n]?).bind fun c =>
      if (consumers[c]?).any Consumer.hasCapacity then some (c, (queue.rr + i + 1) % n) else none

/-- The loop of `dispatch`, which takes one message in each round. -/
def dispatchWith : Nat → State → Nat → State
  | 0, s, _ => s
  | fuel + 1, s, q =>
    match s.queues[q]? with
    | none => s
    | some queue => match queue.target s.consumers with
      | none => s
      | some (c, rr) => match queue.msgs[queue.next]? with
        | none => s
        | some m =>
          let taken := { queue with rr, msgs := queue.msgs.eraseIdx queue.next }
          dispatchWith fuel (deliver { s with queues := s.queues.set q taken } c q m) q

def dispatch (s : State) (q : Nat) : State :=
  match s.queues[q]? with
  | none => s
  | some queue => dispatchWith queue.msgs.length s q

/-- Only a message that comes back can find its queue deleted. -/
def enqueue (s : State) (q : Nat) (m : Message) (front : Bool) : State :=
  match s.queues[q]? with
  | none => s
  | some queue =>
    if queue.deleted then { s with fates := s.fates ++ [(m.id, .gone)] }
    else
      let msgs := if front then m :: queue.msgs else queue.msgs ++ [m]
      dispatch { s with queues := s.queues.set q { queue with msgs } } q

/-! ## Routing -/

def hits (kind : Kind) (bound key : Bytes) : Bool :=
  match kind with
  | .fanout => true
  | .direct => bound = key
  | .topic => topicMatch (splitDots bound) (splitDots key)
  | .unknown _ => false

def State.exchange? (s : State) (name : Bytes) : Option Exchange :=
  s.exchanges.find? fun ex => ex.name = name

/-- The queues a key is routed to, each once. -/
def targets (s : State) (exchange key : Bytes) : List Nat :=
  if exchange = [] then (s.names.lookup key).toList
  else match s.exchange? exchange with
    | none => []
    | some ex => ((ex.bindings.filter fun bd => hits ex.kind bd.key key).filterMap fun bd =>
        s.names.lookup bd.queue).eraseDups

/-- One new instance for each target. -/
def routeTo (exchange key : Bytes) (pub : Publishing) (s : State) (q : Nat) : State :=
  let m : Message := ⟨s.nextMsg, pub, exchange, key, false⟩
  enqueue { s with log := s.log ++ [(q, m)] } q m false

def route (s : State) (exchange key : Bytes) (pub : Publishing) : State :=
  (targets s exchange key).foldl (routeTo exchange key pub) s

/-- Republishes to the dead-letter exchange, if there is one, and says which instances are new. -/
def deadLetter (s : State) (q : Nat) (m : Message) (reason : Bytes) : State × List Nat :=
  match s.queues[q]? with
  | none => (s, [])
  | some queue => match queue.dlx with
    | none => (s, [])
    | some dlx =>
      if (s.exchange? dlx).isNone then (s, [])
      else
        let key := queue.dlxKey.getD m.key
        let death := ⟨reason, queue.name, m.exchange, m.key⟩
        let s' := route s dlx key { m.pub with xDeath := death :: m.pub.xDeath }
        (s', List.range' s.nextMsg (s'.nextMsg - s.nextMsg))

/-! ## Consumers and queues go -/

/-- `removeConsumer` up to its last test. -/
def detach (s : State) (c : Nat) : State :=
  match s.consumers[c]? with
  | none => s
  | some cons =>
    { s with
      channels := s.channels.modify cons.ch fun chan =>
        { chan with consumers := chan.consumers.filter fun p => p.1 ≠ cons.tag }
      queues := s.queues.modify cons.q fun queue =>
        { queue with consumers := queue.consumers.filter fun d => d ≠ c } }

/-- `deleteQueue` up to its loop over the consumers. -/
def markDeleted (s : State) (q : Nat) (queue : Queue) : State :=
  { s with
    queues := s.queues.set q { queue with deleted := true, msgs := [] }
    fates := s.fates ++ queue.msgs.map fun m => (m.id, .gone)
    exchanges := s.exchanges.map fun ex =>
      { ex with bindings := ex.bindings.filter fun bd => bd.queue ≠ queue.name } }

/-- The queue being marked deleted, `removeConsumer` does no more than `detach` here. -/
def deleteQueue (s : State) (q : Nat) : State :=
  match s.queues[q]? with
  | none => s
  | some queue =>
    let s := queue.consumers.foldl detach (markDeleted s q queue)
    { s with names := s.names.filter fun p => p.1 ≠ queue.name }

def removeConsumer (s : State) (c : Nat) : State :=
  let s := detach s c
  match s.consumers[c]? with
  | none => s
  | some cons => match s.queues[cons.q]? with
    | none => s
    | some queue =>
      if queue.autoDelete && queue.hadConsumer && queue.consumers.isEmpty && !queue.deleted then
        deleteQueue s cons.q
      else s

def State.entryAt (s : State) (k tag : Nat) : Option Inflight :=
  (s.channels[k]?).bind fun chan => chan.unacked.find? fun e => e.tag = tag

/-- One round of the loop of `requeueAll`. -/
def requeue (k : Nat) (s : State) (tag : Nat) : State :=
  match s.entryAt k tag with
  | none => s
  | some e => enqueue s e.q { e.msg with redelivered := true } true

/-- The unacknowledged messages of a closing channel go back to their queues, the last first. -/
def requeueAll (s : State) (k : Nat) : State :=
  let tags := ((s.channels[k]?).elim [] Channel.unacked).map Inflight.tag
  let s := tags.reverse.foldl (requeue k) s
  { s with channels := s.channels.modify k fun chan => { chan with unacked := [] } }

/-- `channel.shutdown`. -/
def shutdown (order : Order) (s : State) (k : Nat) : State :=
  match s.channels[k]? with
  | none => s
  | some chan =>
    if chan.closed then s
    else
      let s := { s with channels := s.channels.set k { chan with closed := true } }
      -- Consumers go first, or the messages would come straight back.
      let s := (order.pick (.consumers k) (chan.consumers.map Prod.snd)).foldl removeConsumer s
      requeueAll s k

/-- The channels of a connection that are open. -/
def State.channelsOf (s : State) (c : Nat) : List Nat :=
  (List.range s.channels.length).filter fun k =>
    (s.channels[k]?).any fun chan => chan.conn = c && !chan.closed

/-- The queues that go with a connection. -/
def State.queuesOf (s : State) (c : Nat) : List Nat :=
  (s.names.map Prod.snd).filter fun q =>
    (s.queues[q]?).any fun queue => queue.exclusive && queue.owner = some c

/-- `conn.shutdown`. -/
def shutdownConn (order : Order) (s : State) (c : Nat) : State :=
  match s.conns[c]? with
  | none => s
  | some conn =>
    if conn.closed then s
    else
      let s := { s with conns := s.conns.set c { conn with closed := true } }
      let s := (order.pick (.channels c) (s.channelsOf c)).foldl (shutdown order) s
      (order.pick (.queues c) (s.queuesOf c)).foldl deleteQueue s

/-! ## Settlement and expiry -/

inductive Settlement
  | ack
  | nack
  | reject
deriving DecidableEq

/-- One round of the loop of `settle`. -/
def settleOne (kind : Settlement) (again : Bool) (k : Nat) (s : State) (tag : Nat) : State :=
  match s.entryAt k tag with
  | none => s
  | some e =>
    let s := { s with
      channels := s.channels.modify k fun chan =>
        { chan with unacked := chan.unacked.filter fun e => e.tag ≠ tag }
      consumers := s.consumers.modify e.cons fun cons =>
        { cons with unacked := cons.unacked - 1 } }
    if kind = .ack then { s with fates := s.fates ++ [(e.msg.id, .acked)] }
    else if again then enqueue s e.q { e.msg with redelivered := true } true
    else
      let r := deadLetter s e.q e.msg (lit "rejected")
      { r.1 with fates := r.1.fates ++ [(e.msg.id, .rejected r.2)] }

def settle (order : Order) (s : State) (k : Nat) (kind : Settlement) (tag : Nat)
    (multiple again : Bool) : State :=
  match s.channels[k]? with
  | none => s
  | some chan =>
    if chan.closed then s
    else
      let entries := chan.unacked.filter fun e => if multiple then e.tag ≤ tag else e.tag = tag
      if entries = [] then shutdown order s k
      else
        let s := (entries.map Inflight.tag).foldl (settleOne kind again k) s
        (order.pick .touched (entries.map Inflight.q).eraseDups).foldl dispatch s

/-- A timer that fires after its message left the queue finds nothing. -/
def expire (s : State) (q id : Nat) : State :=
  match s.queues[q]? with
  | none => s
  | some queue =>
    match queue.msgs.findIdx? fun m => m.id = id with
    | none => s
    | some i => match queue.msgs[i]? with
      | none => s
      | some m =>
        if queue.deleted || queue.ttl ≤ 0 then s
        else
          let s := { s with
            queues := s.queues.set q { queue with msgs := queue.msgs.eraseIdx i } }
          let r := deadLetter s q m (lit "expired")
          { r.1 with fates := r.1.fates ++ [(m.id, .expired r.2)] }

/-! ## The operations -/

inductive ConfirmAction
  | ack
  | nack
  | drop
  | hold

inductive Act
  | dial
  | channel (c : Nat)
  | qos (k : Nat) (prefetch : Int)
  | exchangeDeclare (k : Nat) (name : Bytes) (kind : Kind) (durable autoDelete intern : Bool)
  | queueDeclare (k : Nat) (name : Bytes) (durable autoDelete exclusive : Bool)
      (args : List (Bytes × Arg))
  | queueBind (k : Nat) (name key exchange : Bytes)
  | consume (k : Nat) (queue tag : Bytes) (autoAck exclusive : Bool)
  | cancel (k : Nat) (tag : Bytes)
  /-- The action is the answer of the confirm policy. -/
  | publish (k : Nat) (exchange key : Bytes) (pub : Publishing) (action : ConfirmAction)
  /-- A message from outside any connection. -/
  | inject (exchange key : Bytes) (pub : Publishing)
  | settle (k : Nat) (kind : Settlement) (tag : Nat) (multiple again : Bool)
  | expire (q id : Nat)
  | deleteQueue (name : Bytes)
  | close (k : Nat)
  | closeConn (c : Nat)
  | killConnections

/-- An operation of a closed channel does nothing. -/
def onChannel (s : State) (k : Nat) (f : Channel → State) : State :=
  match s.channels[k]? with
  | none => s
  | some chan => if chan.closed then s else f chan

def exchangeDeclare (order : Order) (s : State) (k : Nat) (ex : Exchange) : State :=
  match s.exchange? ex.name with
  | some old =>
    if old.kind = ex.kind ∧ old.durable = ex.durable ∧ old.autoDelete = ex.autoDelete ∧
        old.intern = ex.intern then s
    else shutdown order s k
  | none => match ex.kind with
    | .unknown _ => shutdown order s k
    | _ => { s with exchanges := s.exchanges ++ [ex] }

/-- Milliseconds as a duration, in 64 bits. -/
def msDuration (ms : Int) : Int := Int.bmod (ms * 1000000) 0x10000000000000000

/-- An argument that must be an integer in a range, if it is there; `none` is refused. -/
def intArg (args : List (Bytes × Arg)) (name : Bytes) (ok : Int → Bool) : Option (Option Int) :=
  match args.lookup name with
  | none => some none
  | some (.int n) => if ok n then some (some n) else none
  | some _ => none

def stringArg (args : List (Bytes × Arg)) (name : Bytes) : Option Bytes :=
  match args.lookup name with
  | some (.string v) => some v
  | _ => none

/-- `amq.gen-%06d`. -/
def generatedName (n : Nat) : Bytes :=
  let digits := toString n
  lit ("amq.gen-" ++ String.ofList (List.replicate (6 - digits.length) '0') ++ digits)

def queueDeclare (order : Order) (s : State) (k conn : Nat) (name : Bytes)
    (durable autoDelete exclusive : Bool) (args : List (Bytes × Arg)) : State :=
  let s := if name = [] then { s with nameSeq := s.nameSeq + 1 } else s
  let name := if name = [] then generatedName s.nameSeq else name
  match (s.names.lookup name).bind fun q => s.queues[q]? with
  | some old =>
    if old.exclusive && old.owner ≠ some conn then shutdown order s k
    else if old.durable = durable ∧ old.autoDelete = autoDelete ∧ old.exclusive = exclusive ∧
        old.args.isPerm args then s
    else shutdown order s k
  | none =>
    match intArg args (lit "x-message-ttl") fun n => 0 ≤ n,
      intArg args (lit "x-max-priority") fun n => 0 ≤ n && n ≤ 255 with
    | some ttl, some maxPriority =>
      { s with
        queues := s.queues ++ [{
          name, durable, autoDelete, exclusive, args
          owner := if exclusive then some conn else none
          ttl := msDuration (ttl.getD 0)
          dlx := stringArg args (lit "x-dead-letter-exchange")
          dlxKey := stringArg args (lit "x-dead-letter-routing-key")
          maxPriority := (maxPriority.getD 0).toNat }]
        names := s.names ++ [(name, s.queues.length)] }
    | _, _ => shutdown order s k

def queueBind (order : Order) (s : State) (k : Nat) (name key exchange : Bytes) : State :=
  if (s.exchange? exchange).isNone ∨ exchange = [] ∨ (s.names.lookup name).isNone then
    shutdown order s k
  else
    { s with exchanges := s.exchanges.map fun ex =>
        if ex.name = exchange ∧ ⟨name, key⟩ ∉ ex.bindings then
          { ex with bindings := ex.bindings ++ [⟨name, key⟩] }
        else ex }

/-- `amq.ctag-<channel>-<number>`. -/
def generatedTag (id n : Nat) : Bytes := lit ("amq.ctag-" ++ toString id ++ "-" ++ toString n)

def consume (order : Order) (s : State) (k : Nat) (chan : Channel) (name tag : Bytes)
    (autoAck exclusive : Bool) : State :=
  match s.names.lookup name with
  | none => shutdown order s k
  | some q => match s.queues[q]? with
    | none => s
    | some queue =>
      if queue.exclusive && queue.owner ≠ some chan.conn then shutdown order s k
      else if queue.consumers.any fun c =>
          exclusive || (s.consumers[c]?).any Consumer.exclusive then shutdown order s k
      else
        let chan := if tag = [] then { chan with ctagSeq := chan.ctagSeq + 1 } else chan
        let s := { s with channels := s.channels.set k chan }
        let tag := if tag = [] then generatedTag chan.id chan.ctagSeq else tag
        if (chan.consumers.lookup tag).isSome then shutdown order s k
        else
          dispatch { s with
            consumers := s.consumers ++ [{
              tag, ch := k, q, autoAck, exclusive, prefetch := chan.prefetch }]
            channels := s.channels.set k
              { chan with consumers := chan.consumers ++ [(tag, s.consumers.length)] }
            queues := s.queues.set q { queue with
              consumers := queue.consumers ++ [s.consumers.length], hadConsumer := true } } q

def publish (order : Order) (s : State) (k : Nat) (exchange key : Bytes) (pub : Publishing)
    (action : ConfirmAction) : State :=
  if (s.exchange? exchange).isNone then shutdown order s k
  else match action with
    | .nack | .drop => s
    | .ack | .hold => route s exchange key pub

def perform (order : Order) (s : State) : Act → State
  | .dial => { s with conns := s.conns ++ [{}] }
  | .channel c => match s.conns[c]? with
    | none => s
    | some conn =>
      if conn.closed then s
      else { s with
        conns := s.conns.set c { conn with nextID := conn.nextID + 1 }
        channels := s.channels ++ [{ conn := c, id := conn.nextID + 1 }] }
  | .qos k prefetch => onChannel s k fun chan =>
      { s with channels := s.channels.set k { chan with prefetch } }
  | .exchangeDeclare k name kind durable autoDelete intern => onChannel s k fun _ =>
      exchangeDeclare order s k { name, kind, durable, autoDelete, intern, bindings := [] }
  | .queueDeclare k name durable autoDelete exclusive args => onChannel s k fun chan =>
      queueDeclare order s k chan.conn name durable autoDelete exclusive args
  | .queueBind k name key exchange => onChannel s k fun _ => queueBind order s k name key exchange
  | .consume k queue tag autoAck exclusive => onChannel s k fun chan =>
      consume order s k chan queue tag autoAck exclusive
  | .cancel k tag => onChannel s k fun chan =>
      (chan.consumers.lookup tag).elim s (removeConsumer s)
  | .publish k exchange key pub action => onChannel s k fun _ =>
      publish order s k exchange key pub action
  | .inject exchange key pub =>
    if (s.exchange? exchange).isNone then s else route s exchange key pub
  | .settle k kind tag multiple again => settle order s k kind tag multiple again
  | .expire q id => expire s q id
  | .deleteQueue name => (s.names.lookup name).elim s (deleteQueue s)
  | .close k => shutdown order s k
  | .closeConn c => shutdownConn order s c
  | .killConnections =>
    (order.pick .conns (List.range s.conns.length)).foldl (shutdownConn order) s

def broker : System State (Order × Act) where
  init s := s = {}
  step s a := some (perform a.1 s a.2)

end Protobus.Fakebroker
