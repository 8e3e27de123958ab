import Protobus.Library.Transition
import Mathlib.Logic.Function.Basic

/-!
# The dispatcher

Callers publish requests and wait for replies on a queue that belongs to the process. A caller
reads the publishing channel and the reply queue in one critical section, registers its call in
another and publishes in a third; meanwhile the reader of replies, the supervisor of the
connection, the recovery of a dead reply consumer and `close` take entries out of the table and
resolve them. Every critical section and every operation on a Go channel is one step.

The state has two halves: the calls, and the link to the broker. Steps of the link change the
calls by `failPending` only.
-/
namespace Protobus.Dispatcher
open Library

/-! ## Calls -/

inductive Kind
  | call
  /-- A call that asks for no reply. -/
  | oneWay
  | stream
  deriving DecidableEq

/-- What the table is cleared with. -/
inductive Fault
  | disconnected
  | closed
  deriving DecidableEq

/-- What is signalled to an attempt: the reply of one delivery, or the fault of one call of
`failPending`. Deliveries and calls of `failPending` are numbered. -/
inductive Outcome
  | reply (delivery : Nat)
  | fault (err : Fault) (round : Nat)
  deriving DecidableEq

inductive Result
  /-- What was signalled to the given attempt. -/
  | outcome (attempt : Nat) (o : Outcome)
  | published
  /-- An error of the caller's own: of the wait for a channel, the publish or the context. -/
  | failed
  deriving DecidableEq

/-- Where an invocation of `call` or `publishStream` is. -/
inductive Pc
  | idle
  | channel
  | paired (pub queue : Nat)
  | registered (attempt : Nat)
  | sent (attempt : Nat)
  | waiting (attempt : Nat)
  /-- About to unregister, and then to try again or to return. -/
  | forgetting (attempt : Nat) (again : Bool)
  | returned (r : Result)
  deriving DecidableEq

/-- The attempt in hand. -/
def Pc.attempt : Pc → Option Nat
  | registered a | sent a | waiting a | forgetting a _ => some a
  | _ => none

/-- One pass through the publishing loop, with the pair it was given. -/
structure Attempt where
  invocation : Nat
  pub : Nat
  queue : Nat
  deriving DecidableEq

/-- A delivery that went through `route`, with the table it met. -/
structure Routed where
  id : Nat
  table : List (Nat × Nat)

/-- Invocations are named by their correlation ids, which are unique, and attempts by their
number. The table `pending` is `d.calls` and `d.streams`: an id is in one of them only.
`resolving` has what was taken out of the table and is not signalled yet. The history is in
`signalled`, `routed`, `sent` and `confirmed`. -/
structure Calls where
  pcs : Nat → Pc := fun _ => .idle
  attempts : List Attempt := []
  pending : List (Nat × Nat) := []
  slots : Nat → Option Outcome := fun _ => none
  resolving : List (Nat × Outcome) := []
  signalled : List (Nat × Outcome) := []
  routed : List Routed := []
  rounds : Nat := 0
  sent : List Nat := []
  confirmed : List Nat := []

/-! ## The link to the broker -/

/-- Where `tryRecoverReplies` is, with the publishing channel it is going to close. -/
inductive Recovery
  | idle
  | begun (pub : Option Nat)
  | failed (pub : Option Nat)
  | cleared (pub : Option Nat)
  | retired
  deriving DecidableEq

/-- `queue` and `pub` are the fields of the dispatcher, and `openPubs` the publishing channels
that can still send. `consuming` says that the consumer of the installed queue is alive,
`losing` that `connectionLost` is between its two steps, and `closing` that `close` is. -/
structure Link where
  closed : Bool := false
  queue : Option Nat := none
  pub : Option Nat := none
  queues : Nat := 0
  pubs : Nat := 0
  openPubs : List Nat := []
  up : Bool := true
  consuming : Bool := false
  recovery : Recovery := .idle
  losing : Bool := false
  closing : Bool := false

structure State where
  calls : Calls := {}
  link : Link := {}

inductive CallAction
  | invoke (i : Nat)
  | pair (i : Nat)
  | refuse (i : Nat)
  | register (i : Nat)
  | send (i : Nat)
  /-- The publish fails and nothing was sent; on `errChannelGone` the caller tries again. -/
  | unsent (i : Nat) (again : Bool)
  | confirm (i : Nat)
  /-- The publish fails after the request was sent. -/
  | unconfirmed (i : Nat)
  | forget (i : Nat)
  | receive (i : Nat)
  /-- The context of a call ends, or a stream is released. -/
  | abandon (i : Nat)
  | route (id : Nat)
  | resolve (j : Nat)

inductive LinkAction
  | connectionDies
  | dial
  | lostFail
  | lostClear
  | closePub (p : Nat)
  | consumerDies
  /-- `restoreTopology`, by an attach, a reconnection or a repair. -/
  | install
  /-- A repair of the publishing channel alone. -/
  | repairPub
  | recoverBegin
  | recoverFail
  | recoverClear
  | recoverClose
  | recoverInstall
  | recoverEnd
  | close
  | closeFail

inductive Action
  | call (a : CallAction)
  | link (a : LinkAction)

/-! ## Steps -/

/-- What `channel` hands out. -/
def Link.pair (l : Link) : Option (Nat × Nat) :=
  match l.pub, l.queue with
  | some p, some q => if !l.closed && l.openPubs.contains p then some (p, q) else none
  | _, _ => none

namespace Calls
variable (c : Calls)

def setPc (i : Nat) (pc : Pc) : Calls := { c with pcs := Function.update c.pcs i pc }

/-- `failPending`: the table is taken out as a whole. -/
def failPending (err : Fault) : Calls :=
  let signals := c.pending.map fun e => (e.2, Outcome.fault err c.rounds)
  { c with
    pending := []
    resolving := c.resolving ++ signals
    signalled := c.signalled ++ signals
    rounds := c.rounds + 1 }

/-- `d.calls[id] = call`. -/
def register (kind : Nat → Kind) (i p q : Nat) : Calls :=
  let a := c.attempts.length
  { c.setPc i (.registered a) with
    attempts := c.attempts ++ [⟨i, p, q⟩]
    pending := if kind i = .oneWay then c.pending else (i, a) :: c.pending.filter (·.1 ≠ i) }

/-- `forget`, and the part of `release` that unregisters: only if the entry is this one. -/
def forget (i a : Nat) : Calls := { c with pending := c.pending.filter (· ≠ (i, a)) }

/-- `route`: a stream keeps its entry, the entry of a call is taken out. -/
def route (kind : Nat → Kind) (id : Nat) : Calls :=
  let n := c.routed.length
  let c' := { c with routed := c.routed ++ [⟨id, c.pending⟩] }
  if kind id = .stream then c'
  else match c.pending.find? (·.1 = id) with
    | some e => { c' with
        pending := c.pending.filter (·.1 ≠ id)
        resolving := c.resolving ++ [(e.2, .reply n)]
        signalled := c.signalled ++ [(e.2, .reply n)] }
    | none => c'

/-- `resolve`: a slot holds one outcome, and the first one stays. -/
def fill (a : Nat) (o : Outcome) : Calls :=
  if c.slots a = none then { c with slots := Function.update c.slots a (some o) } else c

def step (kind : Nat → Kind) (l : Link) : CallAction → Option Calls
  | .invoke i => match c.pcs i with
    | .idle => some (c.setPc i .channel)
    | _ => none
  | .pair i => match c.pcs i with
    | .channel => l.pair.map fun (p, q) => c.setPc i (.paired p q)
    | _ => none
  | .refuse i => match c.pcs i with
    | .channel => some (c.setPc i (.returned .failed))
    | _ => none
  | .register i => match c.pcs i with
    | .paired p q => some (c.register kind i p q)
    | _ => none
  | .send i => match c.pcs i with
    | .registered a =>
      if (c.attempts[a]?).any (fun t => l.openPubs.contains t.pub)
      then some { c.setPc i (.sent a) with sent := a :: c.sent } else none
    | _ => none
  | .unsent i again => match c.pcs i with
    | .registered a => some (c.setPc i (.forgetting a again))
    | _ => none
  | .confirm i => match c.pcs i with
    | .sent a => some { c.setPc i
        (if kind i = .oneWay then .returned .published else .waiting a) with
        confirmed := a :: c.confirmed }
    | _ => none
  | .unconfirmed i => match c.pcs i with
    | .sent a => some (c.setPc i (.forgetting a false))
    | _ => none
  | .forget i => match c.pcs i with
    | .forgetting a again =>
      some ((c.forget i a).setPc i (if again then .channel else .returned .failed))
    | _ => none
  | .receive i => match c.pcs i with
    | .waiting a => if kind i = .call then (c.slots a).map fun o =>
        { c.setPc i (.returned (.outcome a o)) with slots := Function.update c.slots a none }
      else none
    | _ => none
  | .abandon i => match c.pcs i with
    | .waiting a => some (c.setPc i (.forgetting a false))
    | _ => none
  | .route id => some (c.route kind id)
  | .resolve j => (c.resolving[j]?).map fun e =>
      { c with resolving := c.resolving.eraseIdx j }.fill e.1 e.2

end Calls

namespace Link
variable (l : Link)

/-- A new reply queue with its consumer, and a new publishing channel. -/
def install : Link := { l with
  queue := some l.queues
  pub := some l.pubs
  queues := l.queues + 1
  pubs := l.pubs + 1
  openPubs := l.pubs :: l.openPubs
  consuming := true }

def clear : Link := { l with queue := none, pub := none, consuming := false }

def closePub (p : Option Nat) : Link := { l with openPubs := l.openPubs.filter (some · ≠ p) }

/-- The fault, if the step runs `failPending`. The steps that rebuild something hold the
restore lock, so none of them is between those of a recovery. -/
def step : LinkAction → Option (Link × Option Fault)
  | .connectionDies => some ({ l with up := false, openPubs := [] }, none)
  | .dial => if !l.up && !l.losing then some ({ l with up := true }, none) else none
  | .lostFail => if !l.up && !l.losing then some ({ l with losing := true }, some .disconnected)
      else none
  | .lostClear => if l.losing then some ({ l.clear with losing := false }, none) else none
  | .closePub p => some (l.closePub (some p), none)
  | .consumerDies => some ({ l with consuming := false }, none)
  | .install => if l.up && !l.closed && l.recovery = .idle then some (l.install, none) else none
  | .repairPub =>
    if l.up && !l.closed && l.recovery = .idle && l.queue.isSome then
      some ({ l.closePub l.pub with
        pub := some l.pubs
        pubs := l.pubs + 1
        openPubs := l.pubs :: (l.closePub l.pub).openPubs }, none)
    else none
  | .recoverBegin =>
    if !l.closed && !l.consuming && l.recovery = .idle then
      some ({ l with recovery := if l.queue.isSome then .begun l.pub else .retired }, none)
    else none
  | .recoverFail => match l.recovery with
    | .begun p => some ({ l with recovery := .failed p }, some .disconnected)
    | _ => none
  | .recoverClear => match l.recovery with
    | .failed p => some ({ l.clear with recovery := .cleared p }, none)
    | _ => none
  | .recoverClose => match l.recovery with
    | .cleared p => some ({ l.closePub p with recovery := .retired }, none)
    | _ => none
  | .recoverInstall => match l.recovery with
    | .retired => if l.up && !l.closed then some ({ l.install with recovery := .idle }, none)
        else none
    | _ => none
  | .recoverEnd => match l.recovery with
    | .retired => some ({ l with recovery := .idle }, none)
    | _ => none
  | .close => if !l.closed then some ({ l.clear with closed := true, closing := true }, none)
      else none
  | .closeFail => if l.closing then some ({ l with closing := false }, some .closed) else none

end Link

def step (kind : Nat → Kind) (s : State) : Action → Option State
  | .call a => (s.calls.step kind s.link a).map fun c => { s with calls := c }
  | .link a => (s.link.step a).map fun (l, err) =>
      ⟨err.elim s.calls s.calls.failPending, l⟩

def system (kind : Nat → Kind) : System State Action where
  init s := s = {}
  step := step kind

end Protobus.Dispatcher
