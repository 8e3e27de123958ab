import Protobus.Library.Bytes
import Protobus.Library.Transition
import Mathlib.Logic.Function.Basic

/-!
# The confirm-mode publish channel

`pubChannel` as a transition system: any number of `publish` calls, the writer goroutine,
the loop goroutine, the transport and the broker take steps in any order. Each step is one
select, one channel operation, one critical section or one call into the transport.

A publication is named by the number of the call that made it. `settle` takes two steps, one
that records the outcome and closes `done`, and one that gives the slot back; a second
settler of the same publication waits for the first, as `sync.Once` makes it.

`sentAt` and `retireIfWedged` are left out: all they decide is that this side closes the
channel, and here the channel may close at any moment.
-/
namespace Protobus.PubChannel
open Library

/-- What `Err` of an ended context reports. -/
inductive CtxErr
  | canceled
  | deadlineExceeded
deriving DecidableEq

/-- The `Err` of a `PublishError`. -/
inductive Cause
  | nacked
  | unroutable
  | confirmTimeout
  | channelClosed
  | ctx (e : CtxErr)
deriving DecidableEq

structure PublishError where
  err : Cause
  messageID : Bytes
  exchange : Bytes
  routingKey : Bytes
  detail : Bytes
deriving DecidableEq

def PublishError.ambiguous (e : PublishError) : Bool :=
  e.err = .confirmTimeout || e.err = .channelClosed || e.err = .ctx .canceled ||
    e.err = .ctx .deadlineExceeded

/-- A non-nil result of `publish`. -/
inductive Err
  | ctx (e : CtxErr)
  | stalled
  | channelGone
  | write (exchange key : Bytes)
  | publish (e : PublishError)
deriving DecidableEq

/-- What `settle` records: `pp.err` and `pp.sendErr`. -/
structure Outcome where
  verdict : Option Cause
  sendErr : Option Err
deriving DecidableEq

/-- Where a call of `publish` is. Its three ends are told apart: refused before it had a
slot, withdrawn before the hand-off, and returned after it. `seen` says whether the loop had
the broker's verdict when the call returned. -/
inductive Pc
  | idle
  | entered
  | wantSlot
  | refused (r : Err)
  | haveSlot
  | releasing (r : Err)
  | withdrawn (r : Err)
  | handed
  | waiting
  | returned (r : Option Err) (seen : Bool)
deriving DecidableEq

/-- Past the first select: the call took a slot. -/
def Pc.admitted : Pc → Bool
  | idle | entered | wantSlot | refused _ => false
  | _ => true

/-- Past the second select: the writer received the publication. -/
def Pc.handedOff : Pc → Bool
  | handed | waiting | returned _ _ => true
  | _ => false

/-- What the call returned, once it has. -/
def Pc.result : Pc → Option (Option Err)
  | refused r | withdrawn r => some (some r)
  | returned r _ => some r
  | _ => none

/-- A call with its `pendingPublish`. `tag`, `verdict`, `settles` and `releases` are history:
the tag it was registered under, the confirm that `resolve` took for it, and how often the
two halves of `settle` ran. -/
structure Call where
  pc : Pc := .idle
  ctxErr : Option CtxErr := none
  exchange : Bytes := []
  key : Bytes := []
  messageId : Bytes := []
  mandatory : Bool := false
  committed : Bool := false
  returned : Bool := false
  outcome : Option Outcome := none
  tag : Option Nat := none
  verdict : Option Bool := none
  settles : Nat := 0
  releases : Nat := 0

/-- Where the writer is in `send`. -/
inductive Stage
  | received
  | checked
  | opened
  | registered (tag : Nat)
  | committed (tag : Nat)
  | failed (tag : Nat) (err : Err)
  | settling (err : Err)
  | releasing
deriving DecidableEq

inductive Writer
  | idle
  | busy (pub : Nat) (stage : Stage)
  | stopped
deriving DecidableEq

/-- Where the loop is: in its main select, draining, or shutting down with the publications
it still has to settle. -/
inductive Loop
  | running
  | draining (reason : Bytes)
  | swapped (todo : List Nat)
  | sweeping (todo : List Nat)
  | finished
deriving DecidableEq

def Loop.todo : Loop → List Nat
  | swapped todo | sweeping todo => todo
  | _ => []

/-- The main select and the drain take the same returns and confirms. -/
def Loop.consuming : Loop → Bool
  | running | draining _ => true
  | _ => false

/-- A `settle` that the loop is running. -/
structure Settling where
  pub : Nat
  verdict : Option Cause
  recorded : Bool
deriving DecidableEq

structure Return where
  messageId : Bytes
  exchange : Bytes
  routingKey : Bytes
deriving DecidableEq

structure Confirmation where
  deliveryTag : Nat
  ack : Bool
deriving DecidableEq

/-- A frame from the broker. A return names no publication on the wire; `pub` is history. -/
inductive Frame
  | ret (r : Return) (pub : Nat)
  | confirm (c : Confirmation)
deriving DecidableEq

structure Config where
  maxOutstandingConfirms : Nat
  /-- `PublishConfirmTimeout` as `%v` prints it. -/
  publishConfirmTimeout : Bytes

/-- The channel and its goroutines, then the transport: the next sequence number, what was
written under which tag, the close notification, the frames not read yet and the buffer of
confirms. `confirmed` and `bounced` are history: what the broker sent. -/
structure State where
  slots : Nat
  pending : List (Nat × Nat)
  closed : Bool
  closeErr : Option Bytes
  started : Nat
  calls : Nat → Call
  writer : Writer
  loop : Loop
  settling : Option Settling
  nextSeq : Nat
  transmitted : List (Nat × Nat)
  notice : Option (Option Bytes)
  wire : List Frame
  confirms : List Confirmation
  confirmed : List Confirmation
  bounced : List Nat

def State.start : State where
  slots := 0
  pending := []
  closed := false
  closeErr := none
  started := 0
  calls := fun _ => {}
  writer := .idle
  loop := .running
  settling := none
  nextSeq := 1
  transmitted := []
  notice := none
  wire := []
  confirms := []
  confirmed := []
  bounced := []

def State.update (s : State) (i : Nat) (f : Call → Call) : State :=
  { s with calls := Function.update s.calls i (f (s.calls i)) }

section
variable (s : State) (i j : Nat) (f : Call → Call)

@[simp, grind =] theorem calls_update :
    (s.update i f).calls j = if j = i then f (s.calls i) else s.calls j := Function.update_apply ..

@[simp, grind =] theorem slots_update : (s.update i f).slots = s.slots := rfl
@[simp, grind =] theorem pending_update : (s.update i f).pending = s.pending := rfl
@[simp, grind =] theorem closed_update : (s.update i f).closed = s.closed := rfl
@[simp, grind =] theorem closeErr_update : (s.update i f).closeErr = s.closeErr := rfl
@[simp, grind =] theorem started_update : (s.update i f).started = s.started := rfl
@[simp, grind =] theorem writer_update : (s.update i f).writer = s.writer := rfl
@[simp, grind =] theorem loop_update : (s.update i f).loop = s.loop := rfl
@[simp, grind =] theorem settling_update : (s.update i f).settling = s.settling := rfl
@[simp, grind =] theorem nextSeq_update : (s.update i f).nextSeq = s.nextSeq := rfl
@[simp, grind =] theorem transmitted_update : (s.update i f).transmitted = s.transmitted := rfl
@[simp, grind =] theorem notice_update : (s.update i f).notice = s.notice := rfl
@[simp, grind =] theorem wire_update : (s.update i f).wire = s.wire := rfl
@[simp, grind =] theorem confirms_update : (s.update i f).confirms = s.confirms := rfl
@[simp, grind =] theorem confirmed_update : (s.update i f).confirmed = s.confirmed := rfl
@[simp, grind =] theorem bounced_update : (s.update i f).bounced = s.bounced := rfl

end

/-- Why a call leaves one of its first two selects. -/
inductive Why
  | closed
  | ctx (e : CtxErr)
  | timer

def Why.result : Why → Err
  | closed => .channelGone
  | ctx e => .ctx e
  | timer => .stalled

/-- What `settle` is given when the second select is left: nothing after the timer. -/
def Why.sendErr : Why → Option Err
  | closed => some .channelGone
  | ctx e => some (.ctx e)
  | timer => none

def Why.ready (s : State) (i : Nat) : Why → Bool
  | closed => s.closed
  | ctx e => (s.calls i).ctxErr = some e
  | timer => true

def Call.fail (c : Call) (err : Cause) (detail : Bytes) : Err :=
  .publish ⟨err, c.messageId, c.exchange, c.key, detail⟩

/-- The closure `outcome` of `publish`. -/
def Call.report (c : Call) (closeErr : Option Bytes) (o : Outcome) : Option Err :=
  match o.sendErr, o.verdict with
  | some e, _ => some e
  | none, some v => some (c.fail v (if v = .channelClosed then closeErr.getD [] else []))
  | none, none => none

def Call.finish (c : Call) (r : Option Err) : Call :=
  { c with pc := .returned r c.verdict.isSome }

def Call.record (c : Call) (o : Outcome) : Call :=
  { c with outcome := some o, settles := c.settles + 1 }

def Call.release (c : Call) : Call := { c with releases := c.releases + 1 }

/-- The loop over `pending` in `markReturned`, which keeps the smallest matching tag. -/
def oldest (eligible : Nat → Bool) (pending : List (Nat × Nat)) : Option (Nat × Nat) :=
  pending.foldl (fun best e =>
    if eligible e.2 && (match best with | none => true | some b => e.1 < b.1) then some e else best)
    none

def Call.eligible (c : Call) (r : Return) : Bool :=
  c.mandatory && !c.returned && c.messageId = r.messageId && c.exchange = r.exchange &&
    c.key = r.routingKey

def markReturned (s : State) (r : Return) : State :=
  match oldest (fun i => (s.calls i).eligible r) s.pending with
  | none => s
  | some (_, i) => s.update i fun c => { c with returned := true }

def forget (pending : List (Nat × Nat)) (tag : Nat) : List (Nat × Nat) :=
  pending.filter fun e => e.1 ≠ tag

/-- The verdict of a confirm for a publication. -/
def Call.judge (c : Call) (ack : Bool) : Option Cause :=
  if !ack then some .nacked else if c.returned then some .unroutable else none

/-- `resolve` up to its call of `settle`. -/
def resolve (s : State) (c : Confirmation) : State :=
  match s.pending.lookup c.deliveryTag with
  | none => s
  | some i =>
    { s with
      pending := forget s.pending c.deliveryTag
      settling := some ⟨i, (s.calls i).judge c.ack, false⟩ }.update i
        fun call => { call with verdict := some c.ack }

/-! ## Steps -/

/-- What a call of `publish` does on its own. -/
inductive CallerAction
  | enter
  | takeSlot
  | refuse (why : Why)
  | withdraw (why : Why)
  | release (r : Err)
  | seeCommit
  | seeDone (o : Outcome)
  | timeout
  | abandon (e : CtxErr)

/-- What the writer does in `send`. -/
inductive WriterAction
  | checkCtx
  | checkClosed
  | register
  | commit (tag : Nat)
  | transmit (tag : Nat)
  | writeFails (tag : Nat) (errClosed : Bool)
  | forgetTag (tag : Nat) (err : Err)
  | settle (err : Err)
  | skip (err : Err)
  | release

inductive LoopAction
  | takeReturn (r : Return) (pub : Nat)
  | takeConfirm (c : Confirmation)
  | seeClose (e : Option Bytes)
  | endDrain (reason : Bytes)
  | closeDone (todo : List Nat)
  | sweep (i : Nat) (todo : List Nat)
  | finish
  | settle (i : Nat) (v : Option Cause)
  | skip (i : Nat) (v : Option Cause)
  | release (i : Nat) (v : Option Cause)

/-- What happens around the channel: calls and contexts, the transport and the broker. -/
inductive EnvAction
  | call (exchange key messageId uuid : Bytes) (mandatory : Bool)
  | endCtx (i : Nat) (e : CtxErr)
  | closeTransport (e : Option Bytes)
  | read (c : Confirmation)
  | brokerReturn (r : Return) (pub : Nat)
  | brokerConfirm (c : Confirmation)

inductive Action
  | caller (i : Nat) (a : CallerAction)
  | handOff (i : Nat)
  | writer (i : Nat) (a : WriterAction)
  | stop
  | loop (a : LoopAction)
  | env (a : EnvAction)

section
variable (cfg : Config) (s : State)

def callerEnabled (i : Nat) : CallerAction → Bool
  | .enter => (s.calls i).pc = .entered
  | .takeSlot => (s.calls i).pc = .wantSlot && s.slots < cfg.maxOutstandingConfirms
  | .refuse why => (s.calls i).pc = .wantSlot && why.ready s i
  | .withdraw why => (s.calls i).pc = .haveSlot && why.ready s i
  | .release r => (s.calls i).pc = .releasing r && 0 < s.slots
  | .seeCommit => (s.calls i).pc = .handed && (s.calls i).committed
  | .seeDone o =>
    ((s.calls i).pc = .handed || (s.calls i).pc = .waiting) && (s.calls i).outcome = some o
  | .timeout => (s.calls i).pc = .waiting
  | .abandon e => (s.calls i).pc = .waiting && (s.calls i).ctxErr = some e

/-- What the step changes in the call. Only `settle` touches more: it gives the slot back. -/
def callerEffect (c : Call) : CallerAction → Call
  | .enter => match c.ctxErr with
    | some e => { c with pc := .refused (.ctx e) }
    | none => { c with pc := .wantSlot }
  | .takeSlot => { c with pc := .haveSlot }
  | .refuse why => { c with pc := .refused why.result }
  | .withdraw why => { c.record ⟨none, why.sendErr⟩ with pc := .releasing why.result }
  | .release r => { c.release with pc := .withdrawn r }
  | .seeCommit => { c with pc := .waiting }
  | .seeDone o => c.finish (c.report s.closeErr o)
  | .timeout => c.finish
    (some (c.fail .confirmTimeout (lit "no confirm within " ++ cfg.publishConfirmTimeout)))
  | .abandon e => c.finish (some (c.fail (.ctx e) (lit "gave up waiting for the confirm")))

def callerSlots : CallerAction → Nat
  | .takeSlot => s.slots + 1
  | .release _ => s.slots - 1
  | _ => s.slots

def callerNext (i : Nat) (a : CallerAction) : State :=
  { s with slots := callerSlots s a }.update i fun c => callerEffect cfg s c a

/-- The stage at which the writer does this. -/
def WriterAction.stage : WriterAction → Stage
  | checkCtx => .received
  | checkClosed => .checked
  | register => .opened
  | commit tag => .registered tag
  | transmit tag | writeFails tag _ => .committed tag
  | forgetTag tag err => .failed tag err
  | settle err | skip err => .settling err
  | release => .releasing

def writerEnabled (i : Nat) : WriterAction → Bool
  -- once the close notification is out, a write fails, and with `ErrClosed`
  | .transmit _ => s.notice = none
  | .writeFails _ errClosed => s.notice = none || errClosed
  | .settle _ => (s.calls i).outcome = none
  | .skip _ => (s.calls i).outcome ≠ none && 0 < (s.calls i).releases
  | .release => 0 < s.slots
  | _ => true

def writerNext (i : Nat) : WriterAction → State
  | .checkCtx => { s with writer := match (s.calls i).ctxErr with
    | some e => .busy i (.settling (.ctx e))
    | none => .busy i .checked }
  | .checkClosed =>
    { s with writer := .busy i (if s.closed then .settling .channelGone else .opened) }
  -- the number is read and registered in one step: only the writer advances it
  | .register =>
    { s with
      pending := (s.nextSeq, i) :: forget s.pending s.nextSeq
      writer := .busy i (.registered s.nextSeq) }.update i fun c => { c with tag := some s.nextSeq }
  | .commit tag =>
    { s with writer := .busy i (.committed tag) }.update i fun c => { c with committed := true }
  | .transmit _ =>
    { s with
      transmitted := s.transmitted ++ [(s.nextSeq, i)]
      nextSeq := s.nextSeq + 1
      writer := .idle }
  | .writeFails tag errClosed =>
    { s with writer := .busy i (.failed tag
        (if errClosed then .channelGone else .write (s.calls i).exchange (s.calls i).key)) }
  | .forgetTag tag err =>
    { s with
      pending := if s.pending.lookup tag = some i then forget s.pending tag else s.pending
      writer := .busy i (.settling err) }
  | .settle err => { s with writer := .busy i .releasing }.update i (·.record ⟨none, some err⟩)
  | .skip _ => { s with writer := .idle }
  | .release => { s with slots := s.slots - 1, writer := .idle }.update i Call.release

def loopEnabled : LoopAction → Bool
  | .takeReturn r pub =>
    s.loop.consuming && s.settling = none && s.wire.head? = some (.ret r pub)
  | .takeConfirm c => s.loop.consuming && s.settling = none && s.confirms.head? = some c
  | .seeClose e => s.loop = .running && s.settling = none && s.notice = some e
  | .endDrain reason => s.loop = .draining reason && s.settling = none && s.confirms = []
  | .closeDone todo => s.loop = .swapped todo
  | .sweep i todo => s.loop = .sweeping todo && s.settling = none && i ∈ todo
  | .finish => s.loop = .sweeping [] && s.settling = none
  | .settle i v => s.settling = some ⟨i, v, false⟩ && (s.calls i).outcome = none
  | .skip i v =>
    s.settling = some ⟨i, v, false⟩ && (s.calls i).outcome ≠ none && 0 < (s.calls i).releases
  | .release i v => s.settling = some ⟨i, v, true⟩ && 0 < s.slots

def loopNext : LoopAction → State
  | .takeReturn r _ => markReturned { s with wire := s.wire.tail } r
  | .takeConfirm c => resolve { s with confirms := s.confirms.tail } c
  | .seeClose e => { s with loop := .draining (e.getD (lit "channel closed")) }
  | .endDrain reason =>
    { s with
      loop := .swapped (s.pending.map Prod.snd)
      pending := []
      closeErr := some reason }
  | .closeDone todo => { s with loop := .sweeping todo, closed := true }
  | .sweep i todo =>
    { s with loop := .sweeping (todo.erase i), settling := some ⟨i, some .channelClosed, false⟩ }
  | .finish => { s with loop := .finished }
  | .settle i v => { s with settling := some ⟨i, v, true⟩ }.update i (·.record ⟨v, none⟩)
  | .skip _ _ => { s with settling := none }
  | .release i _ => { s with slots := s.slots - 1, settling := none }.update i Call.release

def envEnabled : EnvAction → Bool
  | .endCtx i _ => i < s.started && (s.calls i).ctxErr = none
  | .closeTransport _ => s.notice = none
  | .read c =>
    s.wire.head? = some (.confirm c) && s.confirms.length < cfg.maxOutstandingConfirms
  -- every written tag is confirmed at most once, and no other
  | .brokerConfirm c => c.deliveryTag ∈ s.transmitted.map Prod.fst &&
    !(c.deliveryTag ∈ s.confirmed.map Confirmation.deliveryTag)
  | _ => true

def envNext : EnvAction → State
  | .call exchange key messageId uuid mandatory =>
    { s with started := s.started + 1 }.update s.started fun _ =>
      { pc := .entered, exchange, key, mandatory
        messageId := if messageId = [] then uuid else messageId }
  | .endCtx i e => s.update i fun c => { c with ctxErr := some e }
  | .closeTransport e => { s with notice := some e }
  | .read c => { s with wire := s.wire.tail, confirms := s.confirms ++ [c] }
  | .brokerReturn r pub => { s with wire := s.wire ++ [.ret r pub], bounced := pub :: s.bounced }
  | .brokerConfirm c =>
    { s with wire := s.wire ++ [.confirm c], confirmed := s.confirmed ++ [c] }

def enabled : Action → Bool
  | .caller i a => callerEnabled cfg s i a
  | .handOff i => (s.calls i).pc = .haveSlot && s.writer = .idle
  | .writer i a => s.writer = .busy i a.stage && writerEnabled s i a
  | .stop => s.writer = .idle && s.closed
  | .loop a => loopEnabled s a
  | .env a => envEnabled cfg s a

def next : Action → State
  | .caller i a => callerNext cfg s i a
  | .handOff i => { s with writer := .busy i .received }.update i fun c => { c with pc := .handed }
  | .writer i a => writerNext s i a
  | .stop => { s with writer := .stopped }
  | .loop a => loopNext s a
  | .env a => envNext s a

end

/-- The channel that `newPubChannel` returns, in every environment. -/
def system (cfg : Config) : System State Action where
  init s := s = .start
  step s a := if enabled cfg s a then some (next cfg s a) else none

theorem step_iff {cfg : Config} {s t : State} {a : Action} :
    (system cfg).step s a = some t ↔ enabled cfg s a = true ∧ next cfg s a = t := by
  simp [system]

end Protobus.PubChannel
