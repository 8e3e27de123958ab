import Protobus.Library.Transition
import Mathlib.Logic.Function.Basic

/-!
# The session

One supervisor connects, watches the connection, reconnects and restores the registered
components. Beside it run jobs, which hold the restore lock while they attach or repair a
component, calls of `close` and calls of `whenReady`. What a goroutine does under `mu`, and every
operation on a Go channel, is one step. A connection is named by its generation.
-/
namespace Protobus.Session
open Library

inductive Err
  | closed
  | gaveUp (attempts : Nat)
  deriving DecidableEq

/-- `doneOnce`. -/
inductive Once
  | fresh
  | running
  | done
  deriving DecidableEq

inductive Holder
  | supervisor
  | job (i : Nat)
  deriving DecidableEq

/-- Where the supervisor is. Each pass through `reconnect` has a number, and from the dial on a
connection. -/
inductive Supervisor
  | off
  | connected
  | watching
  | losing
  | lost
  | waiting (attempt : Nat)
  | dialing (attempt : Nat)
  | installed (attempt conn : Nat)
  /-- `runRestorers` has the lock, and these registrations to go. -/
  | restoring (attempt conn : Nat) (left : List Nat)
  | failed (attempt : Nat)
  | restored (attempt conn : Nat)
  | announcing (attempt conn : Nat)
  | givingUp (attempts : Nat)
  | gaveUp
  | exited
  deriving DecidableEq

/-- Where a call of `attach` is, or a repair. From `locked` on it has the lock. -/
inductive Job
  | idle
  | locked
  | looking
  | restoring (conn : Nat)
  | restored (conn : Nat)
  | registered
  | leaving
  | attached
  | ended
  deriving DecidableEq

/-- Where a call of `close` is. -/
inductive Closer
  | idle
  | finishing
  | finished
  | cancelled
  | closed
  deriving DecidableEq

inductive WaitErr
  | session (err : Err)
  | context
  | timeout
  deriving DecidableEq

/-- Where a call of `whenReady` is, with the channel it took. -/
inductive Waiter
  | idle
  | took (ready : Nat)
  | checked (ready : Nat)
  | waiting (ready : Nat)
  | woken
  | failing
  | returned (err : Option WaitErr)
  deriving DecidableEq

/-- Registrations are named by the job that made them. The channels `ready` are numbered;
`closes` counts how often each was closed, and `last` has for every component the connection of
its last successful `restoreTopology`. -/
structure State where
  gen : Nat := 0
  isReady : Bool := false
  ready : Nat := 0
  closes : Nat → Nat := fun _ => 0
  comps : List Nat := []
  once : Once := .fresh
  doneErr : Option Err := none
  cancelled : Bool := false
  busClosed : Bool := false
  restoreMu : Option Holder := none
  last : Nat → Option Nat := fun _ => none
  supervisor : Supervisor := .off
  jobs : Nat → Job := fun _ => .idle
  closers : Nat → Closer := fun _ => .idle
  waiters : Nat → Waiter := fun _ => .idle

/-- The component of each job, whether it only repairs it, and `Reconnect.MaxRetries`. -/
structure Setting where
  component : Nat → Nat
  repairs : Nat → Bool
  maxRetries : Nat

inductive SupAction
  | connect (dialed : Bool)
  | announce
  | drop
  | stop
  | markNotReady
  | tell
  | schedule
  | dial (dialed : Bool)
  | lock
  | restore (ok : Bool)
  | unlock
  | retry
  | checkContext
  | socketDied
  | finish
  | giveUp

inductive JobAction
  | lock
  | checkBus
  | look
  | complete (ok again : Bool)
  | register
  | settle
  | leave
  | unregister

inductive CloseAction
  | call
  | finish
  | resume
  | cancel
  | unready

inductive WaitAction
  | take
  | checkDone
  | checkReady
  | wake
  | interrupt
  | giveUp (err : WaitErr)
  | recheck
  | fail

inductive Action
  | supervisor (a : SupAction)
  | job (i : Nat) (a : JobAction)
  | closer (i : Nat) (a : CloseAction)
  | waiter (i : Nat) (a : WaitAction)
  /-- `finish` closes `doneCh`. -/
  | closeDone
  /-- `Bus.Close` sets its flag. -/
  | closeBus

namespace State
variable (cfg : Setting) (s : State)

/-- Whether `current` reports ready; the connection it reports is `s.gen`. -/
def current : Bool := s.isReady && s.doneErr.isNone

def doneClosed : Bool := s.once = .done

def markReady : State :=
  if s.doneErr.isSome || s.isReady then s
  else { s with
    isReady := true
    closes := Function.update s.closes s.ready (s.closes s.ready + 1) }

def markNotReady : State :=
  if s.isReady then { s with isReady := false, ready := s.ready + 1 } else s

/-- `doneOnce.Do`, by the caller that comes first. -/
def finish (err : Err) : Option State :=
  if s.once = .fresh then some { s with once := .running, doneErr := some err } else none

def supStep : SupAction → Option State
  | .connect dialed => match s.supervisor with
    | .off =>
      if !dialed || s.cancelled then some { s with supervisor := .exited }
      else some { s with gen := s.gen + 1, supervisor := .connected }
    | _ => none
  | .announce => match s.supervisor with
    | .connected | .announcing _ _ => some { s.markReady with supervisor := .watching }
    | _ => none
  | .drop => match s.supervisor with
    | .watching => some { s with supervisor := if s.cancelled then .exited else .losing }
    | _ => none
  -- `ctx.Done` in `supervise` and in `sleepCtx`
  | .stop => match s.supervisor with
    | .watching | .dialing _ => if s.cancelled then some { s with supervisor := .exited } else none
    | _ => none
  | .markNotReady => match s.supervisor with
    | .losing => some { s.markNotReady with supervisor := .lost }
    | _ => none
  | .tell => match s.supervisor with
    | .lost => some { s with supervisor := .waiting 1 }
    | _ => none
  | .schedule => match s.supervisor with
    | .waiting n => some { s with supervisor :=
        if 0 < cfg.maxRetries && cfg.maxRetries < n then .givingUp (n - 1) else .dialing n }
    | _ => none
  | .dial dialed => match s.supervisor with
    | .dialing n =>
      if dialed then some { s with gen := s.gen + 1, supervisor := .installed n (s.gen + 1) }
      else some { s with supervisor := .waiting (n + 1) }
    | _ => none
  | .lock => match s.supervisor with
    | .installed n conn =>
      if s.restoreMu = none then some { s with
        restoreMu := some .supervisor
        supervisor := .restoring n conn s.comps } else none
    | _ => none
  | .restore ok => match s.supervisor with
    | .restoring n conn (r :: left) =>
      if s.cancelled || !ok then some { s with restoreMu := none, supervisor := .failed n }
      else some { s with
        last := Function.update s.last (cfg.component r) (some conn)
        supervisor := .restoring n conn left }
    | _ => none
  | .unlock => match s.supervisor with
    | .restoring n conn [] => some { s with restoreMu := none, supervisor := .restored n conn }
    | _ => none
  | .retry => match s.supervisor with
    | .failed n => some { s with supervisor := if s.cancelled then .exited else .waiting (n + 1) }
    | _ => none
  | .checkContext => match s.supervisor with
    | .restored n conn => some { s with
        supervisor := if s.cancelled then .exited else .announcing n conn }
    | _ => none
  | .socketDied => match s.supervisor with
    | .announcing n _ => some { s with supervisor := .waiting (n + 1) }
    | _ => none
  | .finish => match s.supervisor with
    | .givingUp n => s.finish (.gaveUp n)
    | _ => none
  | .giveUp => match s.supervisor with
    | .givingUp _ => if s.once = .done then some { s with supervisor := .gaveUp } else none
    | _ => none

def setJob (i : Nat) (job : Job) : State := { s with jobs := Function.update s.jobs i job }

def unlock : State := { s with restoreMu := none }

def jobStep (i : Nat) : JobAction → Option State
  | .lock => match s.jobs i with
    | .idle => if s.restoreMu = none then
        some { s.setJob i .locked with restoreMu := some (.job i) } else none
    | _ => none
  | .checkBus => match s.jobs i with
    | .locked =>
      if !cfg.repairs i && s.busClosed then some (s.unlock.setJob i .ended)
      else some (s.setJob i .looking)
    | _ => none
  -- `attach` waits and tries again when the connection is not ready, a repair leaves it be
  | .look => match s.jobs i with
    | .looking =>
      if s.current then some (s.setJob i (.restoring s.gen))
      else some (s.unlock.setJob i (if cfg.repairs i then .ended else .idle))
    | _ => none
  | .complete ok again => match s.jobs i with
    | .restoring conn =>
      if !ok then some (s.unlock.setJob i (if again then .idle else .ended))
      else if cfg.repairs i then some { s.unlock.setJob i .ended with
        last := Function.update s.last (cfg.component i) (some conn) }
      else some { s.setJob i (.restored conn) with
        last := Function.update s.last (cfg.component i) (some conn) }
    | _ => none
  | .register => match s.jobs i with
    | .restored _ => some { s.setJob i .registered with comps := s.comps ++ [i] }
    | _ => none
  | .settle => match s.jobs i with
    | .registered => if s.busClosed then some (s.setJob i .leaving)
        else some (s.unlock.setJob i .attached)
    | _ => none
  | .leave => match s.jobs i with
    | .leaving => some { s.unlock.setJob i .ended with comps := s.comps.filter (· ≠ i) }
    | _ => none
  | .unregister => match s.jobs i with
    | .attached => some { s with comps := s.comps.filter (· ≠ i) }
    | _ => none

def setCloser (i : Nat) (closer : Closer) : State :=
  { s with closers := Function.update s.closers i closer }

def closeStep (i : Nat) : CloseAction → Option State
  | .call => match s.closers i with
    | .idle => some (s.setCloser i .finishing)
    | _ => none
  | .finish => match s.closers i with
    | .finishing => s.finish .closed
    | _ => none
  | .resume => match s.closers i with
    | .finishing => if s.once = .done then some (s.setCloser i .finished) else none
    | _ => none
  | .cancel => match s.closers i with
    | .finished => some { s.setCloser i .cancelled with cancelled := true }
    | _ => none
  -- the flag is cleared, and the channel `ready` stays as it is
  | .unready => match s.closers i with
    | .cancelled => some { s.setCloser i .closed with isReady := false }
    | _ => none

def setWaiter (i : Nat) (waiter : Waiter) : State :=
  { s with waiters := Function.update s.waiters i waiter }

def readyClosed (ch : Nat) : Bool := 0 < s.closes ch

def waitStep (i : Nat) : WaitAction → Option State
  | .take => match s.waiters i with
    | .idle => some (s.setWaiter i (.took s.ready))
    | _ => none
  | .checkDone => match s.waiters i with
    | .took ch => some (s.setWaiter i (if s.doneClosed then .failing else .checked ch))
    | _ => none
  | .checkReady => match s.waiters i with
    | .checked ch => some (s.setWaiter i (if s.readyClosed ch then .returned none else .waiting ch))
    | _ => none
  | .wake => match s.waiters i with
    | .waiting ch => if s.readyClosed ch then some (s.setWaiter i .woken) else none
    | _ => none
  | .interrupt => match s.waiters i with
    | .waiting _ => if s.doneClosed then some (s.setWaiter i .failing) else none
    | _ => none
  | .giveUp err => match s.waiters i with
    | .waiting _ => some (s.setWaiter i (.returned (some err)))
    | _ => none
  | .recheck => match s.waiters i with
    | .woken => some (s.setWaiter i (if s.doneClosed then .failing else .returned none))
    | _ => none
  | .fail => match s.waiters i with
    | .failing => some (s.setWaiter i (.returned (s.doneErr.map .session)))
    | _ => none

def step : Action → Option State
  | .supervisor a => s.supStep cfg a
  | .job i a => s.jobStep cfg i a
  | .closer i a => s.closeStep i a
  | .waiter i a => s.waitStep i a
  | .closeDone => if s.once = .running then some { s with once := .done } else none
  | .closeBus => some { s with busClosed := true }

end State

def sessions (cfg : Setting) : System State Action where
  init s := s = {}
  step s a := s.step cfg a

end Protobus.Session
