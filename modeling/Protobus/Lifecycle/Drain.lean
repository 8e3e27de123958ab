import Protobus.Library.Ledger
import Protobus.Library.Transition
import Mathlib.Logic.Function.Basic

/-!
# Draining the bus

Two counters stand for the work in progress: `deliveries` from a loop's receipt of a delivery until
it is settled, `handlers` from before a handler's goroutine starts until user code has returned.
`Drain` waits for the first and then for the second. A counter signals zero by closing a channel it
makes anew whenever it leaves zero.

A loop receives a delivery in one step and counts it in the next, and between the two a drain sees
neither.
-/
namespace Protobus.Lifecycle.Drain
open Library Ledger

/-! ## The counter -/

/-- Channels are numbered as they are made; `closes` says how many times each was closed, and
`nilClosed` that the nil channel was. -/
structure Inflight where
  n : Int := 0
  zero : Option Nat := none
  made : Nat := 0
  closes : Nat → Nat := fun _ => 0
  nilClosed : Bool := false

namespace Inflight

def add (f : Inflight) : Inflight :=
  if f.n = 0 then { f with zero := some f.made, made := f.made + 1, n := f.n + 1 }
  else { f with n := f.n + 1 }

def close (f : Inflight) : Inflight :=
  match f.zero with
  | none => { f with nilClosed := true }
  | some ch => { f with closes := Function.update f.closes ch (f.closes ch + 1) }

def done (f : Inflight) : Inflight :=
  if f.n - 1 = 0 then close { f with n := f.n - 1 } else { f with n := f.n - 1 }

@[simp] theorem add_n (f : Inflight) : f.add.n = f.n + 1 := by
  unfold add
  split <;> rfl

@[simp] theorem done_n (f : Inflight) : f.done.n = f.n - 1 := by
  unfold done close
  split
  · split <;> rfl
  · rfl

@[simp] theorem done_zero (f : Inflight) : f.done.zero = f.zero := by
  unfold done close
  split
  · split <;> rfl
  · rfl

/-- While work is counted, the current channel is open. -/
structure Sound (f : Inflight) : Prop where
  nonneg : 0 ≤ f.n
  current : 0 < f.n → ∃ ch, f.zero = some ch ∧ ch < f.made ∧ f.closes ch = 0
  once : ∀ ch, f.closes ch ≤ 1
  fresh : ∀ ch, f.made ≤ ch → f.closes ch = 0
  proper : f.nilClosed = false

theorem Sound.new : Sound {} := ⟨Int.le_refl 0, by simp, by simp, by simp, rfl⟩

theorem Sound.add {f : Inflight} (sound : f.Sound) : f.add.Sound := by
  obtain ⟨nonneg, current, once, fresh, proper⟩ := sound
  unfold Inflight.add
  split
  · next idle =>
    refine ⟨by simp only; omega, fun _ => ?_, once, fun ch later => ?_, proper⟩
    · exact ⟨f.made, rfl, Nat.lt_succ_self _, fresh f.made (Nat.le_refl _)⟩
    · exact fresh ch (Nat.le_of_succ_le later)
  · next busy => exact ⟨by simp only; omega, fun _ => current (by omega), once, fresh, proper⟩

/-- The channel that is closed is the current one, which was open. -/
theorem Sound.done {f : Inflight} (sound : f.Sound) (busy : 0 < f.n) : f.done.Sound := by
  obtain ⟨nonneg, current, once, fresh, proper⟩ := sound
  obtain ⟨ch, zero, before, opened⟩ := current busy
  unfold Inflight.done
  split
  · next last =>
    simp only [close, zero]
    refine ⟨by simp only; omega, fun more => by simp only at more; omega, fun other => ?_,
      fun other later => ?_, proper⟩
    · by_cases same : other = ch
      · subst same
        simp [opened]
      · simpa [same] using once other
    · have apart : other ≠ ch := by
        rintro rfl
        exact Nat.not_lt.mpr later before
      simpa [apart] using fresh other later
  · next more =>
    exact ⟨by simp only; omega, fun _ => ⟨ch, zero, before, opened⟩, once, fresh, proper⟩

/-- A receive from a closed channel goes through; one from an open or nil channel does not. -/
def closed (f : Inflight) : Option Nat → Bool
  | none => false
  | some ch => f.closes ch ≠ 0

theorem Sound.n_of_closed {f : Inflight} (sound : f.Sound) (through : f.closed f.zero = true) :
    f.n = 0 := by
  by_contra busy
  have nonneg := sound.nonneg
  obtain ⟨ch, zero, -, opened⟩ := sound.current (by omega)
  simp [closed, zero, opened] at through

end Inflight

/-! ## The bus -/

/-- What differs between the consumers of the bus: whether they have a concurrency bound, settle
late, and have a processing timeout. -/
structure Spec where
  bounded : Bool
  lateAck : Bool
  timeout : Bool
deriving DecidableEq

/-- Where the loop over the deliveries of a channel is. -/
inductive At
  | receiving
  /-- A delivery came out of the channel and is not counted yet. -/
  | received
  /-- It is counted and waits for a handler slot. -/
  | counted
  | ended
deriving DecidableEq

structure Loop where
  spec : Spec
  pc : At := .receiving
  stopped : Bool := false
deriving DecidableEq

/-- The goroutine of a handler: `returned` is after user code, by a result or a panic, `done` after
the deferred `handlers.done()`, and `exited` after the close of its exit channel. -/
inductive Handler
  | none
  | running
  | returned
  | done
  | exited
deriving DecidableEq

/-- The goroutine of a delivery. `handling` is between `handlers.add()` and the start of the
handler, `processed` after `process` returned, with an exit channel or without one, and `done` after
the deferred `deliveries.done()`. -/
inductive Stage
  | begun
  | handling
  | waiting
  | settling
  | processed (exited : Bool)
  | done (exited : Bool)
  | released
deriving DecidableEq

/-- `timer` is whether `run` still waits for the processing timeout beside the result. -/
structure Task where
  spec : Spec
  stage : Stage := .begun
  handler : Handler := .none
  disarmed : Bool := false
  timer : Bool := true
deriving DecidableEq

/-- Where a call of `Drain` is. -/
inductive Phase
  | deliveries
  | deliveriesZero (zero : Option Nat)
  | handlers
  | handlersZero (zero : Option Nat)
  | returned (ok : Bool)
deriving DecidableEq

/-- `since` is how many deliveries had been received when the call started, and `counted` whether
all of them had been counted. -/
structure Call where
  phase : Phase := .deliveries
  since : Nat
  counted : Bool
deriving DecidableEq

/-- `received` and `letGo` are the numbers of deliveries the loops took in and left to the broker
before a goroutine was started for them. -/
structure State where
  deliveries : Inflight := {}
  handlers : Inflight := {}
  loops : List Loop := []
  tasks : List Task := []
  calls : List Call := []
  received : Nat := 0
  letGo : Nat := 0

inductive Act
  | consume (spec : Spec)
  /-- The stop channel of a loop is closed. -/
  | stop (l : Nat)
  /-- The deliveries of a loop are over. -/
  | finish (l : Nat)
  | receive (l : Nat)
  | add (l : Nat)
  | letGo (l : Nat)
  | spawn (l : Nat)
  | ackFails (i : Nat)
  | addHandler (i : Nat)
  | start (i : Nat)
  /-- The handler takes itself out of the processing timeout. -/
  | disarm (i : Nat)
  /-- `run` notices, if it does not take the timer first. -/
  | unarm (i : Nat)
  | handlerEnds (i : Nat) (panicked : Bool)
  | handlerDone (i : Nat)
  | handlerExits (i : Nat)
  | result (i : Nat)
  | timeout (i : Nat)
  /-- The delivery is settled, or left to its redelivery, and `process` returns. -/
  | settled (i : Nat)
  | done (i : Nat)
  | release (i : Nat)
  | drain
  | waitDeliveries (k : Nat)
  | zeroDeliveries (k : Nat)
  | waitHandlers (k : Nat)
  | zeroHandlers (k : Nat)
  | expired (k : Nat)

def onLoop (s : State) (l : Nat) (f : Loop → Option Loop) : Option State :=
  ((s.loops[l]?).bind f).map fun loop => { s with loops := s.loops.set l loop }

def onTask (s : State) (i : Nat) (f : Task → Option Task) : Option State :=
  ((s.tasks[i]?).bind f).map fun t => { s with tasks := s.tasks.set i t }

def onCall (s : State) (k : Nat) (f : Call → Option Call) : Option State :=
  ((s.calls[k]?).bind f).map fun c => { s with calls := s.calls.set k c }

/-! ### What a goroutine does -/

namespace Loop
variable (loop : Loop)

def finish : Option Loop :=
  if loop.pc = .receiving then some { loop with pc := .ended } else none

def receive : Option Loop :=
  if loop.pc = .receiving then some { loop with pc := .received } else none

def add : Option Loop :=
  if loop.pc = .received then some { loop with pc := .counted } else none

/-- Only a loop that waits for a slot looks at its stop channel. -/
def letGo : Option Loop :=
  if loop.pc = .counted ∧ loop.spec.bounded = true ∧ loop.stopped = true then
    some { loop with pc := .receiving } else none

def spawn : Option Loop :=
  if loop.pc = .counted then some { loop with pc := .receiving } else none

end Loop

namespace Task
variable (t : Task)

def ackFails : Option Task :=
  if t.stage = .begun ∧ t.spec.lateAck = false then
    some { t with stage := .processed false } else none

def addHandler : Option Task :=
  if t.stage = .begun then some { t with stage := .handling } else none

def start : Option Task :=
  if t.stage = .handling then some { t with stage := .waiting, handler := .running } else none

def disarm : Option Task :=
  if t.handler = .running then some { t with disarmed := true } else none

def unarm : Option Task :=
  if t.stage = .waiting ∧ t.disarmed = true then some { t with timer := false } else none

def handlerEnds : Option Task :=
  if t.handler = .running then some { t with handler := .returned } else none

def handlerDone : Option Task :=
  if t.handler = .returned then some { t with handler := .done } else none

def handlerExits : Option Task :=
  if t.handler = .done then some { t with handler := .exited } else none

/-- The result is sent before the deferred calls of the handler's goroutine. -/
def result : Option Task :=
  if t.stage = .waiting ∧ t.handler ≠ .running then some { t with stage := .settling } else none

def overrun : Option Task :=
  if t.stage = .waiting ∧ t.spec.timeout = true ∧ t.timer = true then
    some { t with stage := .settling } else none

def settled : Option Task :=
  if t.stage = .settling then some { t with stage := .processed true } else none

def done : Option Task :=
  match t.stage with
  | .processed exited => some { t with stage := .done exited }
  | _ => none

/-- The deferred function waits for the handler's exit channel, unless that is nil. -/
def release : Option Task :=
  match t.stage with
  | .done exited =>
    if exited = false ∨ t.handler = .exited then some { t with stage := .released } else none
  | _ => none

end Task

namespace Call
variable (c : Call)

/-- `wait` under its lock: it goes on if nothing is counted, and else takes the channel. -/
def waitDeliveries (f : Inflight) : Option Call :=
  if c.phase = .deliveries then
    some { c with phase := if f.n = 0 then .handlers else .deliveriesZero f.zero } else none

def zeroDeliveries (f : Inflight) : Option Call :=
  match c.phase with
  | .deliveriesZero zero => if f.closed zero then some { c with phase := .handlers } else none
  | _ => none

def waitHandlers (f : Inflight) : Option Call :=
  if c.phase = .handlers then
    some { c with phase := if f.n = 0 then .returned true else .handlersZero f.zero } else none

def zeroHandlers (f : Inflight) : Option Call :=
  match c.phase with
  | .handlersZero zero => if f.closed zero then some { c with phase := .returned true } else none
  | _ => none

/-- The caller's context ends while the call waits for a channel. -/
def expired : Option Call :=
  match c.phase with
  | .deliveriesZero _ | .handlersZero _ => some { c with phase := .returned false }
  | _ => none

end Call

def step (s : State) : Act → Option State
  | .consume spec => some { s with loops := s.loops ++ [{ spec }] }
  | .stop l => onLoop s l fun loop => some { loop with stopped := true }
  | .finish l => onLoop s l Loop.finish
  | .receive l => (onLoop s l Loop.receive).map fun s => { s with received := s.received + 1 }
  | .add l => (onLoop s l Loop.add).map fun s => { s with deliveries := s.deliveries.add }
  | .letGo l => (onLoop s l Loop.letGo).map fun s =>
      { s with deliveries := s.deliveries.done, letGo := s.letGo + 1 }
  | .spawn l => (s.loops[l]?).bind fun loop => loop.spawn.map fun loop' =>
      { s with loops := s.loops.set l loop', tasks := s.tasks ++ [{ spec := loop.spec }] }
  | .ackFails i => onTask s i Task.ackFails
  | .addHandler i => (onTask s i Task.addHandler).map fun s => { s with handlers := s.handlers.add }
  | .start i => onTask s i Task.start
  | .disarm i => onTask s i Task.disarm
  | .unarm i => onTask s i Task.unarm
  | .handlerEnds i _ => onTask s i Task.handlerEnds
  | .handlerDone i =>
    (onTask s i Task.handlerDone).map fun s => { s with handlers := s.handlers.done }
  | .handlerExits i => onTask s i Task.handlerExits
  | .result i => onTask s i Task.result
  | .timeout i => onTask s i Task.overrun
  | .settled i => onTask s i Task.settled
  | .done i => (onTask s i Task.done).map fun s => { s with deliveries := s.deliveries.done }
  | .release i => onTask s i Task.release
  | .drain => some { s with calls := s.calls ++ [{
      since := s.received
      counted := s.loops.all fun loop => decide (loop.pc ≠ .received) }] }
  | .waitDeliveries k => onCall s k fun c => c.waitDeliveries s.deliveries
  | .zeroDeliveries k => onCall s k fun c => c.zeroDeliveries s.deliveries
  | .waitHandlers k => onCall s k fun c => c.waitHandlers s.handlers
  | .zeroHandlers k => onCall s k fun c => c.zeroHandlers s.handlers
  | .expired k => onCall s k Call.expired

def bus : System State Act where
  init s := s = {}
  step := step

/-! ### What the counters stand for -/

/-- A loop that has counted its delivery. -/
def Loop.counts (loop : Loop) : Int := if loop.pc = .counted then 1 else 0

/-- A loop that has a delivery in hand. -/
def Loop.holds (loop : Loop) : Int := if loop.pc = .received ∨ loop.pc = .counted then 1 else 0

/-- The delivery has been settled or left to its redelivery, and its count given back. -/
def Task.isSettled (t : Task) : Bool :=
  match t.stage with
  | .done _ | .released => true
  | _ => false

/-- No handler was started, or it is over but for the close of its exit channel. -/
def Task.isQuiet (t : Task) : Bool :=
  decide (t.stage ≠ .handling) && decide (t.handler ≠ .running) && decide (t.handler ≠ .returned)

def Task.delivers (t : Task) : Int := if t.isSettled then 0 else 1

def Task.handles (t : Task) : Int := if t.isQuiet then 0 else 1

/-- What is true of a delivery's goroutine at each of its stages. -/
structure Task.Ok (t : Task) : Prop where
  fresh : t.stage = .begun ∨ t.stage = .handling → t.handler = .none

/-! ## What a step can do -/

inductive Call.Moves (s : State) (c : Call) : Call → Prop
  | idle : s.deliveries.n = 0 → Moves s c { c with phase := .handlers }
  | busy : Moves s c { c with phase := .deliveriesZero s.deliveries.zero }
  | zero {ch : Option Nat} : c.phase = .deliveriesZero ch → s.deliveries.closed ch = true →
      Moves s c { c with phase := .handlers }
  | quiet : c.phase = .handlers → s.handlers.n = 0 → Moves s c { c with phase := .returned true }
  | running : c.phase = .handlers → Moves s c { c with phase := .handlersZero s.handlers.zero }
  | silent {ch : Option Nat} : c.phase = .handlersZero ch → s.handlers.closed ch = true →
      Moves s c { c with phase := .returned true }
  | expired : Moves s c { c with phase := .returned false }

inductive Steps (s : State) : State → Prop
  | consume (spec : Spec) : Steps s { s with loops := s.loops ++ [{ spec }] }
  | loop {l : Nat} {loop loop' : Loop} : s.loops[l]? = some loop →
      loop'.counts = loop.counts → loop'.holds = loop.holds →
      (loop'.pc = .received → loop.pc = .received) →
      Steps s { s with loops := s.loops.set l loop' }
  | receive {l : Nat} {loop : Loop} : s.loops[l]? = some loop → loop.pc = .receiving →
      Steps s { s with
        loops := s.loops.set l { loop with pc := .received }, received := s.received + 1 }
  | add {l : Nat} {loop : Loop} : s.loops[l]? = some loop → loop.pc = .received →
      Steps s { s with
        loops := s.loops.set l { loop with pc := .counted }, deliveries := s.deliveries.add }
  | letGo {l : Nat} {loop : Loop} : s.loops[l]? = some loop → loop.pc = .counted →
      Steps s { s with
        loops := s.loops.set l { loop with pc := .receiving }
        deliveries := s.deliveries.done, letGo := s.letGo + 1 }
  | spawn {l : Nat} {loop : Loop} : s.loops[l]? = some loop → loop.pc = .counted →
      Steps s { s with
        loops := s.loops.set l { loop with pc := .receiving }
        tasks := s.tasks ++ [{ spec := loop.spec }] }
  | task {i : Nat} {t t' : Task} : s.tasks[i]? = some t → (t.Ok → t'.Ok) →
      t'.delivers = t.delivers → (t.Ok → t'.handles = t.handles) →
      Steps s { s with tasks := s.tasks.set i t' }
  | addHandler {i : Nat} {t : Task} : s.tasks[i]? = some t → t.stage = .begun →
      Steps s { s with
        tasks := s.tasks.set i { t with stage := .handling }, handlers := s.handlers.add }
  | handlerDone {i : Nat} {t : Task} : s.tasks[i]? = some t → t.handler = .returned →
      Steps s { s with
        tasks := s.tasks.set i { t with handler := .done }, handlers := s.handlers.done }
  | done {i : Nat} {t : Task} {exited : Bool} : s.tasks[i]? = some t →
      t.stage = .processed exited →
      Steps s { s with
        tasks := s.tasks.set i { t with stage := .done exited }
        deliveries := s.deliveries.done }
  | drain : Steps s { s with calls := s.calls ++ [{
      since := s.received
      counted := s.loops.all fun loop => decide (loop.pc ≠ .received) }] }
  | call {k : Nat} {c c' : Call} : s.calls[k]? = some c → c.Moves s c' →
      Steps s { s with calls := s.calls.set k c' }

theorem onLoop_cases {s s' : State} {l : Nat} {f : Loop → Option Loop}
    (h : onLoop s l f = some s') :
    ∃ loop loop', s.loops[l]? = some loop ∧ f loop = some loop' ∧
      s' = { s with loops := s.loops.set l loop' } := by
  obtain ⟨loop', found, rfl⟩ := Option.map_eq_some_iff.mp h
  obtain ⟨loop, at_l, eq⟩ := Option.bind_eq_some_iff.mp found
  exact ⟨loop, loop', at_l, eq, rfl⟩

theorem onTask_cases {s s' : State} {i : Nat} {f : Task → Option Task}
    (h : onTask s i f = some s') :
    ∃ t t', s.tasks[i]? = some t ∧ f t = some t' ∧ s' = { s with tasks := s.tasks.set i t' } := by
  obtain ⟨t', found, rfl⟩ := Option.map_eq_some_iff.mp h
  obtain ⟨t, at_i, eq⟩ := Option.bind_eq_some_iff.mp found
  exact ⟨t, t', at_i, eq, rfl⟩

theorem onCall_cases {s s' : State} {k : Nat} {f : Call → Option Call}
    (moves : ∀ c c', f c = some c' → c.Moves s c') (h : onCall s k f = some s') : Steps s s' := by
  obtain ⟨c', found, rfl⟩ := Option.map_eq_some_iff.mp h
  obtain ⟨c, at_k, eq⟩ := Option.bind_eq_some_iff.mp found
  exact .call at_k (moves c c' eq)

/-- The steps of a delivery's or a handler's goroutine that no counter sees. -/
theorem steps_of_guard {s s' : State} {i : Nat} {c : Task → Prop} [DecidablePred c]
    {g : Task → Task}
    (keeps : ∀ t, c t → (t.Ok → (g t).Ok) ∧ (g t).delivers = t.delivers ∧
      (t.Ok → (g t).handles = t.handles))
    (h : onTask s i (fun t => if c t then some (g t) else none) = some s') : Steps s s' := by
  obtain ⟨t, t', found, eq, rfl⟩ := onTask_cases h
  obtain ⟨guard, ⟨⟩⟩ := Option.ite_none_right_eq_some.mp eq
  obtain ⟨ok, delivers, handles⟩ := keeps t guard
  exact .task found ok delivers handles

theorem Call.waitDeliveries_moves {s : State} {c c' : Call}
    (h : c.waitDeliveries s.deliveries = some c') : c.Moves s c' := by
  obtain ⟨-, ⟨⟩⟩ := Option.ite_none_right_eq_some.mp h
  split
  · next idle => exact .idle idle
  · exact .busy

theorem Call.zeroDeliveries_moves {s : State} {c c' : Call}
    (h : c.zeroDeliveries s.deliveries = some c') : c.Moves s c' := by
  unfold Call.zeroDeliveries at h
  split at h
  · next ch waits =>
    obtain ⟨closed, ⟨⟩⟩ := Option.ite_none_right_eq_some.mp h
    exact .zero waits closed
  · cases h

theorem Call.waitHandlers_moves {s : State} {c c' : Call}
    (h : c.waitHandlers s.handlers = some c') : c.Moves s c' := by
  obtain ⟨after, ⟨⟩⟩ := Option.ite_none_right_eq_some.mp h
  split
  · next quiet => exact .quiet after quiet
  · exact .running after

theorem Call.zeroHandlers_moves {s : State} {c c' : Call}
    (h : c.zeroHandlers s.handlers = some c') : c.Moves s c' := by
  unfold Call.zeroHandlers at h
  split at h
  · next ch waits =>
    obtain ⟨closed, ⟨⟩⟩ := Option.ite_none_right_eq_some.mp h
    exact .silent waits closed
  · cases h

theorem Call.expired_moves {s : State} {c c' : Call} (h : c.expired = some c') :
    c.Moves s c' := by
  unfold Call.expired at h
  split at h
  · cases h
    exact .expired
  · cases h
    exact .expired
  · cases h

theorem step_cases {s s' : State} {a : Act} (h : step s a = some s') : Steps s s' := by
  cases a with
  | consume spec =>
    cases h
    exact .consume spec
  | stop l =>
    obtain ⟨loop, loop', found, ⟨⟩, rfl⟩ := onLoop_cases h
    exact .loop found rfl rfl id
  | finish l =>
    obtain ⟨loop, loop', found, eq, rfl⟩ := onLoop_cases h
    obtain ⟨receiving, ⟨⟩⟩ := Option.ite_none_right_eq_some.mp eq
    refine .loop found ?_ ?_ (by simp)
    · simp [Loop.counts, receiving]
    · simp [Loop.holds, receiving]
  | receive l =>
    obtain ⟨mid, moves, rfl⟩ := Option.map_eq_some_iff.mp h
    obtain ⟨loop, loop', found, eq, rfl⟩ := onLoop_cases moves
    obtain ⟨receiving, ⟨⟩⟩ := Option.ite_none_right_eq_some.mp eq
    exact .receive found receiving
  | add l =>
    obtain ⟨mid, moves, rfl⟩ := Option.map_eq_some_iff.mp h
    obtain ⟨loop, loop', found, eq, rfl⟩ := onLoop_cases moves
    obtain ⟨received, ⟨⟩⟩ := Option.ite_none_right_eq_some.mp eq
    exact .add found received
  | letGo l =>
    obtain ⟨mid, moves, rfl⟩ := Option.map_eq_some_iff.mp h
    obtain ⟨loop, loop', found, eq, rfl⟩ := onLoop_cases moves
    obtain ⟨⟨counted, -⟩, ⟨⟩⟩ := Option.ite_none_right_eq_some.mp eq
    exact .letGo found counted
  | spawn l =>
    obtain ⟨loop, found, spawned⟩ := Option.bind_eq_some_iff.mp h
    obtain ⟨loop', eq, rfl⟩ := Option.map_eq_some_iff.mp spawned
    obtain ⟨counted, ⟨⟩⟩ := Option.ite_none_right_eq_some.mp eq
    exact .spawn found counted
  | ackFails i =>
    refine steps_of_guard (fun t begun => ⟨fun ok => ⟨by simp⟩, ?_, fun ok => ?_⟩) h
    · simp [Task.delivers, Task.isSettled, begun.1]
    · simp [Task.handles, Task.isQuiet, begun.1]
  | addHandler i =>
    obtain ⟨mid, moves, rfl⟩ := Option.map_eq_some_iff.mp h
    obtain ⟨t, t', found, eq, rfl⟩ := onTask_cases moves
    obtain ⟨begun, ⟨⟩⟩ := Option.ite_none_right_eq_some.mp eq
    exact .addHandler found begun
  | start i =>
    refine steps_of_guard (fun t handling => ⟨fun ok => ⟨by simp⟩, ?_, fun ok => ?_⟩) h
    · simp [Task.delivers, Task.isSettled, handling]
    · simp [Task.handles, Task.isQuiet, handling]
  | disarm i =>
    refine steps_of_guard (g := fun t => { t with disarmed := true }) (fun t _ => ?_) h
    exact ⟨fun ok => ⟨ok.fresh⟩, rfl, fun _ => rfl⟩
  | unarm i =>
    refine steps_of_guard (g := fun t => { t with timer := false }) (fun t _ => ?_) h
    exact ⟨fun ok => ⟨ok.fresh⟩, rfl, fun _ => rfl⟩
  | handlerEnds i panicked =>
    refine steps_of_guard (fun t running => ⟨fun ok => ⟨fun early => ?_⟩, ?_, fun ok => ?_⟩) h
    · simp [ok.fresh early] at running
    · rfl
    · simp [Task.handles, Task.isQuiet, running]
  | handlerDone i =>
    obtain ⟨mid, moves, rfl⟩ := Option.map_eq_some_iff.mp h
    obtain ⟨t, t', found, eq, rfl⟩ := onTask_cases moves
    obtain ⟨returned, ⟨⟩⟩ := Option.ite_none_right_eq_some.mp eq
    exact .handlerDone found returned
  | handlerExits i =>
    refine steps_of_guard (fun t done => ⟨fun ok => ⟨fun early => ?_⟩, ?_, fun ok => ?_⟩) h
    · simp [ok.fresh early] at done
    · rfl
    · simp [Task.handles, Task.isQuiet, done]
  | result i =>
    refine steps_of_guard (fun t ready => ⟨fun ok => ⟨by simp⟩, ?_, fun ok => ?_⟩) h
    · simp [Task.delivers, Task.isSettled, ready.1]
    · simp [Task.handles, Task.isQuiet, ready.1]
  | timeout i =>
    refine steps_of_guard (fun t armed => ⟨fun ok => ⟨by simp⟩, ?_, fun ok => ?_⟩) h
    · simp [Task.delivers, Task.isSettled, armed.1]
    · simp [Task.handles, Task.isQuiet, armed.1]
  | settled i =>
    refine steps_of_guard (fun t settling => ⟨fun ok => ⟨by simp⟩, ?_, fun ok => ?_⟩) h
    · simp [Task.delivers, Task.isSettled, settling]
    · simp [Task.handles, Task.isQuiet, settling]
  | done i =>
    obtain ⟨mid, moves, rfl⟩ := Option.map_eq_some_iff.mp h
    obtain ⟨t, t', found, eq, rfl⟩ := onTask_cases moves
    unfold Task.done at eq
    split at eq
    · next exited stage =>
      cases eq
      exact .done found stage
    · cases eq
  | release i =>
    obtain ⟨t, t', found, eq, rfl⟩ := onTask_cases h
    unfold Task.release at eq
    split at eq
    · next exited stage =>
      obtain ⟨-, ⟨⟩⟩ := Option.ite_none_right_eq_some.mp eq
      refine .task found (fun _ => ⟨by simp⟩) ?_ fun _ => ?_
      · simp [Task.delivers, Task.isSettled, stage]
      · simp [Task.handles, Task.isQuiet, stage]
    · cases eq
  | drain =>
    cases h
    exact .drain
  | waitDeliveries k => exact onCall_cases (fun c c' => Call.waitDeliveries_moves) h
  | zeroDeliveries k => exact onCall_cases (fun c c' => Call.zeroDeliveries_moves) h
  | waitHandlers k => exact onCall_cases (fun c c' => Call.waitHandlers_moves) h
  | zeroHandlers k => exact onCall_cases (fun c c' => Call.zeroHandlers_moves) h
  | expired k => exact onCall_cases (fun c c' => Call.expired_moves) h

/-! ## Every run -/

/-- What the counters and a call know of each other, as long as nothing new is received or
counted. -/
def Phase.Holds (s : State) : Phase → Prop
  | .deliveries | .returned false => True
  | .deliveriesZero zero => zero = s.deliveries.zero
  | .handlers => s.deliveries.n = 0
  | .handlersZero zero => s.deliveries.n = 0 ∧ zero = s.handlers.zero
  | .returned true => s.deliveries.n = 0 ∧ s.handlers.n = 0

/-- Handlers are added from inside deliveries only, so once no delivery is counted the second
counter can only fall. -/
theorem Phase.Holds.step {s s' : State} {p : Phase} (holds : p.Holds s)
    (zero : s'.deliveries.zero = s.deliveries.zero)
    (idle : s.deliveries.n = 0 → s'.deliveries.n = 0 ∧ s'.handlers.zero = s.handlers.zero ∧
      (s.handlers.n = 0 → s'.handlers.n = 0)) : p.Holds s' := by
  cases p with
  | deliveries => trivial
  | deliveriesZero ch => exact holds.trans zero.symm
  | handlers => exact (idle holds).1
  | handlersZero ch =>
    obtain ⟨none, same, -⟩ := idle holds.1
    exact ⟨none, holds.2.trans same.symm⟩
  | returned ok =>
    cases ok with
    | false => trivial
    | true =>
      obtain ⟨none, -, quiet⟩ := idle holds.1
      exact ⟨none, quiet holds.2⟩

structure Call.Ok (s : State) (c : Call) : Prop where
  since : c.since ≤ s.received
  holds : c.counted = true → c.since = s.received →
    (∀ loop ∈ s.loops, loop.pc ≠ .received) ∧ c.phase.Holds s

structure Inv (s : State) : Prop where
  each : ∀ t ∈ s.tasks, t.Ok
  received : (s.received : Int) = s.letGo + s.tasks.length + total Loop.holds s.loops
  deliveries : s.deliveries.n = total Loop.counts s.loops + total Task.delivers s.tasks
  handlers : s.handlers.n = total Task.handles s.tasks
  soundDeliveries : s.deliveries.Sound
  soundHandlers : s.handlers.Sound
  calls : ∀ c ∈ s.calls, c.Ok s

theorem Loop.counts_nonneg (loop : Loop) : 0 ≤ loop.counts := by
  unfold Loop.counts
  split <;> decide

theorem Task.delivers_nonneg (t : Task) : 0 ≤ t.delivers := by
  unfold Task.delivers
  split <;> decide

theorem Task.handles_nonneg (t : Task) : 0 ≤ t.handles := by
  unfold Task.handles
  split <;> decide

theorem Inv.counts_le {s : State} (inv : Inv s) {loop : Loop} (mem : loop ∈ s.loops) :
    loop.counts ≤ s.deliveries.n := by
  have own := le_total (fun loop _ => Loop.counts_nonneg loop) mem
  have rest : 0 ≤ total Task.delivers s.tasks := total_nonneg fun t _ => t.delivers_nonneg
  rw [inv.deliveries]
  omega

theorem Inv.delivers_le {s : State} (inv : Inv s) {t : Task} (mem : t ∈ s.tasks) :
    t.delivers ≤ s.deliveries.n := by
  have own := le_total (fun t _ => Task.delivers_nonneg t) mem
  have rest : 0 ≤ total Loop.counts s.loops := total_nonneg fun loop _ => loop.counts_nonneg
  rw [inv.deliveries]
  omega

theorem Inv.handles_le {s : State} (inv : Inv s) {t : Task} (mem : t ∈ s.tasks) :
    t.handles ≤ s.handlers.n := by
  rw [inv.handlers]
  exact le_total (fun t _ => Task.handles_nonneg t) mem

/-- A step that receives nothing keeps what the calls know, if it does not count a delivery
either. -/
theorem Inv.calls_step {s s' : State} (inv : Inv s) (same : s'.calls = s.calls)
    (received : s'.received = s.received)
    (loops : (∀ loop ∈ s.loops, loop.pc ≠ .received) → ∀ loop ∈ s'.loops, loop.pc ≠ .received)
    (zero : s'.deliveries.zero = s.deliveries.zero)
    (idle : s.deliveries.n = 0 → s'.deliveries.n = 0 ∧ s'.handlers.zero = s.handlers.zero ∧
      (s.handlers.n = 0 → s'.handlers.n = 0)) : ∀ c ∈ s'.calls, c.Ok s' := by
  intro c mem
  rw [same] at mem
  obtain ⟨since, holds⟩ := inv.calls c mem
  refine ⟨received ▸ since, fun counted last => ?_⟩
  obtain ⟨none, phase⟩ := holds counted (last.trans received)
  exact ⟨loops none, phase.step zero idle⟩

theorem loops_set {s : State} {l : Nat} {loop' : Loop}
    (late : loop'.pc = .received → ∃ loop ∈ s.loops, loop.pc = .received)
    (none : ∀ loop ∈ s.loops, loop.pc ≠ .received) :
    ∀ loop ∈ s.loops.set l loop', loop.pc ≠ .received := by
  apply forall_mem_set none
  intro received
  obtain ⟨other, mem, received⟩ := late received
  exact none other mem received

theorem Call.Moves.ok {s : State} {c c' : Call} (moves : c.Moves s c') (inv : Inv s)
    (ok : c.Ok s) : c'.Ok s := by
  obtain ⟨since, holds⟩ := ok
  cases moves with
  | idle idle => exact ⟨since, fun counted last => ⟨(holds counted last).1, idle⟩⟩
  | busy => exact ⟨since, fun counted last => ⟨(holds counted last).1, rfl⟩⟩
  | zero waits closed =>
    refine ⟨since, fun counted last => ?_⟩
    obtain ⟨none, phase⟩ := holds counted last
    rw [waits] at phase
    cases phase
    exact ⟨none, inv.soundDeliveries.n_of_closed closed⟩
  | quiet after quiet =>
    refine ⟨since, fun counted last => ?_⟩
    obtain ⟨none, phase⟩ := holds counted last
    rw [after] at phase
    exact ⟨none, phase, quiet⟩
  | running after =>
    refine ⟨since, fun counted last => ?_⟩
    obtain ⟨none, phase⟩ := holds counted last
    rw [after] at phase
    exact ⟨none, phase, rfl⟩
  | silent waits closed =>
    refine ⟨since, fun counted last => ?_⟩
    obtain ⟨none, phase⟩ := holds counted last
    rw [waits] at phase
    obtain ⟨idle, rfl⟩ := phase
    exact ⟨none, idle, inv.soundHandlers.n_of_closed closed⟩
  | expired => exact ⟨since, fun counted last => ⟨(holds counted last).1, trivial⟩⟩

theorem Inv.step {s s' : State} (inv : Inv s) (steps : Steps s s') : Inv s' := by
  have unmoved : s.deliveries.n = 0 → s.deliveries.n = 0 ∧ s.handlers.zero = s.handlers.zero ∧
      (s.handlers.n = 0 → s.handlers.n = 0) := fun none => ⟨none, rfl, id⟩
  cases steps with
  | consume spec =>
    refine { inv with received := ?_, deliveries := ?_, calls := ?_ }
    · simpa [Loop.holds] using inv.received
    · simpa [Loop.counts] using inv.deliveries
    · refine inv.calls_step rfl rfl (fun none loop mem => ?_) rfl unmoved
      rcases List.mem_append.mp mem with mem | mem
      · exact none loop mem
      · simp [List.mem_singleton.mp mem]
  | loop found counts holds late =>
    refine { inv with received := ?_, deliveries := ?_, calls := ?_ }
    · simpa [total_set found, holds] using inv.received
    · simpa [total_set found, counts] using inv.deliveries
    · refine inv.calls_step rfl rfl (loops_set fun received => ?_) rfl unmoved
      exact ⟨_, List.mem_of_getElem? found, late received⟩
  | receive found receiving =>
    have received := inv.received
    refine { inv with received := ?_, deliveries := ?_, calls := fun c mem => ?_ }
    · rw [total_set found]
      simp only [Loop.holds, receiving]
      simp
      omega
    · simpa [total_set found, Loop.counts, receiving] using inv.deliveries
    · have since := (inv.calls c mem).since
      exact ⟨Nat.le_succ_of_le since, fun _ last => by simp only at last; omega⟩
  | add found received =>
    have mem := List.mem_of_getElem? found
    refine { inv with
      received := ?_, deliveries := ?_, soundDeliveries := inv.soundDeliveries.add, calls := ?_ }
    · simpa [total_set found, Loop.holds, received] using inv.received
    · rw [Inflight.add_n, inv.deliveries, total_set found]
      simp [Loop.counts, received]
      omega
    · intro c held
      obtain ⟨since, holds⟩ := inv.calls c held
      refine ⟨since, fun counted last => ?_⟩
      exact absurd received ((holds counted last).1 _ mem)
  | letGo found counted =>
    have mem := List.mem_of_getElem? found
    have busy : 0 < s.deliveries.n := by
      have := inv.counts_le mem
      simp only [Loop.counts, counted, if_true] at this
      omega
    have received := inv.received
    refine { inv with
      received := ?_, deliveries := ?_, soundDeliveries := inv.soundDeliveries.done busy
      calls := ?_ }
    · rw [total_set found]
      simp [Loop.holds, counted]
      omega
    · rw [Inflight.done_n, inv.deliveries, total_set found]
      simp [Loop.counts, counted]
      omega
    · refine inv.calls_step rfl rfl (loops_set (by simp)) (Inflight.done_zero _) fun none => ?_
      omega
  | spawn found counted =>
    have received := inv.received
    refine { inv with
      each := fun t mem => ?_, received := ?_, deliveries := ?_, handlers := ?_, calls := ?_ }
    · rcases List.mem_append.mp mem with mem | mem
      · exact inv.each t mem
      · rw [List.mem_singleton.mp mem]
        exact ⟨fun _ => rfl⟩
    · rw [total_set found, List.length_append]
      simp [Loop.holds, counted]
      omega
    · rw [inv.deliveries, total_set found, total_concat]
      simp [Loop.counts, counted, Task.delivers, Task.isSettled]
      omega
    · simpa [Task.handles, Task.isQuiet] using inv.handlers
    · exact inv.calls_step rfl rfl (loops_set (by simp)) rfl unmoved
  | task found ok delivers handles =>
    have before := inv.each _ (List.mem_of_getElem? found)
    refine { inv with
      each := forall_mem_set inv.each (ok before)
      received := ?_, deliveries := ?_, handlers := ?_, calls := ?_ }
    · simpa using inv.received
    · simpa [total_set found, delivers] using inv.deliveries
    · simpa [total_set found, handles before] using inv.handlers
    · exact inv.calls_step rfl rfl id rfl unmoved
  | addHandler found begun =>
    have mem := List.mem_of_getElem? found
    have fresh := (inv.each _ mem).fresh (.inl begun)
    have busy : 0 < s.deliveries.n := by
      have := inv.delivers_le mem
      simp only [Task.delivers, Task.isSettled, begun] at this
      simp at this
      omega
    refine { inv with
      each := forall_mem_set inv.each ⟨fun _ => fresh⟩
      received := ?_, deliveries := ?_, handlers := ?_
      soundHandlers := inv.soundHandlers.add, calls := ?_ }
    · simpa using inv.received
    · simpa [total_set found, Task.delivers, Task.isSettled, begun] using inv.deliveries
    · rw [Inflight.add_n, inv.handlers, total_set found]
      simp [Task.handles, Task.isQuiet, begun, fresh]
    · refine inv.calls_step rfl rfl id rfl fun none => ?_
      omega
  | @handlerDone i t found returned =>
    have mem := List.mem_of_getElem? found
    have late : t.stage ≠ .handling := by
      intro early
      simp [(inv.each t mem).fresh (.inr early)] at returned
    have busy : 0 < s.handlers.n := by
      have := inv.handles_le mem
      simp [Task.handles, Task.isQuiet, returned] at this
      omega
    have same : Task.isSettled { t with handler := .done } = t.isSettled := rfl
    refine { inv with
      each := forall_mem_set inv.each ⟨fun early => ?_⟩
      received := ?_, deliveries := ?_, handlers := ?_
      soundHandlers := inv.soundHandlers.done busy, calls := ?_ }
    · simp [(inv.each t mem).fresh early] at returned
    · simpa using inv.received
    · simpa [total_set found, Task.delivers, same] using inv.deliveries
    · rw [Inflight.done_n, inv.handlers, total_set found]
      simp [Task.handles, Task.isQuiet, returned, late]
      omega
    · refine inv.calls_step rfl rfl id rfl fun none => ⟨none, Inflight.done_zero _, ?_⟩
      omega
  | done found processed =>
    have mem := List.mem_of_getElem? found
    have busy : 0 < s.deliveries.n := by
      have := inv.delivers_le mem
      simp [Task.delivers, Task.isSettled, processed] at this
      omega
    refine { inv with
      each := forall_mem_set inv.each ⟨by simp⟩, received := ?_, deliveries := ?_, handlers := ?_
      soundDeliveries := inv.soundDeliveries.done busy, calls := ?_ }
    · simpa using inv.received
    · rw [Inflight.done_n, inv.deliveries, total_set found]
      simp [Task.delivers, Task.isSettled, processed]
      omega
    · simpa [total_set found, Task.handles, Task.isQuiet, processed] using inv.handlers
    · refine inv.calls_step rfl rfl id (Inflight.done_zero _) fun none => ?_
      omega
  | drain =>
    refine { inv with calls := fun c mem => ?_ }
    rcases List.mem_append.mp mem with mem | mem
    · exact { inv.calls c mem with }
    · rw [List.mem_singleton.mp mem]
      refine ⟨Nat.le_refl _, fun counted _ => ⟨fun loop held => ?_, trivial⟩⟩
      exact of_decide_eq_true (List.all_eq_true.mp counted loop held)
  | call found moves =>
    have moved := moves.ok inv (inv.calls _ (List.mem_of_getElem? found))
    exact { inv with
      calls := forall_mem_set (fun c mem => { inv.calls c mem with }) { moved with } }

theorem inv_of_reachable {s : State} (reach : bus.Reachable s) : Inv s := by
  refine reach.invariant _ (fun s start => ?_) fun s a t _ inv next => inv.step (step_cases next)
  subst start
  exact ⟨by simp, rfl, rfl, rfl, .new, .new, by simp⟩

/-! ## What a drain means -/

theorem Inv.idle {s : State} (inv : Inv s) (none : s.deliveries.n = 0) :
    (∀ loop ∈ s.loops, loop.pc ≠ .counted) ∧ ∀ t ∈ s.tasks, t.isSettled = true := by
  refine ⟨fun loop mem counted => ?_, fun t mem => ?_⟩
  · have := inv.counts_le mem
    simp [Loop.counts, counted, none] at this
  · have := inv.delivers_le mem
    by_contra unsettled
    simp [Task.delivers, unsettled, none] at this

theorem Inv.quiet {s : State} (inv : Inv s) (none : s.handlers.n = 0) :
    ∀ t ∈ s.tasks, t.isQuiet = true := by
  intro t mem
  have := inv.handles_le mem
  by_contra loud
  simp [Task.handles, loud, none] at this

/-- At every moment of every run neither counter is negative and no channel of theirs was closed
twice. And after a call of `Drain` has returned nil, with no delivery received since it started and
none left uncounted then, every delivery received was let go by its loop or is settled, and no
handler runs. -/
theorem drain_complete {s : State} (reach : bus.Reachable s) :
    (0 ≤ s.deliveries.n ∧ 0 ≤ s.handlers.n) ∧
    (∀ f ∈ [s.deliveries, s.handlers], f.nilClosed = false ∧ ∀ ch, f.closes ch ≤ 1) ∧
    (∀ c ∈ s.calls, c.phase = .returned true → c.since = s.received → c.counted = true →
      s.received = s.letGo + s.tasks.length ∧
      ∀ t ∈ s.tasks, t.isSettled = true ∧ t.isQuiet = true) := by
  have inv := inv_of_reachable reach
  refine ⟨⟨inv.soundDeliveries.nonneg, inv.soundHandlers.nonneg⟩, fun f mem => ?_,
    fun c mem returned last counted => ?_⟩
  · have sound : f.Sound := by
      rcases List.mem_pair.mp mem with rfl | rfl
      · exact inv.soundDeliveries
      · exact inv.soundHandlers
    exact ⟨sound.proper, sound.once⟩
  · obtain ⟨uncounted, phase⟩ := (inv.calls c mem).holds counted last
    rw [returned] at phase
    obtain ⟨waiting, settled⟩ := inv.idle phase.1
    refine ⟨?_, fun t held => ⟨settled t held, inv.quiet phase.2 t held⟩⟩
    have empty : total Loop.holds s.loops = 0 := by
      refine total_eq_zero fun loop held => ?_
      simp [Loop.holds, uncounted loop held, waiting loop held]
    have received := inv.received
    omega

/-- One delivery is let go by a stopped loop while it waits for a slot, the other's handler outlives
its processing timeout; the drain waits for both counters. -/
theorem drain_complete_abandoned :
    ∃ s, bus.Reachable s ∧ s.received = 2 ∧ s.letGo = 1 ∧ s.tasks.length = 1 ∧
      ∀ t ∈ s.tasks, t.isSettled = true ∧ t.isQuiet = true := by
  have ran : (bus.run
      [.consume ⟨true, true, true⟩, .receive 0, .add 0, .spawn 0, .addHandler 0, .start 0,
        .receive 0, .add 0, .drain, .waitDeliveries 0, .stop 0, .letGo 0, .timeout 0, .settled 0,
        .done 0, .zeroDeliveries 0, .waitHandlers 0, .handlerEnds 0 false, .handlerDone 0,
        .zeroHandlers 0] {}).map
      (fun s => decide (s.received = 2 ∧ s.letGo = 1 ∧ s.tasks.length = 1 ∧
        s.calls = [{ phase := .returned true, since := 2, counted := true }])) = some true := by
    decide +kernel
  obtain ⟨s, run, eq⟩ := Option.map_eq_some_iff.mp ran
  obtain ⟨received, letGo, one, calls⟩ := of_decide_eq_true eq
  have reach : bus.Reachable s := System.Reachable.run (.init rfl) run
  have drained := (drain_complete reach).2.2 _ (calls ▸ List.mem_singleton_self _)
  exact ⟨s, reach, received, letGo, one, (drained rfl received.symm rfl).2⟩

/-- A loop has received a delivery when `Drain` starts and counts it after `Drain` has returned nil:
its handler runs though nothing was received since. -/
theorem uncounted_delivery :
    ∃ s, bus.Reachable s ∧ s.loops.any (fun loop => decide (loop.pc = .received)) = true ∧
      s.calls = [{ phase := .returned true, since := 1, counted := false }] ∧ s.received = 1 ∧
      ∃ s', bus.run [.add 0, .spawn 0, .addHandler 0, .start 0] s = some s' ∧ s'.received = 1 ∧
        s'.calls = s.calls ∧ s'.tasks.any (fun t => decide (t.handler = .running)) = true := by
  let next : List Act := [.add 0, .spawn 0, .addHandler 0, .start 0]
  have ran : (bus.run
      [.consume ⟨false, true, false⟩, .receive 0, .drain, .waitDeliveries 0, .waitHandlers 0]
      {}).map (fun s => decide (s.loops.any (fun loop => decide (loop.pc = .received)) = true ∧
        s.calls = [{ phase := .returned true, since := 1, counted := false }] ∧ s.received = 1 ∧
        ((bus.run next s).map fun s' => decide (s'.received = 1 ∧ s'.calls = s.calls ∧
          s'.tasks.any (fun t => decide (t.handler = .running)) = true)) = some true)) =
      some true := by decide +kernel
  obtain ⟨s, run, eq⟩ := Option.map_eq_some_iff.mp ran
  obtain ⟨uncounted, calls, received, later⟩ := of_decide_eq_true eq
  obtain ⟨s', run', eq'⟩ := Option.map_eq_some_iff.mp later
  have reach : bus.Reachable s := System.Reachable.run (.init rfl) run
  exact ⟨s, reach, uncounted, calls, received, s', run', of_decide_eq_true eq'⟩

end Protobus.Lifecycle.Drain
