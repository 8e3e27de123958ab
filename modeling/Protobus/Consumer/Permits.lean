import Protobus.Library.Ledger
import Protobus.Library.Transition

/-!
# Handler slots

A consumer with a concurrency bound takes a permit on the goroutine of its loop, settles the
delivery on a second one and runs the handler on a third, which the processing timeout may abandon.
The second waits for the third before it gives the permit back, so the handlers that run user code
are never more than the permits.
-/
namespace Protobus.Consumer.Permits
open Library Ledger

/-- `limit` is the capacity of `sem`; a consumer without a bound has no `sem`. `timeout` says
whether a processing timeout is set. -/
structure Config where
  limit : Nat
  lateAck : Bool
  timeout : Bool
  bounded : 0 < limit

/-- The goroutine of a handler. `returned` is after user code, by a result or a panic, and before
`exited` is closed. -/
inductive Handler
  | none
  | running
  | returned
  | exited
deriving DecidableEq

/-- The goroutine of a delivery, from the permit to its release. In `returned`, `process` is over,
with a channel for the handler's exit or without one. -/
inductive Stage
  | begun
  | waiting
  | settling
  | returned (exited : Bool)
  | released
deriving DecidableEq

/-- `timer` is whether `run` still waits for the processing timeout beside the result. -/
structure Task where
  stage : Stage := .begun
  handler : Handler := .none
  disarmed : Bool := false
  timer : Bool := true
  /-- How many times its permit was given back. -/
  releases : Nat := 0
deriving DecidableEq

/-- A loop over the deliveries of one channel. `holding` is a delivery that waits for a slot. -/
structure Loop where
  holding : Bool := false
  stopped : Bool := false
  ended : Bool := false
deriving DecidableEq

/-- `sem` is the number of tokens in the channel of that name. -/
structure State where
  sem : Nat := 0
  loops : List Loop := []
  tasks : List Task := []

inductive Act
  /-- A channel is opened, and with it a loop. -/
  | consume
  /-- The stop channel of a loop is closed. -/
  | stop (l : Nat)
  /-- The deliveries of a loop are over: a cancel, a lost channel or connection. -/
  | finish (l : Nat)
  | receive (l : Nat)
  | acquire (l : Nat)
  | letGo (l : Nat)
  | ackFails (i : Nat)
  | handle (i : Nat)
  /-- The handler takes itself out of the processing timeout. -/
  | disarm (i : Nat)
  /-- `run` notices, if it does not take the timer first. -/
  | unarm (i : Nat)
  | handlerEnds (i : Nat) (panicked : Bool)
  | handlerExits (i : Nat)
  | result (i : Nat)
  | timeout (i : Nat)
  /-- The delivery is settled, or left to its redelivery, and `process` returns. -/
  | settled (i : Nat)
  | release (i : Nat)

def onLoop (s : State) (l : Nat) (f : Loop → Option Loop) : Option State :=
  ((s.loops[l]?).bind f).map fun loop => { s with loops := s.loops.set l loop }

def onTask (s : State) (i : Nat) (f : Task → Option Task) : Option State :=
  ((s.tasks[i]?).bind f).map fun t => { s with tasks := s.tasks.set i t }

/-! ### What a goroutine does -/

namespace Task
variable (t : Task)

def ackFails : Option Task :=
  if t.stage = .begun then some { t with stage := .returned false } else none

def handle : Option Task :=
  if t.stage = .begun then some { t with stage := .waiting, handler := .running } else none

def disarm : Option Task :=
  if t.handler = .running then some { t with disarmed := true } else none

def unarm : Option Task :=
  if t.stage = .waiting ∧ t.disarmed = true then some { t with timer := false } else none

def handlerEnds : Option Task :=
  if t.handler = .running then some { t with handler := .returned } else none

def handlerExits : Option Task :=
  if t.handler = .returned then some { t with handler := .exited } else none

/-- The result is sent before the goroutine exits. -/
def result : Option Task :=
  if t.stage = .waiting ∧ (t.handler = .returned ∨ t.handler = .exited) then
    some { t with stage := .settling } else none

def overrun : Option Task :=
  if t.stage = .waiting ∧ t.timer = true then some { t with stage := .settling } else none

def settled : Option Task :=
  if t.stage = .settling then some { t with stage := .returned true } else none

/-- The deferred function waits for `exited`, unless that is nil. -/
def release : Option Task :=
  match t.stage with
  | .returned exited =>
    if exited = false ∨ t.handler = .exited then
      some { t with stage := .released, releases := t.releases + 1 } else none
  | _ => none

end Task

def step (cfg : Config) (s : State) : Act → Option State
  | .consume => some { s with loops := s.loops ++ [{}] }
  | .stop l => onLoop s l fun loop => some { loop with stopped := true }
  | .finish l =>
    onLoop s l fun loop => if loop.holding then none else some { loop with ended := true }
  | .receive l => onLoop s l fun loop =>
      if loop.holding || loop.ended then none else some { loop with holding := true }
  | .acquire l =>
    if s.sem < cfg.limit then
      (onLoop s l fun loop =>
        if loop.holding then some { loop with holding := false } else none).map
          fun s => { s with sem := s.sem + 1, tasks := s.tasks ++ [{}] }
    else none
  | .letGo l => onLoop s l fun loop =>
      if loop.holding && loop.stopped then some { loop with holding := false } else none
  | .ackFails i => if cfg.lateAck then none else onTask s i Task.ackFails
  | .handle i => onTask s i Task.handle
  | .disarm i => onTask s i Task.disarm
  | .unarm i => onTask s i Task.unarm
  | .handlerEnds i _ => onTask s i Task.handlerEnds
  | .handlerExits i => onTask s i Task.handlerExits
  | .result i => onTask s i Task.result
  | .timeout i => if cfg.timeout then onTask s i Task.overrun else none
  | .settled i => onTask s i Task.settled
  | .release i =>
    if 0 < s.sem then (onTask s i Task.release).map fun s => { s with sem := s.sem - 1 } else none

def permits (cfg : Config) : System State Act where
  init s := s = {}
  step := step cfg

/-- A handler that runs user code. -/
def Task.runs (t : Task) : Bool := t.handler = .running

/-- A delivery whose goroutine has not ended. -/
def Task.held (t : Task) : Bool := t.stage ≠ .released

def State.running (s : State) : Nat := s.tasks.countP Task.runs

def State.heldCount (s : State) : Nat := s.tasks.countP Task.held

/-! ## One goroutine -/

/-- What is true of a goroutine at each of its stages. -/
structure Task.Ok (t : Task) : Prop where
  fresh : t.stage = .begun ∨ t.stage = .returned false → t.handler = .none
  started : t.stage = .waiting ∨ t.stage = .settling ∨ t.stage = .returned true →
    t.handler ≠ .none
  ended : t.stage = .released → t.handler = .none ∨ t.handler = .exited
  once : t.releases = if t.stage = .released then 1 else 0

theorem Task.Ok.new : Task.Ok {} := ⟨fun _ => rfl, by simp, by simp, rfl⟩

/-- The steps of a goroutine before its last one. -/
inductive Moved (t : Task) : Task → Prop
  | ackFails : t.stage = .begun → Moved t { t with stage := .returned false }
  | handle : t.stage = .begun → Moved t { t with stage := .waiting, handler := .running }
  | disarm : t.handler = .running → Moved t { t with disarmed := true }
  | unarm : t.stage = .waiting → Moved t { t with timer := false }
  | ends : t.handler = .running → Moved t { t with handler := .returned }
  | exits : t.handler = .returned → Moved t { t with handler := .exited }
  | settling : t.stage = .waiting → Moved t { t with stage := .settling }
  | settled : t.stage = .settling → Moved t { t with stage := .returned true }

theorem Moved.ok {t t' : Task} (moved : Moved t t') (ok : t.Ok) : t'.Ok := by
  obtain ⟨fresh, started, ended, once⟩ := ok
  cases moved with
  | ackFails h | handle h | settling h | settled h =>
    exact ⟨by simp_all, by simp_all, by simp_all, by simp_all⟩
  | disarm h | unarm h => exact ⟨fresh, started, ended, once⟩
  | ends h | exits h =>
    refine ⟨fun stage => ?_, by simp, fun stage => ?_, once⟩
    · simp [fresh stage] at h
    · simp [h, show t.stage = .released from stage] at ended

/-- Neither end of such a step has given its permit back. -/
theorem Moved.held {t t' : Task} (moved : Moved t t') (ok : t.Ok) :
    t.held = true ∧ t'.held = true := by
  have going : t.handler = .running ∨ t.handler = .returned → t.held = true := by
    intro handler
    have := ok.ended
    simp only [Task.held, decide_not, Bool.not_eq_eq_eq_not, Bool.not_true, decide_eq_false_iff_not]
    rintro stage
    rcases handler with h | h <;> simp [h, stage] at this
  cases moved with
  | ackFails h | handle h | unarm h | settling h | settled h => simp [Task.held, h]
  | disarm h | ends h => exact ⟨going (.inl h), going (.inl h)⟩
  | exits h => exact ⟨going (.inr h), going (.inr h)⟩

/-- The last step of a goroutine. -/
theorem Task.release_cases {t t' : Task} (h : t.release = some t') (ok : t.Ok) :
    t.held = true ∧ t'.held = false ∧ (t.handler = .none ∨ t.handler = .exited) ∧ t'.Ok ∧
      t'.handler = t.handler := by
  unfold Task.release at h
  split at h
  · next exited stage =>
    split at h
    · next through =>
      cases h
      have handler : t.handler = .none ∨ t.handler = .exited :=
        through.imp (fun h => ok.fresh (.inr (by rw [stage, h]))) id
      have once := ok.once
      refine ⟨by simp [Task.held, stage], by simp [Task.held], handler, ?_, rfl⟩
      exact ⟨by simp, by simp, fun _ => handler, by simp [stage] at once ⊢; omega⟩
    · cases h
  · cases h

/-! ## What a step can do -/

inductive Steps (cfg : Config) (s : State) : State → Prop
  | loops (loops : List Loop) : Steps cfg s { s with loops }
  | acquire (loops : List Loop) : s.sem < cfg.limit →
      Steps cfg s { sem := s.sem + 1, loops, tasks := s.tasks ++ [{}] }
  | moved {i : Nat} {t t' : Task} : s.tasks[i]? = some t → Moved t t' →
      Steps cfg s { s with tasks := s.tasks.set i t' }
  | release {i : Nat} {t t' : Task} : s.tasks[i]? = some t → t.release = some t' → 0 < s.sem →
      Steps cfg s { s with sem := s.sem - 1, tasks := s.tasks.set i t' }

theorem onLoop_cases {s s' : State} {l : Nat} {f : Loop → Option Loop}
    (h : onLoop s l f = some s') : ∃ loops, s' = { s with loops } := by
  obtain ⟨loop, -, rfl⟩ := Option.map_eq_some_iff.mp h
  exact ⟨_, rfl⟩

theorem onTask_cases {s s' : State} {i : Nat} {f : Task → Option Task}
    (h : onTask s i f = some s') :
    ∃ t t', s.tasks[i]? = some t ∧ f t = some t' ∧ s' = { s with tasks := s.tasks.set i t' } := by
  obtain ⟨t', found, rfl⟩ := Option.map_eq_some_iff.mp h
  obtain ⟨t, mem, eq⟩ := Option.bind_eq_some_iff.mp found
  exact ⟨t, t', mem, eq, rfl⟩

theorem steps_of_guard {cfg : Config} {s s' : State} {i : Nat} {c : Task → Prop}
    [DecidablePred c] {g : Task → Task} (moves : ∀ t, c t → Moved t (g t))
    (h : onTask s i (fun t => if c t then some (g t) else none) = some s') : Steps cfg s s' := by
  obtain ⟨t, t', found, eq, rfl⟩ := onTask_cases h
  obtain ⟨holds, ⟨⟩⟩ := Option.ite_none_right_eq_some.mp eq
  exact .moved found (moves t holds)

theorem step_cases {cfg : Config} {s s' : State} {a : Act} (h : step cfg s a = some s') :
    Steps cfg s s' := by
  cases a with
  | consume =>
    cases h
    exact .loops _
  | stop l | finish l | receive l | letGo l =>
    obtain ⟨loops, rfl⟩ := onLoop_cases h
    exact .loops loops
  | acquire l =>
    simp only [step] at h
    split at h
    · next room =>
      obtain ⟨mid, eq, rfl⟩ := Option.map_eq_some_iff.mp h
      obtain ⟨loops, rfl⟩ := onLoop_cases eq
      exact .acquire loops room
    · cases h
  | ackFails i =>
    simp only [step] at h
    split at h
    · cases h
    · exact steps_of_guard (fun t begun => .ackFails begun) h
  | handle i => exact steps_of_guard (fun t begun => .handle begun) h
  | disarm i => exact steps_of_guard (fun t running => .disarm running) h
  | unarm i => exact steps_of_guard (fun t noticed => .unarm noticed.1) h
  | handlerEnds i panicked => exact steps_of_guard (fun t running => .ends running) h
  | handlerExits i => exact steps_of_guard (fun t returned => .exits returned) h
  | result i => exact steps_of_guard (fun t ready => .settling ready.1) h
  | timeout i =>
    simp only [step] at h
    split at h
    · exact steps_of_guard (fun t armed => .settling armed.1) h
    · cases h
  | settled i => exact steps_of_guard (fun t settling => .settled settling) h
  | release i =>
    simp only [step] at h
    split at h
    · next taken =>
      obtain ⟨mid, eq, rfl⟩ := Option.map_eq_some_iff.mp h
      obtain ⟨t, t', found, released, rfl⟩ := onTask_cases eq
      exact .release found released taken
    · cases h

/-! ## Every run -/

/-- The weight of a goroutine that holds a permit. -/
def holds (t : Task) : Int := if t.held then 1 else 0

structure Inv (cfg : Config) (s : State) : Prop where
  each : ∀ t ∈ s.tasks, t.Ok
  sem : (s.sem : Int) = total holds s.tasks
  bound : s.sem ≤ cfg.limit

theorem Inv.step {cfg : Config} {s s' : State} (inv : Inv cfg s) (steps : Steps cfg s s') :
    Inv cfg s' := by
  cases steps with
  | loops loops => exact { inv with }
  | acquire loops room =>
    refine ⟨?_, ?_, room⟩
    · intro t mem
      rcases List.mem_append.mp mem with mem | mem
      · exact inv.each t mem
      · rw [List.mem_singleton.mp mem]
        exact Task.Ok.new
    · rw [total_concat, ← inv.sem]
      rfl
  | @moved i t t' found moved =>
    have ok := inv.each t (List.mem_of_getElem? found)
    obtain ⟨held, held'⟩ := moved.held ok
    refine ⟨forall_mem_set inv.each (moved.ok ok), ?_, inv.bound⟩
    rw [total_set found, inv.sem]
    simp [holds, held, held']
  | @release i t t' found released taken =>
    have ok := inv.each t (List.mem_of_getElem? found)
    obtain ⟨held, gone, -, ok', -⟩ := Task.release_cases released ok
    refine ⟨forall_mem_set inv.each ok', ?_, by have := inv.bound; simp only; omega⟩
    rw [total_set found, ← inv.sem]
    simp only [holds, held, gone, if_true, Bool.false_eq_true, if_false]
    omega

theorem inv_of_reachable {cfg : Config} {s : State} (reach : (permits cfg).Reachable s) :
    Inv cfg s := by
  refine reach.invariant _ (fun s start => ?_) fun s a t _ inv next => inv.step (step_cases next)
  subst start
  exact ⟨by simp, rfl, Nat.zero_le _⟩

/-! ## The law -/

theorem Inv.sem_eq {cfg : Config} {s : State} (inv : Inv cfg s) : s.sem = s.heldCount := by
  have held : (s.sem : Int) = s.heldCount := by rw [inv.sem, State.heldCount, ← total_ite]; rfl
  exact_mod_cast held

/-- A running handler's goroutine holds its permit. -/
theorem Inv.running_le {cfg : Config} {s : State} (inv : Inv cfg s) : s.running ≤ s.heldCount := by
  apply List.countP_mono_left
  intro t mem runs
  have handler : t.handler = .running := of_decide_eq_true runs
  have ended := (inv.each t mem).ended
  simp only [Task.held, decide_eq_true_eq]
  intro released
  simp [handler, released] at ended

/-! ### Every permit can be given back -/

/-- The goroutine that takes a step, of a delivery or of its handler. -/
def Act.task : Act → Option Nat
  | .ackFails i | .handle i | .disarm i | .unarm i | .handlerEnds i _ | .handlerExits i | .result i
  | .timeout i | .settled i | .release i => some i
  | _ => none

def rank (t : Task) : Nat :=
  (match t.stage with
    | .begun => 8
    | .waiting => 3
    | .settling => 2
    | .returned _ => 1
    | .released => 0) +
  match t.handler with
    | .running => 2
    | .returned => 1
    | .none | .exited => 0

theorem onTask_eq {s : State} {i : Nat} {t t' : Task} {f : Task → Option Task}
    (found : s.tasks[i]? = some t) (eq : f t = some t') :
    onTask s i f = some { s with tasks := s.tasks.set i t' } := by
  simp [onTask, found, eq]

theorem getElem?_set_found {ts : List Task} {i : Nat} {t : Task} (found : ts[i]? = some t)
    (t' : Task) : (ts.set i t')[i]? = some t' := by
  obtain ⟨lt, -⟩ := List.getElem?_eq_some_iff.mp found
  rw [List.getElem?_set_self lt]

/-- A goroutine that holds a permit can go on, if only its handler does. -/
theorem exists_step {cfg : Config} {s : State} (inv : Inv cfg s) {i : Nat} {t : Task}
    (found : s.tasks[i]? = some t) (held : t.held = true) :
    ∃ a s' t', a.task = some i ∧ step cfg s a = some s' ∧ s'.tasks[i]? = some t' ∧
      rank t' < rank t := by
  have ok := inv.each t (List.mem_of_getElem? found)
  cases handler : t.handler with
  | running =>
    refine ⟨.handlerEnds i false, _, _, rfl, onTask_eq found (if_pos handler),
      getElem?_set_found found _, ?_⟩
    simp [rank, handler]
  | returned =>
    refine ⟨.handlerExits i, _, _, rfl, onTask_eq found (if_pos handler),
      getElem?_set_found found _, ?_⟩
    simp [rank, handler]
  | none | exited =>
    cases stage : t.stage with
    | begun =>
      refine ⟨.handle i, _, _, rfl, onTask_eq found (if_pos stage), getElem?_set_found found _, ?_⟩
      simp [rank, stage, handler]
    | waiting =>
      have through : t.handler = .exited := by
        have := ok.started (.inl stage)
        simp_all
      refine ⟨.result i, _, _, rfl, onTask_eq found (if_pos ⟨stage, .inr through⟩),
        getElem?_set_found found _, ?_⟩
      simp [rank, stage]
    | settling =>
      refine ⟨.settled i, _, _, rfl, onTask_eq found (if_pos stage), getElem?_set_found found _, ?_⟩
      simp [rank, stage]
    | returned exited =>
      have through : exited = false ∨ t.handler = .exited := by
        have := ok.started
        cases exited <;> simp_all
      have taken : 0 < s.sem := by
        rw [inv.sem_eq]
        exact List.countP_pos_iff.mpr ⟨t, List.mem_of_getElem? found, held⟩
      let t' : Task := { t with stage := .released, releases := t.releases + 1 }
      have released : t.release = some t' := by
        simp only [Task.release, stage]
        exact if_pos through
      refine ⟨.release i, { s with sem := s.sem - 1, tasks := s.tasks.set i t' }, t', rfl, ?_,
        getElem?_set_found found t', ?_⟩
      · simp only [step, if_pos taken, onTask_eq found released]
        rfl
      · simp [t', rank, stage]
    | released => simp [Task.held, stage] at held

/-- Every taken permit can be given back, by the steps of its delivery and its handler alone. -/
theorem exists_release {cfg : Config} {s : State} (inv : Inv cfg s) {i : Nat} {t : Task}
    (found : s.tasks[i]? = some t) :
    ∃ acts s' t', (∀ a ∈ acts, a.task = some i) ∧ (permits cfg).run acts s = some s' ∧
      s'.tasks[i]? = some t' ∧ t'.releases = 1 := by
  induction left : rank t using Nat.strongRecOn generalizing s t with
  | ind n ih =>
    cases held : t.held with
    | false =>
      have released : t.stage = .released := by simpa [Task.held] using held
      have once := (inv.each t (List.mem_of_getElem? found)).once
      exact ⟨[], s, t, by simp, rfl, found, by rw [once, if_pos released]⟩
    | true =>
      obtain ⟨a, mid, t₁, own, next, found₁, less⟩ := exists_step inv found held
      obtain ⟨acts, s', t', all, run, found', once⟩ :=
        ih (rank t₁) (left ▸ less) (inv.step (step_cases next)) found₁ rfl
      refine ⟨a :: acts, s', t', ?_, ?_, found', once⟩
      · intro b mem
        rcases List.mem_cons.mp mem with rfl | mem
        · exact own
        · exact all b mem
      · rw [System.run, show (permits cfg).step s a = some mid from next]
        exact run

/-- At every moment of every run: at most `limit` handlers run user code; a permit is given back at
most once, and its handler, if there was one, has exited then; as many permits are taken as there
are deliveries whose goroutine has not ended; and each can be given back. -/
theorem permits_exact {cfg : Config} {s : State} (reach : (permits cfg).Reachable s) :
    s.running ≤ cfg.limit ∧
    (∀ t ∈ s.tasks, t.releases ≤ 1 ∧ (t.releases = 1 ↔ t.held = false) ∧
      (t.releases = 1 → t.handler = .none ∨ t.handler = .exited)) ∧
    s.sem = s.heldCount ∧
    (s.running = 0 → s.heldCount = 0 → s.sem = 0) ∧
    (∀ i t, s.tasks[i]? = some t → ∃ acts s' t', (∀ a ∈ acts, a.task = some i) ∧
      (permits cfg).run acts s = some s' ∧ s'.tasks[i]? = some t' ∧ t'.releases = 1) := by
  have inv := inv_of_reachable reach
  refine ⟨?_, ?_, inv.sem_eq, fun _ none => inv.sem_eq.trans none,
    fun i t found => exists_release inv found⟩
  · calc s.running ≤ s.heldCount := inv.running_le
      _ = s.sem := inv.sem_eq.symm
      _ ≤ cfg.limit := inv.bound
  · intro t mem
    have ok := inv.each t mem
    have once := ok.once
    by_cases released : t.stage = .released
    · rw [if_pos released] at once
      exact ⟨once.le, by simp [once, Task.held, released], fun _ => ok.ended released⟩
    · rw [if_neg released] at once
      exact ⟨by omega, by simp [once, Task.held, released], by simp [once]⟩

/-- A bound of one, a handler that outlives its timeout, and a second delivery on a new channel that
has to wait for it. -/
theorem permits_exact_abandoned :
    let cfg : Config := ⟨1, false, true, by decide⟩
    ∃ s, (permits cfg).Reachable s ∧ s.running = 1 ∧ s.sem = s.heldCount ∧
      (step cfg s (.acquire 1)).isNone = true := by
  intro cfg
  have run : ((permits cfg).run
      [.consume, .receive 0, .acquire 0, .handle 0, .timeout 0, .settled 0, .finish 0, .consume,
        .receive 1] {}).map
      (fun s => decide (s.running = 1 ∧ (step cfg s (.acquire 1)).isNone = true)) = some true := by
    decide +kernel
  obtain ⟨s, run, eq⟩ := Option.map_eq_some_iff.mp run
  obtain ⟨one, full⟩ := of_decide_eq_true eq
  have reach : (permits cfg).Reachable s := System.Reachable.run (.init rfl) run
  exact ⟨s, reach, one, (permits_exact reach).2.2.1, full⟩

end Protobus.Consumer.Permits
