import Protobus.Library.Transition

/-!
# Publishers and a lost connection

Between the death of the connection and the supervisor's notice of it the session still reports
ready. Calls and event publishes both loop: wait for readiness, look for a usable channel, repair
what is missing, and publish. In that window their repairs operate on a dead connection. `repair` of
the dispatcher recognises the error and its caller waits again; `repair` of the event publisher
passes it on.
-/
namespace Protobus.Dispatcher.Repair
open Library

/-- Why an operation on the connection failed: the broker refused it on a connection that lives, or
the connection is closed. -/
inductive Cause
  | refusal
  | gone
deriving DecidableEq

/-- The error of an operation; `isErrClosed` is `errors.Is(err, amqp.ErrClosed)`. -/
structure OpErr where
  cause : Cause
  isErrClosed : Bool
deriving DecidableEq

inductive Op
  | channel
  | exchangeDeclare
  | queueDeclare
  | queueBind
  | confirm
  | consume
deriving DecidableEq

/-- What `dispatcher.restoreTopology` asks of the connection, after the core exchanges, whose
failures it ignores. -/
def replyTopology : List Op :=
  [.channel, .exchangeDeclare, .queueDeclare, .queueBind, .channel, .confirm, .consume]

/-- What the dispatcher's `repair` asks for when only the publishing channel is gone. -/
def pubTopology : List Op := [.channel, .confirm]

/-- What `eventPublisher.restoreTopology` asks for. -/
def eventTopology : List Op := [.channel, .exchangeDeclare, .confirm]

/-- What comes back to the caller. An `outcome` is that of the publish. `connectionClosed` is an
error whose only cause is that the connection is closed, and says whether the session was finished
when it arose. -/
inductive Result
  | context
  | notReady
  | errClosed
  | outcome
  | refused
  | connectionClosed (finished : Bool)
deriving DecidableEq

inductive Stage
  /-- In `whenReady`. -/
  | waiting
  | looking
  /-- Waits for the restore lock. -/
  | repairing
  | locked
  | operating (conn : Nat) (whole : Bool) (left : List Op)
  | failing (conn : Nat) (err : OpErr)
  | sleeping
  | publishing (ch : Nat)
  | returned (r : Result)
deriving DecidableEq

inductive Kind
  | call
  | event
deriving DecidableEq

structure Task where
  kind : Kind
  stage : Stage := .waiting
deriving DecidableEq

/-- Why the session is finished. -/
inductive Finish
  | closed
  | gaveUp
deriving DecidableEq

/-- What the tasks share: the session, the dispatcher's channel and reply queue, the event
publisher's channel, and the restore lock. Connections and channels are known by numbers. -/
structure Shared where
  conn : Nat := 0
  /-- The connections that are closed. -/
  closed : List Nat := []
  isReady : Bool := true
  doneErr : Option Finish := none
  restoreMu : Bool := false
  opened : Nat := 0
  /-- The channels that are closed. -/
  gone : List Nat := []
  pub : Option Nat := none
  replyQueue : Bool := false
  dispatcherClosed : Bool := false
  eventPub : Option Nat := none
  eventsClosed : Bool := false
deriving DecidableEq

inductive TaskAct
  | contextEnds
  | timesOut
  | seesFinish
  | pass
  | look
  | lock
  | check
  | operate (err : Option OpErr)
  | install
  | classify
  | wake
  | publish
  | publishGone
deriving DecidableEq

inductive SharedAct
  | connectionDies
  | markNotReady
  /-- `connectionLost` of the dispatcher. -/
  | forget
  | dial
  | restoreDispatcher
  | restoreEvents
  | markReady
  | finish (why : Finish)
  | closeSession
  | closeDispatcher
  | closeEvents
  | channelCloses (ch : Nat)
deriving DecidableEq

namespace Shared
variable (g : Shared)

def usable (ch : Option Nat) : Bool :=
  match ch with
  | none => false
  | some ch => ch ∉ g.gone

/-- `current`, as to whether the connection is ready for traffic. -/
def ready : Bool := g.isReady && g.doneErr.isNone

def unlock : Shared := { g with restoreMu := false }

/-- `session.err`. -/
def err : Option Result := g.doneErr.map fun why =>
  match why with
  | .closed => .errClosed
  | .gaveUp => .notReady

/-- A fresh publishing channel of the dispatcher; the one before it is closed. -/
def installPub : Shared := { g with
  pub := some g.opened
  opened := g.opened + 1
  gone := g.pub.toList ++ g.gone }

def installEvents : Shared := { g with
  eventPub := some g.opened
  opened := g.opened + 1
  gone := g.eventPub.toList ++ g.gone }

/-- The steps of the supervisor, of closing, and of what dies by itself. -/
def step : SharedAct → Option Shared
  | .connectionDies => some { g with closed := g.conn :: g.closed }
  | .markNotReady =>
    if g.conn ∈ g.closed ∧ g.isReady = true then some { g with isReady := false } else none
  | .forget => some { g with pub := none, replyQueue := false }
  | .dial =>
    if g.conn ∈ g.closed ∧ g.isReady = false then some { g with conn := g.conn + 1 } else none
  | .restoreDispatcher =>
    if g.restoreMu || g.conn ∈ g.closed then none
    else some (if g.dispatcherClosed then g else { g.installPub with replyQueue := true })
  | .restoreEvents =>
    if g.restoreMu || g.conn ∈ g.closed then none else some g.installEvents
  | .markReady =>
    if g.conn ∈ g.closed || g.doneErr.isSome then none else some { g with isReady := true }
  | .finish why => some { g with doneErr := g.doneErr <|> some why }
  | .closeSession => if g.doneErr.isNone then none else some { g with isReady := false }
  | .closeDispatcher => some { g with dispatcherClosed := true, pub := none, replyQueue := false }
  | .closeEvents => some { g with eventsClosed := true, eventPub := none }
  | .channelCloses ch => some { g with gone := ch :: g.gone }

end Shared

/-- An error of the operation is passed on as it is. -/
def OpErr.result (err : OpErr) (finished : Bool) : Result :=
  match err.cause with
  | .refusal => .refused
  | .gone => .connectionClosed finished

/-- `connectionGoneOr`: none for `errConnectionGone`. -/
def connectionGoneOr (isClosed : Bool) (err : OpErr) : Option OpErr :=
  if isClosed || err.isErrClosed then none else some err

/-- Whether an operation on the connection can end so. One fails as `gone` only if the connection
is closed, and on a closed connection nothing else happens. -/
def possible (g : Shared) (conn : Nat) : Option OpErr → Bool
  | some ⟨.gone, _⟩ => conn ∈ g.closed
  | _ => conn ∉ g.closed

namespace Task
variable (g : Shared) (t : Task)

def go (stage : Stage) : Task := { t with stage := stage }

/-- What `whenReady` and the pauses of the loop do, for calls and events alike. -/
def wait : TaskAct → Option (Shared × Task)
  | .contextEnds => match t.stage with
    | .waiting => some (g, t.go (.returned .context))
    | .sleeping => some (g, t.go (.returned .context))
    | _ => none
  | .timesOut => match t.stage with
    | .waiting => some (g, t.go (.returned .notReady))
    | _ => none
  | .seesFinish => match t.stage, g.err with
    | .waiting, some r => some (g, t.go (.returned r))
    | _, _ => none
  | .pass => match t.stage with
    | .waiting => if g.isReady then some (g, t.go .looking) else none
    | _ => none
  | .wake => match t.stage with
    | .sleeping => some (g, t.go .waiting)
    | _ => none
  | .lock => match t.stage with
    | .repairing => if g.restoreMu then none else some ({ g with restoreMu := true }, t.go .locked)
    | _ => none
  | .publish => match t.stage with
    | .publishing _ => some (g, t.go (.returned .outcome))
    | _ => none
  | .publishGone => match t.stage with
    | .publishing ch => if ch ∈ g.gone then some (g, t.go .waiting) else none
    | _ => none
  | _ => none

/-- `dispatcher.channel`, after `whenReady`. -/
def callLook : Task :=
  if g.dispatcherClosed then t.go (.returned .errClosed)
  else match g.pub with
    | some ch =>
      if ch ∉ g.gone ∧ g.replyQueue = true then t.go (.publishing ch) else t.go .repairing
    | none => t.go .repairing

/-- `dispatcher.repair`, up to its first operation. -/
def callCheck : Shared × Task :=
  if g.usable g.pub && g.replyQueue then (g.unlock, t.go .waiting)
  else if !g.ready then (g.unlock, t.go .waiting)
  else if g.conn ∈ g.closed then (g.unlock, t.go .sleeping)
  else if g.replyQueue then (g, t.go (.operating g.conn false pubTopology))
  else
    let g := { g with gone := g.pub.toList ++ g.gone }
    if g.dispatcherClosed then (g.unlock, t.go .waiting)
    else (g, t.go (.operating g.conn true replyTopology))

def callInstall (whole : Bool) : Shared × Task :=
  if whole && g.dispatcherClosed then (g.unlock, t.go .waiting)
  else ({ g.installPub.unlock with replyQueue := whole || g.replyQueue }, t.go .waiting)

/-- `eventPublisher.publish`, after `whenReady`. -/
def eventLook : Task :=
  if g.eventsClosed then t.go (.returned .errClosed)
  else match g.eventPub with
    | some ch => if ch ∈ g.gone then t.go .repairing else t.go (.publishing ch)
    | none => t.go .repairing

/-- `eventPublisher.repair`, up to its first operation. It does not look whether the connection is
closed. -/
def eventCheck : Shared × Task :=
  if g.usable g.eventPub then (g.unlock, t.go .waiting)
  else if !g.ready then (g.unlock, t.go .waiting)
  else (g, t.go (.operating g.conn true eventTopology))

/-- The error of `restoreTopology` goes through `repair` and `publish` to the caller. -/
def eventFails (err : OpErr) : Shared × Task :=
  (g.unlock, t.go (.returned (err.result g.doneErr.isSome)))

def callStep : TaskAct → Option (Shared × Task)
  | .look => match t.stage with
    | .looking => some (g, t.callLook g)
    | _ => none
  | .check => match t.stage with
    | .locked => some (t.callCheck g)
    | _ => none
  | .operate err => match t.stage with
    | .operating conn whole (_ :: left) =>
      if possible g conn err then
        match err with
        | none => some (g, t.go (.operating conn whole left))
        | some err => some (g, t.go (.failing conn err))
      else none
    | _ => none
  | .install => match t.stage with
    | .operating _ whole [] => some (t.callInstall g whole)
    | _ => none
  | .classify => match t.stage with
    | .failing conn err => match connectionGoneOr (conn ∈ g.closed) err with
      | none => some (g.unlock, t.go .sleeping)
      | some err => some (g.unlock, t.go (.returned (err.result g.doneErr.isSome)))
    | _ => none
  | a => t.wait g a

def eventStep : TaskAct → Option (Shared × Task)
  | .look => match t.stage with
    | .looking => some (g, t.eventLook g)
    | _ => none
  | .check => match t.stage with
    | .locked => some (t.eventCheck g)
    | _ => none
  | .operate err => match t.stage with
    | .operating conn whole (_ :: left) =>
      if possible g conn err then
        match err with
        | none => some (g, t.go (.operating conn whole left))
        | some err => some (t.eventFails g err)
      else none
    | _ => none
  | .install => match t.stage with
    | .operating _ _ [] => some (g.installEvents.unlock, t.go .waiting)
    | _ => none
  | a => t.wait g a

def step (a : TaskAct) : Option (Shared × Task) :=
  match t.kind with
  | .call => t.callStep g a
  | .event => t.eventStep g a

end Task

structure State where
  shared : Shared := {}
  tasks : List Task := []
deriving DecidableEq

inductive Act
  | shared (a : SharedAct)
  | begin (kind : Kind)
  | task (i : Nat) (a : TaskAct)
deriving DecidableEq

def State.step (s : State) : Act → Option State
  | .shared a => (s.shared.step a).map fun g => { s with shared := g }
  | .begin kind => some { s with tasks := s.tasks ++ [{ kind }] }
  | .task i a => match s.tasks[i]? with
    | none => none
    | some t => (t.step s.shared a).map fun r => { shared := r.1, tasks := s.tasks.set i r.2 }

def publishers : System State Act where
  init s := s = {}
  step := State.step

section Step

/-- What a step of a task leaves as it is. -/
structure Keeps (g g' : Shared) : Prop where
  closed : g'.closed = g.closed
  doneErr : g'.doneErr = g.doneErr

/-- Nothing is asked of a connection, and no error of one is in hand or given back. -/
def Stage.quiet : Stage → Bool
  | .operating _ _ _ => false
  | .failing _ _ => false
  | .returned (.connectionClosed _) => false
  | _ => true

/-- What a step of a task can be, sorted by what it has to do with the connection. -/
inductive Moves (g : Shared) (t : Task) : TaskAct → Shared × Task → Prop
  | quiet {a : TaskAct} {g' : Shared} {stage : Stage} : Keeps g g' → stage.quiet = true →
      Moves g t a (g', t.go stage)
  | starts {g' : Shared} {whole : Bool} {ops : List Op} : Keeps g g' → t.stage = .locked →
      (t.kind = .event → g.usable g.eventPub = false ∧ g.ready = true) →
      Moves g t .check (g', t.go (.operating g.conn whole ops))
  | works {conn : Nat} {whole : Bool} {op : Op} {left : List Op} :
      t.stage = .operating conn whole (op :: left) →
      Moves g t (.operate none) (g, t.go (.operating conn whole left))
  | fails {conn : Nat} {whole : Bool} {op : Op} {left : List Op} {err : OpErr} :
      t.kind = .call → t.stage = .operating conn whole (op :: left) →
      possible g conn (some err) = true →
      Moves g t (.operate (some err)) (g, t.go (.failing conn err))
  | passes {conn : Nat} {err err' : OpErr} : t.kind = .call → t.stage = .failing conn err →
      connectionGoneOr (conn ∈ g.closed) err = some err' →
      Moves g t .classify (g.unlock, t.go (.returned (err'.result g.doneErr.isSome)))
  | tells {conn : Nat} {whole : Bool} {op : Op} {left : List Op} {err : OpErr} :
      t.kind = .event → t.stage = .operating conn whole (op :: left) →
      possible g conn (some err) = true → Moves g t (.operate (some err)) (t.eventFails g err)

variable {g g' : Shared} {t : Task} {r : Shared × Task} {a : TaskAct} {stage : Stage}

theorem Task.wait_moves (h : t.wait g a = some r) : Moves g t a r := by
  cases a <;> simp only [Task.wait, reduceCtorEq] at h
  case contextEnds => split at h <;> cases h <;> exact .quiet ⟨rfl, rfl⟩ rfl
  case seesFinish =>
    split at h
    · next r waiting finished =>
      cases h
      refine .quiet ⟨rfl, rfl⟩ ?_
      obtain ⟨why, -, rfl⟩ := Option.map_eq_some_iff.mp finished
      cases why <;> rfl
    · cases h
  case timesOut | wake | publish =>
    split at h <;> cases h
    exact .quiet ⟨rfl, rfl⟩ rfl
  case pass | lock | publishGone =>
    split at h
    · split at h <;> cases h
      exact .quiet ⟨rfl, rfl⟩ rfl
    · cases h

theorem Task.callLook_moves : Moves g t .look (g, t.callLook g) := by
  unfold Task.callLook
  split
  · exact .quiet ⟨rfl, rfl⟩ rfl
  · split
    · split <;> exact .quiet ⟨rfl, rfl⟩ rfl
    · exact .quiet ⟨rfl, rfl⟩ rfl

theorem Task.callCheck_moves (call : t.kind = .call) (locked : t.stage = .locked) :
    Moves g t .check (t.callCheck g) := by
  have other : t.kind = .event → g.usable g.eventPub = false ∧ g.ready = true := by simp [call]
  unfold Task.callCheck
  split
  · exact .quiet ⟨rfl, rfl⟩ rfl
  · split
    · exact .quiet ⟨rfl, rfl⟩ rfl
    · split
      · exact .quiet ⟨rfl, rfl⟩ rfl
      · split
        · exact .starts ⟨rfl, rfl⟩ locked other
        · dsimp only
          split
          · exact .quiet ⟨rfl, rfl⟩ rfl
          · exact .starts ⟨rfl, rfl⟩ locked other

theorem Task.callStep_moves (call : t.kind = .call) (h : t.callStep g a = some r) :
    Moves g t a r := by
  cases a
  case look =>
    simp only [Task.callStep] at h
    split at h <;> cases h
    exact t.callLook_moves
  case check =>
    simp only [Task.callStep] at h
    split at h <;> cases h
    exact t.callCheck_moves call ‹_›
  case operate err =>
    simp only [Task.callStep] at h
    split at h
    · next conn whole op left operating =>
      split at h
      · next can =>
        cases err with
        | none =>
          cases h
          exact .works operating
        | some err =>
          cases h
          exact .fails call operating can
      · cases h
    · cases h
  case install =>
    simp only [Task.callStep] at h
    split at h <;> cases h
    unfold Task.callInstall
    split <;> exact .quiet ⟨rfl, rfl⟩ rfl
  case classify =>
    simp only [Task.callStep] at h
    split at h
    · next conn err failing =>
      split at h <;> cases h
      · exact .quiet ⟨rfl, rfl⟩ rfl
      · next err' passed => exact .passes call failing passed
    · cases h
  all_goals exact Task.wait_moves (by simpa only [Task.callStep] using h)

theorem Task.eventLook_moves : Moves g t .look (g, t.eventLook g) := by
  unfold Task.eventLook
  split
  · exact .quiet ⟨rfl, rfl⟩ rfl
  · split
    · split <;> exact .quiet ⟨rfl, rfl⟩ rfl
    · exact .quiet ⟨rfl, rfl⟩ rfl

theorem Task.eventCheck_moves (locked : t.stage = .locked) : Moves g t .check (t.eventCheck g) := by
  unfold Task.eventCheck
  split
  · exact .quiet ⟨rfl, rfl⟩ rfl
  · next unusable =>
    split
    · exact .quiet ⟨rfl, rfl⟩ rfl
    · next ready =>
      exact .starts ⟨rfl, rfl⟩ locked fun _ => ⟨by simpa using unusable, by simpa using ready⟩

theorem Task.eventStep_moves (event : t.kind = .event) (h : t.eventStep g a = some r) :
    Moves g t a r := by
  cases a
  case look =>
    simp only [Task.eventStep] at h
    split at h <;> cases h
    exact t.eventLook_moves
  case check =>
    simp only [Task.eventStep] at h
    split at h <;> cases h
    exact t.eventCheck_moves ‹_›
  case operate err =>
    simp only [Task.eventStep] at h
    split at h
    · next conn whole op left operating =>
      split at h
      · next can =>
        cases err with
        | none =>
          cases h
          exact .works operating
        | some err =>
          cases h
          exact .tells event operating can
      · cases h
    · cases h
  case install =>
    simp only [Task.eventStep] at h
    split at h <;> cases h
    exact .quiet ⟨rfl, rfl⟩ rfl
  all_goals exact Task.wait_moves (by simpa only [Task.eventStep] using h)

theorem Task.step_moves (h : t.step g a = some r) : Moves g t a r := by
  cases kind : t.kind with
  | call => exact t.callStep_moves kind (by simpa only [Task.step, kind] using h)
  | event => exact t.eventStep_moves kind (by simpa only [Task.step, kind] using h)

theorem exists_moves {s s' : State} {i : Nat} (h : s.step (.task i a) = some s') :
    ∃ t r, s.tasks[i]? = some t ∧ Moves s.shared t a r ∧ s' = ⟨r.1, s.tasks.set i r.2⟩ := by
  simp only [State.step] at h
  split at h
  · cases h
  · next t at_i =>
    obtain ⟨r, moves, rfl⟩ := Option.map_eq_some_iff.mp h
    exact ⟨t, r, at_i, t.step_moves moves, rfl⟩

theorem Moves.keeps (moves : Moves g t a r) : Keeps g r.1 := by
  cases moves with
  | quiet keeps | starts keeps => exact keeps
  | works | fails | passes | tells => exact ⟨rfl, rfl⟩

/-- Only the death of the connection closes it, and a session does not become unfinished. -/
theorem Shared.step_cases {a : SharedAct} (h : g.step a = some g') :
    a = .connectionDies ∧ g' = { g with closed := g.conn :: g.closed } ∨
      g'.closed = g.closed ∧ (g'.doneErr = none → g.doneErr = none) := by
  cases a <;> simp only [Shared.step, Option.ite_none_left_eq_some,
    Option.ite_none_right_eq_some] at h
  case connectionDies =>
    cases h
    exact .inl ⟨rfl, rfl⟩
  case restoreDispatcher =>
    cases h.2
    split <;> exact .inr ⟨rfl, id⟩
  case finish why =>
    cases h
    refine .inr ⟨rfl, ?_⟩
    cases g.doneErr <;> simp
  case forget | closeDispatcher | closeEvents | channelCloses =>
    cases h
    exact .inr ⟨rfl, id⟩
  all_goals
    cases h.2
    exact .inr ⟨rfl, id⟩

end Step

/-! ## Calls -/

section Calls
variable {g g' : Shared} {t : Task} {r : Shared × Task} {a : TaskAct}

/-- An error of the closed connection that a call has in hand is one of a connection that is closed,
and no call comes back with one. -/
structure Task.Ok (g : Shared) (t : Task) : Prop where
  failing {conn : Nat} {err : OpErr} : t.stage = .failing conn err → err.cause = .gone →
    conn ∈ g.closed
  call : t.kind = .call → ∀ finished, t.stage ≠ .returned (.connectionClosed finished)

theorem Task.Ok.mono (ok : t.Ok g) (more : g.closed ⊆ g'.closed) : t.Ok g' :=
  { ok with failing := fun at_stage gone => more (ok.failing at_stage gone) }

/-- An operation fails as `gone` only on a connection that is closed. -/
theorem closed_of_possible {conn : Nat} {err : OpErr} (can : possible g conn (some err) = true)
    (gone : err.cause = .gone) : conn ∈ g.closed := by
  obtain ⟨cause, isErrClosed⟩ := err
  cases gone
  exact of_decide_eq_true can

/-- An error that a call passes on is a refusal: one of a closed connection is recognised. -/
theorem refusal_of_connectionGoneOr {conn : Nat} {err err' : OpErr}
    (ok : err.cause = .gone → conn ∈ g.closed)
    (h : connectionGoneOr (conn ∈ g.closed) err = some err') : err'.cause = .refusal := by
  simp only [connectionGoneOr, Option.ite_none_left_eq_some] at h
  obtain ⟨live, same⟩ := h
  cases same
  cases cause : err.cause with
  | refusal => rfl
  | gone => simp [ok cause] at live

theorem Task.Ok.moves (ok : t.Ok g) (moves : Moves g t a r) : r.2.Ok r.1 := by
  cases moves with
  | quiet _ quiet =>
    constructor
    · rintro conn err rfl
      cases quiet
    · rintro - finished rfl
      cases quiet
  | starts | works => exact ⟨nofun, nofun⟩
  | fails _ _ can =>
    refine ⟨fun at_stage gone => ?_, nofun⟩
    cases at_stage
    exact closed_of_possible can gone
  | passes _ failing passed =>
    have refusal := refusal_of_connectionGoneOr (ok.failing failing) passed
    refine ⟨nofun, fun _ finished => ?_⟩
    simp [Task.go, OpErr.result, refusal]
  | tells event => exact ⟨nofun, fun call => by cases event.symm.trans call⟩

theorem ok_step {s s' : State} {a : Act} (ok : ∀ t ∈ s.tasks, t.Ok s.shared)
    (h : s.step a = some s') : ∀ t ∈ s'.tasks, t.Ok s'.shared := by
  cases a with
  | shared a =>
    obtain ⟨g, moves, rfl⟩ := Option.map_eq_some_iff.mp h
    have more : s.shared.closed ⊆ g.closed := by
      obtain ⟨-, rfl⟩ | ⟨same, -⟩ := Shared.step_cases moves
      · exact List.subset_cons_self _ _
      · exact same ▸ List.Subset.refl _
    exact fun t mem => (ok t mem).mono more
  | begin kind =>
    cases h
    intro t mem
    obtain mem | new := List.mem_append.mp mem
    · exact ok t mem
    · cases List.mem_singleton.mp new
      exact ⟨nofun, nofun⟩
  | task i a =>
    obtain ⟨t, r, at_i, moves, rfl⟩ := exists_moves h
    intro u mem
    obtain old | rfl := List.mem_or_eq_of_mem_set mem
    · exact (ok u old).mono (moves.keeps.closed ▸ List.Subset.refl _)
    · exact (ok t (List.mem_of_getElem? at_i)).moves moves

theorem ok_of_reachable {s : State} (reach : publishers.Reachable s) :
    ∀ t ∈ s.tasks, t.Ok s.shared := by
  apply reach.invariant (fun s => ∀ t ∈ s.tasks, t.Ok s.shared)
  · rintro s rfl
    simp
  · exact fun _ _ _ _ ok step => ok_step ok step

end Calls

/-! ## Event publishes -/

section Events
variable {g g' : Shared} {t : Task} {r : Shared × Task}

/-- The repair of an event publish that has something left to ask of the connection. -/
def Task.exposed (conn : Nat) (t : Task) : Bool :=
  match t.kind, t.stage with
  | .event, .operating c _ (_ :: _) => c = conn
  | _, _ => false

/-- A condition on the state before a step: while the session is not finished, a connection does not
die under the repair of an event publish, and none begins to ask a connection that is closed. -/
def sheltered (s : State) : Act → Bool
  | .shared .connectionDies =>
    s.shared.doneErr.isSome || !s.tasks.any (Task.exposed s.shared.conn)
  | .task i .check => match s.tasks[i]? with
    | some ⟨.event, .locked⟩ =>
      s.shared.usable s.shared.eventPub || !s.shared.ready || s.shared.conn ∉ s.shared.closed
    | _ => true
  | _ => true

/-- What the condition keeps. -/
structure Task.Safe (g : Shared) (t : Task) : Prop where
  live {conn : Nat} : t.exposed conn = true → g.doneErr = none → conn ∉ g.closed
  told : t.kind = .event → t.stage ≠ .returned (.connectionClosed false)

theorem Task.exposed_iff {conn : Nat} : t.exposed conn = true ↔
    t.kind = .event ∧ ∃ whole op left, t.stage = .operating conn whole (op :: left) := by
  obtain ⟨kind, stage⟩ := t
  unfold Task.exposed
  split <;> simp_all

theorem Task.Safe.mono (safe : t.Safe g) (closed : g'.closed = g.closed)
    (unfinished : g'.doneErr = none → g.doneErr = none) : t.Safe g' where
  live exposed going := closed ▸ safe.live exposed (unfinished going)
  told := safe.told

theorem Task.Safe.moves {i : Nat} {a : TaskAct} {s : State} (safe : t.Safe s.shared)
    (at_i : s.tasks[i]? = some t) (ok : sheltered s (.task i a) = true)
    (moves : Moves s.shared t a r) : r.2.Safe r.1 := by
  have idle : ∀ {stage : Stage} {conn : Nat}, (∀ whole op left,
      stage ≠ .operating conn whole (op :: left)) → (t.go stage).exposed conn ≠ true := by
    intro stage conn other exposed
    obtain ⟨-, whole, op, left, operating⟩ := Task.exposed_iff.mp exposed
    exact other whole op left operating
  cases moves with
  | @quiet _ g' stage keeps quiet =>
    constructor
    · intro conn exposed
      refine absurd exposed (idle ?_)
      rintro whole op left rfl
      cases quiet
    · rintro - rfl
      cases quiet
  | @starts g' whole ops keeps locked event =>
    refine ⟨?_, nofun⟩
    intro conn exposed going
    obtain ⟨kind, _, _, _, operating⟩ := Task.exposed_iff.mp exposed
    cases operating
    obtain ⟨unusable, ready⟩ := event kind
    obtain ⟨kind', stage⟩ := t
    cases kind
    cases locked
    rw [keeps.closed]
    simpa [sheltered, at_i, unusable, ready] using ok
  | @works conn whole op left operating =>
    refine ⟨?_, nofun⟩
    intro conn' exposed
    obtain ⟨kind, _, _, _, same⟩ := Task.exposed_iff.mp exposed
    cases same
    exact safe.live (Task.exposed_iff.mpr ⟨kind, _, _, _, operating⟩)
  | fails call => exact ⟨fun exposed => absurd exposed (idle (by simp)), nofun⟩
  | passes call =>
    refine ⟨fun exposed => absurd exposed (idle (by simp)), fun event => ?_⟩
    cases call.symm.trans event
  | @tells conn whole op left err event operating can =>
    refine ⟨fun exposed => absurd exposed (idle (by simp)), fun _ told => ?_⟩
    · -- the error tells of a closed connection and of a session that is not finished
      simp only [Task.eventFails, Task.go, Stage.returned.injEq] at told
      have gone : err.cause = .gone := by
        cases cause : err.cause with
        | gone => rfl
        | refusal => simp [OpErr.result, cause] at told
      have going : s.shared.doneErr = none := by
        simpa [OpErr.result, gone] using told
      exact safe.live (Task.exposed_iff.mpr ⟨event, whole, op, left, operating⟩) going
        (closed_of_possible can gone)

theorem safe_step {s s' : State} {a : Act} (safe : ∀ t ∈ s.tasks, t.Safe s.shared)
    (ok : sheltered s a = true) (h : s.step a = some s') : ∀ t ∈ s'.tasks, t.Safe s'.shared := by
  cases a with
  | shared a =>
    obtain ⟨g, moves, rfl⟩ := Option.map_eq_some_iff.mp h
    intro t mem
    obtain ⟨rfl, rfl⟩ | ⟨same, unfinished⟩ := Shared.step_cases moves
    · refine { safe t mem with live := fun {conn} exposed going => ?_ }
      have spared : t.exposed s.shared.conn = false := by
        simp only [sheltered, Bool.or_eq_true, Bool.not_eq_true', List.any_eq_false] at ok
        obtain finished | spared := ok
        · simp [show s.shared.doneErr = none from going] at finished
        · simpa using spared t mem
      have other : conn ≠ s.shared.conn := by
        rintro rfl
        simp [spared] at exposed
      simpa [other] using (safe t mem).live exposed going
    · exact (safe t mem).mono same unfinished
  | begin kind =>
    cases h
    intro t mem
    obtain mem | new := List.mem_append.mp mem
    · exact safe t mem
    · cases List.mem_singleton.mp new
      refine ⟨fun exposed => ?_, nofun⟩
      obtain ⟨-, _, _, _, operating⟩ := Task.exposed_iff.mp exposed
      cases operating
  | task i a =>
    obtain ⟨t, r, at_i, moves, rfl⟩ := exists_moves h
    intro u mem
    obtain old | rfl := List.mem_or_eq_of_mem_set mem
    · exact (safe u old).mono moves.keeps.closed fun going => moves.keeps.doneErr ▸ going
    · exact (safe t (List.mem_of_getElem? at_i)).moves at_i ok moves

/-- No caller has an error whose only cause is that the connection is closed, from a time when the
session was not finished. -/
def State.Transparent (s : State) : Prop :=
  ∀ t ∈ s.tasks, t.stage ≠ .returned (.connectionClosed false)

instance (s : State) : Decidable s.Transparent :=
  List.decidableBAll _ _

theorem transparent_of_sheltered {s : State} (reach : (publishers.restrict sheltered).Reachable s) :
    s.Transparent := by
  have safe : ∀ t ∈ s.tasks, t.Safe s.shared := by
    apply reach.invariant (fun s => ∀ t ∈ s.tasks, t.Safe s.shared)
    · rintro s rfl
      simp
    · intro s a t _ safe step
      obtain ⟨ok, step⟩ := System.restrict_step.mp step
      exact safe_step safe ok step
  intro t mem
  cases kind : t.kind with
  | call => exact (ok_of_reachable reach.of_restrict t mem).call kind false
  | event => exact (safe t mem).told kind

/-- The next operation of a repair on a closed connection fails, and the caller is told. -/
theorem told_of_exposed {s : State} {i : Nat} (at_i : s.tasks[i]? = some t) {conn : Nat}
    (exposed : t.exposed conn = true) (closed : conn ∈ s.shared.closed)
    (going : s.shared.doneErr = none) :
    (∃ err u, s.step (.task i (.operate err)) = some u) ∧
      ∀ err u, s.step (.task i (.operate err)) = some u → ¬ u.Transparent := by
  obtain ⟨event, whole, op, left, operating⟩ := Task.exposed_iff.mp exposed
  have step : ∀ err, s.step (.task i (.operate err)) = if possible s.shared conn err then
      err.elim (some { s with tasks := s.tasks.set i (t.go (.operating conn whole left)) })
        fun err => some ⟨(t.eventFails s.shared err).1, s.tasks.set i (t.eventFails s.shared err).2⟩
      else none := by
    intro err
    simp only [State.step, at_i, Task.step, event, Task.eventStep, operating]
    cases err <;> (split <;> rfl)
  constructor
  · have can : possible s.shared conn (some ⟨.gone, true⟩) = true := by simp [possible, closed]
    exact ⟨some ⟨.gone, true⟩, _, (step _).trans (if_pos can)⟩
  · intro err u next transparent
    rw [step] at next
    split at next
    · next can =>
      cases err with
      | none => simp [possible, closed] at can
      | some err =>
        cases next
        have gone : err.cause = .gone := by
          obtain ⟨cause, isErrClosed⟩ := err
          cases cause with
          | gone => rfl
          | refusal => simp [possible, closed] at can
        have lt := (List.getElem?_eq_some_iff.mp at_i).1
        refine transparent _ (List.mem_set lt _) ?_
        simp [Task.eventFails, Task.go, OpErr.result, gone, going]
    · cases next

theorem unsheltered_cases {s : State} {a : Act} (broken : sheltered s a = false) :
    (a = .shared .connectionDies ∧ s.shared.doneErr = none ∧
      ∃ t ∈ s.tasks, t.exposed s.shared.conn = true) ∨
    ∃ i, a = .task i .check ∧ s.tasks[i]? = some ⟨.event, .locked⟩ ∧
      s.shared.usable s.shared.eventPub = false ∧ s.shared.ready = true ∧
      s.shared.conn ∈ s.shared.closed := by
  cases a with
  | begin => cases broken
  | shared a =>
    cases a <;> simp_all [sheltered]
  | task i a =>
    cases a with
    | check =>
      simp only [sheltered] at broken
      split at broken
      · next at_i =>
        simp only [Bool.or_eq_false_iff, Bool.not_eq_false', decide_eq_false_iff_not,
          Decidable.not_not] at broken
        exact .inr ⟨i, rfl, at_i, broken.1.1, broken.1.2, broken.2⟩
      · cases broken
    | _ => cases broken

theorem exposed_of_unsheltered {s s' : State} {a : Act} (broken : sheltered s a = false)
    (h : s.step a = some s') : ∃ (i : Nat) (t : Task) (conn : Nat), s'.tasks[i]? = some t ∧
      t.exposed conn = true ∧ conn ∈ s'.shared.closed ∧ s'.shared.doneErr = none := by
  obtain ⟨rfl, going, t, mem, exposed⟩ | ⟨i, rfl, at_i, unusable, ready, closed⟩ :=
    unsheltered_cases broken
  · cases h
    obtain ⟨i, at_i⟩ := List.mem_iff_getElem?.mp mem
    exact ⟨i, t, s.shared.conn, at_i, exposed, List.mem_cons_self, going⟩
  · simp only [State.step, at_i, Task.step, Task.eventStep, Task.eventCheck, unusable, ready,
      Bool.false_eq_true, Bool.not_true, if_false, Option.map_some, Option.some.injEq] at h
    cases h
    have lt := (List.getElem?_eq_some_iff.mp at_i).1
    refine ⟨i, _, s.shared.conn, List.getElem?_set_self lt, ?_, closed, ?_⟩
    · simp [Task.exposed, Task.go, eventTopology]
    · simp only [Shared.ready, Bool.and_eq_true, Option.isNone_iff_eq_none] at ready
      exact ready.2

/-- **A lost connection and the publishers.** However the connection dies, the supervisor notices
it, calls and event publishes repair their channels and the session reconnects, no call ever comes
back with an error that only says that the connection is closed. No event publish does so, while the
session is not finished, if no connection dies under the repair of one and none begins to ask a
closed connection. The condition cannot be weakened at any step: after one that breaks it, the next
operation of some event publish's repair gives the error to its caller. -/
theorem transparent_while_sheltered (s : State) :
    (publishers.Reachable s → ∀ t ∈ s.tasks, t.kind = .call → ∀ finished,
      t.stage ≠ .returned (.connectionClosed finished)) ∧
    ((publishers.restrict sheltered).Reachable s → s.Transparent) ∧
    (∀ a s', publishers.Reachable s → publishers.step s a = some s' → sheltered s a = false →
      ∃ i, (∃ err u, publishers.step s' (.task i (.operate err)) = some u) ∧
        ∀ err u, publishers.step s' (.task i (.operate err)) = some u → ¬ u.Transparent) := by
  refine ⟨fun reach t mem => (ok_of_reachable reach t mem).call, transparent_of_sheltered, ?_⟩
  intro a s' _ step broken
  obtain ⟨i, t, conn, at_i, exposed, closed, going⟩ := exposed_of_unsheltered broken step
  exact ⟨i, told_of_exposed at_i exposed closed going⟩

/-- The repair of an event publish ends on a live connection. A call's meets the dead one, and
sleeps; once the session has reconnected it publishes. -/
theorem transparent_while_sheltered_call : ∃ s, (publishers.restrict sheltered).Reachable s ∧
    0 ∈ s.shared.closed ∧
      s.tasks = [⟨.event, .returned .outcome⟩, ⟨.call, .returned .outcome⟩] ∧ s.Transparent := by
  have run : ((publishers.restrict sheltered).run [.begin .event, .begin .call, .task 0 .pass,
      .task 0 .look, .task 0 .lock, .task 0 .check, .task 0 (.operate none),
      .task 0 (.operate none), .task 0 (.operate none), .task 0 .install, .task 0 .pass,
      .task 0 .look, .task 0 .publish, .task 1 .pass, .task 1 .look, .task 1 .lock, .task 1 .check,
      .task 1 (.operate none), .shared .connectionDies, .task 1 (.operate (some ⟨.gone, true⟩)),
      .task 1 .classify, .task 1 .wake, .shared .markNotReady, .shared .dial,
      .shared .restoreDispatcher, .shared .restoreEvents, .shared .markReady, .task 1 .pass,
      .task 1 .look, .task 1 .publish] {}).map (fun s => decide (0 ∈ s.shared.closed ∧
        s.tasks = [⟨.event, .returned .outcome⟩, ⟨.call, .returned .outcome⟩])) = some true := by
    decide +kernel
  obtain ⟨s, run, holds⟩ := Option.map_eq_some_iff.mp run
  obtain ⟨closed, tasks⟩ := of_decide_eq_true holds
  have reach := System.Reachable.run (.init rfl) run
  exact ⟨s, reach, closed, tasks, (transparent_while_sheltered s).2.1 reach⟩

/-- The connection dies and the session still reports ready: an event publish finds its channel
closed, its repair opens another on the dead connection, and the caller gets the error. -/
theorem event_told_of_closed_connection : ∃ s, publishers.Reachable s ∧
    s.shared.doneErr = none ∧
      s.tasks = [⟨.event, .returned (.connectionClosed false)⟩] ∧ ¬ s.Transparent := by
  have run : (publishers.run [.shared .restoreDispatcher, .shared .restoreEvents, .begin .event,
      .shared .connectionDies, .shared (.channelCloses 1), .task 0 .pass, .task 0 .look,
      .task 0 .lock, .task 0 .check, .task 0 (.operate (some ⟨.gone, true⟩))] {}).map (fun s =>
        decide (s.shared.doneErr = none ∧
          s.tasks = [⟨.event, .returned (.connectionClosed false)⟩] ∧ ¬ s.Transparent)) =
      some true := by
    decide +kernel
  obtain ⟨s, run, holds⟩ := Option.map_eq_some_iff.mp run
  exact ⟨s, System.Reachable.run (.init rfl) run, of_decide_eq_true holds⟩

end Events

end Protobus.Dispatcher.Repair
