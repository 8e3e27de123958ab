import Protobus.Library.Registry
import Protobus.Lifecycle.Service

/-!
# Enrolment for restoration

Each attach enters its component into the session's list, from which a reconnection restores it.
A consumer keeps the function that takes it out again, for `Close`. `Service.Start` attaches the
requests consumer, the event listener and the cancel listener; when a later stage fails it stops the
requests consumer and leaves it in the list, so the next `Start` enters it a second time.
-/
namespace Protobus.Lifecycle
open Library

/-- The components of a session. -/
inductive Comp
  | requests
  | events
  | cancel
  | other (n : Nat)
deriving DecidableEq

/-- A service with the session's list. `requests` and `events` are the numbers that the two
consumers' `unregister` removes, and `half` counts the calls of `Start` that failed after the
requests consumer had attached. -/
structure Process where
  service : Service
  comps : Registry Comp
  requests : Option Nat := none
  events : Option Nat := none
  half : Nat := 0

/-- Call the `unregister` of a consumer, if it has one. -/
def unenrol (comps : Registry Comp) : Option Nat → Registry Comp
  | none => comps
  | some id => comps.unregister id

/-- What the start of a consumer does to the list. A bus that was closed meanwhile takes the new
entry out again and closes the consumer, which calls the `unregister` of an earlier start. -/
def enrol (comps : Registry Comp) (held : Option Nat) (comp : Comp) (closed : Bool) (a : Attach) :
    Registry Comp × Option Nat :=
  if closed then (comps, held)
  else match a with
    | .attached => (comps.register comp, some comps.fresh)
    | .failed _ _ => (comps, held)
    | .busClosed => (unenrol comps held, held)

namespace Process
variable (p : Process) (b : Broker)

def startRequests (a : Attach) : Process × Option Bytes :=
  let started := p.service.requests.start a
  let enrolled := enrol p.comps p.requests .requests p.service.requests.closed a
  ({ p with
    service := { p.service with requests := started.1 }
    comps := enrolled.1
    requests := enrolled.2 }, started.2)

/-- `EventListener.Start` of the service's listener, if it has one. -/
def startEvents (a : Attach) : Process × Option Bytes :=
  match p.service.events with
  | none => (p, none)
  | some l =>
    if l.started then (p, none)
    else
      let enrolled := enrol p.comps p.events .events l.consumer.closed a
      ({ p with
        service := { p.service with events := some (l.start a).1 }
        comps := enrolled.1
        events := enrolled.2 }, (l.start a).2)

def ensureCancelListener (a : Attach) : Process × Option Bytes :=
  if p.service.cancelSub then (p, none)
  else match a with
    | .attached => ({ p with
        service := { p.service with cancelSub := true }
        comps := p.comps.register .cancel }, none)
    | .failed err _ => (p, some err)
    | .busClosed => (p, some errClosed)

def start : Process × Option StartError :=
  if p.service.started then (p, none)
  else match p.startRequests b.requests with
    | (p, some err) => (p, some (.requests err))
    | (p, none) => match p.startEvents b.events with
      | (p, some err) =>
        ({ p with service := p.service.stopRequests, half := p.half + 1 }, some (.events err))
      | (p, none) => match p.ensureCancelListener b.cancel with
        | (p, some err) => ({ p with
            service := p.service.stopEvents.stopRequests
            half := p.half + 1 }, some (.cancel err))
        | (p, none) => ({ p with service := { p.service with started := true } }, none)

/-- `Service.Close`. A consumer that is closed already does nothing. -/
def close : Process :=
  let comps := if p.service.requests.closed then p.comps else unenrol p.comps p.requests
  match p.service.events with
  | none => { p with
      service := { p.service with requests := p.service.requests.close }
      comps }
  | some l => { p with
      service := { p.service with requests := p.service.requests.close, events := some l.close }
      comps := if l.consumer.closed then comps else unenrol comps p.events }

end Process

/-! ## What a start can do -/

/-- The ways through `Start`, by the stage that decides it. -/
inductive Starting (p : Process) (b : Broker) : Process × Option StartError → Prop
  | again : p.service.started = true → Starting p b (p, none)
  | requests {p₁ : Process} {err : Bytes} : p.service.started = false →
      p.startRequests b.requests = (p₁, some err) → Starting p b (p₁, some (.requests err))
  | events {p₁ p₂ : Process} {err : Bytes} : p.service.started = false →
      p.startRequests b.requests = (p₁, none) → p₁.startEvents b.events = (p₂, some err) →
      Starting p b
        ({ p₂ with service := p₂.service.stopRequests, half := p₂.half + 1 }, some (.events err))
  | cancel {p₁ p₂ p₃ : Process} {err : Bytes} : p.service.started = false →
      p.startRequests b.requests = (p₁, none) → p₁.startEvents b.events = (p₂, none) →
      p₂.ensureCancelListener b.cancel = (p₃, some err) →
      Starting p b ({ p₃ with
        service := p₃.service.stopEvents.stopRequests
        half := p₃.half + 1 }, some (.cancel err))
  | ok {p₁ p₂ p₃ : Process} : p.service.started = false →
      p.startRequests b.requests = (p₁, none) → p₁.startEvents b.events = (p₂, none) →
      p₂.ensureCancelListener b.cancel = (p₃, none) →
      Starting p b ({ p₃ with service := { p₃.service with started := true } }, none)

theorem Process.start_cases (p : Process) (b : Broker) : Starting p b (p.start b) := by
  unfold Process.start
  cases begun : p.service.started with
  | true => exact .again begun
  | false =>
    simp only [Bool.false_eq_true, if_false]
    cases first : p.startRequests b.requests with
    | mk p₁ err =>
      cases err with
      | some err => exact .requests begun first
      | none =>
        cases second : p₁.startEvents b.events with
        | mk p₂ err =>
          cases err with
          | some err => simpa only [second] using .events begun first second
          | none =>
            cases third : p₂.ensureCancelListener b.cancel with
            | mk p₃ err =>
              cases err with
              | some err => simpa only [second, third] using .cancel begun first second third
              | none => simpa only [second, third] using .ok begun first second third

/-! ## The service underneath -/

namespace Process

theorem startRequests_service {p p₁ : Process} {a : Attach} {err : Option Bytes}
    (eq : p.startRequests a = (p₁, err)) :
    p.service.requests.start a = (p₁.service.requests, err) ∧
      { p.service with requests := p₁.service.requests } = p₁.service := by
  cases eq
  exact ⟨rfl, rfl⟩

theorem startEvents_service {p p₁ : Process} {a : Attach} {err : Option Bytes}
    (eq : p.startEvents a = (p₁, err)) : p.service.startEvents a = (p₁.service, err) := by
  unfold startEvents at eq
  unfold Service.startEvents
  cases present : p.service.events with
  | none =>
    rw [present] at eq
    cases eq
    rfl
  | some l =>
    rw [present] at eq
    cases started : l.started with
    | false =>
      simp only [started, Bool.false_eq_true, if_false] at eq
      cases eq
      rfl
    | true =>
      simp only [started, if_true] at eq
      cases eq
      simp [Listener.start_of_started started, ← present]

theorem ensureCancelListener_service {p p₁ : Process} {a : Attach} {err : Option Bytes}
    (eq : p.ensureCancelListener a = (p₁, err)) :
    p.service.ensureCancelListener a = (p₁.service, err) := by
  unfold ensureCancelListener at eq
  unfold Service.ensureCancelListener
  split at eq
  · next sub =>
    cases eq
    simp [sub]
  · next sub =>
    rw [if_neg sub]
    cases a <;> cases eq <;> rfl

/-- The list beside the service does not change what `Start` does to it. -/
theorem start_service (p : Process) (b : Broker) :
    p.service.start b = ((p.start b).1.service, (p.start b).2) := by
  have ways := p.start_cases b
  generalize p.start b = after at ways
  cases ways with
  | again begun => simp [Service.start, begun]
  | requests begun first =>
    obtain ⟨requests, service⟩ := startRequests_service first
    simp only [begun] at service
    simp [Service.start, begun, requests, service]
  | events begun first second =>
    obtain ⟨requests, service⟩ := startRequests_service first
    simp only [begun] at service
    simp [Service.start, begun, requests, service, startEvents_service second]
  | cancel begun first second third =>
    obtain ⟨requests, service⟩ := startRequests_service first
    simp only [begun] at service
    simp [Service.start, Service.startCancel, begun, requests, service, startEvents_service second,
      ensureCancelListener_service third]
  | ok begun first second third =>
    obtain ⟨requests, service⟩ := startRequests_service first
    simp only [begun] at service
    simp [Service.start, Service.startCancel, begun, requests, service, startEvents_service second,
      ensureCancelListener_service third]

end Process

/-! ## Runs -/

inductive Enrolling
  /-- `Service.Start`. -/
  | start (b : Broker)
  /-- `EventListener.Start` of the service's listener. -/
  | startEvents (a : Attach)

/-- A service that is not started, in a session that may have other components. The process's
cancel listener is there if another service has started it. -/
structure Fresh (p : Process) : Prop where
  started : p.service.started = false
  requests : p.service.requests = {}
  events : ∀ l, p.service.events = some l → l.started = false ∧ l.consumer = {}
  held : p.requests = none ∧ p.events = none ∧ p.half = 0
  none : p.comps.count .requests = 0 ∧ p.comps.count .events = 0
  cancel : p.comps.count .cancel = if p.service.cancelSub then 1 else 0

def enrolment : System Process Enrolling where
  init := Fresh
  step p
    | .start b => some (p.start b).1
    | .startEvents a => some (p.startEvents a).1

/-- Every consumer of the service and the cancel listener are in the list once, and closing the
service takes its consumers out of it. -/
def EnrolledOnce (p : Process) : Prop :=
  p.comps.count .requests = 1 ∧
  p.comps.count .events = (if p.service.events.isSome then 1 else 0) ∧
  p.comps.count .cancel = 1 ∧
  p.close.comps.count .requests = 0 ∧ p.close.comps.count .events = 0

/-! ## The stages -/

/-- The list has `n` entries of the requests consumer, unless that is closed, and one for each of
the others that has started. -/
structure Enrolled (p : Process) (n : Nat) : Prop where
  requests : p.service.requests.closed = false → p.comps.count .requests = n ∧
    (0 < n → p.requests.isSome = true) ∧
      ∀ id, p.requests = some id → (id, .requests) ∈ p.comps.entries
  silent : p.service.events = none → p.comps.count .events = 0
  idle : ∀ l, p.service.events = some l → l.started = false →
    p.comps.count .events = 0 ∧ p.events = none
  listening : ∀ l, p.service.events = some l → l.started = true →
    p.comps.count .events = 1 ∧ l.consumer.closed = false ∧
      ∃ id, p.events = some id ∧ (id, .events) ∈ p.comps.entries
  cancel : p.comps.count .cancel = if p.service.cancelSub then 1 else 0

theorem Fresh.enrolled {p : Process} (fresh : Fresh p) : Enrolled p 0 where
  requests _ := ⟨fresh.none.1, by simp, by simp [fresh.held.1]⟩
  silent _ := fresh.none.2
  idle _ _ _ := ⟨fresh.none.2, fresh.held.2.1⟩
  listening l present started := by simp [(fresh.events l present).1] at started
  cancel := fresh.cancel

namespace Enrolled
variable {p p₁ : Process} {n : Nat} {a : Attach}

/-- Only the number of the requests consumer, its entries and its state differ. -/
theorem of_requests (inv : Enrolled p n) {m : Nat} {c : ConsumerState} {comps : Registry Comp}
    {held : Option Nat}
    (requests : c.closed = false → comps.count .requests = m ∧
      (0 < m → held.isSome = true) ∧ ∀ id, held = some id → (id, .requests) ∈ comps.entries)
    (others : ∀ comp, comp ≠ .requests → comps.count comp = p.comps.count comp)
    (kept : ∀ id, (id, .events) ∈ p.comps.entries → (id, .events) ∈ comps.entries) :
    Enrolled { p with
      service := { p.service with requests := c }
      comps
      requests := held } m where
  requests := requests
  silent none := by rw [others _ (by simp)]; exact inv.silent none
  idle l present idle := by rw [others _ (by simp)]; exact inv.idle l present idle
  listening l present started := by
    obtain ⟨one, live, id, eq, mem⟩ := inv.listening l present started
    exact ⟨by rw [others _ (by simp)]; exact one, live, id, eq, kept id mem⟩
  cancel := by rw [others _ (by simp)]; exact inv.cancel

theorem startRequests_ok (inv : Enrolled p n) (eq : p.startRequests a = (p₁, none)) :
    Enrolled p₁ (n + 1) ∧ p₁.service.requests.closed = false := by
  unfold Process.startRequests ConsumerState.start enrol at eq
  cases closed : p.service.requests.closed with
  | true => simp [closed] at eq
  | false =>
    cases a with
    | attached =>
      simp only [closed, Bool.false_eq_true, if_false, Prod.mk.injEq, and_true] at eq
      subst eq
      refine ⟨inv.of_requests (fun _ => ⟨?_, fun _ => rfl, ?_⟩) ?_ ?_, rfl⟩
      · rw [Registry.count_register, (inv.requests closed).1, if_pos rfl]
      · rintro id ⟨⟩
        exact p.comps.mem_register_self _
      · intro comp other
        rw [Registry.count_register, if_neg other.symm, Nat.add_zero]
      · exact fun id mem => Registry.mem_register mem _
    | failed err channel => simp [closed] at eq
    | busClosed => simp [closed] at eq

theorem startRequests_failed (inv : Enrolled p n) {err : Bytes}
    (eq : p.startRequests a = (p₁, some err)) : Enrolled p₁ n := by
  unfold Process.startRequests ConsumerState.start enrol at eq
  cases closed : p.service.requests.closed with
  | true =>
    simp only [closed, if_true, Prod.mk.injEq] at eq
    obtain ⟨rfl, -⟩ := eq
    exact inv
  | false =>
    obtain ⟨count, some_held, mem⟩ := inv.requests closed
    cases a with
    | attached => simp [closed] at eq
    | failed err channel =>
      simp only [closed, Bool.false_eq_true, if_false, Prod.mk.injEq] at eq
      obtain ⟨rfl, -⟩ := eq
      exact inv.of_requests (fun _ => ⟨count, some_held, mem⟩) (fun _ _ => rfl) fun _ => id
    | busClosed =>
      simp only [closed, Bool.false_eq_true, if_false, Prod.mk.injEq] at eq
      obtain ⟨rfl, -⟩ := eq
      -- the consumer is closed, and only its own entry has gone
      refine inv.of_requests (fun live => by simp [ConsumerState.close] at live) ?_ ?_
      · intro comp other
        cases held : p.requests with
        | none => rfl
        | some id =>
          have := Registry.count_unregister (mem id held) comp
          rwa [if_neg other.symm, Nat.add_zero] at this
      · intro id present
        cases held : p.requests with
        | none => exact present
        | some own =>
          apply Registry.mem_unregister present
          rintro rfl
          cases Registry.eq_of_mem present (mem _ held)

/-- Only the listener, its number and its entry differ. -/
theorem of_events (inv : Enrolled p n) {l : Listener} {comps : Registry Comp} {held : Option Nat}
    (idle : l.started = false → comps.count .events = 0 ∧ held = none)
    (listening : l.started = true → comps.count .events = 1 ∧ l.consumer.closed = false ∧
      ∃ id, held = some id ∧ (id, .events) ∈ comps.entries)
    (others : ∀ comp, comp ≠ .events → comps.count comp = p.comps.count comp)
    (kept : ∀ id, (id, .requests) ∈ p.comps.entries → (id, .requests) ∈ comps.entries) :
    Enrolled { p with
      service := { p.service with events := some l }
      comps
      events := held } n where
  requests live := by
    obtain ⟨count, some_held, mem⟩ := inv.requests live
    exact ⟨by rw [others _ (by simp)]; exact count, some_held, fun id eq => kept id (mem id eq)⟩
  silent none := by cases none
  idle l' eq := by
    obtain rfl := Option.some.inj eq
    exact idle
  listening l' eq := by
    obtain rfl := Option.some.inj eq
    exact listening
  cancel := by rw [others _ (by simp)]; exact inv.cancel

theorem startEvents (inv : Enrolled p n) {err : Option Bytes}
    (eq : p.startEvents a = (p₁, err)) :
    Enrolled p₁ n ∧ p₁.service.requests = p.service.requests ∧
      p₁.service.started = p.service.started ∧ p₁.half = p.half ∧
      p₁.service.cancelSub = p.service.cancelSub ∧
      (err = none → ∀ l, p₁.service.events = some l → l.started = true) := by
  unfold Process.startEvents at eq
  cases present : p.service.events with
  | none =>
    rw [present] at eq
    cases eq
    exact ⟨inv, rfl, rfl, rfl, rfl, by simp [present]⟩
  | some l =>
    rw [present] at eq
    cases started : l.started with
    | true =>
      simp only [started, if_true] at eq
      cases eq
      refine ⟨inv, rfl, rfl, rfl, rfl, fun _ l' eq => ?_⟩
      obtain rfl := Option.some.inj (present.symm.trans eq)
      exact started
    | false =>
      simp only [started, Bool.false_eq_true, if_false, Listener.start_of_idle started] at eq
      obtain ⟨zero, unheld⟩ := inv.idle l present started
      unfold ConsumerState.start enrol at eq
      cases closed : l.consumer.closed with
      | true =>
        simp only [closed, if_true, Prod.mk.injEq] at eq
        obtain ⟨rfl, rfl⟩ := eq
        refine ⟨inv.of_events ?_ ?_ (fun _ _ => rfl) fun _ => id, rfl, rfl, rfl, rfl, by simp⟩
        · exact fun _ => ⟨zero, unheld⟩
        · simp
      | false =>
        cases a with
        | attached =>
          simp only [closed, Bool.false_eq_true, if_false, Prod.mk.injEq] at eq
          obtain ⟨rfl, rfl⟩ := eq
          refine ⟨inv.of_events ?_ ?_ ?_ ?_, rfl, rfl, rfl, rfl, ?_⟩
          · simp
          · intro _
            refine ⟨?_, rfl, _, rfl, p.comps.mem_register_self _⟩
            rw [Registry.count_register, zero, if_pos rfl]
          · intro comp other
            rw [Registry.count_register, if_neg other.symm, Nat.add_zero]
          · exact fun id mem => Registry.mem_register mem _
          · rintro _ l' ⟨⟩
            rfl
        | failed err channel =>
          simp only [closed, Bool.false_eq_true, if_false, Prod.mk.injEq] at eq
          obtain ⟨rfl, rfl⟩ := eq
          refine ⟨inv.of_events ?_ ?_ (fun _ _ => rfl) fun _ => id, rfl, rfl, rfl, rfl, by simp⟩
          · exact fun _ => ⟨zero, unheld⟩
          · simp
        | busClosed =>
          simp only [closed, Bool.false_eq_true, if_false, unheld, unenrol, Prod.mk.injEq] at eq
          obtain ⟨rfl, rfl⟩ := eq
          refine ⟨inv.of_events ?_ ?_ (fun _ _ => rfl) fun _ => id, rfl, rfl, rfl, rfl, by simp⟩
          · exact fun _ => ⟨zero, rfl⟩
          · simp

theorem ensureCancelListener (inv : Enrolled p n) {err : Option Bytes}
    (eq : p.ensureCancelListener a = (p₁, err)) :
    Enrolled p₁ n ∧ p₁.half = p.half ∧
      (∃ cancelSub, p₁.service = { p.service with cancelSub }) ∧
      (err = none → p₁.service.cancelSub = true) := by
  unfold Process.ensureCancelListener at eq
  split at eq
  · next sub =>
    cases eq
    exact ⟨inv, rfl, ⟨_, rfl⟩, fun _ => sub⟩
  · next sub =>
    cases a with
    | failed err channel =>
      cases eq
      exact ⟨inv, rfl, ⟨_, rfl⟩, by simp⟩
    | busClosed =>
      cases eq
      exact ⟨inv, rfl, ⟨_, rfl⟩, by simp⟩
    | attached =>
      cases eq
      refine ⟨⟨?_, ?_, ?_, ?_, ?_⟩, rfl, ⟨true, rfl⟩, fun _ => rfl⟩
      · intro live
        obtain ⟨count, some_held, mem⟩ := inv.requests live
        refine ⟨?_, some_held, fun id eq => Registry.mem_register (mem id eq) _⟩
        rw [Registry.count_register, count]
        rfl
      · intro none
        rw [Registry.count_register, inv.silent none]
        rfl
      · intro l present idle
        rw [Registry.count_register, (inv.idle l present idle).1]
        exact ⟨rfl, (inv.idle l present idle).2⟩
      · intro l present started
        obtain ⟨one, live, id, eq, mem⟩ := inv.listening l present started
        rw [Registry.count_register, one]
        exact ⟨rfl, live, id, eq, Registry.mem_register mem _⟩
      · rw [Registry.count_register, inv.cancel, if_neg sub]
        rfl

/-! Stopping consumers, marking the service and counting change nothing of it. -/

theorem stopRequests (inv : Enrolled p n) (half : Nat) :
    Enrolled { p with service := p.service.stopRequests, half } n :=
  { inv with }

theorem stopEvents (inv : Enrolled p n) :
    Enrolled { p with service := p.service.stopEvents } n where
  requests := inv.requests
  silent none := inv.silent (Option.map_eq_none_iff.mp none)
  idle l eq idle := by
    obtain ⟨l', present, rfl⟩ := Option.map_eq_some_iff.mp eq
    exact inv.idle l' present idle
  listening l eq started := by
    obtain ⟨l', present, rfl⟩ := Option.map_eq_some_iff.mp eq
    exact inv.listening l' present started
  cancel := inv.cancel

theorem markStarted (inv : Enrolled p n) (started : Bool) :
    Enrolled { p with service := { p.service with started } } n :=
  { inv with }

end Enrolled

theorem Process.startRequests_frame {p p₁ : Process} {a : Attach} {err : Option Bytes}
    (eq : p.startRequests a = (p₁, err)) :
    p₁.half = p.half ∧ p₁.service.started = p.service.started := by
  cases eq
  exact ⟨rfl, rfl⟩

/-- A listener that has started is passed by. -/
theorem Process.startEvents_of_listening {p : Process}
    (listening : ∀ l, p.service.events = some l → l.started = true) (a : Attach) :
    p.startEvents a = (p, none) := by
  unfold Process.startEvents
  cases present : p.service.events with
  | none => rfl
  | some l => simp [listening l present]

/-! ## Every run -/

/-- Each call that failed half-way has left an entry of the requests consumer behind. -/
structure Counted (p : Process) : Prop where
  enrolled : Enrolled p (p.half + if p.service.started then 1 else 0)
  started : p.service.started = true → p.service.requests.closed = false ∧
    p.service.cancelSub = true ∧ ∀ l, p.service.events = some l → l.started = true

/-- A process whose service is not started. -/
theorem Counted.of_unstarted {p : Process} (enrolled : Enrolled p p.half)
    (idle : p.service.started = false) : Counted p :=
  ⟨by simpa [idle] using enrolled, by simp [idle]⟩

theorem Counted.start {p : Process} (inv : Counted p) (b : Broker) : Counted (p.start b).1 := by
  have ways := p.start_cases b
  generalize p.start b = after at ways
  have before (begun : p.service.started = false) : Enrolled p p.half := by
    simpa [begun] using inv.enrolled
  cases ways with
  | again begun => exact inv
  | requests begun first =>
    obtain ⟨half, started⟩ := Process.startRequests_frame first
    apply Counted.of_unstarted
    · rw [half]
      exact (before begun).startRequests_failed first
    · exact started.trans begun
  | events begun first second =>
    obtain ⟨half, started⟩ := Process.startRequests_frame first
    obtain ⟨enrolled, -, started', half', -⟩ :=
      ((before begun).startRequests_ok first).1.startEvents second
    apply Counted.of_unstarted
    · rw [← half, ← half'] at enrolled
      exact enrolled.stopRequests _
    · exact started'.trans (started.trans begun)
  | @cancel p₁ p₂ p₃ err begun first second third =>
    obtain ⟨half, started⟩ := Process.startRequests_frame first
    obtain ⟨enrolled, -, started', half', -⟩ :=
      ((before begun).startRequests_ok first).1.startEvents second
    obtain ⟨enrolled, half'', ⟨sub, service⟩, -⟩ := enrolled.ensureCancelListener third
    apply Counted.of_unstarted
    · rw [← half, ← half', ← half''] at enrolled
      exact enrolled.stopEvents.stopRequests _
    · have started'' : p₃.service.started = p₂.service.started := by rw [service]
      exact started''.trans (started'.trans (started.trans begun))
  | @ok p₁ p₂ p₃ begun first second third =>
    obtain ⟨half, started⟩ := Process.startRequests_frame first
    obtain ⟨enrolled, live⟩ := (before begun).startRequests_ok first
    obtain ⟨enrolled, requests, started', half', cancel, listening⟩ := enrolled.startEvents second
    obtain ⟨enrolled, half'', ⟨sub, service⟩, cancelSub⟩ := enrolled.ensureCancelListener third
    rw [← half, ← half', ← half''] at enrolled
    refine ⟨enrolled.markStarted true, fun _ => ⟨?_, cancelSub rfl, ?_⟩⟩
    · change p₃.service.requests.closed = false
      rw [service, requests]
      exact live
    · change ∀ l, p₃.service.events = some l → l.started = true
      rw [service]
      exact listening rfl

theorem Counted.startEvents {p : Process} (inv : Counted p) (a : Attach) :
    Counted (p.startEvents a).1 := by
  cases begun : p.service.started with
  | true =>
    rw [Process.startEvents_of_listening (inv.started begun).2.2]
    exact inv
  | false =>
    have before : Enrolled p p.half := by simpa [begun] using inv.enrolled
    cases second : p.startEvents a with
    | mk p₁ err =>
      obtain ⟨enrolled, -, started, half, -⟩ := before.startEvents second
      rw [← half] at enrolled
      exact .of_unstarted enrolled (started.trans begun)

theorem counted_of_reachable {p : Process} (reach : enrolment.Reachable p) : Counted p := by
  refine reach.invariant _ (fun p fresh => ?_) ?_
  · apply Counted.of_unstarted _ fresh.started
    rw [fresh.held.2.2]
    exact fresh.enrolled
  · intro p a p' _ inv step
    cases a with
    | start b =>
      cases step
      exact inv.start b
    | startEvents a =>
      cases step
      exact inv.startEvents a

/-! ## Closing -/

theorem Counted.close {p : Process} (inv : Counted p) (started : p.service.started = true) :
    p.close.comps.count .requests = p.half ∧ p.close.comps.count .events = 0 := by
  obtain ⟨live, -, listening⟩ := inv.started started
  obtain ⟨count, some_held, mem⟩ := inv.enrolled.requests live
  rw [started, if_pos rfl] at count some_held
  obtain ⟨id, held⟩ := Option.isSome_iff_exists.mp (some_held (Nat.succ_pos _))
  have requests := Registry.count_unregister (mem id held) .requests
  have events := Registry.count_unregister (mem id held) .events
  rw [if_pos rfl, count] at requests
  rw [if_neg (by simp), Nat.add_zero] at events
  unfold Process.close
  cases present : p.service.events with
  | none =>
    simp only [live, Bool.false_eq_true, if_false, held, unenrol]
    exact ⟨Nat.succ.inj requests, events.trans (inv.enrolled.silent present)⟩
  | some l =>
    obtain ⟨one, open', id', held', mem'⟩ := inv.enrolled.listening l present (listening l present)
    have apart : id' ≠ id := by
      rintro rfl
      cases Registry.eq_of_mem mem' (mem _ held)
    have kept := Registry.mem_unregister mem' apart
    have requests' := Registry.count_unregister kept .requests
    have events' := Registry.count_unregister kept .events
    rw [if_neg (by simp), Nat.add_zero] at requests'
    rw [if_pos rfl, events, one] at events'
    simp only [live, open', Bool.false_eq_true, if_false, held, held', unenrol]
    exact ⟨requests'.trans (Nat.succ.inj requests), Nat.succ.inj events'⟩

/-- Once a service has started, its consumers and the cancel listener are enrolled once each, and
are out of the list after `Close`, exactly if no earlier `Start` failed after its requests consumer
had attached. -/
theorem enrolled_once_iff {p : Process} (reach : enrolment.Reachable p)
    (started : p.service.started = true) : EnrolledOnce p ↔ p.half = 0 := by
  have inv := counted_of_reachable reach
  obtain ⟨live, sub, listening⟩ := inv.started started
  have requests := (inv.enrolled.requests live).1
  rw [started, if_pos rfl] at requests
  have events : p.comps.count .events = if p.service.events.isSome then 1 else 0 := by
    cases present : p.service.events with
    | none => exact inv.enrolled.silent present
    | some l => exact (inv.enrolled.listening l present (listening l present)).1
  have cancel : p.comps.count .cancel = 1 := by rw [inv.enrolled.cancel, sub, if_pos rfl]
  obtain ⟨closed, silent⟩ := inv.close started
  rw [EnrolledOnce, requests, closed]
  exact ⟨fun once => once.2.2.2.1, fun zero => ⟨by omega, events, cancel, zero, silent⟩⟩

/-! ## A listener that cannot start at first -/

/-- A service with a listener, alone in its session. -/
def orders : Process where
  service := {
    name := lit "Orders"
    events := some { queue := lit "Orders.Events", lazy := false } }
  comps := .empty

theorem orders_fresh : Fresh orders :=
  ⟨rfl, rfl, by rintro l ⟨⟩; exact ⟨rfl, rfl⟩, ⟨rfl, rfl, rfl⟩, ⟨rfl, rfl⟩, rfl⟩

/-- The event queue's retry topology is refused once. -/
def mismatch : Broker :=
  ⟨.attached, .failed (lit "retry queue exists with different arguments") false, .attached⟩

def willing : Broker := ⟨.attached, .attached, .attached⟩

/-- The first call fails at the listener and the second succeeds: the requests consumer is restored
twice on every reconnection, and is still enrolled after the service has been closed. -/
theorem retried_start_enrols_twice :
    ∃ p, enrolment.Reachable p ∧ p.service.started = true ∧ p.comps.count .requests = 2 ∧
      p.close.comps.count .requests = 1 := by
  have run : (enrolment.run [.start mismatch, .start willing] orders).map
      (fun p => decide (p.service.started = true ∧ p.comps.count .requests = 2 ∧
        p.close.comps.count .requests = 1)) = some true := by
    decide +kernel
  obtain ⟨p, run, eq⟩ := Option.map_eq_some_iff.mp run
  exact ⟨p, System.Reachable.run (.init orders_fresh) run, of_decide_eq_true eq⟩

/-- A call that fails at the first stage, and a listener that was started by hand. -/
theorem enrolled_once_iff_retried :
    ∃ p, enrolment.Reachable p ∧ p.service.started = true ∧ EnrolledOnce p := by
  have run : (enrolment.run [.start ⟨.failed (lit "refused") false, .attached, .attached⟩,
      .startEvents .attached, .start willing] orders).map
      (fun p => decide (p.service.started = true ∧ p.half = 0)) = some true := by
    decide +kernel
  obtain ⟨p, run, eq⟩ := Option.map_eq_some_iff.mp run
  obtain ⟨started, whole⟩ := of_decide_eq_true eq
  have reach : enrolment.Reachable p := System.Reachable.run (.init orders_fresh) run
  exact ⟨p, reach, started, (enrolled_once_iff reach started).mpr whole⟩

end Protobus.Lifecycle
