import Protobus.Topology.Retry

/-!
# The ways of a call

A request goes to the queue of the service that its key names. The reply goes to the queue that the
broker named for the caller's dispatcher, and a cancel notice to the queues that it named for the
cancel listeners. Such a queue goes with its connection. The broker gives no name twice, and no
component has a name like it, so what is sent to it later reaches nobody.
-/
namespace Protobus.Topology
open Library Table Fakebroker Topic

variable {plan : Plan} {D : Deployment} {sep : D.Separate} {s t : State} {d : Decl}
  {n k q : Nat} {row : Queue} {binds : List (Bytes × Bytes)} {key exchange : Bytes}
  {chan : Channel}

/-! ## Names that the broker gives -/

/-- What a declaration adds to the queues and their names. -/
theorem place_names (allowed : plan.Allows d) (conn : Nat) (s : State) :
    ∃ queues names, (place conn s d).queues = s.queues ++ queues ∧
      (place conn s d).names = s.names ++ names ∧ s.nameSeq ≤ (place conn s d).nameSeq ∧
      ∀ p ∈ names, p.1 = generatedName (s.nameSeq + 1) ∨ (plan.queue p.1).isSome = true := by
  cases d with
  | exchange name kind =>
    simp only [place]
    split <;> exact ⟨[], [], by simp, by simp, Nat.le_refl _, by simp⟩
  | queue name args =>
    simp only [place]
    split
    · exact ⟨[], [], by simp, by simp, Nat.le_refl _, by simp⟩
    · refine ⟨_, _, rfl, rfl, Nat.le_refl _, ?_⟩
      intro p mem
      obtain rfl := List.mem_singleton.mp mem
      exact .inr (Option.isSome_iff_exists.mpr ⟨args, allowed⟩)
  | anonymous =>
    refine ⟨_, _, rfl, rfl, Nat.le_succ _, ?_⟩
    intro p mem
    obtain rfl := List.mem_singleton.mp mem
    exact .inl rfl
  | bind name key exchange =>
    exact ⟨[], [], by simp [place], by simp [place], Nat.le_refl _, by simp⟩

theorem not_planned (plan : Plan) (n : Nat) : plan.queue (generatedName n) = none := by
  cases found : plan.queue (generatedName n) with
  | none => rfl
  | some args => exact absurd (generatedName_begins n) (plan.queue_named found).2

/-- A queue that the broker named, and its bindings, each a key and an exchange: they are as they
were declared, or the queue is gone for good. -/
structure Private (n q : Nat) (row : Queue) (binds : List (Bytes × Bytes)) (s : State) : Prop where
  given : n ≤ s.nameSeq
  here : s.names.lookup (generatedName n) = none ∨
    s.names.lookup (generatedName n) = some q ∧ s.layout.shapes[q]? = some row ∧
    ∀ p ∈ binds, Has s.layout (.bind (generatedName n) p.1 p.2)

namespace Private

theorem place (own : Private n q row binds s) (allowed : plan.Allows d) (c : Nat) :
    Private n q row binds (Topology.place c s d) := by
  obtain ⟨queues, names, queues_eq, names_eq, le, new⟩ := place_names allowed c s
  refine ⟨Nat.le_trans own.given le, ?_⟩
  rw [names_eq, List.lookup_append]
  obtain gone | ⟨found, shaped, bound⟩ := own.here
  · left
    rw [gone, Option.none_or, List.lookup_eq_none_iff]
    intro p mem
    have other : generatedName n ≠ p.1 := by
      intro same
      obtain fresh | planned := new p mem
      · have later := generatedName_inj (same.trans fresh)
        have given := own.given
        omega
      · rw [← same, not_planned] at planned
        cases planned
    simpa using other
  · right
    refine ⟨by rw [found, Option.some_or], ?_, fun p mem => (bound p mem).place c⟩
    simp only [State.layout, queues_eq, List.map_append] at shaped ⊢
    rw [List.getElem?_append_left (List.getElem?_eq_some_iff.mp shaped).1]
    exact shaped

theorem without (own : Private n q row binds s) {dropped : List Bytes}
    (eq : t.layout = s.layout.without dropped) : Private n q row binds t := by
  have names : t.names = s.names.filter fun p => !dropped.contains p.1 := congrArg Layout.names eq
  have shapes : t.layout.shapes = s.layout.shapes := by rw [eq, Layout.without_shapes]
  have seq : t.nameSeq = s.nameSeq := congrArg Layout.nameSeq eq
  refine ⟨seq ▸ own.given, ?_⟩
  by_cases drops : generatedName n ∈ dropped
  · left
    rw [names, List.lookup_eq_none_iff]
    grind
  · rw [names, lookup_filter_of_ne drops, shapes, eq]
    obtain gone | ⟨found, shaped, bound⟩ := own.here
    · exact .inl gone
    · refine .inr ⟨found, shaped, fun p mem => (bound p mem).without ?_⟩
      rintro _ ⟨⟩
      exact drops

theorem run (own : Private n q row binds s) (reach : plan.system.Reachable s)
    {acts : List {a : Order × Act // plan.Follows a.2}} (ran : plan.system.run acts s = some t) :
    Private n q row binds t := by
  refine (System.run_keeps (P := fun s => plan.system.Reachable s ∧ Private n q row binds s)
    ?_ ⟨reach, own⟩ ran).2
  rintro s a t ⟨reach, own⟩ step
  refine ⟨reach.step step, ?_⟩
  cases step
  obtain ⟨c, d, allowed, eq⟩ | ⟨dropped, eq, -⟩ :=
    perform_cases (Plan.ok_of_reachable reach) (planned_of_reachable reach) a.1.1 a.2
  · rw [eq]
    exact own.place allowed c
  · exact own.without eq

/-- A queue of an open channel, as it is declared. -/
theorem anonymous (planned : Planned plan s.layout) (order : Order)
    (at_k : s.channels[k]? = some chan) (opened : chan.closed = false) :
    Private (s.nameSeq + 1) s.queues.length
      (queueOf (generatedName (s.nameSeq + 1)) false true true (some chan.conn) []) []
      (perform order s (Decl.anonymous.act k)) := by
  rw [perform_eq_place (d := .anonymous) planned order at_k opened trivial trivial]
  refine ⟨Nat.le_refl _, .inr ⟨?_, ?_, by simp⟩⟩
  · simp [Topology.place, addQueue, List.lookup_append, planned.fresh, queueOf]
  · simp [Topology.place, addQueue, State.layout, queueOf, Queue.shape]

theorem bind (own : Private n q row [] s)
    (bound : Has s.layout (.bind (generatedName n) key exchange)) :
    Private n q row [(key, exchange)] s := by
  obtain gone | ⟨found, shaped, -⟩ := own.here
  · have there : (s.names.lookup (generatedName n)).isSome = true := bound.2
    simp only [gone, Option.isSome_none, Bool.false_eq_true] at there
  · exact ⟨own.given, .inr ⟨found, shaped, by simpa using bound⟩⟩

/-- Whoever declared it. -/
theorem of_bound (planned : Planned plan s.layout)
    (bound : Has s.layout (.bind (generatedName n) key exchange)) :
    ∃ q row, Private n q row [(key, exchange)] s := by
  obtain ⟨q, found⟩ := Option.isSome_iff_exists.mp bound.2
  obtain ⟨row, at_q, named⟩ := planned.names _ (mem_of_lookup found)
  refine ⟨q, row, ?_, .inr ⟨found, at_q, by simpa using bound⟩⟩
  obtain ⟨args, planned_name, -⟩ | ⟨n', le, eq⟩ := planned.shapes row (List.mem_of_getElem? at_q)
  · rw [named, not_planned] at planned_name
    cases planned_name
  · rw [named] at eq
    exact generatedName_inj eq ▸ le

end Private

/-! ## Where messages go -/

/-- A reply's key leads to the queue it names. -/
theorem Deployment.Separate.reply_binding {bd : Binding} (sep : D.Separate)
    (binds : D.Binds D.cfg.callbacksExchange bd) : bd.queue = bd.key := by
  obtain ⟨⟨bus, -⟩, ⟨events, cancel⟩, -⟩ := sep.core_ne
  have apart := sep.core_apart (D.cfg.callbacksExchange, .direct) (by simp [coreExchanges])
  generalize eq : D.cfg.callbacksExchange = exchange at binds
  cases binds with
  | request => exact absurd eq.symm bus
  | event | privateEvent => exact absurd eq events
  | retry in_D on => exact absurd eq (apart _ in_D).1
  | redelivery in_D => exact absurd eq (apart _ in_D).2
  | cancel => exact absurd eq cancel
  | reply => rfl

/-- Only queues that the broker named are bound to the cancel exchange. -/
theorem Deployment.Separate.cancel_binding {bd : Binding} (sep : D.Separate)
    (binds : D.Binds D.cfg.cancelExchange bd) : ∃ n, bd.queue = generatedName n := by
  obtain ⟨⟨-, -, bus⟩, -, events⟩ := sep.core_ne
  have apart := sep.core_apart (D.cfg.cancelExchange, .fanout) (by simp [coreExchanges])
  generalize eq : D.cfg.cancelExchange = exchange at binds
  cases binds with
  | request => exact absurd eq.symm bus
  | event => exact absurd eq.symm events
  | retry in_D on => exact absurd eq (apart _ in_D).1
  | redelivery in_D => exact absurd eq (apart _ in_D).2
  | privateEvent n | cancel n | reply n => exact ⟨n, rfl⟩

/-- A bound queue is among those its exchange leads to. -/
theorem mem_targets {ex : Exchange} {bd : Binding} (named : exchange ≠ [])
    (found : s.exchange? exchange = some ex) (bound : bd ∈ ex.bindings)
    (hit : hits ex.kind bd.key key = true) (leads : s.names.lookup bd.queue = some q) :
    q ∈ targets s exchange key := by
  simp only [targets, named, if_false, found, List.mem_eraseDups, List.mem_filterMap]
  exact ⟨bd, List.mem_filter.mpr ⟨bound, hit⟩, leads⟩

/-- Every queue an exchange leads to is bound there. -/
theorem bound_of_mem_targets (named : exchange ≠ []) (mem : q ∈ targets s exchange key) :
    ∃ ex bd, s.exchange? exchange = some ex ∧ bd ∈ ex.bindings ∧ hits ex.kind bd.key key = true ∧
      s.names.lookup bd.queue = some q := by
  simp only [targets, named, if_false] at mem
  split at mem
  · cases mem
  · next ex found =>
    obtain ⟨bd, there, leads⟩ := List.mem_filterMap.mp (List.mem_eraseDups.mp mem)
    obtain ⟨bound, hit⟩ := List.mem_filter.mp there
    exact ⟨ex, bd, found, bound, hit, leads⟩

theorem reply_targets (planned : Planned (D.plan sep) t.layout)
    (own : Private n q row [(generatedName n, D.cfg.callbacksExchange)] t) :
    targets t D.cfg.callbacksExchange (generatedName n) =
      (t.names.lookup (generatedName n)).toList := by
  have direct : (D.plan sep).exchange D.cfg.callbacksExchange = some .direct :=
    Deployment.allows_core (by simp [coreExchanges])
  have named := (D.plan sep).exchange_named direct
  have only : ∀ {ex : Exchange} {bd : Binding}, t.exchange? D.cfg.callbacksExchange = some ex →
      bd ∈ ex.bindings → hits ex.kind bd.key (generatedName n) = true →
      bd.queue = generatedName n := by
    intro ex bd found bound hit
    obtain ⟨kind, bindings⟩ := planned.of_exchange direct found
    rw [sep.reply_binding (bindings bd bound)]
    simpa [kind, hits] using hit
  obtain gone | ⟨leads, -, bound⟩ := own.here
  · rw [gone, Option.toList_none, List.eq_nil_iff_forall_not_mem]
    intro r mem
    obtain ⟨ex, bd, found, bound, hit, leads⟩ := bound_of_mem_targets named mem
    rw [only found bound hit, gone] at leads
    cases leads
  · obtain ⟨⟨ex, found, bound⟩, -⟩ := bound _ (List.mem_singleton_self _)
    rw [leads, Option.toList_some]
    apply targets_eq_one named found bound
    · simp [(planned.of_exchange direct found).1, hits]
    · exact leads
    · exact fun bd' => only found

/-- In any later state of a bus. The requests for a service that has declared its topology go to its
queue and to no other, as long as nobody deletes it. The replies to a caller, whose dispatcher was
given a queue and has bound it, go to that queue, which only the connection of the dispatcher may
consume; and to nobody when the queue is gone. -/
theorem call_routes (sep : D.Separate) (reach : (D.plan sep).system.Reachable s) :
    (∀ svc, .service svc ∈ D.components →
      (∀ d ∈ (Component.service svc).program D.cfg [], Has s.layout d) →
      ∀ acts t, (D.plan sep).system.run acts s = some t →
      (∀ a ∈ acts, ∀ p ∈ (Component.service svc).queues D.cfg, a.1.2 ≠ .deleteQueue p.1) →
      ∃ q, t.names.lookup svc.name = some q ∧ ∀ word, dot ∉ word →
        targets t D.cfg.busExchange (lit "REQUEST." ++ svc.name ++ lit "." ++ word) = [q]) ∧
    ∀ order k chan, s.channels[k]? = some chan → chan.closed = false →
      ∀ acts u, (D.plan sep).system.run acts (perform order s (Decl.anonymous.act k)) = some u →
      (∀ d ∈ dispatcherRestoreTopology D.cfg (generatedName (s.nameSeq + 1)), Has u.layout d) →
      ∀ acts' t, (D.plan sep).system.run acts' u = some t →
      targets t D.cfg.callbacksExchange (generatedName (s.nameSeq + 1)) =
        (t.names.lookup (generatedName (s.nameSeq + 1))).toList ∧
      ∀ q, t.names.lookup (generatedName (s.nameSeq + 1)) = some q → ∃ queue,
        t.queues[q]? = some queue ∧ queue.exclusive = true ∧ queue.owner = some chan.conn := by
  constructor
  · intro svc mem placed acts t ran kept
    have later := planned_of_reachable (reach.run ran)
    have named := (sep.named _ mem).1
    have bound : Has t.layout (.bind svc.name svc.binding D.cfg.busExchange) :=
      placed_run mem reach placed ran kept _ (by simp [Deployment.program_service named])
    obtain ⟨q, leads⟩ := Option.isSome_iff_exists.mp bound.2
    refine ⟨q, leads, fun word simple => ?_⟩
    apply later.targets_bound bound leads (Deployment.allows_core (by simp [coreExchanges]))
    · exact (svc.binding_iff _).mpr ⟨word, simple, rfl⟩
    · intro bd binds hit
      exact sep.bus_binding simple binds hit
  · intro order k chan at_k opened acts u ran placed acts' t ran'
    have allowed : ∀ d ∈ [Decl.anonymous], (D.plan sep).Allows d := by simp [Plan.Allows]
    have given := reachable_declareAll reach allowed order k
    have reach' := given.run ran
    have queue := (Private.anonymous (planned_of_reachable reach) order at_k opened).run given ran
    have bound := placed (.bind (generatedName (s.nameSeq + 1)) (generatedName (s.nameSeq + 1))
      D.cfg.callbacksExchange) (by simp [dispatcherRestoreTopology])
    have own := (queue.bind bound).run reach' ran'
    refine ⟨reply_targets (planned_of_reachable (reach'.run ran')) own, fun q leads => ?_⟩
    obtain gone | ⟨found, shaped, -⟩ := own.here
    · rw [gone] at leads
      cases leads
    · rw [found] at leads
      cases leads
      simp only [State.layout, List.getElem?_map, Option.map_eq_some_iff] at shaped
      obtain ⟨queue, at_q, shape⟩ := shaped
      exact ⟨queue, at_q, congrArg Queue.exclusive shape, congrArg Queue.owner shape⟩

/-- A service comes up; and a dispatcher does on another broker, whose connections are then lost. -/
theorem call_routes_sample :
    (∃ t q, t.names.lookup (lit "a.b") = some q ∧ ∀ word, dot ∉ word →
      targets t sample.cfg.busExchange (lit "REQUEST." ++ lit "a.b" ++ lit "." ++ word) = [q]) ∧
    ∃ t, targets t sample.cfg.callbacksExchange (generatedName 1) = [] := by
  constructor
  · have mem : Component.service sampleService ∈ sample.components := List.mem_cons_self
    obtain ⟨reach, placed⟩ := placed_connected sample_separate (.component mem [])
    obtain ⟨q, leads, targets⟩ :=
      (call_routes sample_separate reach).1 _ mem placed [] _ rfl (by simp)
    exact ⟨_, q, leads, targets⟩
  · let plan := sample.plan sample_separate
    have program : sample.Program connected.nameSeq
      (dispatcherRestoreTopology sample.cfg (generatedName 1)) := .dispatcher
    have allowed : ∀ d ∈ _, plan.Allows d := program.allowed
    have reach := reachable_declareAll (connected_reachable plan)
      (List.forall_mem_singleton.mpr (allowed _ List.mem_cons_self)) listed 0
    have bind : plan.Follows
        (Decl.act 0 (.bind (generatedName 1) (generatedName 1) sample.cfg.callbacksExchange)) :=
      fun _ => .inl ⟨0, _, rfl, allowed _ (by simp [dispatcherRestoreTopology])⟩
    obtain ⟨replies, -⟩ := (call_routes sample_separate reach).2 listed 0 _ rfl rfl
      [⟨(listed, _), bind⟩] _ rfl (placed_connected sample_separate program).2 [loss plan] _ rfl
    have gone : (perform listed (declareAll listed 0 connected (dispatcherRestoreTopology
        sample.cfg (generatedName 1))) .killConnections).names.lookup (generatedName 1) = none := by
      decide +kernel
    exact ⟨_, replies.trans (congrArg Option.toList gone)⟩

/-- A cancel notice reaches the queue of every cancel listener that is there, whatever its key, and
no queue of a service or a listener with a name. -/
theorem cancel_reaches_listeners (sep : D.Separate) (reach : (D.plan sep).system.Reachable s)
    (placed : ∀ d ∈ cancelListenerStart D.cfg (generatedName n), Has s.layout d)
    {acts : List {a : Order × Act // (D.plan sep).Follows a.2}}
    (ran : (D.plan sep).system.run acts s = some t) (key : Bytes) :
    (∀ q, t.names.lookup (generatedName n) = some q → q ∈ targets t D.cfg.cancelExchange key) ∧
    ∀ q ∈ targets t D.cfg.cancelExchange key, ∃ n, t.names.lookup (generatedName n) = some q := by
  obtain ⟨q, row, own⟩ := Private.of_bound (planned_of_reachable reach)
    (placed (.bind (generatedName n) [] D.cfg.cancelExchange) (by simp [cancelListenerStart]))
  replace own := own.run reach ran
  have later := planned_of_reachable (reach.run ran)
  have fanout : (D.plan sep).exchange D.cfg.cancelExchange = some .fanout :=
    Deployment.allows_core (by simp [coreExchanges])
  have named := (D.plan sep).exchange_named fanout
  constructor
  · intro q leads
    obtain gone | ⟨found, -, bound⟩ := own.here
    · rw [gone] at leads
      cases leads
    · obtain ⟨⟨ex, at_ex, bound⟩, -⟩ := bound _ (List.mem_singleton_self _)
      have kind := (later.of_exchange fanout at_ex).1
      exact mem_targets named at_ex bound (by simp [kind, hits]) leads
  · intro q mem
    obtain ⟨ex, bd, found, bound, -, leads⟩ := bound_of_mem_targets named mem
    obtain ⟨n, eq⟩ := sep.cancel_binding ((later.of_exchange fanout found).2 bd bound)
    exact ⟨n, eq ▸ leads⟩

/-- A cancel listener has just come up. -/
theorem cancel_reaches_listeners_sample : ∃ (t : State) (q : Nat),
    t.names.lookup (generatedName 1) = some q ∧
      ∀ key, q ∈ targets t sample.cfg.cancelExchange key := by
  obtain ⟨reach, placed⟩ := placed_connected sample_separate .cancelListener
  have there : (declareAll listed 0 connected
      (cancelListenerStart sample.cfg (generatedName 1))).names.lookup (generatedName 1) =
        some 0 := by
    decide +kernel
  refine ⟨_, 0, there, fun key => ?_⟩
  exact (cancel_reaches_listeners sample_separate reach placed
    (rfl : (sample.plan sample_separate).system.run [] _ = some _) key).1 0 there

end Protobus.Topology
