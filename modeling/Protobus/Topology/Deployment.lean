import Protobus.Topology.Plan
import Protobus.Rpc.Addressing
import Mathlib.Data.List.Infix

/-!
# What the components of a bus declare

Services, event listeners, the dispatcher, the cancel listener and the event publisher each declare
what they use, every time they come up. The names of the queues and exchanges are put together from
the names of the components, and nothing checks that two of them do not meet: the instance `Retry`
of a service has the name of the service's retry queue. Components whose names keep apart follow one
plan.
-/
namespace Protobus.Topology
open Library Table Fakebroker
open Consumer (RetrySpec)
open Rpc (ServiceOptions EventRetryPolicy)

/-! ## The declarations of the source -/

/-- The exchange names of a `Config`. -/
structure Config where
  busExchange : Bytes
  callbacksExchange : Bytes
  eventsExchange : Bytes
  cancelExchange : Bytes

/-- `Duration.Milliseconds`, of nanoseconds. -/
def milliseconds (d : Int) : Int := d.tdiv 1000000

/-- What `consumerSpec` says about the topology; `declare` is what comes after the bindings. -/
structure TopologySpec where
  queue : Bytes
  queueArgs : List (Bytes × Arg)
  exchange : Bytes
  bindings : List Bytes
  declare : Bytes → List Decl

/-- The declarations of `consumer.restoreTopology`, where the queue has the name `name`. -/
def TopologySpec.restoreTopology (spec : TopologySpec) (name : Bytes) : List Decl :=
  .exchange spec.exchange .topic ::
  (if spec.queue = [] then .anonymous else .queue spec.queue spec.queueArgs) ::
  (spec.bindings.map fun key => .bind name key spec.exchange) ++ spec.declare name

/-- The arguments of a retry queue. -/
def retryArgs (delay : Int) (deadLetterTo : Bytes) : List (Bytes × Arg) :=
  [(lit "x-message-ttl", .int (milliseconds delay)),
    (lit "x-dead-letter-exchange", .string deadLetterTo)]

def declareRetryTopology (rs : RetrySpec) (delay : Int) (deadLetterTo : Bytes) : List Decl :=
  [.queue rs.dlq [], .queue rs.queue (retryArgs delay deadLetterTo), .exchange rs.exchange .topic,
    .bind rs.queue (lit "#") rs.exchange]

/-- The arguments of a service's queue. -/
def requestArgs (o : ServiceOptions) : List (Bytes × Arg) :=
  (if 0 < o.retry.messageTTL then
    [(lit "x-message-ttl", .int (milliseconds o.retry.messageTTL))] else []) ++
  (o.maxPriority.elim [] fun p => [(lit "x-max-priority", .int p.toNat)])

def requestSpec (cfg : Config) (service : Rpc.Service) : TopologySpec where
  queue := service.name
  queueArgs := requestArgs service.opts
  exchange := cfg.busExchange
  bindings := [service.binding]
  declare := fun _ => if service.opts.retries then
    declareRetryTopology (.of service.name service.opts.retry.maxRetries.toNat)
      service.opts.retry.delay cfg.busExchange else []

/-- A listener that has the subscriptions with these patterns. -/
def newEventListener (cfg : Config) (queue : Bytes) (retry : EventRetryPolicy)
    (patterns : List Bytes) : TopologySpec where
  queue
  queueArgs := []
  exchange := cfg.eventsExchange
  bindings := patterns
  declare := fun q => if 0 < retry.maxRetries ∧ queue ≠ [] then
    let redelivery := queue ++ lit ".Redelivery"
    .exchange redelivery .topic :: .bind q (lit "#") redelivery ::
      declareRetryTopology (.of queue retry.maxRetries.toNat) retry.delay redelivery else []

/-- The declarations of `cancelListener.start`. -/
def cancelListenerStart (cfg : Config) (name : Bytes) : List Decl :=
  [.exchange cfg.cancelExchange .fanout, .anonymous, .bind name [] cfg.cancelExchange]

/-- The declarations of `dispatcher.restoreTopology` on the channel of its reply queue. -/
def dispatcherRestoreTopology (cfg : Config) (name : Bytes) : List Decl :=
  [.exchange cfg.callbacksExchange .direct, .anonymous, .bind name name cfg.callbacksExchange]

/-- `declareCoreExchanges`; each is declared on a channel of its own. -/
def coreExchanges (cfg : Config) : List (Bytes × Kind) :=
  [(cfg.busExchange, .topic), (cfg.callbacksExchange, .direct), (cfg.eventsExchange, .topic),
    (cfg.cancelExchange, .fanout)]

/-! ## Deployments -/

/-- A policy that a listener is given, by `NewEventListener` or by its service. -/
abbrev ListenerRetry := { p : EventRetryPolicy // p.Valid }

/-- A component with a queue of its own name. -/
inductive Component
  | service (service : Rpc.Service)
  | listener (queue : Bytes) (retry : ListenerRetry)

namespace Component

def name : Component → Bytes
  | .service svc => svc.name
  | .listener queue _ => queue

def spec (cfg : Config) (patterns : List Bytes) : Component → TopologySpec
  | .service svc => requestSpec cfg svc
  | .listener queue retry => newEventListener cfg queue retry patterns

/-- The declarations of a component; the patterns are those of a listener's subscriptions. -/
def program (cfg : Config) (patterns : List Bytes) (c : Component) : List Decl :=
  (c.spec cfg patterns).restoreTopology c.name

def args : Component → List (Bytes × Arg)
  | .service svc => requestArgs svc.opts
  | .listener _ _ => []

/-- The delay of a component that retries. -/
def delay? : Component → Option Int
  | .service svc => if svc.opts.retries then some svc.opts.retry.delay else none
  | .listener _ retry => if 0 < retry.1.maxRetries then some retry.1.delay else none

/-- Where the messages of the retry queue go back to. -/
def deadLetterTo (cfg : Config) : Component → Bytes
  | .service .. => cfg.busExchange
  | .listener queue _ => queue ++ lit ".Redelivery"

def exchanges (c : Component) : List Bytes :=
  match c.delay? with
  | none => []
  | some _ => match c with
    | .service .. => [c.name ++ lit ".Retry.Exchange"]
    | .listener .. => [c.name ++ lit ".Retry.Exchange", c.name ++ lit ".Redelivery"]

def queues (cfg : Config) (c : Component) : List (Bytes × List (Bytes × Arg)) :=
  (c.name, c.args) :: match c.delay? with
  | none => []
  | some delay => [(c.name ++ lit ".DLQ", []),
      (c.name ++ lit ".Retry", retryArgs delay (c.deadLetterTo cfg))]

end Component

/-- The processes of a bus run any number of replicas of these components, and any number of
dispatchers, cancel listeners, event publishers and private listeners. -/
structure Deployment where
  cfg : Config
  components : List Component

/-- Names that keep apart. -/
structure Deployment.Separate (D : Deployment) : Prop where
  distinct : (D.components.map Component.name).Nodup
  derived : ∀ c ∈ D.components, ∀ c' ∈ D.components,
    c.name ≠ c'.name ++ lit ".Retry" ∧ c.name ≠ c'.name ++ lit ".DLQ"
  named : ∀ c ∈ D.components, c.name ≠ [] ∧ ¬ lit "amq.gen-" <+: c.name
  core : ((coreExchanges D.cfg).map Prod.fst).Nodup
  core_named : ∀ p ∈ coreExchanges D.cfg, p.1 ≠ []
  core_apart : ∀ p ∈ coreExchanges D.cfg, ∀ c ∈ D.components,
    p.1 ≠ c.name ++ lit ".Retry.Exchange" ∧ p.1 ≠ c.name ++ lit ".Redelivery"

namespace Deployment
variable {D : Deployment} {c c' : Component}

def exchanges (D : Deployment) : List (Bytes × Kind) :=
  coreExchanges D.cfg ++ (D.components.flatMap Component.exchanges).map fun name => (name, .topic)

def queues (D : Deployment) : List (Bytes × List (Bytes × Arg)) :=
  D.components.flatMap (Component.queues D.cfg)

/-- The programs of declarations that are run when the broker has given `n` names. -/
inductive Program (D : Deployment) (n : Nat) : List Decl → Prop
  | component {c : Component} (mem : c ∈ D.components) (patterns : List Bytes) :
      Program D n (c.program D.cfg patterns)
  | privateListener (patterns : List Bytes) (retry : EventRetryPolicy) :
      Program D n ((newEventListener D.cfg [] retry patterns).restoreTopology
        (generatedName (n + 1)))
  | cancelListener : Program D n (cancelListenerStart D.cfg (generatedName (n + 1)))
  | dispatcher : Program D n (dispatcherRestoreTopology D.cfg (generatedName (n + 1)))
  | exchange {p : Bytes × Kind} (mem : p ∈ coreExchanges D.cfg) : Program D n [.exchange p.1 p.2]

/-! ## The names are apart -/

theorem Separate.eq_of_name (sep : D.Separate) (mem : c ∈ D.components) (mem' : c' ∈ D.components)
    (same : c.name = c'.name) : c = c' :=
  List.inj_on_of_nodup_map sep.distinct mem mem' same

/-- A word behind a name does not complete `amq.gen-`. -/
theorem not_generated_append {name word : Bytes} (fine : ¬ lit "amq.gen-" <+: name)
    (check : ∀ t ∈ (lit "amq.gen-").tails, t <+: word → t = []) :
    ¬ lit "amq.gen-" <+: name ++ word := by
  intro begins
  obtain short | ⟨t, eq⟩ := List.prefix_or_prefix_of_prefix begins (List.prefix_append name word)
  · exact fine short
  · rw [← eq, List.prefix_append_right_inj] at begins
    have empty := check t ((List.mem_tails _ _).mpr ⟨name, eq⟩) begins
    rw [empty, List.append_nil] at eq
    exact fine (eq ▸ List.prefix_refl _)

theorem mem_queues {p : Bytes × List (Bytes × Arg)} :
    p ∈ D.queues ↔ ∃ c ∈ D.components, p = (c.name, c.args) ∨ ∃ delay, c.delay? = some delay ∧
      (p = (c.name ++ lit ".DLQ", []) ∨
        p = (c.name ++ lit ".Retry", retryArgs delay (c.deadLetterTo D.cfg))) := by
  simp only [queues, List.mem_flatMap, Component.queues, List.mem_cons]
  refine exists_congr fun c => and_congr_right fun _ => or_congr_right ?_
  cases c.delay? <;> simp

theorem mem_exchanges {p : Bytes × Kind} :
    p ∈ D.exchanges ↔ p ∈ coreExchanges D.cfg ∨ ∃ c ∈ D.components, p.1 ∈ c.exchanges ∧
      p.2 = .topic := by
  obtain ⟨name, kind⟩ := p
  simp only [exchanges, List.mem_append, List.mem_map, List.mem_flatMap, Prod.mk.injEq]
  apply or_congr_right
  constructor
  · rintro ⟨_, ⟨c, mem, there⟩, rfl, rfl⟩
    exact ⟨c, mem, there, rfl⟩
  · rintro ⟨c, mem, there, rfl⟩
    exact ⟨name, ⟨c, mem, there⟩, rfl, rfl⟩

theorem mem_component_exchanges {name : Bytes} (mem : name ∈ c.exchanges) :
    name = c.name ++ lit ".Retry.Exchange" ∨ name = c.name ++ lit ".Redelivery" := by
  unfold Component.exchanges at mem
  split at mem
  · simp at mem
  · split at mem <;> simp at mem
    · exact .inl mem
    · exact mem

theorem lookup_of_functional {β : Type} {rows : List (Bytes × β)} {p : Bytes × β}
    (functional : ∀ p ∈ rows, ∀ p' ∈ rows, p.1 = p'.1 → p.2 = p'.2) (mem : p ∈ rows) :
    rows.lookup p.1 = some p.2 := by
  cases found : rows.lookup p.1 with
  | none => simpa using List.lookup_eq_none_iff.mp found p mem
  | some b =>
    have same := functional _ (mem_of_lookup found) p mem rfl
    rw [← same]

/-- Words that end in different letters make different names. -/
theorem append_ne_append {a b v w : Bytes}
    (last : v ≠ [] ∧ w ≠ [] ∧ v.getLast? ≠ w.getLast?) : a ++ v ≠ b ++ w := by
  intro eq
  have same := congrArg List.getLast? eq
  rw [List.getLast?_append_of_ne_nil _ last.1, List.getLast?_append_of_ne_nil _ last.2.1] at same
  exact last.2.2 same

/-- A name is declared as a queue in one way. -/
theorem Separate.queues_functional (sep : D.Separate) :
    ∀ p ∈ D.queues, ∀ p' ∈ D.queues, p.1 = p'.1 → p.2 = p'.2 := by
  have suffixes : ∀ a b : Bytes, a ++ lit ".DLQ" ≠ b ++ lit ".Retry" := fun a b =>
    append_ne_append (by decide +kernel)
  intro p mem p' mem' same
  obtain ⟨c, in_c, rfl | ⟨delay, on, rfl | rfl⟩⟩ := mem_queues.mp mem <;>
    obtain ⟨c', in_c', rfl | ⟨delay', on', rfl | rfl⟩⟩ := mem_queues.mp mem'
  · rw [sep.eq_of_name in_c in_c' same]
  · exact absurd same (sep.derived c in_c c' in_c').2
  · exact absurd same (sep.derived c in_c c' in_c').1
  · exact absurd same.symm (sep.derived c' in_c' c in_c).2
  · rfl
  · exact absurd same (suffixes _ _)
  · exact absurd same.symm (sep.derived c' in_c' c in_c).1
  · exact absurd same.symm (suffixes _ _)
  · obtain rfl := sep.eq_of_name in_c in_c' (List.append_cancel_right same)
    cases on.symm.trans on'
    rfl

theorem Separate.exchanges_functional (sep : D.Separate) :
    ∀ p ∈ D.exchanges, ∀ p' ∈ D.exchanges, p.1 = p'.1 → p.2 = p'.2 := by
  have apart : ∀ p ∈ coreExchanges D.cfg, ∀ c ∈ D.components, p.1 ∉ c.exchanges := by
    intro p core c mem there
    obtain eq | eq := mem_component_exchanges there
    · exact (sep.core_apart p core c mem).1 eq
    · exact (sep.core_apart p core c mem).2 eq
  intro p mem p' mem' same
  obtain core | ⟨c, in_c, there, kind⟩ := mem_exchanges.mp mem <;>
    obtain core' | ⟨c', in_c', there', kind'⟩ := mem_exchanges.mp mem'
  · rw [List.inj_on_of_nodup_map sep.core core core' same]
  · exact absurd (same ▸ there') (apart p core c' in_c')
  · exact absurd (same ▸ there) (apart p' core' c in_c)
  · rw [kind, kind']

/-! ## The plan -/

/-- What is bound to what. -/
inductive Binds (D : Deployment) : Bytes → Binding → Prop
  | request {svc : Rpc.Service} (mem : .service svc ∈ D.components) :
      Binds D D.cfg.busExchange ⟨svc.name, svc.binding⟩
  | event {queue : Bytes} {retry : ListenerRetry} (mem : .listener queue retry ∈ D.components)
      (pattern : Bytes) : Binds D D.cfg.eventsExchange ⟨queue, pattern⟩
  | retry {c : Component} {delay : Int} (mem : c ∈ D.components) (on : c.delay? = some delay) :
      Binds D (c.name ++ lit ".Retry.Exchange") ⟨c.name ++ lit ".Retry", lit "#"⟩
  | redelivery {queue : Bytes} {retry : ListenerRetry}
      (mem : .listener queue retry ∈ D.components) :
      Binds D (queue ++ lit ".Redelivery") ⟨queue, lit "#"⟩
  | privateEvent (n : Nat) (pattern : Bytes) :
      Binds D D.cfg.eventsExchange ⟨generatedName n, pattern⟩
  | cancel (n : Nat) : Binds D D.cfg.cancelExchange ⟨generatedName n, []⟩
  | reply (n : Nat) : Binds D D.cfg.callbacksExchange ⟨generatedName n, generatedName n⟩

theorem intArg_of_lookup {args : List (Bytes × Arg)} {name : Bytes} {ok : Int → Bool}
    (fine : args.lookup name = none ∨ ∃ n, args.lookup name = some (.int n) ∧ ok n = true) :
    (intArg args name ok).isSome = true := by
  obtain absent | ⟨n, found, good⟩ := fine
  · simp [intArg, absent]
  · simp [intArg, found, good]

theorem milliseconds_nonneg {d : Int} (nonneg : 0 ≤ d) : 0 ≤ milliseconds d :=
  Int.tdiv_nonneg nonneg (by decide)

theorem lookup_message_ttl (v : Arg) (rest : List (Bytes × Arg)) :
    ((lit "x-message-ttl", v) :: rest).lookup (lit "x-message-ttl") = some v := by
  simp

theorem retryArgs_accepted {delay : Int} (pos : 0 < delay) (deadLetterTo : Bytes) :
    (ttlArg (retryArgs delay deadLetterTo)).isSome = true ∧
      (priorityArg (retryArgs delay deadLetterTo)).isSome = true := by
  constructor
  · apply intArg_of_lookup
    refine .inr ⟨milliseconds delay, lookup_message_ttl _ _, ?_⟩
    simpa using milliseconds_nonneg (Int.le_of_lt pos)
  · have first : (lit "x-max-priority" == lit "x-message-ttl") = false := by decide +kernel
    have second : (lit "x-max-priority" == lit "x-dead-letter-exchange") = false := by
      decide +kernel
    apply intArg_of_lookup
    left
    simp [retryArgs, List.lookup_cons, first, second]

theorem requestArgs_accepted {o : ServiceOptions} (valid : o.Valid) :
    (ttlArg (requestArgs o)).isSome = true ∧ (priorityArg (requestArgs o)).isSome = true := by
  have apart : (lit "x-max-priority" == lit "x-message-ttl") = false := by decide +kernel
  have apart' : (lit "x-message-ttl" == lit "x-max-priority") = false := by decide +kernel
  have ms := milliseconds_nonneg valid.retry.messageTTL
  have byte : ∀ p : UInt8, p.toNat ≤ 255 := fun p => Nat.le_of_lt_succ p.toNat_lt
  unfold requestArgs
  constructor <;> apply intArg_of_lookup <;> split <;> cases o.maxPriority <;>
    simp [List.lookup_cons, apart, apart', ms, byte]

theorem delay_pos {delay : Int} (on : c.delay? = some delay) : 0 < delay := by
  cases c with
  | service svc =>
    simp only [Component.delay?, ServiceOptions.retries, Bool.and_eq_true, decide_eq_true_eq,
      Option.ite_none_right_eq_some, Option.some.injEq] at on
    obtain ⟨⟨retries, -⟩, rfl⟩ := on
    exact svc.opts_valid.retry.delay retries
  | listener queue retry =>
    simp only [Component.delay?, Option.ite_none_right_eq_some, Option.some.injEq] at on
    obtain ⟨retries, rfl⟩ := on
    exact retry.2.delay retries

def plan (D : Deployment) (sep : D.Separate) : Plan where
  exchange name := D.exchanges.lookup name
  queue name := D.queues.lookup name
  binding := Binds D
  exchange_named := by
    intro name kind found empty
    obtain core | ⟨c, mem, there, -⟩ := mem_exchanges.mp (mem_of_lookup found)
    · exact sep.core_named _ core empty
    · obtain eq | eq := mem_component_exchanges there <;> simp [empty, (sep.named c mem).1] at eq
  exchange_known := by
    intro name text found
    obtain core | ⟨c, mem, there, kind⟩ := mem_exchanges.mp (mem_of_lookup found)
    · simp [coreExchanges] at core
    · cases kind
  queue_named := by
    intro name args found
    obtain ⟨c, mem, eq | ⟨delay, on, eq | eq⟩⟩ := mem_queues.mp (mem_of_lookup found) <;> cases eq
    · exact sep.named c mem
    · refine ⟨by simp [(sep.named c mem).1], not_generated_append (sep.named c mem).2 ?_⟩
      decide +kernel
    · refine ⟨by simp [(sep.named c mem).1], not_generated_append (sep.named c mem).2 ?_⟩
      decide +kernel
  queue_accepted := by
    intro name args found
    obtain ⟨c, mem, eq | ⟨delay, on, eq | eq⟩⟩ := mem_queues.mp (mem_of_lookup found) <;> cases eq
    · cases c with
      | service svc => exact requestArgs_accepted svc.opts_valid
      | listener queue retry => exact ⟨rfl, rfl⟩
    · exact ⟨rfl, rfl⟩
    · exact retryArgs_accepted (delay_pos on) _
  binding_named := by
    intro name bd binds empty
    cases binds with
    | request =>
      exact sep.core_named (D.cfg.busExchange, .topic) (by simp [coreExchanges]) empty
    | event | privateEvent =>
      exact sep.core_named (D.cfg.eventsExchange, .topic) (by simp [coreExchanges]) empty
    | cancel =>
      exact sep.core_named (D.cfg.cancelExchange, .fanout) (by simp [coreExchanges]) empty
    | reply =>
      exact sep.core_named (D.cfg.callbacksExchange, .direct) (by simp [coreExchanges]) empty
    | retry mem on => simp [(sep.named _ mem).1] at empty
    | redelivery mem =>
      have named := (sep.named _ mem).1
      simp only [Component.name] at named
      simp [named] at empty

/-! ## The declarations follow the plan -/

variable {sep : D.Separate} {n : Nat} {ds : List Decl} {patterns : List Bytes}

theorem allows_core {name : Bytes} {kind : Kind} (mem : (name, kind) ∈ coreExchanges D.cfg) :
    (D.plan sep).Allows (.exchange name kind) :=
  lookup_of_functional sep.exchanges_functional (mem_exchanges.mpr (.inl mem))

theorem allows_exchange {name : Bytes} (mem : c ∈ D.components) (there : name ∈ c.exchanges) :
    (D.plan sep).Allows (.exchange name .topic) := by
  have planned : (name, Kind.topic) ∈ D.exchanges := mem_exchanges.mpr (.inr ⟨c, mem, there, rfl⟩)
  exact lookup_of_functional sep.exchanges_functional planned

theorem allows_queue {p : Bytes × List (Bytes × Arg)} (mem : c ∈ D.components)
    (there : p ∈ c.queues D.cfg) : (D.plan sep).Allows (.queue p.1 p.2) :=
  lookup_of_functional sep.queues_functional (List.mem_flatMap.mpr ⟨c, mem, there⟩)

theorem allows_retry {delay : Int} {rs : RetrySpec} (mem : c ∈ D.components)
    (on : c.delay? = some delay) (named : rs = .of c.name rs.maxRetries) :
    ∀ d ∈ declareRetryTopology rs delay (c.deadLetterTo D.cfg), (D.plan sep).Allows d := by
  rw [named]
  simp only [declareRetryTopology, RetrySpec.of, List.forall_mem_cons]
  refine ⟨?_, ?_, ?_, ?_, by simp⟩
  · exact allows_queue (p := (_, [])) mem (by simp [Component.queues, on])
  · exact allows_queue (p := (_, retryArgs delay (c.deadLetterTo D.cfg))) mem
      (by simp [Component.queues, on])
  · apply allows_exchange mem
    cases c <;> simp [Component.exchanges, on]
  · exact .retry mem on

theorem restoreTopology_named {spec : TopologySpec} (named : spec.queue ≠ []) (name : Bytes) :
    spec.restoreTopology name = .exchange spec.exchange .topic ::
      .queue spec.queue spec.queueArgs ::
      ((spec.bindings.map fun key => .bind name key spec.exchange) ++ spec.declare name) := by
  simp [TopologySpec.restoreTopology, named]

theorem program_service {svc : Rpc.Service} (named : (Component.service svc).name ≠ [])
    (cfg : Config) :
    (Component.service svc).program cfg patterns =
      .exchange cfg.busExchange .topic :: .queue svc.name (requestArgs svc.opts) ::
      .bind svc.name svc.binding cfg.busExchange ::
      if svc.opts.retries then declareRetryTopology (.of svc.name svc.opts.retry.maxRetries.toNat)
        svc.opts.retry.delay cfg.busExchange else [] :=
  restoreTopology_named named svc.name

theorem program_listener {queue : Bytes} {retry : ListenerRetry}
    (named : (Component.listener queue retry).name ≠ []) (cfg : Config) :
    (Component.listener queue retry).program cfg patterns =
      .exchange cfg.eventsExchange .topic :: .queue queue [] ::
      ((patterns.map fun key => .bind queue key cfg.eventsExchange) ++
      if 0 < retry.1.maxRetries ∧ queue ≠ [] then
        .exchange (queue ++ lit ".Redelivery") .topic ::
        .bind queue (lit "#") (queue ++ lit ".Redelivery") ::
        declareRetryTopology (.of queue retry.1.maxRetries.toNat) retry.1.delay
          (queue ++ lit ".Redelivery") else []) :=
  restoreTopology_named named queue

/-- What a component declares is in the plan. -/
theorem allows_component (mem : c ∈ D.components) :
    ∀ d ∈ c.program D.cfg patterns, (D.plan sep).Allows d := by
  have named := (sep.named c mem).1
  have own : (D.plan sep).Allows (.queue c.name c.args) :=
    allows_queue (p := (c.name, c.args)) mem (by simp [Component.queues])
  cases c with
  | service svc =>
    rw [program_service named]
    simp only [List.forall_mem_cons]
    refine ⟨allows_core (by simp [coreExchanges]), own, .request mem, ?_⟩
    split
    · next retries => exact allows_retry mem (by simp [Component.delay?, retries]) rfl
    · simp
  | listener queue retry =>
    rw [program_listener named]
    simp only [List.forall_mem_cons, List.forall_mem_append]
    refine ⟨allows_core (by simp [coreExchanges]), own, ?_, ?_⟩
    · intro d there
      obtain ⟨pattern, -, rfl⟩ := List.mem_map.mp there
      exact .event mem pattern
    · split
      · next retries =>
        have on : (Component.listener queue retry).delay? = some retry.1.delay := by
          simp [Component.delay?, retries.1]
        refine List.forall_mem_cons.mpr ⟨allows_exchange mem ?_, List.forall_mem_cons.mpr
          ⟨.redelivery mem, allows_retry mem on rfl⟩⟩
        simp [Component.exchanges, on, Component.name]
      · simp

theorem Program.allowed (program : D.Program n ds) : ∀ d ∈ ds, (D.plan sep).Allows d := by
  cases program with
  | component mem patterns => exact allows_component mem
  | privateListener patterns retry =>
    simp only [newEventListener, TopologySpec.restoreTopology, List.cons_append,
      List.forall_mem_cons, List.forall_mem_append]
    refine ⟨allows_core (by simp [coreExchanges]), trivial, ?_, by simp⟩
    intro d mem
    obtain ⟨key, -, rfl⟩ := List.mem_map.mp mem
    exact .privateEvent (n + 1) key
  | cancelListener =>
    simp only [cancelListenerStart, List.forall_mem_cons]
    exact ⟨allows_core (by simp [coreExchanges]), trivial, .cancel (n + 1), by simp⟩
  | dispatcher =>
    simp only [dispatcherRestoreTopology, List.forall_mem_cons]
    exact ⟨allows_core (by simp [coreExchanges]), trivial, .reply (n + 1), by simp⟩
  | exchange mem =>
    simp only [List.forall_mem_cons]
    exact ⟨allows_core mem, by simp⟩

theorem ordered_append {exs qs : List Bytes} {binds rest : List Decl}
    (fine : ∀ d ∈ binds, ∃ name key ex, d = .bind name key ex ∧ ex ∈ exs ∧ name ∈ qs)
    (ordered : Ordered exs qs n rest) : Ordered exs qs n (binds ++ rest) := by
  induction binds with
  | nil => exact ordered
  | cons d binds ih =>
    obtain ⟨name, key, ex, rfl, ex_mem, name_mem⟩ := fine d (by simp)
    exact ⟨ex_mem, name_mem, ih fun d mem => fine d (by simp [mem])⟩

theorem Program.ordered (program : D.Program n ds) (sep : D.Separate) : Ordered [] [] n ds := by
  cases program with
  | @component c mem patterns =>
    have named := (sep.named c mem).1
    cases c with
    | service svc =>
      rw [program_service named]
      refine ⟨by simp, by simp, ?_⟩
      split
      · simp [declareRetryTopology, Ordered]
      · trivial
    | listener queue retry =>
      rw [program_listener named]
      apply ordered_append
      · intro d mem
        obtain ⟨key, -, rfl⟩ := List.mem_map.mp mem
        exact ⟨_, _, _, rfl, by simp, by simp⟩
      · split
        · simp [declareRetryTopology, Ordered]
        · trivial
  | privateListener patterns retry =>
    simp only [newEventListener, TopologySpec.restoreTopology, List.cons_append, if_pos]
    apply ordered_append
    · intro d mem
      obtain ⟨key, -, rfl⟩ := List.mem_map.mp mem
      exact ⟨_, _, _, rfl, by simp, by simp⟩
    · simp [Ordered]
  | cancelListener => simp [cancelListenerStart, Ordered]
  | dispatcher => simp [dispatcherRestoreTopology, Ordered]
  | exchange mem => trivial

/-- Let all processes of a bus declare what their components declare, in any order and any number
of times, and let anything else happen between: connections are lost, queues deleted. Whenever a
component comes up on an open channel, none of its declarations is refused, all of them are then in
place with all that was, and if it has a name, declaring them once more changes nothing. -/
theorem restore_succeeds {s : State} {k : Nat} {chan : Channel} (sep : D.Separate)
    (reach : (D.plan sep).system.Reachable s) (program : D.Program s.nameSeq ds) (order : Order)
    (at_k : s.channels[k]? = some chan) (opened : chan.closed = false) :
    (declareAll order k s ds).channels = s.channels ∧
    (∀ d ∈ ds, Has (declareAll order k s ds).layout d) ∧
    (∀ d, Has s.layout d → Has (declareAll order k s ds).layout d) ∧
    (Decl.anonymous ∉ ds → ∀ order' k' chan', (declareAll order k s ds).channels[k']? = some chan' →
      chan'.closed = false →
      declareAll order' k' (declareAll order k s ds) ds = declareAll order k s ds) := by
  have allowed : ∀ d ∈ ds, (D.plan sep).Allows d := program.allowed
  obtain ⟨-, channels, planned, old, new⟩ := declareAll_has order (planned_of_reachable reach) at_k
    opened allowed (program.ordered sep) (by simp) (by simp)
  refine ⟨channels, new, old, ?_⟩
  intro named order' k' chan' at_k' opened'
  exact declareAll_again order' planned at_k' opened' allowed new named

end Deployment

/-! ## A deployment -/

def sampleService : Rpc.Service :=
  Rpc.serviceOf (Rpc.contractOf (lit "a.b") (by decide)) [] (by decide)

def samplePolicy : ListenerRetry := ⟨⟨1, 1000000000⟩, by decide, by decide⟩

/-- A service and a listener, both with retries, on the default exchanges. -/
def sample : Deployment where
  cfg := ⟨lit "proto.bus", lit "proto.bus.callback", lit "proto.bus.events",
    lit "proto.bus.cancel"⟩
  components := [.service sampleService, .listener (lit "audit") samplePolicy]

theorem sample_separate : sample.Separate where
  distinct := by decide +kernel
  derived := by
    simp only [sample, List.forall_mem_cons]
    decide +kernel
  named := by
    simp only [sample, List.forall_mem_cons]
    decide +kernel
  core := by decide +kernel
  core_named := by decide +kernel
  core_apart := by
    simp only [sample, coreExchanges, List.forall_mem_cons]
    decide +kernel

def listed : Order := ⟨fun _ xs => xs, fun _ _ => .refl _⟩

/-- A broker with one connection and one channel. -/
def connected : State := perform listed (perform listed {} .dial) (.channel 0)

theorem connected_open : connected.channels[0]? = some ⟨0, 1, false, 0, 0, [], [], 0⟩ := rfl

theorem connected_reachable (plan : Plan) : plan.system.Reachable connected := by
  have first : plan.system.Reachable (perform listed {} .dial) :=
    .step (a := ⟨(listed, .dial), fun touches => by cases touches⟩) (.init rfl) rfl
  exact .step (a := ⟨(listed, .channel 0), fun touches => by cases touches⟩) first rfl

/-- All connections are lost. -/
def loss (plan : Plan) : {a : Order × Act // plan.Follows a.2} :=
  ⟨(listed, .killConnections), fun touches => by cases touches⟩

theorem run_loss (plan : Plan) (s : State) :
    plan.system.run [loss plan] s = some (perform listed s .killConnections) := rfl

theorem Deployment.restore_succeeds_sample : ∃ c s, c ∈ sample.components ∧
    (sample.plan sample_separate).system.Reachable s ∧
    (declareAll listed 0 s (c.program sample.cfg [])).channels = s.channels ∧
    ∀ d ∈ c.program sample.cfg [],
      Has (declareAll listed 0 s (c.program sample.cfg [])).layout d := by
  have reach := connected_reachable (sample.plan sample_separate)
  obtain ⟨channels, placed, -⟩ := restore_succeeds sample_separate reach
    (.component List.mem_cons_self []) listed connected_open rfl
  exact ⟨_, connected, List.mem_cons_self, reach, channels, placed⟩

/-- A program on a broker that nobody used before. -/
theorem placed_connected {D : Deployment} {ds : List Decl} (sep : D.Separate)
    (program : D.Program connected.nameSeq ds) :
    (D.plan sep).system.Reachable (declareAll listed 0 connected ds) ∧
    ∀ d ∈ ds, Has (declareAll listed 0 connected ds).layout d := by
  have reach := connected_reachable (D.plan sep)
  have allowed : ∀ d ∈ ds, (D.plan sep).Allows d := program.allowed
  obtain ⟨-, -, -, -, placed⟩ := declareAll_has listed (planned_of_reachable reach)
    connected_open rfl allowed (program.ordered sep) (by simp) (by simp)
  exact ⟨reachable_declareAll reach allowed listed 0, placed⟩

end Protobus.Topology
