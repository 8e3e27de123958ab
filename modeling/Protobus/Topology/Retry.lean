import Protobus.Topology.Deployment

/-!
# A retried message comes back to its queue

A failed message is published to the retry exchange of its consumer, waits in the retry queue, and
is dead-lettered when its time is over. A request goes back through the bus exchange, under a key
that only its service is bound to. An event would reach all subscribers again on the events
exchange, so it goes back through an exchange that only its listener is bound to.
-/
namespace Protobus.Topology
open Library Table Fakebroker Topic

variable {D : Deployment} {sep : D.Separate} {s t : State} {c : Component} {q r : Nat}
  {queue : Queue} {delay : Int}

/-! ## Routing to one queue -/

theorem eraseDups_of_eq {xs : List Nat} (some_in : xs ≠ []) (all : ∀ x ∈ xs, x = q) :
    xs.eraseDups = [q] := by
  cases xs with
  | nil => exact absurd rfl some_in
  | cons x xs =>
    obtain rfl := all x (by simp)
    have rest : xs.filter (fun y => !y == x) = [] := by
      rw [List.filter_eq_nil_iff]
      intro y mem
      simp [all y (by simp [mem])]
    rw [List.eraseDups_cons, rest, List.eraseDups_nil]

theorem targets_eq_one {exchange key : Bytes} {ex : Exchange} {bd : Binding}
    (named : exchange ≠ []) (found : s.exchange? exchange = some ex) (bound : bd ∈ ex.bindings)
    (hit : hits ex.kind bd.key key = true) (leads : s.names.lookup bd.queue = some q)
    (only : ∀ bd' ∈ ex.bindings, hits ex.kind bd'.key key = true → bd'.queue = bd.queue) :
    targets s exchange key = [q] := by
  simp only [targets, named, if_false, found]
  apply eraseDups_of_eq
  · apply List.ne_nil_of_mem (a := q)
    exact List.mem_filterMap.mpr ⟨bd, List.mem_filter.mpr ⟨bound, hit⟩, leads⟩
  · intro x mem
    obtain ⟨bd', there, leads'⟩ := List.mem_filterMap.mp mem
    obtain ⟨bound', hit'⟩ := List.mem_filter.mp there
    rw [only bd' bound' hit', leads] at leads'
    exact (Option.some.inj leads').symm

/-- With one target, a dead letter is one new message there. -/
theorem deadLetter_eq_one {dlx : Bytes} {m : Message} (at_r : s.queues[r]? = some queue)
    (back : queue.dlx = some dlx) (keyless : queue.dlxKey = none)
    (exists_ex : (s.exchange? dlx).isSome = true) (one : targets s dlx m.key = [q])
    (reason : Bytes) :
    deadLetter s r m reason = (routeTo dlx m.key
      { m.pub with xDeath := ⟨reason, queue.name, m.exchange, m.key⟩ :: m.pub.xDeath } s q,
      [s.nextMsg]) := by
  have missing : ¬ (s.exchange? dlx).isNone = true := by
    rw [Option.isNone_iff_eq_none, ← Option.not_isSome_iff_eq_none, not_not]
    exact exists_ex
  have dead : deadTargets s r m = [q] := by
    simp only [deadTargets, at_r, back, missing, Bool.false_eq_true, if_false, keyless,
      Option.getD_none, one]
  apply Prod.ext
  · simp only [deadLetter, at_r, back, missing, Bool.false_eq_true, if_false, keyless,
      Option.getD_none, route, one, List.foldl_cons, List.foldl_nil]
  · rw [deadLetter_copies, dead]
    rfl

/-! ## Retry queues -/

/-- The bindings to a retry exchange. -/
theorem Deployment.Separate.retry_binding {bd : Binding} (sep : D.Separate)
    (mem : c ∈ D.components) (binds : D.Binds (c.name ++ lit ".Retry.Exchange") bd) :
    bd = ⟨c.name ++ lit ".Retry", lit "#"⟩ := by
  have core : ∀ p ∈ coreExchanges D.cfg, c.name ++ lit ".Retry.Exchange" ≠ p.1 :=
    fun p there eq => (sep.core_apart p there c mem).1 eq.symm
  simp only [coreExchanges, List.forall_mem_cons] at core
  obtain ⟨bus, callbacks, events, cancel, -⟩ := core
  generalize eq : c.name ++ lit ".Retry.Exchange" = exchange at binds bus callbacks events cancel
  cases binds with
  | request => exact absurd rfl bus
  | event | privateEvent => exact absurd rfl events
  | retry in_D on => rw [sep.eq_of_name mem in_D (List.append_cancel_right eq)]
  | redelivery => exact absurd eq (Deployment.append_ne_append (by decide +kernel))
  | cancel => exact absurd rfl cancel
  | reply => exact absurd rfl callbacks

theorem Deployment.Separate.redelivery_binding {name : Bytes} {retry : ListenerRetry}
    {bd : Binding} (sep : D.Separate) (mem : .listener name retry ∈ D.components)
    (binds : D.Binds (name ++ lit ".Redelivery") bd) : bd = ⟨name, lit "#"⟩ := by
  have core : ∀ p ∈ coreExchanges D.cfg, name ++ lit ".Redelivery" ≠ p.1 :=
    fun p there eq => (sep.core_apart p there _ mem).2 eq.symm
  simp only [coreExchanges, List.forall_mem_cons] at core
  obtain ⟨bus, callbacks, events, cancel, -⟩ := core
  generalize eq : name ++ lit ".Redelivery" = exchange at binds bus callbacks events cancel
  cases binds with
  | request => exact absurd rfl bus
  | event | privateEvent => exact absurd rfl events
  | retry => exact absurd eq (Deployment.append_ne_append (by decide +kernel))
  | redelivery => rw [List.append_cancel_right eq]
  | cancel => exact absurd rfl cancel
  | reply => exact absurd rfl callbacks

/-- The exchanges of a bus are different. -/
theorem Deployment.Separate.core_ne (sep : D.Separate) :
    (D.cfg.busExchange ≠ D.cfg.callbacksExchange ∧ D.cfg.busExchange ≠ D.cfg.eventsExchange ∧
      D.cfg.busExchange ≠ D.cfg.cancelExchange) ∧
    (D.cfg.callbacksExchange ≠ D.cfg.eventsExchange ∧
      D.cfg.callbacksExchange ≠ D.cfg.cancelExchange) ∧
    D.cfg.eventsExchange ≠ D.cfg.cancelExchange := by
  simpa [coreExchanges] using sep.core

/-- A request's key leads to the service it names. -/
theorem Deployment.Separate.bus_binding {bd : Binding} {svc : Rpc.Service} {word : Bytes}
    (sep : D.Separate) (simple : dot ∉ word) (binds : D.Binds D.cfg.busExchange bd)
    (hit : topicMatch (splitDots bd.key)
      (splitDots (lit "REQUEST." ++ svc.name ++ lit "." ++ word)) = true) :
    bd.queue = svc.name := by
  obtain ⟨⟨callbacks, events, cancel⟩, -⟩ := sep.core_ne
  have apart := sep.core_apart (D.cfg.busExchange, .topic) (by simp [coreExchanges])
  generalize eq : D.cfg.busExchange = exchange at binds
  cases binds with
  | @request svc' in_D =>
    obtain ⟨w, absent, same⟩ := (svc'.binding_iff _).mp hit
    rw [Rpc.append_lit_dot, Rpc.append_lit_dot] at same
    exact (List.append_cancel_left (append_dot_inj simple absent same).1).symm
  | event | privateEvent => exact absurd eq events
  | retry in_D on => exact absurd eq (apart _ in_D).1
  | redelivery in_D => exact absurd eq (apart _ in_D).2
  | cancel => exact absurd eq cancel
  | reply => exact absurd eq callbacks

/-! ## What is in place -/

/-- The queue of a planned name, as it was declared. -/
theorem Planned.place? {plan : Plan} {name : Bytes} {args : List (Bytes × Arg)}
    (planned : Planned plan s.layout) (there : (s.names.lookup name).isSome = true)
    (found : plan.queue name = some args) :
    ∃ q queue, s.names.lookup name = some q ∧ s.queues[q]? = some queue ∧
      queue.shape = queueOf name true false false none args := by
  obtain ⟨q, leads⟩ := Option.isSome_iff_exists.mp there
  obtain ⟨queue, at_q, -, shaped⟩ := planned.queue? leads
  exact ⟨q, queue, leads, at_q, shaped args found⟩

/-- A bound queue gets what the exchange routes, and no other does if all matching bindings are
its own. -/
theorem Planned.targets_bound {plan : Plan} {exchange name pattern key : Bytes}
    (planned : Planned plan s.layout) (has : Has s.layout (.bind name pattern exchange))
    (leads : s.names.lookup name = some q) (topic : plan.exchange exchange = some .topic)
    (hit : topicMatch (splitDots pattern) (splitDots key) = true)
    (only : ∀ bd, plan.binding exchange bd →
      topicMatch (splitDots bd.key) (splitDots key) = true → bd.queue = name) :
    targets s exchange key = [q] := by
  obtain ⟨⟨ex, found, bound⟩, -⟩ := has
  have named := plan.exchange_named topic
  obtain ⟨is_topic, bindings⟩ := planned.of_exchange topic found
  apply targets_eq_one named found bound
  · rw [is_topic]
    exact hit
  · exact leads
  · intro bd' mem hit'
    rw [is_topic] at hit'
    exact only bd' (bindings bd' mem) hit'

/-- The component's topology, seen from the message that is to be retried. -/
structure Retries (D : Deployment) (c : Component) (delay : Int) (s : State) (q r : Nat)
    (row : Queue) : Prop where
  home : s.names.lookup c.name = some q
  leads : s.names.lookup (c.name ++ lit ".Retry") = some r
  at_r : s.queues[r]? = some row
  shape : row.shape = queueOf (c.name ++ lit ".Retry") true false false none
    (retryArgs delay (c.deadLetterTo D.cfg))
  parks : ∀ key, targets s (c.name ++ lit ".Retry.Exchange") key = [r]

theorem splitDots_hash : splitDots (lit "#") = [hash] := by decide +kernel

/-- What a component that retries declares for it. -/
theorem mem_program_of_retry {cfg : Config} {patterns : List Bytes} (named : c.name ≠ [])
    (on : c.delay? = some delay) :
    ∀ d ∈ declareRetryTopology (.of c.name 0) delay (c.deadLetterTo cfg),
      d ∈ c.program cfg patterns := by
  intro d mem
  cases c with
  | service svc =>
    simp only [Component.delay?, Option.ite_none_right_eq_some, Option.some.injEq] at on
    obtain ⟨retries, rfl⟩ := on
    rw [Deployment.program_service named, if_pos retries]
    exact List.mem_cons_of_mem _ (List.mem_cons_of_mem _ (List.mem_cons_of_mem _ mem))
  | listener queue retry =>
    simp only [Component.delay?, Option.ite_none_right_eq_some, Option.some.injEq] at on
    obtain ⟨retries, rfl⟩ := on
    rw [Deployment.program_listener named, if_pos ⟨retries, named⟩]
    exact List.mem_cons_of_mem _ (List.mem_cons_of_mem _ (List.mem_append_right _
      (List.mem_cons_of_mem _ (List.mem_cons_of_mem _ mem))))

theorem mem_program_of_queue {cfg : Config} {patterns : List Bytes} (named : c.name ≠ []) :
    .queue c.name c.args ∈ c.program cfg patterns := by
  cases c with
  | service svc => simp [Deployment.program_service named, Component.name, Component.args]
  | listener queue retry => simp [Deployment.program_listener named, Component.name, Component.args]

theorem queue_of_retry {cfg : Config} {d : Decl} {name dead : Bytes} {maxRetries : Nat} {ttl : Int}
    (on : c.delay? = some delay)
    (mem : d ∈ declareRetryTopology (.of c.name maxRetries) ttl dead)
    (about : d.about = some name) : ∃ p ∈ c.queues cfg, p.1 = name := by
  simp only [declareRetryTopology, Consumer.RetrySpec.of, List.mem_cons, List.not_mem_nil,
    or_false] at mem
  simp only [Component.queues, on]
  obtain rfl | rfl | rfl | rfl := mem <;> cases about <;> simp

/-- The declarations of a component are about its own queues. -/
theorem about_own_queue {cfg : Config} {patterns : List Bytes} {d : Decl} {name : Bytes}
    (named : c.name ≠ []) (mem : d ∈ c.program cfg patterns) (about : d.about = some name) :
    ∃ p ∈ c.queues cfg, p.1 = name := by
  have own : ∃ p ∈ c.queues cfg, p.1 = c.name := ⟨(c.name, c.args), List.mem_cons_self, rfl⟩
  cases c with
  | service svc =>
    rw [Deployment.program_service named] at mem
    simp only [List.mem_cons] at mem
    obtain rfl | rfl | rfl | mem := mem
    · cases about
    · cases about
      exact own
    · cases about
      exact own
    · split at mem
      · next retries => exact queue_of_retry (if_pos retries) mem about
      · cases mem
  | listener queue retry =>
    rw [Deployment.program_listener named] at mem
    simp only [List.mem_cons, List.mem_append, List.mem_map] at mem
    obtain rfl | rfl | ⟨key, -, rfl⟩ | mem := mem
    · cases about
    · cases about
      exact own
    · cases about
      exact own
    · split at mem
      · next retries =>
        simp only [List.mem_cons] at mem
        obtain rfl | rfl | mem := mem
        · cases about
        · cases about
          exact own
        · exact queue_of_retry (if_pos retries.1) mem about
      · cases mem

theorem queue_of_mem {p : Bytes × List (Bytes × Arg)} (mem : c ∈ D.components)
    (there : p ∈ c.queues D.cfg) : (D.plan sep).queue p.1 = some p.2 :=
  Deployment.allows_queue mem there

/-- A component's topology is there until its queues are deleted. -/
theorem placed_run {patterns : List Bytes}
    {acts : List {a : Order × Act // (D.plan sep).Follows a.2}} (mem : c ∈ D.components)
    (reach : (D.plan sep).system.Reachable s)
    (placed : ∀ d ∈ c.program D.cfg patterns, Has s.layout d)
    (ran : (D.plan sep).system.run acts s = some t)
    (kept : ∀ a ∈ acts, ∀ p ∈ c.queues D.cfg, a.1.2 ≠ .deleteQueue p.1) :
    ∀ d ∈ c.program D.cfg patterns, Has t.layout d := by
  intro d there
  have named := (sep.named c mem).1
  apply (placed d there).run reach _ ran
  · intro a in_acts name about
    obtain ⟨p, own, rfl⟩ := about_own_queue named there about
    exact kept a in_acts p own
  · intro name about
    obtain ⟨p, own, rfl⟩ := about_own_queue named there about
    rw [queue_of_mem mem own, Option.isSome_some]

theorem retries_of_placed {patterns : List Bytes} (mem : c ∈ D.components)
    (on : c.delay? = some delay) (planned : Planned (D.plan sep) t.layout)
    (placed : ∀ d ∈ c.program D.cfg patterns, Has t.layout d) :
    ∃ q r row, Retries D c delay t q r row := by
  have named := (sep.named c mem).1
  have retry : ∀ d ∈ declareRetryTopology (.of c.name 0) delay (c.deadLetterTo D.cfg),
      d ∈ c.program D.cfg patterns := mem_program_of_retry named on
  obtain ⟨q, -, home, -⟩ := planned.place? (placed _ (mem_program_of_queue named))
    (queue_of_mem mem (p := (c.name, c.args)) (by simp [Component.queues]))
  obtain ⟨r, row, leads, at_r, shape⟩ := planned.place?
    (placed _ (retry (.queue (c.name ++ lit ".Retry") (retryArgs delay (c.deadLetterTo D.cfg)))
      (by simp [declareRetryTopology, Consumer.RetrySpec.of])))
    (queue_of_mem mem (p := (_, retryArgs delay (c.deadLetterTo D.cfg)))
      (by simp [Component.queues, on]))
  refine ⟨q, r, row, home, leads, at_r, shape, fun key => ?_⟩
  have bound := placed _ (retry (.bind (c.name ++ lit ".Retry") (lit "#")
    (c.name ++ lit ".Retry.Exchange")) (by simp [declareRetryTopology, Consumer.RetrySpec.of]))
  apply planned.targets_bound bound leads
  · apply Deployment.allows_exchange mem
    cases c <;> simp [Component.exchanges, on]
  · rw [splitDots_hash]
    exact topicMatch_all _
  · intro bd binds _
    rw [sep.retry_binding mem binds]

theorem ttlArg_retryArgs (pos : 0 < delay) (back : Bytes) :
    ttlArg (retryArgs delay back) = some (some (milliseconds delay)) := by
  have nonneg := Deployment.milliseconds_nonneg (Int.le_of_lt pos)
  simp [ttlArg, intArg, retryArgs, nonneg]

theorem msDuration_pos (least : 1000000 ≤ delay) (fits : delay < 9223372036854775808) :
    0 < msDuration (milliseconds delay) := by
  have whole : milliseconds delay = delay / 1000000 := Int.tdiv_eq_ediv_of_nonneg (by omega)
  have small : milliseconds delay * 1000000 < 9223372036854775808 := by
    rw [whole]
    omega
  have large : 1000000 ≤ milliseconds delay * 1000000 := by
    rw [whole]
    omega
  rw [msDuration, Int.bmod_eq_of_le (by omega) (by omega)]
  omega

/-- Where and when a message leaves the retry queue. -/
theorem Retries.row_eq {row : Queue} (retries : Retries D c delay t q r row) :
    row.name = c.name ++ lit ".Retry" ∧ row.dlx = some (c.deadLetterTo D.cfg) ∧
      row.dlxKey = none := by
  have first : (lit "x-dead-letter-exchange" == lit "x-message-ttl") = false := by decide +kernel
  have second : (lit "x-dead-letter-routing-key" == lit "x-message-ttl") = false := by
    decide +kernel
  have third : (lit "x-dead-letter-routing-key" == lit "x-dead-letter-exchange") = false := by
    decide +kernel
  refine ⟨congrArg Queue.name retries.shape, (congrArg Queue.dlx retries.shape).trans ?_,
    (congrArg Queue.dlxKey retries.shape).trans ?_⟩
  · simp [queueOf, stringArg, retryArgs, List.lookup_cons, first]
  · simp [queueOf, stringArg, retryArgs, List.lookup_cons, second, third]

theorem Retries.ttl_pos {row : Queue} (retries : Retries D c delay t q r row)
    (least : 1000000 ≤ delay) (fits : delay < 9223372036854775808) : 0 < row.ttl := by
  have ttl := congrArg Queue.ttl retries.shape
  simp only [queueOf, ttlArg_retryArgs (show 0 < delay by omega)] at ttl
  have same : row.ttl = msDuration (milliseconds delay) := ttl
  rw [same]
  exact msDuration_pos least fits

/-- In any later state of a bus, as long as nobody deletes its queues: a service that has declared
its topology gets each failed request back, and nobody else does. The copy on its retry exchange
goes to its retry queue alone, whatever its key. There its time is positive, unless the delay is
under a millisecond; and when it is over, the request becomes one message in the service's own
queue, under the same key. -/
theorem retried_request_returns {svc : Rpc.Service} (sep : D.Separate)
    (reach : (D.plan sep).system.Reachable s) (mem : .service svc ∈ D.components)
    (retries : svc.opts.retries = true)
    (placed : ∀ d ∈ (Component.service svc).program D.cfg [], Has s.layout d)
    {acts : List {a : Order × Act // (D.plan sep).Follows a.2}}
    (ran : (D.plan sep).system.run acts s = some t)
    (kept : ∀ a ∈ acts, ∀ p ∈ (Component.service svc).queues D.cfg,
      a.1.2 ≠ .deleteQueue p.1) :
    ∃ q r row, t.names.lookup svc.name = some q ∧
      t.names.lookup (svc.name ++ lit ".Retry") = some r ∧ t.queues[r]? = some row ∧
      (∀ key, targets t (svc.name ++ lit ".Retry.Exchange") key = [r]) ∧
      (1000000 ≤ svc.opts.retry.delay → svc.opts.retry.delay < 9223372036854775808 → 0 < row.ttl) ∧
      ∀ m word, dot ∉ word → m.key = lit "REQUEST." ++ svc.name ++ lit "." ++ word →
        targets t D.cfg.busExchange m.key = [q] ∧
        ∀ reason, deadLetter t r m reason = (routeTo D.cfg.busExchange m.key
          { m.pub with
            xDeath := ⟨reason, svc.name ++ lit ".Retry", m.exchange, m.key⟩ :: m.pub.xDeath } t q,
          [t.nextMsg]) := by
  have on : (Component.service svc).delay? = some svc.opts.retry.delay := by
    simp [Component.delay?, retries]
  have later := planned_of_reachable (reach.run ran)
  have placed' := placed_run mem reach placed ran kept
  obtain ⟨q, r, row, ready⟩ := retries_of_placed mem on later placed'
  refine ⟨q, r, row, ready.home, ready.leads, ready.at_r, ready.parks, ready.ttl_pos, ?_⟩
  intro m word simple keyed
  have named := (sep.named _ mem).1
  have bus : (D.plan sep).exchange D.cfg.busExchange = some .topic :=
    Deployment.allows_core (by simp [coreExchanges])
  have bound : Has t.layout (.bind svc.name svc.binding D.cfg.busExchange) :=
    placed' _ (by simp [Deployment.program_service named])
  have one : targets t D.cfg.busExchange m.key = [q] := by
    apply later.targets_bound bound ready.home bus
    · exact (svc.binding_iff _).mpr ⟨word, simple, keyed⟩
    · intro bd binds hit
      rw [keyed] at hit
      exact sep.bus_binding simple binds hit
  refine ⟨one, fun reason => ?_⟩
  obtain ⟨name, dlx, keyless⟩ := ready.row_eq
  obtain ⟨⟨ex, found, -⟩, -⟩ := bound
  rw [deadLetter_eq_one ready.at_r dlx keyless (Option.isSome_iff_exists.mpr ⟨ex, found⟩) one, name]
  rfl

/-- The connection is lost after the service has come up. -/
theorem retried_request_returns_sample : ∃ t q r,
    t.names.lookup (lit "a.b") = some q ∧ t.names.lookup (lit "a.b" ++ lit ".Retry") = some r ∧
      ∀ key, targets t (lit "a.b" ++ lit ".Retry.Exchange") key = [r] := by
  have mem : Component.service sampleService ∈ sample.components := List.mem_cons_self
  obtain ⟨reach, placed⟩ := placed_connected sample_separate (.component mem [])
  obtain ⟨q, r, row, home, leads, -, parks, -⟩ := retried_request_returns sample_separate reach mem
    (by decide) placed (run_loss _ _) (by simp [loss])
  exact ⟨_, q, r, home, leads, parks⟩

/-- A listener that has declared its topology gets each failed event back, under any key, and no
other subscriber sees it again. -/
theorem retried_event_returns {name : Bytes} {retry : ListenerRetry} {patterns : List Bytes}
    (sep : D.Separate) (reach : (D.plan sep).system.Reachable s)
    (mem : .listener name retry ∈ D.components) (retries : 0 < retry.1.maxRetries)
    (placed : ∀ d ∈ (Component.listener name retry).program D.cfg patterns, Has s.layout d)
    {acts : List {a : Order × Act // (D.plan sep).Follows a.2}}
    (ran : (D.plan sep).system.run acts s = some t)
    (kept : ∀ a ∈ acts, ∀ p ∈ (Component.listener name retry).queues D.cfg,
      a.1.2 ≠ .deleteQueue p.1) :
    ∃ q r row, t.names.lookup name = some q ∧
      t.names.lookup (name ++ lit ".Retry") = some r ∧ t.queues[r]? = some row ∧
      (∀ key, targets t (name ++ lit ".Retry.Exchange") key = [r]) ∧
      (1000000 ≤ retry.1.delay → retry.1.delay < 9223372036854775808 → 0 < row.ttl) ∧
      ∀ m reason, deadLetter t r m reason = (routeTo (name ++ lit ".Redelivery") m.key
        { m.pub with
          xDeath := ⟨reason, name ++ lit ".Retry", m.exchange, m.key⟩ :: m.pub.xDeath } t q,
        [t.nextMsg]) := by
  have on : (Component.listener name retry).delay? = some retry.1.delay := by
    simp [Component.delay?, retries]
  have later := planned_of_reachable (reach.run ran)
  have placed' := placed_run mem reach placed ran kept
  obtain ⟨q, r, row, ready⟩ := retries_of_placed mem on later placed'
  refine ⟨q, r, row, ready.home, ready.leads, ready.at_r, ready.parks, ready.ttl_pos, ?_⟩
  intro m reason
  have named := (sep.named _ mem).1
  have topic : (D.plan sep).exchange (name ++ lit ".Redelivery") = some .topic :=
    Deployment.allows_exchange mem (by simp [Component.exchanges, on, Component.name])
  have bound : Has t.layout (.bind name (lit "#") (name ++ lit ".Redelivery")) := by
    apply placed'
    rw [Deployment.program_listener named, if_pos ⟨retries, named⟩]
    simp
  have one : targets t (name ++ lit ".Redelivery") m.key = [q] := by
    apply later.targets_bound bound ready.home topic
    · rw [splitDots_hash]
      exact topicMatch_all _
    · intro bd binds _
      rw [sep.redelivery_binding mem binds]
  obtain ⟨row_name, dlx, keyless⟩ := ready.row_eq
  obtain ⟨⟨ex, found, -⟩, -⟩ := bound
  rw [deadLetter_eq_one ready.at_r dlx keyless (Option.isSome_iff_exists.mpr ⟨ex, found⟩) one,
    row_name]
  rfl

theorem retried_event_returns_sample : ∃ t q r,
    t.names.lookup (lit "audit") = some q ∧ t.names.lookup (lit "audit" ++ lit ".Retry") = some r ∧
      ∀ key, targets t (lit "audit" ++ lit ".Retry.Exchange") key = [r] := by
  have mem : Component.listener (lit "audit") samplePolicy ∈ sample.components :=
    List.mem_cons_of_mem _ List.mem_cons_self
  obtain ⟨reach, placed⟩ := placed_connected sample_separate (.component mem [lit "#"])
  obtain ⟨q, r, row, home, leads, -, parks, -⟩ := retried_event_returns sample_separate reach mem
    (by decide) placed (run_loss _ _) (by simp [loss])
  exact ⟨_, q, r, home, leads, parks⟩

end Protobus.Topology
