import Protobus.Fakebroker.Layout
import Mathlib.Data.List.Basic

/-!
# Declarations that follow a plan

The processes of a bus declare the same things again and again, at each start and each
reconnection, and a broker closes the channel of a declaration that differs from an earlier one. A
plan says how each name is declared. As long as all declarations follow one plan, the layout of the
broker does: no declaration is refused for what was declared before, and every binding is planned.
-/
namespace Protobus.Topology
open Library Table Fakebroker

/-! ## Generated names -/

theorem lit_inj {a b : String} (same : lit a = lit b) : a = b := by
  apply String.toByteArray_inj.mp
  apply ByteArray.ext
  exact Array.toList_inj.mp same

/-- Zeros in front do not change a number. -/
theorem ofDigitChars_padded (k n : Nat) :
    Nat.ofDigitChars 10 (List.replicate k '0' ++ Nat.toDigits 10 n) 0 = n := by
  have zeros : (List.replicate k '0').foldl
      (fun sofar c => 10 * sofar + (c.toNat - '0'.toNat)) 0 = 0 := by
    induction k with
    | zero => rfl
    | succ k ih => simpa [List.replicate_succ] using ih
  rw [Nat.ofDigitChars, List.foldl_append, zeros]
  exact Nat.ofDigitChars_toDigits (by omega) (by omega)

theorem generatedName_inj {a b : Nat} (same : generatedName a = generatedName b) : a = b := by
  have chars := congrArg String.toList (lit_inj same)
  simp only [String.toList_append, String.toList_ofList, List.append_assoc] at chars
  have value := congrArg (Nat.ofDigitChars 10 · 0) (List.append_cancel_left chars)
  simpa [toString, Nat.repr, ofDigitChars_padded] using value

theorem generatedName_begins (n : Nat) : lit "amq.gen-" <+: generatedName n := by
  simp [generatedName, lit]

theorem generatedName_ne_nil (n : Nat) : generatedName n ≠ [] := by
  intro empty
  have begins := generatedName_begins n
  rw [empty, List.prefix_nil] at begins
  have text : "amq.gen-" = "" := lit_inj begins
  exact absurd text (by decide)

/-! ## Declarations -/

/-- What is asked of a channel. Exchanges are durable, and so are the queues that have a name; one
that the broker names is exclusive and goes with its consumers. -/
inductive Decl
  | exchange (name : Bytes) (kind : Kind)
  | queue (name : Bytes) (args : List (Bytes × Arg))
  | anonymous
  | bind (name key exchange : Bytes)
deriving DecidableEq

def Decl.act (k : Nat) : Decl → Act
  | .exchange name kind => .exchangeDeclare k name kind true false false
  | .queue name args => .queueDeclare k name true false false args
  | .anonymous => .queueDeclare k [] false true true []
  | .bind name key ex => .queueBind k name key ex

def ttlArg (args : List (Bytes × Arg)) : Option (Option Int) :=
  intArg args (lit "x-message-ttl") fun n => 0 ≤ n

def priorityArg (args : List (Bytes × Arg)) : Option (Option Int) :=
  intArg args (lit "x-max-priority") fun n => 0 ≤ n && n ≤ 255

/-- A queue as it is declared first. -/
def queueOf (name : Bytes) (durable autoDelete exclusive : Bool) (owner : Option Nat)
    (args : List (Bytes × Arg)) : Queue where
  name
  durable
  autoDelete
  exclusive
  owner
  args
  ttl := msDuration ((ttlArg args).join.getD 0)
  dlx := stringArg args (lit "x-dead-letter-exchange")
  dlxKey := stringArg args (lit "x-dead-letter-routing-key")
  maxPriority := ((priorityArg args).join.getD 0).toNat

/-- How each name is declared, and what is bound to what. -/
structure Plan where
  exchange : Bytes → Option Kind
  queue : Bytes → Option (List (Bytes × Arg))
  binding : Bytes → Binding → Prop
  exchange_named : ∀ {name kind}, exchange name = some kind → name ≠ []
  exchange_known : ∀ {name text}, exchange name ≠ some (.unknown text)
  queue_named : ∀ {name args}, queue name = some args → name ≠ [] ∧ ¬ lit "amq.gen-" <+: name
  queue_accepted : ∀ {name args}, queue name = some args →
    (ttlArg args).isSome = true ∧ (priorityArg args).isSome = true
  binding_named : ∀ {name bd}, binding name bd → name ≠ []

variable {plan : Plan} {l : Layout} {s t : State} {k q : Nat} {queue : Queue} {chan : Channel}
  {d : Decl}

def Plan.Allows (plan : Plan) : Decl → Prop
  | .exchange name kind => plan.exchange name = some kind
  | .queue name args => plan.queue name = some args
  | .anonymous => True
  | .bind name key exchange => plan.binding exchange ⟨name, key⟩

/-- Everybody declares by the plan. Queues may be deleted. -/
def Plan.Follows (plan : Plan) (a : Act) : Prop :=
  a.touches = true → (∃ k d, a = d.act k ∧ plan.Allows d) ∨ ∃ name, a = .deleteQueue name

def Plan.system (plan : Plan) : System State {a : Order × Act // plan.Follows a.2} where
  init s := s = {}
  step s a := some (perform a.1.1 s a.1.2)

structure Planned (plan : Plan) (l : Layout) : Prop where
  exchanges : ∀ ex ∈ l.exchanges, ex.name = [] ∨
    plan.exchange ex.name = some ex.kind ∧
    (ex.durable = true ∧ ex.autoDelete = false ∧ ex.intern = false) ∧
    ∀ bd ∈ ex.bindings, plan.binding ex.name bd
  unique : (l.exchanges.map Exchange.name).Nodup
  shapes : ∀ row ∈ l.shapes,
    (∃ args, plan.queue row.name = some args ∧
      row = queueOf row.name true false false none args) ∨
    ∃ n ≤ l.nameSeq, row.name = generatedName n
  names : ∀ p ∈ l.names, ∃ row, l.shapes[p.2]? = some row ∧ row.name = p.1

theorem Planned.without (planned : Planned plan l) (dropped : List Bytes) :
    Planned plan (l.without dropped) := by
  refine ⟨?_, ?_, planned.shapes, fun p mem => planned.names p (List.mem_of_mem_filter mem)⟩
  swap
  · simp only [Layout.without, List.map_map]
    exact planned.unique
  intro ex mem
  obtain ⟨old, there, rfl⟩ := List.mem_map.mp mem
  obtain default | ⟨kind, flags, bindings⟩ := planned.exchanges old there
  · exact .inl default
  · exact .inr ⟨kind, flags, fun bd mem => bindings bd (List.mem_of_mem_filter mem)⟩

/-- A queue that goes with a connection is not in the plan. -/
theorem Planned.soft {name : Bytes} (planned : Planned plan l) (soft : l.Soft name) :
    plan.queue name = none := by
  obtain ⟨row, mem, rfl, goes⟩ := soft
  obtain ⟨args, -, eq⟩ | ⟨n, -, eq⟩ := planned.shapes row mem
  · rw [eq] at goes
    simp [queueOf] at goes
  · cases found : plan.queue row.name with
    | none => rfl
    | some args => exact absurd (eq ▸ generatedName_begins n) (plan.queue_named found).2

theorem Planned.exchange? {name : Bytes} {ex : Exchange} (planned : Planned plan s.layout)
    (named : name ≠ []) (found : s.exchange? name = some ex) :
    ex.name = name ∧ plan.exchange name = some ex.kind ∧
      (ex.durable = true ∧ ex.autoDelete = false ∧ ex.intern = false) ∧
      ∀ bd ∈ ex.bindings, plan.binding name bd := by
  have same : ex.name = name := by simpa using List.find?_some found
  subst same
  have fine := planned.exchanges ex (List.mem_of_find?_eq_some found)
  exact ⟨rfl, fine.resolve_left named⟩

/-- An exchange of the plan is of its kind, and has bindings of the plan. -/
theorem Planned.of_exchange {name : Bytes} {kind : Kind} {ex : Exchange}
    (planned : Planned plan s.layout) (allowed : plan.exchange name = some kind)
    (found : s.exchange? name = some ex) :
    ex.kind = kind ∧ ∀ bd ∈ ex.bindings, plan.binding name bd := by
  obtain ⟨-, same, -, bindings⟩ := planned.exchange? (plan.exchange_named allowed) found
  exact ⟨Option.some.inj (same.symm.trans allowed), bindings⟩

/-- A name leads to a queue of that name, as it was declared. -/
theorem Planned.queue? {name : Bytes} (planned : Planned plan s.layout)
    (found : s.names.lookup name = some q) :
    ∃ queue, s.queues[q]? = some queue ∧ queue.name = name ∧ ∀ args, plan.queue name = some args →
      queue.shape = queueOf name true false false none args := by
  obtain ⟨row, at_q, named⟩ := planned.names (name, q) (mem_of_lookup found)
  simp only [State.layout, List.getElem?_map, Option.map_eq_some_iff] at at_q
  obtain ⟨queue, at_q, rfl⟩ := at_q
  refine ⟨queue, at_q, named, fun args planned_name => ?_⟩
  have mem : queue.shape ∈ s.layout.shapes := List.mem_map_of_mem (List.mem_of_getElem? at_q)
  have same : queue.shape.name = name := named
  obtain ⟨args', found', eq⟩ | ⟨n, -, eq⟩ := planned.shapes _ mem
  · rw [same, planned_name] at found'
    cases found'
    rw [same] at eq
    exact eq
  · rw [same] at eq
    exact absurd (eq ▸ generatedName_begins n) (plan.queue_named planned_name).2

/-! ## Declarations of a plan succeed -/

def addQueue (s : State) (queue : Queue) : State :=
  { s with
    queues := s.queues ++ [queue]
    names := s.names ++ [(queue.name, s.queues.length)] }

/-- What a declaration does that is not refused. -/
def place (conn : Nat) (s : State) : Decl → State
  | .exchange name kind =>
    if (s.exchange? name).isSome then s
    else { s with exchanges := s.exchanges ++ [⟨name, kind, true, false, false, []⟩] }
  | .queue name args =>
    if (s.names.lookup name).isSome then s
    else addQueue s (queueOf name true false false none args)
  | .anonymous =>
    addQueue { s with nameSeq := s.nameSeq + 1 }
      (queueOf (generatedName (s.nameSeq + 1)) false true true (some conn) [])
  | .bind name key exchange =>
    { s with exchanges := s.exchanges.map fun ex =>
        if ex.name = exchange ∧ ⟨name, key⟩ ∉ ex.bindings then
          { ex with bindings := ex.bindings ++ [⟨name, key⟩] }
        else ex }

/-- A binding needs its exchange and its queue. -/
def Ready (s : State) : Decl → Prop
  | .bind name _ exchange =>
    (s.exchange? exchange).isSome = true ∧ (s.names.lookup name).isSome = true
  | _ => True

theorem queueDeclare_new {name : Bytes} {args : List (Bytes × Arg)} (order : Order) (conn : Nat)
    (durable autoDelete exclusive : Bool) (named : name ≠ [])
    (fresh : (s.names.lookup name).bind (fun q => s.queues[q]?) = none)
    (accepted : (ttlArg args).isSome = true ∧ (priorityArg args).isSome = true) :
    queueDeclare order s k conn name durable autoDelete exclusive args =
      addQueue s (queueOf name durable autoDelete exclusive (if exclusive then some conn else none)
        args) := by
  obtain ⟨ttl, ttl_eq⟩ := Option.isSome_iff_exists.mp accepted.1
  obtain ⟨priority, priority_eq⟩ := Option.isSome_iff_exists.mp accepted.2
  have ttl_eq' := ttl_eq
  have priority_eq' := priority_eq
  simp only [ttlArg, priorityArg] at ttl_eq' priority_eq'
  simp only [queueDeclare, named, if_false, fresh, ttl_eq', priority_eq']
  simp [addQueue, queueOf, ttl_eq, priority_eq]

/-- The name the broker gives is new. -/
theorem Planned.fresh (planned : Planned plan s.layout) :
    s.names.lookup (generatedName (s.nameSeq + 1)) = none := by
  cases found : s.names.lookup (generatedName (s.nameSeq + 1)) with
  | none => rfl
  | some q =>
    obtain ⟨queue, at_q, named, -⟩ := planned.queue? found
    have mem : queue.shape ∈ s.layout.shapes := List.mem_map_of_mem (List.mem_of_getElem? at_q)
    obtain ⟨args, planned_name, -⟩ | ⟨n, le, eq⟩ := planned.shapes _ mem
    · have begins := generatedName_begins (s.nameSeq + 1)
      rw [← named] at begins
      exact absurd begins (plan.queue_named planned_name).2
    · have same := generatedName_inj (named.symm.trans eq)
      have le : n ≤ s.nameSeq := le
      omega

theorem perform_eq_place (planned : Planned plan s.layout) (order : Order)
    (at_k : s.channels[k]? = some chan) (opened : chan.closed = false)
    (allowed : plan.Allows d) (ready : Ready s d) :
    perform order s (d.act k) = place chan.conn s d := by
  cases d with
  | exchange name kind =>
    simp only [Decl.act, perform, onChannel, at_k, opened, Bool.false_eq_true, if_false,
      exchangeDeclare, place]
    cases found : s.exchange? name with
    | none =>
      cases kind with
      | unknown text => exact absurd allowed plan.exchange_known
      | direct | topic | fanout => simp
    | some ex =>
      obtain ⟨-, kind_eq, flags, -⟩ := planned.exchange? (plan.exchange_named allowed) found
      rw [allowed] at kind_eq
      cases kind_eq
      simp [flags]
  | queue name args =>
    simp only [Decl.act, perform, onChannel, at_k, opened, Bool.false_eq_true, if_false, place]
    cases found : s.names.lookup name with
    | none =>
      rw [queueDeclare_new order _ _ _ _ (plan.queue_named allowed).1 (by rw [found]; rfl)
        (plan.queue_accepted allowed)]
      simp
    | some q =>
      obtain ⟨queue, at_q, -, shaped⟩ := planned.queue? found
      have shape := shaped args allowed
      simp only [Queue.shape, queueOf, Queue.mk.injEq] at shape
      obtain ⟨-, durable, autoDelete, exclusive, -, args_eq, -⟩ := shape
      have same : args.isPerm args = true := List.isPerm_iff.mpr (.refl args)
      simp [queueDeclare, (plan.queue_named allowed).1, found, at_q, durable, autoDelete, exclusive,
        args_eq, same]
  | anonymous =>
    have fresh := planned.fresh
    have made : queueDeclare order { s with nameSeq := s.nameSeq + 1 } k chan.conn
        (generatedName (s.nameSeq + 1)) false true true [] = _ :=
      queueDeclare_new order chan.conn false true true (generatedName_ne_nil _)
        (by rw [fresh]; rfl) ⟨rfl, rfl⟩
    have counted : queueDeclare order s k chan.conn [] false true true [] =
        queueDeclare order { s with nameSeq := s.nameSeq + 1 } k chan.conn
          (generatedName (s.nameSeq + 1)) false true true [] := by
      simp [queueDeclare, generatedName_ne_nil]
    simp only [Decl.act, perform, onChannel, at_k, opened, Bool.false_eq_true, if_false, place]
    rw [counted, made]
    simp
  | bind name key exchange =>
    have named := plan.binding_named allowed
    obtain ⟨exists_ex, exists_q⟩ := ready
    obtain ⟨ex, ex_eq⟩ := Option.isSome_iff_exists.mp exists_ex
    obtain ⟨q, q_eq⟩ := Option.isSome_iff_exists.mp exists_q
    simp [Decl.act, perform, onChannel, at_k, opened, queueBind, place, ex_eq, q_eq, named]

/-! ## The layout follows the plan -/

theorem Planned.addQueue (planned : Planned plan s.layout)
    (fine : (∃ args, plan.queue queue.name = some args ∧
        queue = queueOf queue.name true false false none args) ∨
      ∃ n ≤ s.nameSeq, queue.name = generatedName n)
    (bare : queue.shape = queue) : Planned plan (Topology.addQueue s queue).layout := by
  refine ⟨planned.exchanges, planned.unique, ?_, ?_⟩
  · intro row mem
    simp only [State.layout, Topology.addQueue, List.map_append, List.map_singleton,
      List.mem_append, List.mem_singleton, bare] at mem
    obtain old | rfl := mem
    · exact planned.shapes row old
    · exact fine
  · intro p mem
    simp only [State.layout, Topology.addQueue, List.map_append, List.map_singleton,
      List.mem_append, List.mem_singleton] at mem ⊢
    obtain old | rfl := mem
    · obtain ⟨row, at_p, named⟩ := planned.names p old
      exact ⟨row, getElem?_concat_of_some at_p, named⟩
    · exact ⟨queue.shape, by simp, rfl⟩

theorem place_planned (planned : Planned plan s.layout) (allowed : plan.Allows d) (conn : Nat) :
    Planned plan (place conn s d).layout := by
  cases d with
  | exchange name kind =>
    simp only [place]
    split
    · exact planned
    · next absent =>
      refine ⟨?_, ?_, planned.shapes, planned.names⟩
      · intro ex mem
        obtain old | rfl := (List.mem_append.mp mem).imp id List.mem_singleton.mp
        · exact planned.exchanges ex old
        · exact .inr ⟨allowed, ⟨rfl, rfl, rfl⟩, by simp⟩
      · have new : name ∉ s.exchanges.map Exchange.name := by
          intro mem
          obtain ⟨ex, there, rfl⟩ := List.mem_map.mp mem
          apply absent
          rw [State.exchange?, List.find?_isSome]
          exact ⟨ex, there, by simp⟩
        simp only [State.layout, List.map_append, List.map_singleton]
        exact List.nodup_append_comm.mp (List.nodup_cons.mpr ⟨new, planned.unique⟩)
  | queue name args =>
    simp only [place]
    split
    · exact planned
    · exact planned.addQueue (.inl ⟨args, allowed, rfl⟩) rfl
  | anonymous =>
    have counted : Planned plan { s with nameSeq := s.nameSeq + 1 }.layout := by
      refine ⟨planned.exchanges, planned.unique, fun row mem => ?_, planned.names⟩
      obtain fine | ⟨n, le, eq⟩ := planned.shapes row mem
      · exact .inl fine
      · exact .inr ⟨n, Nat.le_succ_of_le le, eq⟩
    exact counted.addQueue (.inr ⟨s.nameSeq + 1, Nat.le_refl _, rfl⟩) rfl
  | bind name key exchange =>
    refine ⟨?_, ?_, planned.shapes, planned.names⟩
    swap
    · have same : (place conn s (.bind name key exchange)).exchanges.map Exchange.name =
          s.exchanges.map Exchange.name := by
        simp only [place, List.map_map]
        apply List.map_congr_left
        intro ex _
        simp only [Function.comp_apply]
        split <;> rfl
      exact same ▸ planned.unique
    intro ex mem
    obtain ⟨old, there, rfl⟩ := List.mem_map.mp mem
    have fine := planned.exchanges old there
    split
    · next new =>
      obtain default | ⟨kind, flags, bindings⟩ := fine
      · exact .inl default
      · refine .inr ⟨kind, flags, fun bd mem => ?_⟩
        obtain before | rfl := (List.mem_append.mp mem).imp id List.mem_singleton.mp
        · exact bindings bd before
        · rw [new.1]
          exact allowed
    · exact fine

/-- On a channel that is closed nothing is declared. -/
theorem perform_closed (order : Order) (d : Decl)
    (closed : ∀ chan, s.channels[k]? = some chan → chan.closed = true) :
    perform order s (d.act k) = s := by
  have idle : ∀ f : Channel → State, onChannel s k f = s := by
    intro f
    unfold onChannel
    split
    · rfl
    · next chan at_k => simp [closed chan at_k]
  cases d <;> exact idle _

/-- A binding is refused if its exchange or its queue is missing. -/
theorem perform_not_ready (order : Order) (at_k : s.channels[k]? = some chan)
    (opened : chan.closed = false) (unready : ¬ Ready s d) :
    perform order s (d.act k) = shutdown order s k := by
  cases d with
  | bind name key exchange =>
    have refused : (s.exchange? exchange).isNone ∨ exchange = [] ∨
        (s.names.lookup name).isNone := by
      by_contra fine
      apply unready
      simp only [not_or, Bool.not_eq_true, Option.isNone_eq_false_iff] at fine
      exact ⟨fine.1, fine.2.2⟩
    simp only [Decl.act, perform, onChannel, at_k, opened, Bool.false_eq_true, if_false, queueBind]
    rw [if_pos refused]
  | exchange | queue | anonymous => exact absurd trivial unready

/-- What an action that follows the plan does to what is declared: it places a declaration, or takes
out queues. These are queues of a connection or of its consumers, and the one it deletes by name. -/
theorem perform_cases (ok : s.Ok none none []) (planned : Planned plan s.layout) (order : Order)
    {a : Act} (follows : plan.Follows a) :
    (∃ conn d, plan.Allows d ∧ perform order s a = place conn s d) ∨
    ∃ dropped, (perform order s a).layout = s.layout.without dropped ∧
      ∀ name ∈ dropped, s.layout.Soft name ∨ a = .deleteQueue name := by
  have lost : s.Loses (perform order s a) → ∃ dropped,
      (perform order s a).layout = s.layout.without dropped ∧
        ∀ name ∈ dropped, s.layout.Soft name ∨ a = .deleteQueue name := by
    rintro ⟨dropped, eq, soft⟩
    exact ⟨dropped, eq, fun name mem => .inl (soft name mem)⟩
  cases touches : a.touches with
  | false => exact .inr (lost (perform_loses ok order touches))
  | true =>
    obtain ⟨k, d, rfl, allowed⟩ | ⟨name, rfl⟩ := follows touches
    · by_cases opened : ∃ chan, s.channels[k]? = some chan ∧ chan.closed = false
      · obtain ⟨chan, at_k, opened⟩ := opened
        by_cases ready : Ready s d
        · exact .inl ⟨chan.conn, d, allowed,
            perform_eq_place planned order at_k opened allowed ready⟩
        · rw [perform_not_ready order at_k opened ready] at lost ⊢
          exact .inr (lost (perform_loses ok order (a := .close k) rfl))
      · have idle : perform order s (d.act k) = s := by
          apply perform_closed
          intro chan at_k
          by_contra no
          exact opened ⟨chan, at_k, by simpa using no⟩
        exact .inr (lost (.of_eq (by rw [idle])))
    · right
      rw [perform]
      cases found : s.names.lookup name with
      | none => exact ⟨[], by simp, by simp⟩
      | some q =>
        obtain ⟨queue, at_q, same, -⟩ := planned.queue? found
        exact ⟨[name], by rw [Option.elim_some, deleteQueue_layout at_q, same], by simp⟩

theorem Plan.ok_of_reachable (reach : plan.system.Reachable s) : s.Ok none none [] := by
  apply reach.invariant
  · rintro s rfl
    exact State.Ok.init
  · rintro s ⟨⟨order, a⟩, follows⟩ t - ok step
    cases step
    exact (perform_edits ok order a).ok ok

theorem perform_planned (ok : s.Ok none none []) (planned : Planned plan s.layout) (order : Order)
    {a : Act} (follows : plan.Follows a) : Planned plan (perform order s a).layout := by
  obtain ⟨conn, d, allowed, eq⟩ | ⟨dropped, eq, -⟩ := perform_cases ok planned order follows
  · rw [eq]
    exact place_planned planned allowed conn
  · rw [eq]
    exact planned.without dropped

theorem planned_of_reachable (reach : plan.system.Reachable s) : Planned plan s.layout := by
  apply reach.invariant
  · rintro s rfl
    refine ⟨?_, by simp [State.layout], by simp [State.layout], by simp [State.layout]⟩
    intro ex mem
    obtain rfl := List.mem_singleton.mp mem
    exact .inl rfl
  · rintro s ⟨⟨order, a⟩, follows⟩ t reach planned step
    cases step
    exact perform_planned (Plan.ok_of_reachable reach) planned order follows

/-! ## What is in place -/

/-- Who publishes to the exchange reaches the queue. -/
def Has (l : Layout) : Decl → Prop
  | .exchange name _ => (l.exchanges.find? fun ex => ex.name = name).isSome = true
  | .queue name _ => (l.names.lookup name).isSome = true
  | .anonymous => True
  | .bind name key exchange =>
    (∃ ex, (l.exchanges.find? fun ex => ex.name = exchange) = some ex ∧
      ⟨name, key⟩ ∈ ex.bindings) ∧ (l.names.lookup name).isSome = true

/-- The queue a declaration is about. -/
def Decl.about : Decl → Option Bytes
  | .queue name _ | .bind name .. => some name
  | _ => none

theorem lookup_filter_of_ne {name : Bytes} {rows : List (Bytes × Nat)} {dropped : List Bytes}
    (kept : name ∉ dropped) :
    (rows.filter fun p => !dropped.contains p.1).lookup name = rows.lookup name := by
  induction rows with
  | nil => rfl
  | cons row rows ih =>
    obtain ⟨key, q⟩ := row
    by_cases gone : key ∈ dropped
    · have apart : (name == key) = false := by
        simpa using fun eq : name = key => kept (eq ▸ gone)
      rw [List.filter_cons_of_neg (by simpa using gone), ih, List.lookup_cons, apart]
    · rw [List.filter_cons_of_pos (by simpa using gone), List.lookup_cons, List.lookup_cons, ih]

theorem Has.without {dropped : List Bytes} (has : Has l d)
    (kept : ∀ name, d.about = some name → name ∉ dropped) : Has (l.without dropped) d := by
  have finds : ∀ name : Bytes, ((l.without dropped).exchanges.find? fun ex => ex.name = name) =
      (l.exchanges.find? fun ex => ex.name = name).map (Exchange.without dropped) := by
    intro name
    rw [Layout.without, List.find?_map]
    rfl
  cases d with
  | exchange name kind =>
    simp only [Has, finds, Option.isSome_map]
    exact has
  | queue name args =>
    simp only [Has, Layout.without, lookup_filter_of_ne (kept name rfl)]
    exact has
  | anonymous => trivial
  | bind name key exchange =>
    obtain ⟨⟨ex, found, bound⟩, there⟩ := has
    refine ⟨⟨ex.without dropped, by rw [finds, found]; rfl,
      List.mem_filter.mpr ⟨bound, by simpa using kept name rfl⟩⟩, ?_⟩
    simp only [Layout.without, lookup_filter_of_ne (kept name rfl)]
    exact there

theorem exchange?_bind (s : State) (name key exchange other : Bytes) (conn : Nat) :
    (place conn s (.bind name key exchange)).exchange? other = (s.exchange? other).map fun ex =>
      if ex.name = exchange ∧ ⟨name, key⟩ ∉ ex.bindings then
        { ex with bindings := ex.bindings ++ [⟨name, key⟩] } else ex := by
  simp only [place, State.exchange?, List.find?_map]
  congr 2
  funext ex
  simp only [Function.comp_apply]
  split <;> rfl

/-- Declarations only add. -/
theorem Has.place {d' : Decl} (has : Has s.layout d) (conn : Nat) :
    Has (Topology.place conn s d').layout d := by
  have exchanges : ∀ {other : Bytes} {ex : Exchange}, s.exchange? other = some ex →
      ∃ ex', (Topology.place conn s d').exchange? other = some ex' ∧
        ∀ bd ∈ ex.bindings, bd ∈ ex'.bindings := by
    intro other ex found
    cases d' with
    | exchange name kind =>
      refine ⟨ex, ?_, fun _ mem => mem⟩
      simp only [Topology.place]
      split
      · exact found
      · simp only [State.exchange?, List.find?_append] at found ⊢
        simp [found]
    | queue name args =>
      refine ⟨ex, ?_, fun _ mem => mem⟩
      simp only [Topology.place]
      split <;> exact found
    | anonymous => exact ⟨ex, found, fun _ mem => mem⟩
    | bind name key exchange =>
      refine ⟨_, by rw [exchange?_bind, found]; rfl, ?_⟩
      intro bd mem
      beta_reduce
      split
      · exact List.mem_append_left _ mem
      · exact mem
  have names : ∀ {other : Bytes}, (s.names.lookup other).isSome = true →
      ((Topology.place conn s d').names.lookup other).isSome = true := by
    intro other found
    have more : ∀ row : Bytes × Nat, ((s.names ++ [row]).lookup other).isSome = true := by
      intro row
      rw [List.lookup_append, Option.isSome_or, found, Bool.true_or]
    cases d' with
    | exchange name kind =>
      simp only [Topology.place]
      split <;> exact found
    | queue name args =>
      simp only [Topology.place]
      split
      · exact found
      · exact more _
    | anonymous => exact more _
    | bind name key exchange => exact found
  cases d with
  | exchange other kind =>
    obtain ⟨ex, found⟩ := Option.isSome_iff_exists.mp has
    obtain ⟨ex', found', -⟩ := exchanges found
    exact Option.isSome_iff_exists.mpr ⟨ex', found'⟩
  | queue other args => exact names has
  | anonymous => trivial
  | bind other key exchange =>
    obtain ⟨⟨ex, found, bound⟩, there⟩ := has
    obtain ⟨ex', found', more⟩ := exchanges found
    exact ⟨⟨ex', found', more _ bound⟩, names there⟩

/-- What is declared is there. -/
theorem place_has (ready : Ready s d) (conn : Nat) : Has (place conn s d).layout d := by
  cases d with
  | exchange name kind =>
    simp only [place]
    split
    · next found => exact found
    · simp [Has, State.layout]
  | queue name args =>
    simp only [place]
    split
    · next found => exact found
    · simp [Has, State.layout, addQueue, List.lookup_append, queueOf]
  | anonymous => trivial
  | bind name key exchange =>
    obtain ⟨exists_ex, there⟩ := ready
    obtain ⟨ex, found⟩ := Option.isSome_iff_exists.mp exists_ex
    have same : ex.name = exchange := by simpa using List.find?_some found
    refine ⟨⟨_, (exchange?_bind s name key exchange exchange conn).trans (by rw [found]; rfl), ?_⟩,
      there⟩
    beta_reduce
    split
    · simp
    · next old => simpa [same] using old

/-- What is there is left as it is. -/
theorem place_eq_self (planned : Planned plan s.layout) (conn : Nat) (has : Has s.layout d)
    (named : d ≠ .anonymous) : place conn s d = s := by
  cases d with
  | exchange name kind =>
    simp only [place]
    exact if_pos has
  | queue name args =>
    simp only [place]
    exact if_pos has
  | anonymous => exact absurd rfl named
  | bind name key exchange =>
    obtain ⟨⟨ex, found, bound⟩, -⟩ := has
    have same : ex.name = exchange := by simpa using List.find?_some found
    have unchanged : (s.exchanges.map fun ex =>
        if ex.name = exchange ∧ ⟨name, key⟩ ∉ ex.bindings then
          { ex with bindings := ex.bindings ++ [⟨name, key⟩] } else ex) = s.exchanges := by
      refine (List.map_congr_left ?_).trans (List.map_id _)
      intro other mem
      refine if_neg fun new => ?_
      -- there is one exchange of the name
      have one := List.inj_on_of_nodup_map planned.unique mem (List.mem_of_find?_eq_some found)
        (new.1.trans same.symm)
      exact new.2 (one ▸ bound)
    simp only [place, unchanged]

/-- What is in place stays, unless a queue is deleted by its name. -/
theorem Has.perform (has : Has s.layout d) (reach : plan.system.Reachable s)
    (named : ∀ name, d.about = some name → (plan.queue name).isSome = true) (order : Order)
    {a : Act} (follows : plan.Follows a)
    (spared : ∀ name, d.about = some name → a ≠ .deleteQueue name) :
    Has (Fakebroker.perform order s a).layout d := by
  have planned := planned_of_reachable reach
  obtain ⟨conn, d', -, eq⟩ | ⟨dropped, eq, why⟩ :=
    perform_cases (Plan.ok_of_reachable reach) planned order follows
  · rw [eq]
    exact has.place conn
  · rw [eq]
    apply has.without
    intro name about mem
    obtain soft | deleted := why name mem
    · have found := named name about
      simp [planned.soft soft] at found
    · exact spared name about deleted

theorem Has.run {acts : List {a : Order × Act // plan.Follows a.2}}
    (has : Has s.layout d) (reach : plan.system.Reachable s)
    (named : ∀ name, d.about = some name → (plan.queue name).isSome = true)
    (ran : plan.system.run acts s = some t)
    (spared : ∀ a ∈ acts, ∀ name, d.about = some name → a.1.2 ≠ .deleteQueue name) :
    Has t.layout d := by
  induction acts generalizing s with
  | nil =>
    cases ran
    exact has
  | cons a acts ih =>
    have next : plan.system.step s a = some (Fakebroker.perform a.1.1 s a.1.2) := rfl
    rw [System.run, next] at ran
    have kept := has.perform reach named a.1.1 a.2 (spared a (by simp))
    exact ih kept (reach.step next) ran fun a mem => spared a (by simp [mem])

/-! ## Programs of declarations -/

/-- The declarations one after another on a channel. One that is refused closes the channel, and
the rest do nothing. -/
def declareAll (order : Order) (k : Nat) (s : State) (ds : List Decl) : State :=
  ds.foldl (fun s d => perform order s (d.act k)) s

theorem reachable_declareAll {ds : List Decl} (reach : plan.system.Reachable s)
    (allowed : ∀ d ∈ ds, plan.Allows d) (order : Order) (k : Nat) :
    plan.system.Reachable (declareAll order k s ds) := by
  induction ds generalizing s with
  | nil => exact reach
  | cons d ds ih =>
    have follows : plan.Follows (d.act k) := fun _ => .inl ⟨k, d, rfl, allowed d (by simp)⟩
    exact ih (reach.step (a := ⟨(order, d.act k), follows⟩) rfl)
      fun d mem => allowed d (by simp [mem])

/-- Each binding comes after its exchange and its queue, where the broker has given `n` names. -/
def Ordered (exs qs : List Bytes) (n : Nat) : List Decl → Prop
  | [] => True
  | .exchange name _ :: ds => Ordered (name :: exs) qs n ds
  | .queue name _ :: ds => Ordered exs (name :: qs) n ds
  | .anonymous :: ds => Ordered exs (generatedName (n + 1) :: qs) (n + 1) ds
  | .bind name _ exchange :: ds => exchange ∈ exs ∧ name ∈ qs ∧ Ordered exs qs n ds

theorem place_channels (conn : Nat) (s : State) (d : Decl) :
    (place conn s d).channels = s.channels := by
  cases d with
  | exchange | queue =>
    simp only [place]
    split <;> rfl
  | anonymous | bind => rfl

/-- A declared name or exchange counts for the rest of the program. -/
theorem Ordered.next {exs qs : List Bytes} {ds : List Decl} (conn : Nat)
    (ordered : Ordered exs qs s.nameSeq (d :: ds))
    (have_exs : ∀ name ∈ exs, (s.exchange? name).isSome = true)
    (have_qs : ∀ name ∈ qs, (s.names.lookup name).isSome = true) :
    Ready s d ∧ ∃ exs' qs', Ordered exs' qs' (place conn s d).nameSeq ds ∧
      (∀ name ∈ exs', ((place conn s d).exchange? name).isSome = true) ∧
      ∀ name ∈ qs', ((place conn s d).names.lookup name).isSome = true := by
  have old_exs : ∀ name ∈ exs, ((place conn s d).exchange? name).isSome = true := fun name mem =>
    Has.place (d := .exchange name .topic) (have_exs name mem) conn
  have old_qs : ∀ name ∈ qs, ((place conn s d).names.lookup name).isSome = true := fun name mem =>
    Has.place (d := .queue name []) (have_qs name mem) conn
  cases d with
  | exchange name kind =>
    have new := place_has (s := s) (d := .exchange name kind) trivial conn
    refine ⟨trivial, name :: exs, qs, ?_, List.forall_mem_cons.mpr ⟨new, old_exs⟩, old_qs⟩
    have same : (place conn s (.exchange name kind)).nameSeq = s.nameSeq := by
      simp only [place]
      split <;> rfl
    rw [same]
    exact ordered
  | queue name args =>
    have new := place_has (s := s) (d := .queue name args) trivial conn
    refine ⟨trivial, exs, name :: qs, ?_, old_exs, List.forall_mem_cons.mpr ⟨new, old_qs⟩⟩
    have same : (place conn s (.queue name args)).nameSeq = s.nameSeq := by
      simp only [place]
      split <;> rfl
    rw [same]
    exact ordered
  | anonymous =>
    refine ⟨trivial, exs, generatedName (s.nameSeq + 1) :: qs, ordered, old_exs,
      List.forall_mem_cons.mpr ⟨?_, old_qs⟩⟩
    simp [place, addQueue, List.lookup_append, queueOf]
  | bind name key exchange =>
    obtain ⟨ex_mem, name_mem, rest⟩ := ordered
    exact ⟨⟨have_exs _ ex_mem, have_qs _ name_mem⟩, exs, qs, rest, old_exs, old_qs⟩

/-- A program of planned declarations is never refused, and leaves in place all it declares and all
there was. -/
theorem declareAll_has (order : Order) {ds : List Decl} {exs qs : List Bytes}
    (planned : Planned plan s.layout) (at_k : s.channels[k]? = some chan)
    (opened : chan.closed = false) (allowed : ∀ d ∈ ds, plan.Allows d)
    (ordered : Ordered exs qs s.nameSeq ds)
    (have_exs : ∀ name ∈ exs, (s.exchange? name).isSome = true)
    (have_qs : ∀ name ∈ qs, (s.names.lookup name).isSome = true) :
    declareAll order k s ds = ds.foldl (place chan.conn) s ∧
    (declareAll order k s ds).channels = s.channels ∧
    Planned plan (declareAll order k s ds).layout ∧
    (∀ d, Has s.layout d → Has (declareAll order k s ds).layout d) ∧
    ∀ d ∈ ds, Has (declareAll order k s ds).layout d := by
  induction ds generalizing s exs qs with
  | nil => exact ⟨rfl, rfl, planned, fun _ has => has, by simp⟩
  | cons d ds ih =>
    obtain ⟨ready, exs', qs', rest, have_exs', have_qs'⟩ :=
      ordered.next chan.conn have_exs have_qs
    have eq := perform_eq_place planned order at_k opened (allowed d (by simp)) ready
    have channels := place_channels chan.conn s d
    have after := ih (place_planned planned (allowed d (by simp)) chan.conn)
      (channels ▸ at_k) (fun d mem => allowed d (by simp [mem])) rest have_exs' have_qs'
    rw [declareAll, List.foldl_cons, List.foldl_cons, eq]
    obtain ⟨places, same, planned', old, new⟩ := after
    refine ⟨places, same.trans channels, planned', fun d' has => old d' (has.place chan.conn), ?_⟩
    intro d' mem
    obtain rfl | mem := List.mem_cons.mp mem
    · exact old d' (place_has ready chan.conn)
    · exact new d' mem

/-- Where all is in place, the program does nothing. -/
theorem declareAll_again (order : Order) {ds : List Decl} (planned : Planned plan s.layout)
    (at_k : s.channels[k]? = some chan) (opened : chan.closed = false)
    (allowed : ∀ d ∈ ds, plan.Allows d) (has : ∀ d ∈ ds, Has s.layout d)
    (named : Decl.anonymous ∉ ds) : declareAll order k s ds = s := by
  induction ds with
  | nil => rfl
  | cons d ds ih =>
    have here := has d (by simp)
    have ready : Ready s d := by
      cases d with
      | bind name key exchange =>
        obtain ⟨⟨ex, found, -⟩, there⟩ := here
        exact ⟨Option.isSome_iff_exists.mpr ⟨ex, found⟩, there⟩
      | exchange | queue | anonymous => trivial
    have eq := perform_eq_place planned order at_k opened (allowed d (by simp)) ready
    rw [declareAll, List.foldl_cons, eq,
      place_eq_self planned chan.conn here fun anon => named (by simp [anon])]
    exact ih (fun d mem => allowed d (by simp [mem])) (fun d mem => has d (by simp [mem]))
      fun mem => named (by simp [mem])

end Protobus.Topology
