import Protobus.Consumer.Model
import Protobus.Topic.Refinement
import Protobus.Wire.Codec
import Protobus.Library.Transition

/-!
# Event listeners

A listener has a consumer, the subscriptions to run for an event, and the patterns to bind its
queue to. `add` records a subscription and its pattern first and asks the broker afterwards;
when the broker refuses, the caller gets the error and the records stay.
-/
namespace Protobus.Lifecycle
open Library Topic Consumer

def errClosed := lit "protobus: closed"

/-- What became of `Bus.attach`. A restore that fails may have installed its channel before,
and a bus that is closed meanwhile closes the consumer as well. -/
inductive Attach
  | attached
  | failed (err : Bytes) (channel : Bool)
  | busClosed

/-- What a consumer remembers between its operations: whether the application wants
deliveries, whether it was closed, and whether it has an open channel. -/
structure ConsumerState where
  consuming : Bool := false
  closed : Bool := false
  channel : Bool := false
  deriving DecidableEq

namespace ConsumerState
variable (c : ConsumerState)

def stopConsuming : ConsumerState := { c with consuming := false }

def close : ConsumerState := { c.stopConsuming with closed := true, channel := false }

/-- `consuming` is set before the attach, whose restore looks at it, and taken back when the
attach fails. -/
def start (a : Attach) : ConsumerState × Option Bytes :=
  if c.closed then (c, some errClosed)
  else match a with
    | .attached => ({ c with consuming := true, channel := true }, none)
    | .failed err channel => ({ c with consuming := false, channel }, some err)
    | .busClosed => (c.close, some errClosed)

/-- Without a channel there is nothing to do: the next restore binds every pattern. -/
def bind (refusal : Option Bytes) : Option Bytes := if c.channel then refusal else none

end ConsumerState

/-- A subscription to events of a type, or of every type when the name is empty. The name is
that of a protobuf message. -/
structure Subscription where
  typeName : Bytes
  handler : Nat
  text : validUTF8 typeName = true
  fits : typeName.length < 2 ^ 63

/-- Subscriptions are known by their address, an index of `heap`. -/
structure Listener where
  queue : Bytes
  lazy : Bool
  heap : List Subscription := []
  all : List Nat := []
  router : Trie Nat := .new
  patterns : List Bytes := []
  started : Bool := false
  consumer : ConsumerState := {}

namespace Listener
variable (l : Listener)

def bindings : List Bytes := l.patterns

def start (a : Attach) : Listener × Option Bytes :=
  if l.started then (l, none)
  else match l.consumer.start a with
    | (c, none) => ({ l with started := true, consumer := c }, none)
    | (c, some err) => ({ l with consumer := c },
        some (lit "protobus: starting event listener " ++ l.queue ++ lit ": " ++ err))

/-- The part of `add` under the lock. -/
def record (pattern : Bytes) (s : Subscription) (all : Bool) : Listener :=
  { l with
    heap := l.heap ++ [s]
    all := if all then l.all ++ [l.heap.length] else l.all
    router := if all then l.router else l.router.add pattern l.heap.length
    patterns := if l.patterns.contains pattern then l.patterns else l.patterns ++ [pattern] }

/-- The attach is the one of a lazy start, and the refusal is the answer of the broker to the
binding, if it comes to them. -/
def add (pattern : Bytes) (s : Subscription) (all : Bool) (a : Attach) (refusal : Option Bytes) :
    Listener × Option Bytes :=
  let fresh := !l.patterns.contains pattern
  let after := l.record pattern s all
  if l.lazy && !l.started then after.start a
  else if fresh && l.started then
    (after, (after.consumer.bind refusal).map fun err =>
      lit "protobus: binding " ++ pattern ++ lit ": " ++ err)
  else (after, none)

def stopConsuming : Listener := { l with consumer := l.consumer.stopConsuming }

def close : Listener := { l with consumer := l.consumer.close }

/-! ## Handling an event -/

def eventDecodeError (type : Bytes) : Failure :=
  lit "HandledError[PROTOCOL_ERROR]: event " ++ type ++ lit " did not decode"

/-- Run the subscriptions of the event's type in order, until one fails. The first component
lists those that ran. -/
def runAll (heap : List Subscription)
    (outcome : Subscription → Wire.Event → Option (Failure × Bool)) (ev : Wire.Event) :
    List Nat → List Nat × HandlerResult
  | [] => ([], {})
  | a :: rest => match heap[a]? with
    | none => runAll heap outcome ev rest
    | some s =>
      if s.typeName ≠ [] ∧ s.typeName ≠ ev.type then runAll heap outcome ev rest
      else match outcome s ev with
        | some (err, handled) => ([a], { err := some err, handled })
        | none => let (ran, res) := runAll heap outcome ev rest
          (a :: ran, res)

/-- The key that the broker routed on is preferred to the topic of the body, which the
publisher controls. -/
def handle (pw : Protowire) (outcome : Subscription → Wire.Event → Option (Failure × Bool))
    (d : Delivery) : List Nat × HandlerResult :=
  match Wire.decodeEvent pw d.body with
  | (_, some _) => ([], { err := some (eventDecodeError (lit "(unknown)")), handled := true })
  | (ev, none) =>
    let matchOn := if d.routingKey = [] then ev.topic else d.routingKey
    runAll l.heap outcome ev (l.router.matchTopic matchOn l.all)

end Listener

/-! ## Runs -/

inductive Action
  | add (pattern : Bytes) (s : Subscription) (all : Bool) (a : Attach) (refusal : Option Bytes)
  | start (a : Attach)
  | stopConsuming
  | close
  /-- The channel is lost, or a restore has made a new one. -/
  | channel (up : Bool)

def step (l : Listener) : Action → Option Listener
  | .add pattern s all a refusal => some (l.add pattern s all a refusal).1
  | .start a => some (l.start a).1
  | .stopConsuming => some l.stopConsuming
  | .close => some l.close
  | .channel up => if l.consumer.closed then none else some { l with consumer.channel := up }

/-- A listener begins without subscriptions, and is lazy when its service has started. -/
def listeners : System Listener Action where
  init l := ∃ queue lazy, l = { queue, lazy }
  step := step

/-- The listener runs the same subscriptions for every delivery. -/
def SameHandlers (pw : Protowire) (l l' : Listener) : Prop :=
  ∀ outcome d a, a ∈ (l'.handle pw outcome d).1 ↔ a ∈ (l.handle pw outcome d).1

/-- The step that follows the registration fails: the lazy start, or the binding of a pattern
that is new to a started listener. -/
def stepFails (l : Listener) (pattern : Bytes) (a : Attach) (refusal : Option Bytes) : Bool :=
  if l.lazy && !l.started then (l.consumer.start a).2.isSome
  else !l.patterns.contains pattern && l.started && (l.consumer.bind refusal).isSome

namespace Listener
variable {l : Listener} {pattern : Bytes} {s : Subscription} {all : Bool} {a : Attach}
  {refusal : Option Bytes}

theorem start_err : (l.start a).2 = none ↔ l.started = true ∨ (l.consumer.start a).2 = none := by
  unfold start
  by_cases started : l.started = true
  · simp [started]
  · simp only [started, Bool.false_eq_true, ↓reduceIte, false_or]
    obtain ⟨c, err⟩ := l.consumer.start a
    cases err <;> simp

theorem start_records : ∃ started consumer, (l.start a).1 = { l with started, consumer } := by
  unfold start
  split
  · exact ⟨l.started, l.consumer, rfl⟩
  · split <;> exact ⟨_, _, rfl⟩

theorem add_records : ∃ started consumer, (l.add pattern s all a refusal).1 =
    { l.record pattern s all with started, consumer } := by
  unfold add
  dsimp only
  split
  · exact start_records
  · split <;> exact ⟨l.started, l.consumer, rfl⟩

/-- An error is returned exactly when that step fails. -/
theorem add_err : (l.add pattern s all a refusal).2 = none ↔
    stepFails l pattern a refusal = false := by
  unfold add stepFails
  split
  · next lazily =>
    have waiting : l.started = false := by simp_all
    rw [start_err]
    simp [record, waiting]
  · dsimp only
    by_cases fresh : (!l.patterns.contains pattern && l.started) = true
    · rw [if_pos fresh, fresh]
      simp [record]
    · rw [if_neg fresh, Bool.eq_false_iff.mpr fresh]
      simp

/-! ## What a registration leaves behind -/

theorem lt_of_mem_runAll {heap : List Subscription}
    {outcome : Subscription → Wire.Event → Option (Failure × Bool)} {ev : Wire.Event}
    {subs : List Nat} {n : Nat} (mem : n ∈ (runAll heap outcome ev subs).1) : n < heap.length := by
  induction subs with
  | nil => simp [runAll] at mem
  | cons a rest ih =>
    rw [runAll] at mem
    split at mem
    · exact ih mem
    · next found =>
      have valid := (List.getElem?_eq_some_iff.mp found).1
      split at mem
      · exact ih mem
      · split at mem
        · simp at mem
          omega
        · rcases List.mem_cons.mp mem with rfl | mem
          · exact valid
          · exact ih mem

/-- When nothing fails, every subscription to the event's type is run. -/
theorem mem_runAll {heap : List Subscription} {ev : Wire.Event} {subs : List Nat} {n : Nat}
    {s : Subscription} (found : heap[n]? = some s) (type : s.typeName = ev.type)
    (mem : n ∈ subs) : n ∈ (runAll heap (fun _ _ => none) ev subs).1 := by
  induction subs with
  | nil => simp at mem
  | cons a rest ih =>
    rw [runAll]
    rcases List.mem_cons.mp mem with rfl | mem
    · simp [found, type]
    · split
      · exact ih mem
      · split
        · exact ih mem
        · exact List.mem_cons_of_mem _ (ih mem)

/-- The delivery of an event of the subscription's type, routed by its pattern. -/
theorem exists_delivery {pw : Protowire} (lawful : pw.Lawful) (pattern : Bytes)
    (s : Subscription) : ∃ d : Delivery, d.routingKey = pattern ∧
      Wire.decodeEvent pw d.body = (⟨s.typeName, [], []⟩, none) := by
  have fits : Wire.Event.Fits ⟨s.typeName, [], []⟩ := ⟨s.fits, by simp, by simp⟩
  refine ⟨{
    routingKey := pattern
    body := Protowire.concat (Wire.Event.fields lawful ⟨s.typeName, [], []⟩ fits) }, rfl, ?_⟩
  exact Wire.decodeEvent_fields lawful _ fits ⟨s.text, rfl⟩

/-- A registered subscription is run for that delivery. -/
theorem mem_handle {pw : Protowire} {adds : List (Bytes × Nat)} {d : Delivery} {n : Nat}
    (router : l.router = Trie.ofAdds adds) (key : d.routingKey = pattern)
    (decoded : Wire.decodeEvent pw d.body = (⟨s.typeName, [], []⟩, none))
    (found : l.heap[n]? = some s) (registered : n ∈ l.all ∨ (pattern, n) ∈ adds) :
    n ∈ (l.handle pw (fun _ _ => none) d).1 := by
  have topic : (if d.routingKey = [] then [] else d.routingKey) = pattern := by
    rw [key]
    split <;> simp_all
  rw [handle, decoded]
  dsimp only
  rw [topic, router]
  refine mem_runAll found rfl (Trie.mem_matchTopic_ofAdds.mpr ?_)
  apply registered.imp_right
  intro mem
  exact List.mem_map.mpr ⟨_, List.mem_filter.mpr ⟨mem, topicMatch_self _⟩, rfl⟩

/-- The router after a registration. -/
theorem record_router {adds : List (Bytes × Nat)} (router : l.router = Trie.ofAdds adds) :
    (l.record pattern s all).router =
      Trie.ofAdds (if all then adds else adds ++ [(pattern, l.heap.length)]) := by
  cases all with
  | true => exact router
  | false =>
    simp only [Bool.false_eq_true, ↓reduceIte, Trie.ofAdds_concat, ← router]
    rfl

/-- A recorded subscription is run, whether its call succeeded or not. -/
theorem record_runs {pw : Protowire} (lawful : pw.Lawful) {adds : List (Bytes × Nat)}
    (router : l.router = Trie.ofAdds adds) :
    ∃ d, l.heap.length ∈ ((l.record pattern s all).handle pw (fun _ _ => none) d).1 := by
  obtain ⟨d, key, decoded⟩ := exists_delivery lawful pattern s
  refine ⟨d, mem_handle (record_router router) key decoded (by simp [record]) ?_⟩
  cases all with
  | true => exact .inl (by simp [record])
  | false => exact .inr (by simp)

theorem mem_record_patterns : pattern ∈ (l.record pattern s all).patterns := by
  by_cases known : pattern ∈ l.patterns <;> simp [record, known]

/-- Its address is new: no delivery ran it before. -/
theorem not_runs_before {pw : Protowire}
    {outcome : Subscription → Wire.Event → Option (Failure × Bool)} {d : Delivery} :
    l.heap.length ∉ (l.handle pw outcome d).1 := by
  intro mem
  unfold handle at mem
  split at mem
  · simp at mem
  · exact absurd (lt_of_mem_runAll mem) (Nat.lt_irrefl _)

end Listener

/-- The router of a listener comes from its `Add` calls. -/
theorem exists_router_eq_ofAdds {l : Listener} (reach : listeners.Reachable l) :
    ∃ adds, l.router = Trie.ofAdds adds := by
  apply reach.invariant (fun l => ∃ adds, l.router = Trie.ofAdds adds)
  · rintro l ⟨queue, lazy, rfl⟩
    exact ⟨[], rfl⟩
  · intro l action l' _ known next
    obtain ⟨adds, router⟩ := known
    cases action with
    | add pattern s all a refusal =>
      cases next
      obtain ⟨started, consumer, eq⟩ := @Listener.add_records l pattern s all a refusal
      rw [eq]
      exact ⟨_, @Listener.record_router l pattern s all adds router⟩
    | start a =>
      cases next
      obtain ⟨started, consumer, eq⟩ := @Listener.start_records l a
      rw [eq]
      exact ⟨adds, router⟩
    | stopConsuming | close =>
      cases next
      exact ⟨adds, router⟩
    | channel up =>
      simp only [listeners, step] at next
      split at next
      · cases next
      · cases next
        exact ⟨adds, router⟩

/-- A subscription that returns an error leaves the listener as it was exactly when there was
no step that could fail: registration comes first and is never taken back. After an error the
pattern is bound again by every restore. -/
theorem failed_add_unchanged_iff {pw : Protowire} (lawful : pw.Lawful) {l : Listener}
    (reach : listeners.Reachable l) (pattern : Bytes) (s : Subscription) (all : Bool) (a : Attach)
    (refusal : Option Bytes) :
    let after := l.add pattern s all a refusal
    ((after.2 ≠ none → SameHandlers pw l after.1 ∧ after.1.bindings = l.bindings) ↔
      stepFails l pattern a refusal = false) ∧
    pattern ∈ after.1.bindings := by
  intro after
  obtain ⟨started, consumer, eq⟩ := @Listener.add_records l pattern s all a refusal
  refine ⟨⟨?_, ?_⟩, ?_⟩
  · intro unchanged
    apply Listener.add_err.mp
    by_contra failed
    obtain ⟨adds, router⟩ := exists_router_eq_ofAdds reach
    obtain ⟨d, runs⟩ := @Listener.record_runs l pattern s all pw lawful adds router
    have same := ((unchanged failed).1 (fun _ _ => none) d l.heap.length).mp
    rw [eq] at same
    exact Listener.not_runs_before (same runs)
  · intro quiet failed
    exact absurd (Listener.add_err.mpr quiet) failed
  · rw [eq]
    exact @Listener.mem_record_patterns l pattern s all

/-- A listener that has started, and a subscription to one type of event. -/
def ordersListener : Listener :=
  (Listener.start { queue := lit "Orders", lazy := false } .attached).1

def orderPlaced : Subscription := ⟨lit "Order", 7, by decide, by decide⟩

theorem ordersListener_reachable : listeners.Reachable ordersListener :=
  .step (a := .start .attached) (.init ⟨lit "Orders", false, rfl⟩) rfl

/-- The binding is accepted, and nothing was to be taken back. -/
theorem failed_add_unchanged_iff_accepted :
    stepFails ordersListener (lit "EVENT.Order") .attached none = false ∧
      lit "EVENT.Order" ∈ (ordersListener.add (lit "EVENT.Order") orderPlaced false .attached
        none).1.bindings :=
  ⟨by decide, (failed_add_unchanged_iff Protowire.reference_lawful ordersListener_reachable
    (lit "EVENT.Order") orderPlaced false .attached none).2⟩

/-- The broker refuses the binding. The handler is run all the same for an event that reaches
the queue, and the pattern stays to be bound again. Subscribing once more succeeds without
asking the broker, and the handler is then run twice for one event. -/
theorem failed_add_kept :
    let pattern := lit "EVENT.Order"
    let refused := some (lit "access refused")
    let first := ordersListener.add pattern orderPlaced false .attached refused
    let second := first.1.add pattern orderPlaced false .attached refused
    first.2 ≠ none ∧ ordersListener.bindings = [] ∧ first.1.bindings = [pattern] ∧
      second.2 = none ∧
      ∃ d, 0 ∉ (ordersListener.handle Protowire.reference (fun _ _ => none) d).1 ∧
        0 ∈ (first.1.handle Protowire.reference (fun _ _ => none) d).1 ∧
        0 ∈ (second.1.handle Protowire.reference (fun _ _ => none) d).1 ∧
        1 ∈ (second.1.handle Protowire.reference (fun _ _ => none) d).1 := by
  intro pattern refused first second
  obtain ⟨d, key, decoded⟩ :=
    Listener.exists_delivery Protowire.reference_lawful pattern orderPlaced
  have once : first.1.router = Trie.ofAdds [(pattern, 0)] := rfl
  have twice : second.1.router = Trie.ofAdds [(pattern, 0), (pattern, 1)] := rfl
  refine ⟨by decide, rfl, rfl, by decide, d, ?_, ?_, ?_, ?_⟩
  · exact @Listener.not_runs_before ordersListener _ _ d
  · exact Listener.mem_handle once key decoded rfl (.inr (.head _))
  · exact Listener.mem_handle twice key decoded rfl (.inr (.head _))
  · exact Listener.mem_handle twice key decoded rfl (.inr (.tail _ (.head _)))

end Protobus.Lifecycle
