import Protobus.Errors.Model
import Protobus.Lifecycle.Listener

/-!
# Which handlers an event runs

The calls of `Subscribe`, `SubscribeType` and `SubscribeAll` on a listener, in any order and with
anything between them, decide what an event runs: first the handlers for all events, then those
subscribed to its type under a pattern that matches the routing key, in the order of the calls,
until one fails.
-/
namespace Protobus.Lifecycle
open Library Topic Consumer Errors

/-! ## Histories -/

/-- A call of `SubscribeAll`, or one of `Subscribe` or `SubscribeType`, whose message type has a
name. -/
structure Call where
  pattern : Bytes
  sub : Subscription
  all : Bool
  valid : if all then pattern = lit "#" ∧ sub.typeName = [] else sub.typeName ≠ []

/-- What happens to a listener. -/
inductive Use
  | call (c : Call) (a : Attach) (refusal : Option Bytes)
  | start (a : Attach)
  | stopConsuming
  | close
  | channel (up : Bool)

def Use.action : Use → Action
  | .call c a refusal => .add c.pattern c.sub c.all a refusal
  | .start a => .start a
  | .stopConsuming => .stopConsuming
  | .close => .close
  | .channel up => .channel up

def Use.call? : Use → Option Call
  | .call c _ _ => some c
  | _ => none

/-- The subscriptions that an event selects, each with its place in the history. -/
def selected (calls : List Call) (key type : Bytes) : List (Call × Nat) :=
  calls.zipIdx.filter (·.1.all) ++
    calls.zipIdx.filter fun c => !c.1.all && c.1.sub.typeName = type &&
      topicMatch (splitDots c.1.pattern) (splitDots key)

/-- The outcome of a handler as `handle` reads it. -/
def outcomeOf (handler : Subscription → Wire.Event → Option Err) (s : Subscription)
    (ev : Wire.Event) : Option (Failure × Bool) :=
  (handler s ev).map fun err => (Err.safeErrorSummary (some err), err.asHandled.isSome)

/-- The result of an event: the first error, handled if there is a `HandledError` in it. -/
def resultOf : Option Err → HandlerResult
  | none => {}
  | some err => { err := some (Err.safeErrorSummary (some err)), handled := err.asHandled.isSome }

/-! ## What a listener remembers of its history -/

/-- The listener after a history of calls. -/
structure Remembers (calls : List Call) (l : Listener) : Prop where
  heap : l.heap = calls.map Call.sub
  all : l.all = (calls.zipIdx.filter (·.1.all)).map Prod.snd
  router : l.router = Trie.ofAdds
    ((calls.zipIdx.filter (!·.1.all)).map fun c => (c.1.pattern, c.2))

theorem Remembers.record {calls : List Call} {l : Listener} (known : Remembers calls l)
    (c : Call) : Remembers (calls ++ [c]) (l.record c.pattern c.sub c.all) where
  heap := by simp [Listener.record, known.heap]
  all := by
    cases all : c.all <;> simp [Listener.record, List.zipIdx_append, known.all, known.heap, all]
  router := by
    rw [Listener.record_router known.router]
    cases all : c.all <;> simp [List.zipIdx_append, known.heap, all]

/-- Nothing else touches what it remembers. -/
theorem Remembers.step {calls : List Call} {l l' : Listener} (known : Remembers calls l)
    {u : Use} (next : listeners.step l u.action = some l') :
    Remembers (calls ++ u.call?.toList) l' := by
  cases u with
  | call c a refusal =>
    cases next
    obtain ⟨started, consumer, eq⟩ := @Listener.add_records l c.pattern c.sub c.all a refusal
    rw [eq]
    exact { known.record c with }
  | start a =>
    cases next
    obtain ⟨started, consumer, eq⟩ := @Listener.start_records l a
    rw [eq]
    simpa [Use.call?] using { known with }
  | stopConsuming | close =>
    cases next
    simpa [Use.call?] using { known with }
  | channel up =>
    simp only [listeners, Use.action, Lifecycle.step] at next
    split at next
    · cases next
    · cases next
      simpa [Use.call?] using { known with }

theorem Remembers.run {calls : List Call} {uses : List Use} {l l' : Listener}
    (known : Remembers calls l) (ran : listeners.run (uses.map Use.action) l = some l') :
    Remembers (calls ++ uses.filterMap Use.call?) l' := by
  induction uses generalizing calls l with
  | nil =>
    cases ran
    simpa using known
  | cons u uses ih =>
    rw [List.map_cons, System.run] at ran
    cases next : listeners.step l u.action with
    | none => simp [next] at ran
    | some mid =>
      rw [next] at ran
      have later := ih (known.step next) ran
      cases call : u.call? <;> simpa [call] using later

theorem remembers_of_run {queue : Bytes} {lazy : Bool} {uses : List Use} {l : Listener}
    (ran : listeners.run (uses.map Use.action) { queue, lazy } = some l) :
    Remembers (uses.filterMap Use.call?) l := by
  have start : Remembers [] { queue, lazy } := ⟨rfl, rfl, rfl⟩
  simpa using start.run ran

/-! ## The subscriptions an event meets -/

theorem nodup_places (calls : List Call) (p : Call × Nat → Bool) :
    ((calls.zipIdx.filter p).map Prod.snd).Nodup := by
  have once : (calls.zipIdx.map Prod.snd).Nodup := by
    rw [List.zipIdx_map_snd]
    exact List.nodup_range'
  exact once.sublist (List.filter_sublist.map Prod.snd)

/-- No subscription is selected twice: those for all events are not the others. -/
theorem nodup_selected (calls : List Call) (key type : Bytes) :
    ((selected calls key type).map Prod.snd).Nodup := by
  rw [selected, List.map_append, List.nodup_append]
  refine ⟨nodup_places calls _, nodup_places calls _, ?_⟩
  intro i left j right eq
  obtain ⟨c, mem, rfl⟩ := List.mem_map.mp left
  obtain ⟨c', mem', rfl⟩ := List.mem_map.mp right
  obtain ⟨place, all⟩ := List.mem_filter.mp mem
  obtain ⟨place', typed⟩ := List.mem_filter.mp mem'
  have same : c.1 = c'.1 := by
    have here := List.mem_zipIdx_iff_getElem?.mp place
    rw [eq, List.mem_zipIdx_iff_getElem?.mp place'] at here
    exact (Option.some.inj here).symm
  simp [← same, all] at typed

/-- What `Match` appends to the handlers for all events. -/
theorem Remembers.matchTopic {calls : List Call} {l : Listener} (known : Remembers calls l)
    (key : Bytes) :
    l.router.matchTopic key l.all =
      ((calls.zipIdx.filter (·.1.all)) ++ calls.zipIdx.filter fun c => !c.1.all &&
        topicMatch (splitDots c.1.pattern) (splitDots key)).map Prod.snd := by
  have once : (((calls.zipIdx.filter (!·.1.all)).map fun c => (c.1.pattern, c.2)).map
      Prod.snd).Nodup := by
    rw [List.map_map]
    exact nodup_places calls _
  rw [known.router, Trie.matchTopic_of_nodup once, known.all, List.map_append]
  congr 1
  simp [Trie.matching, List.filter_map, List.filter_filter, Function.comp_def, Bool.and_comm]

/-- Those of the event's type, out of all that `Match` gives, are the selected ones. -/
theorem filter_type_eq_selected (calls : List Call) (key type : Bytes) :
    ((calls.zipIdx.filter (·.1.all)) ++ calls.zipIdx.filter fun c => !c.1.all &&
        topicMatch (splitDots c.1.pattern) (splitDots key)).filter
      (fun c => c.1.sub.typeName = [] || c.1.sub.typeName = type) = selected calls key type := by
  rw [selected, List.filter_append, List.filter_filter, List.filter_filter]
  congr 1
  · apply List.filter_congr
    intro c _
    have valid := c.1.valid
    cases all : c.1.all <;> simp_all
  · apply List.filter_congr
    intro c _
    have valid := c.1.valid
    cases all : c.1.all <;> simp_all [Bool.and_comm]

/-! ## The loop -/

section
variable (handler : Subscription → Wire.Event → Option Err) (ev : Wire.Event)

def fails (c : Call × Nat) : Bool := (handler c.1.sub ev).isSome

/-- Those before the first that fails, and that one. -/
def upToFailure (chosen : List (Call × Nat)) : List (Call × Nat) :=
  chosen.takeWhile (!fails handler ev ·) ++ (chosen.find? (fails handler ev)).toList

def firstError (chosen : List (Call × Nat)) : Option Err :=
  (chosen.find? (fails handler ev)).bind fun c => handler c.1.sub ev

theorem runAll_eq {heap : List Subscription} {met : List (Call × Nat)}
    (found : ∀ c ∈ met, heap[c.2]? = some c.1.sub) :
    let chosen := met.filter fun c => c.1.sub.typeName = [] || c.1.sub.typeName = ev.type
    Listener.runAll heap (outcomeOf handler) ev (met.map Prod.snd) =
      ((upToFailure handler ev chosen).map Prod.snd, resultOf (firstError handler ev chosen)) := by
  induction met with
  | nil => rfl
  | cons c met ih =>
    have ih := ih fun c mem => found c (List.mem_cons_of_mem _ mem)
    have here := found c List.mem_cons_self
    simp only [List.map_cons, Listener.runAll, here]
    by_cases type : c.1.sub.typeName = [] ∨ c.1.sub.typeName = ev.type
    · have run : ¬(c.1.sub.typeName ≠ [] ∧ c.1.sub.typeName ≠ ev.type) := by tauto
      rw [if_neg run, List.filter_cons_of_pos (by simpa using type)]
      cases result : handler c.1.sub ev with
      | none => simp [outcomeOf, upToFailure, firstError, fails, result, ih]
      | some err => simp [outcomeOf, upToFailure, firstError, fails, resultOf, result]
    · have skip : c.1.sub.typeName ≠ [] ∧ c.1.sub.typeName ≠ ev.type := not_or.mp type
      rw [if_pos skip, ih, List.filter_cons_of_neg (by simpa using type)]

end

/-- `handle` runs what the event selects, until one fails. -/
theorem Remembers.handle {calls : List Call} {l : Listener} (known : Remembers calls l)
    {pw : Protowire} (handler : Subscription → Wire.Event → Option Err) {d : Delivery}
    {ev : Wire.Event} (decoded : Wire.decodeEvent pw d.body = (ev, none))
    (key : d.routingKey ≠ []) :
    l.handle pw (outcomeOf handler) d =
      ((upToFailure handler ev (selected calls d.routingKey ev.type)).map Prod.snd,
        resultOf (firstError handler ev (selected calls d.routingKey ev.type))) := by
  rw [Listener.handle, decoded]
  simp only [key, if_false]
  rw [known.matchTopic, runAll_eq, filter_type_eq_selected]
  intro c mem
  have place : c ∈ calls.zipIdx := by
    rcases List.mem_append.mp mem with mem | mem <;> exact (List.mem_filter.mp mem).1
  rw [known.heap, List.getElem?_map, List.mem_zipIdx_iff_getElem?.mp place]
  rfl

/-- After any history of a listener, an event with a routing key runs the handlers for all events
and then those subscribed to its type under a matching pattern, each once and in the order of the
calls, up to the first that fails, whose error is the result. What is selected does not depend on
the topic in the body, nor does what is run if the handlers' results do not. -/
theorem event_runs_selection {pw : Protowire} {queue : Bytes} {lazy : Bool} {uses : List Use}
    {l : Listener} (ran : listeners.run (uses.map Use.action) { queue, lazy } = some l)
    (handler : Subscription → Wire.Event → Option Err) {d : Delivery} {ev : Wire.Event}
    (decoded : Wire.decodeEvent pw d.body = (ev, none)) (key : d.routingKey ≠ []) :
    let chosen := selected (uses.filterMap Use.call?) d.routingKey ev.type
    l.handle pw (outcomeOf handler) d =
      ((upToFailure handler ev chosen).map Prod.snd, resultOf (firstError handler ev chosen)) ∧
    (chosen.map Prod.snd).Nodup ∧
    ∀ (d' : Delivery) (topic : Bytes), d'.routingKey = d.routingKey →
      Wire.decodeEvent pw d'.body = ({ ev with topic }, none) →
      ∀ handler', (∀ s, handler' s { ev with topic } = handler s ev) →
        l.handle pw (outcomeOf handler') d' = l.handle pw (outcomeOf handler) d := by
  intro chosen
  have known := remembers_of_run ran
  refine ⟨known.handle handler decoded key, nodup_selected _ _ _, ?_⟩
  intro d' topic same decoded' handler' agree
  have alike : fails handler' { ev with topic } = fails handler ev :=
    funext fun c => by rw [fails, fails, agree]
  rw [known.handle handler decoded key, known.handle handler' decoded' (same ▸ key), same]
  simp only [upToFailure, firstError, alike, agree]

/-! ## A handler that looks at the topic -/

def orderCall : Call := ⟨lit "EVENT.Order", orderPlaced, false, by decide⟩

def twoCalls : List Use := [.call orderCall .attached none, .call orderCall .attached none]

/-- An order under the key `EVENT.Order`, with any topic in its body. -/
def orderEvent (topic : Bytes) : Delivery where
  routingKey := lit "EVENT.Order"
  body := (Wire.appendEvent Protowire.reference .nil ⟨lit "Order", topic, []⟩).data

/-- It refuses the events of one topic. -/
def picky (_ : Subscription) (ev : Wire.Event) : Option Err :=
  if ev.topic = lit "spam" then some (newHandledError [] (lit "refused")) else none

theorem selected_twoCalls :
    selected (twoCalls.filterMap Use.call?) (lit "EVENT.Order") (lit "Order") =
      [(orderCall, 0), (orderCall, 1)] := by
  have self := topicMatch_self (splitDots (lit "EVENT.Order"))
  simp [twoCalls, selected, Use.call?, orderCall, orderPlaced, self]

/-- Two deliveries that differ only in the body's topic do not run the same handlers: the first
handler refuses one of the topics, and then the second is not run. -/
theorem topic_stops_run :
    ∃ l, listeners.run (twoCalls.map Use.action) { queue := lit "Orders", lazy := false } = some l ∧
      (l.handle Protowire.reference (outcomeOf picky) (orderEvent (lit "spam"))).1 = [0] ∧
      (l.handle Protowire.reference (outcomeOf picky) (orderEvent (lit "news"))).1 = [0, 1] := by
  obtain ⟨l, ran⟩ : ∃ l, listeners.run (twoCalls.map Use.action)
    { queue := lit "Orders", lazy := false } = some l := ⟨_, rfl⟩
  have known := remembers_of_run ran
  have spam := @Remembers.handle _ _ known Protowire.reference picky (orderEvent (lit "spam"))
    ⟨lit "Order", lit "spam", []⟩ (by decide +kernel) (by decide)
  have news := @Remembers.handle _ _ known Protowire.reference picky (orderEvent (lit "news"))
    ⟨lit "Order", lit "news", []⟩ (by decide +kernel) (by decide)
  rw [show (orderEvent (lit "spam")).routingKey = lit "EVENT.Order" from rfl,
    selected_twoCalls] at spam
  rw [show (orderEvent (lit "news")).routingKey = lit "EVENT.Order" from rfl,
    selected_twoCalls] at news
  refine ⟨l, ran, ?_, ?_⟩
  · rw [spam]
    decide
  · rw [news]
    decide

theorem event_runs_selection_twice :
    ∃ l, listeners.run (twoCalls.map Use.action) { queue := lit "Orders", lazy := false } = some l ∧
      (l.handle Protowire.reference (outcomeOf fun _ _ => none) (orderEvent [])).1 = [0, 1] := by
  obtain ⟨l, ran⟩ : ∃ l, listeners.run (twoCalls.map Use.action)
    { queue := lit "Orders", lazy := false } = some l := ⟨_, rfl⟩
  have runs := (@event_runs_selection Protowire.reference _ _ _ _ ran (fun _ _ => none)
    (orderEvent []) ⟨lit "Order", [], []⟩ (by decide +kernel) (by decide)).1
  rw [show (orderEvent []).routingKey = lit "EVENT.Order" from rfl, selected_twoCalls] at runs
  refine ⟨l, ran, ?_⟩
  rw [runs]
  decide

end Protobus.Lifecycle
