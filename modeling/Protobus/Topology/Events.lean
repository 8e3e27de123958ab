import Protobus.Topology.Calls
import Protobus.Lifecycle.Selection
import Protobus.Wire.Codec

/-!
# The way of an event

Two tables of patterns decide what becomes of an event: the bindings of the broker put it into the
queue of a listener, and the listener's own router picks the subscriptions. The bindings are made
from the patterns of the subscriptions, so what the router would pick is never missed by the broker.
-/
namespace Protobus.Topology
open Library Table Fakebroker Topic

/-! ## Publishing -/

inductive EventRefusal
  | noType
  | blankID
  | longID (bytes : Nat)
  | payload (type err : Bytes)

def maxMessageIDBytes : Nat := 255

def validateMessageID : Option Bytes → Option EventRefusal
  | none => none
  | some id =>
    if !validUTF8 id || trimSpace id = [] then some .blankID
    else if maxMessageIDBytes < id.length then some (.longID id.length)
    else none

def eventTopic (type : Bytes) : Bytes := lit "EVENT." ++ type

/-- `PublishEvent` up to the publish: the key and the message. `uuid` is the new correlation id, and
`data` what `marshal` gives. -/
def publishEvent (pw : Protowire) (uuid type topic : Bytes) (messageID : Option Bytes)
    (data : Except Bytes Bytes) : Except EventRefusal (Bytes × Consumer.Publishing) :=
  if type = [] then .error .noType
  else
    let topic := if topic = [] then eventTopic type else topic
    match validateMessageID messageID with
    | some err => .error err
    | none => match data with
      | .error err => .error (.payload type err)
      | .ok data => .ok (topic,
          { contentType := Consumer.contentTypeOctetStream
            correlationId := uuid
            deliveryMode := Consumer.persistent
            body := (Wire.appendEvent pw .nil ⟨type, topic, data⟩).data
            messageId := messageID.getD [] })

section
variable {pw : Protowire} {uuid type topic data key : Bytes} {messageID : Option Bytes}
  {msg : Consumer.Publishing}

/-- An event is published under a key that is not empty and that its body repeats. -/
theorem publishEvent_eq_ok
    (ok : publishEvent pw uuid type topic messageID (.ok data) = .ok (key, msg)) :
    key ≠ [] ∧ (topic = [] → key = eventTopic type) ∧
      msg.body = (Wire.appendEvent pw .nil ⟨type, key, data⟩).data := by
  unfold publishEvent at ok
  split at ok
  · cases ok
  · next typed =>
    dsimp only at ok
    split at ok
    · cases ok
    · cases ok
      by_cases silent : topic = []
      · simp [silent, eventTopic, typed]
      · simp [silent]

theorem publishEvent_decodes (laws : pw.Lawful)
    (ok : publishEvent pw uuid type topic messageID (.ok data) = .ok (key, msg))
    (text : Wire.Event.Text ⟨type, key, data⟩) (fits : Wire.Event.Fits ⟨type, key, data⟩) :
    Wire.decodeEvent pw msg.body = (⟨type, key, data⟩, none) := by
  rw [(publishEvent_eq_ok ok).2.2, Wire.appendEvent_data laws .nil _ fits]
  exact Wire.decodeEvent_fields laws _ fits text

end

/-! ## The patterns of a listener -/

section
variable {calls : List Lifecycle.Call} {l l' : Lifecycle.Listener}

theorem bindings_record {c : Lifecycle.Call} {pattern : Bytes}
    (known : pattern ∈ l.bindings ∨ pattern = c.pattern) :
    pattern ∈ (l.record c.pattern c.sub c.all).bindings := by
  simp only [Lifecycle.Listener.bindings, Lifecycle.Listener.record] at *
  grind

theorem bindings_step {u : Lifecycle.Use} (known : ∀ c ∈ calls, c.pattern ∈ l.bindings)
    (next : Lifecycle.listeners.step l u.action = some l') :
    ∀ c ∈ calls ++ u.call?.toList, c.pattern ∈ l'.bindings := by
  cases u with
  | call c a refusal =>
    cases next
    obtain ⟨started, consumer, eq⟩ :=
      @Lifecycle.Listener.add_records l c.pattern c.sub c.all a refusal
    rw [eq]
    intro c' mem
    obtain mem | mem := List.mem_append.mp mem
    · exact bindings_record (.inl (known c' mem))
    · obtain rfl := List.mem_singleton.mp mem
      exact bindings_record (.inr rfl)
  | start a =>
    cases next
    obtain ⟨started, consumer, eq⟩ := @Lifecycle.Listener.start_records l a
    rw [eq]
    exact fun c mem => known c (by simpa [Lifecycle.Use.call?] using mem)
  | stopConsuming | close =>
    cases next
    exact fun c mem => known c (by simpa [Lifecycle.Use.call?] using mem)
  | channel up =>
    simp only [Lifecycle.listeners, Lifecycle.Use.action, Lifecycle.step] at next
    split at next
    · cases next
    · cases next
      exact fun c mem => known c (by simpa [Lifecycle.Use.call?] using mem)

/-- Whatever happened to a listener, its queue is to be bound to the pattern of every call. -/
theorem bindings_run {uses : List Lifecycle.Use} (known : ∀ c ∈ calls, c.pattern ∈ l.bindings)
    (ran : Lifecycle.listeners.run (uses.map Lifecycle.Use.action) l = some l') :
    ∀ c ∈ calls ++ uses.filterMap Lifecycle.Use.call?, c.pattern ∈ l'.bindings := by
  induction uses generalizing calls l with
  | nil =>
    cases ran
    simpa using known
  | cons u uses ih =>
    rw [List.map_cons, System.run] at ran
    cases next : Lifecycle.listeners.step l u.action with
    | none => simp [next] at ran
    | some mid =>
      rw [next] at ran
      have later := ih (bindings_step known next) ran
      cases call : u.call? <;> simpa [call] using later

/-- What is selected is selected by a pattern that matches. -/
theorem exists_match_of_selected {key type : Bytes}
    (some : Lifecycle.selected calls key type ≠ []) :
    ∃ c ∈ calls, topicMatch (splitDots c.pattern) (splitDots key) = true := by
  obtain ⟨⟨c, i⟩, mem⟩ := List.exists_mem_of_ne_nil _ some
  obtain mem | mem := List.mem_append.mp mem
  · obtain ⟨place, all⟩ := List.mem_filter.mp mem
    have valid := c.valid
    rw [if_pos all] at valid
    refine ⟨c, List.fst_mem_of_mem_zipIdx place, ?_⟩
    rw [valid.1, splitDots_hash, topicMatch_hash]
    exact ⟨_, Nat.le_refl _, by simp⟩
  · obtain ⟨place, typed⟩ := List.mem_filter.mp mem
    simp only [Bool.and_eq_true] at typed
    exact ⟨c, List.fst_mem_of_mem_zipIdx place, typed.2⟩

end

/-! ## From the publisher to the handlers -/

variable {D : Deployment} {s t : State}

/-- In any later state of a bus, as long as nobody deletes the queue of a listener that has declared
its topology: an event that a subscription of the listener is for is put into its queue, and
whenever it is delivered from there, exactly the subscriptions that are for it are run, in their
order and up to the first that fails. An event and a subscription of its type, both without a topic
of their own, always meet. -/
theorem event_reaches_subscriptions {pw : Protowire} (laws : pw.Lawful) (sep : D.Separate)
    (reach : (D.plan sep).system.Reachable s) {name : Bytes} {retry : ListenerRetry}
    (mem : .listener name retry ∈ D.components) {uses : List Lifecycle.Use} {lazy : Bool}
    {l : Lifecycle.Listener} (history : Lifecycle.listeners.run
      (uses.map Lifecycle.Use.action) { queue := name, lazy } = some l)
    (placed : ∀ d ∈ (Component.listener name retry).program D.cfg l.bindings, Has s.layout d)
    {acts : List {a : Order × Act // (D.plan sep).Follows a.2}}
    (ran : (D.plan sep).system.run acts s = some t)
    (kept : ∀ a ∈ acts, ∀ p ∈ (Component.listener name retry).queues D.cfg,
      a.1.2 ≠ .deleteQueue p.1) :
    ∃ q, t.names.lookup name = some q ∧
    ∀ uuid type topic messageID data key msg,
      publishEvent pw uuid type topic messageID (.ok data) = .ok (key, msg) →
      Wire.Event.Text ⟨type, key, data⟩ → Wire.Event.Fits ⟨type, key, data⟩ →
    ∀ chosen, chosen = Lifecycle.selected (uses.filterMap Lifecycle.Use.call?) key type →
      (chosen ≠ [] → q ∈ targets t D.cfg.eventsExchange key) ∧
      (topic = [] → ∀ c ∈ uses.filterMap Lifecycle.Use.call?, c.all = false →
        c.sub.typeName = type → c.pattern = eventTopic type → c ∈ chosen.map Prod.fst) ∧
      ∀ (handler : Lifecycle.Subscription → Wire.Event → Option Errors.Err)
        (d : Consumer.Delivery), d.routingKey = key → d.body = msg.body →
        l.handle pw (Lifecycle.outcomeOf handler) d =
          ((Lifecycle.upToFailure handler ⟨type, key, data⟩ chosen).map Prod.snd,
            Lifecycle.resultOf (Lifecycle.firstError handler ⟨type, key, data⟩ chosen)) := by
  have named := (sep.named _ mem).1
  have later := planned_of_reachable (reach.run ran)
  have placed' := placed_run mem reach placed ran kept
  have topical : (D.plan sep).exchange D.cfg.eventsExchange = some .topic :=
    Deployment.allows_core (by simp [coreExchanges])
  have exchange_named := (D.plan sep).exchange_named topical
  have home : Has t.layout (.queue name []) :=
    placed' _ (by simp [Deployment.program_listener named])
  obtain ⟨q, leads⟩ := Option.isSome_iff_exists.mp home
  refine ⟨q, leads, ?_⟩
  rintro uuid type topic messageID data key msg ok text fits chosen rfl
  obtain ⟨key_named, by_default, -⟩ := publishEvent_eq_ok ok
  refine ⟨fun some => ?_, ?_, ?_⟩
  · obtain ⟨c, called, hit⟩ := exists_match_of_selected some
    have pattern : c.pattern ∈ l.bindings :=
      @bindings_run [] _ _ _ (by simp) history c (by simpa using called)
    obtain ⟨⟨ex, found, bound⟩, -⟩ := placed' (.bind name c.pattern D.cfg.eventsExchange)
      (by simp [Deployment.program_listener named, pattern])
    have kind := (later.of_exchange topical found).1
    exact mem_targets exchange_named found bound (by simpa [kind, hits] using hit) leads
  · intro silent c called typed same pattern
    obtain ⟨i, at_i⟩ := List.mem_iff_getElem?.mp called
    have place : (c, i) ∈ (uses.filterMap Lifecycle.Use.call?).zipIdx :=
      List.mem_zipIdx_iff_getElem?.mpr at_i
    refine List.mem_map.mpr ⟨(c, i), List.mem_append_right _ (List.mem_filter.mpr ⟨place, ?_⟩), rfl⟩
    rw [by_default silent, pattern]
    simp [typed, same, topicMatch_self]
  · rintro handler d rfl body
    exact (Lifecycle.remembers_of_run history).handle handler
      (body ▸ publishEvent_decodes laws ok text fits) key_named

/-- An order is published after its listener has come up and the connection was lost. -/
theorem event_reaches_subscriptions_order : ∃ t q key msg,
    publishEvent .reference [] (lit "Order") [] none (.ok [7]) = .ok (key, msg) ∧
      t.names.lookup (lit "audit") = some q ∧ q ∈ targets t sample.cfg.eventsExchange key := by
  have mem : Component.listener (lit "audit") samplePolicy ∈ sample.components :=
    List.mem_cons_of_mem _ List.mem_cons_self
  obtain ⟨l, history⟩ : ∃ l, Lifecycle.listeners.run (Lifecycle.twoCalls.map Lifecycle.Use.action)
    { queue := lit "audit", lazy := false } = some l := ⟨_, rfl⟩
  obtain ⟨reach, placed⟩ := placed_connected sample_separate (.component mem l.bindings)
  obtain ⟨q, leads, reaches⟩ := event_reaches_subscriptions Protowire.reference_lawful
    sample_separate reach mem history placed (run_loss _ _) (by simp [loss])
  have published : publishEvent .reference [] (lit "Order") [] none (.ok [7]) =
      .ok (eventTopic (lit "Order"), _) := rfl
  obtain ⟨arrives, meets, -⟩ := reaches _ _ _ _ _ _ _ published ⟨by decide, by decide⟩
    ⟨by decide, by decide, by decide⟩ _ rfl
  refine ⟨_, q, _, _, published, leads, arrives fun nothing => ?_⟩
  have met := meets rfl Lifecycle.orderCall (by simp [Lifecycle.twoCalls, Lifecycle.Use.call?]) rfl
    rfl (by decide)
  rw [nothing] at met
  cases met

end Protobus.Topology
