import Protobus.Consumer.Settlement
import Protobus.Rpc.Model
import Protobus.Topic.Match

/-!
# The routing key decides which method runs

Who may call what is settled by the broker, which sees routing keys and not bodies. `handle`
cuts the key at its last dot and compares it with what the body names, and the two agree on
every pair of strings. A request that runs nothing is answered and acknowledged.
-/
namespace Protobus.Rpc
open Library Consumer Topic
open Wire hiding Event
open Errors (codeProtocol)

/-! ## Names -/

theorem append_lit_dot (a b : Bytes) : a ++ lit "." ++ b = a ++ dot :: b := by
  have single : lit "." = [dot] := by decide +kernel
  rw [single, List.append_assoc, List.singleton_append]

theorem lastSegment_append (a : Bytes) {b : Bytes} (h : dot ∉ b) :
    lastSegment (a ++ dot :: b) = b := by
  simp [lastSegment, lastDot_append h]

theorem splitMethodName_eq_some {full service method : Bytes} :
    splitMethodName full = some (service, method) ↔
      full = service ++ dot :: method ∧ service ≠ [] ∧ method ≠ [] ∧ dot ∉ method := by
  unfold splitMethodName
  constructor
  · intro h
    split at h
    · cases h
    · next i found =>
      obtain ⟨a, b, rfl, rfl, absent⟩ := exists_of_lastDot found
      simp only [Bool.or_eq_true, decide_eq_true_eq, Option.ite_none_left_eq_some, not_or,
        Option.some.injEq, Prod.mk.injEq, List.take_left', List.length_append] at h
      obtain ⟨⟨first, last⟩, rfl, rfl⟩ := h
      refine ⟨by simp, ?_, ?_, by simpa using absent⟩
      · rintro rfl
        simp at first
      · intro empty
        simp at empty
        simp [empty] at last
  · rintro ⟨rfl, service_ne, method_ne, absent⟩
    have first : service.length ≠ 0 := by simpa using service_ne
    have last : method.length ≠ 0 := by simpa using method_ne
    simp only [lastDot_append absent]
    rw [if_neg (by simp [service_ne]; omega)]
    simp

/-- The words of a runtime name are no wildcards. -/
theorem Service.name_literal (s : Service) : ∀ w ∈ splitDots s.name, w ≠ star ∧ w ≠ hash := by
  have contract : ∀ w ∈ splitDots s.serviceName, w ≠ star ∧ w ≠ hash := by
    intro w mem
    have ident := List.all_eq_true.mp s.contract.fullName_valid w (s.contract_named ▸ mem)
    constructor
    · rintro rfl
      revert ident
      decide +kernel
    · rintro rfl
      revert ident
      decide +kernel
  intro w mem
  unfold Service.name runtimeName at mem
  split at mem
  · exact contract w mem
  · next named =>
    have valid := s.opts_valid.inst
    simp only [validInstance, named, ne_eq, not_false_eq_true, decide_true, Bool.true_and,
      Bool.not_eq_true', List.any_eq_false, decide_eq_true_eq] at valid
    have word : dot ∉ s.opts.inst := fun mem => valid dot mem (by decide +kernel)
    rw [append_lit_dot, splitDots_concat _ word] at mem
    rcases List.mem_append.mp mem with mem | mem
    · exact contract w mem
    · obtain rfl := List.mem_singleton.mp mem
      constructor
      · intro eq
        exact valid 42 (by rw [eq]; decide +kernel) (by decide +kernel)
      · intro eq
        exact valid 35 (by rw [eq]; decide +kernel) (by decide +kernel)

/-- What the binding of a service matches. -/
theorem Service.binding_iff (s : Service) (k : Bytes) :
    topicMatch (splitDots s.binding) (splitDots k) = true ↔
      ∃ w, dot ∉ w ∧ k = lit "REQUEST." ++ s.name ++ lit "." ++ w := by
  have request : lit "REQUEST." = lit "REQUEST" ++ [dot] := by decide +kernel
  have wildcard : lit ".*" = dot :: star := by decide +kernel
  have single : dot ∉ star := by decide +kernel
  have words : splitDots (lit "REQUEST" ++ dot :: s.name) = lit "REQUEST" :: splitDots s.name := by
    rw [splitDots_append, splitDots_word (by decide +kernel), List.singleton_append]
  have front : ∀ w, lit "REQUEST." ++ s.name ++ dot :: w =
      (lit "REQUEST" ++ dot :: s.name) ++ dot :: w := by
    simp [request]
  have literal : ∀ w ∈ lit "REQUEST" :: splitDots s.name, w ≠ star ∧ w ≠ hash := by
    intro w mem
    rcases List.mem_cons.mp mem with rfl | mem
    · decide +kernel
    · exact s.name_literal w mem
  rw [Service.binding, wildcard, front, splitDots_concat _ single, words,
    topicMatch_concat_star literal]
  constructor
  · rintro ⟨w, eq⟩
    cases found : lastDot k with
    | none =>
      rw [splitDots_word (lastDot_eq_none.mp found)] at eq
      have := congrArg List.length eq
      simp at this
    | some i =>
      obtain ⟨a, b, rfl, -, absent⟩ := exists_of_lastDot found
      rw [splitDots_concat a absent, ← words] at eq
      obtain ⟨same, last⟩ := List.append_inj' eq rfl
      obtain rfl := splitDots_inj same
      exact ⟨b, absent, by rw [append_lit_dot, front]⟩
  · rintro ⟨w, absent, rfl⟩
    refine ⟨w, ?_⟩
    rw [append_lit_dot, front, splitDots_concat _ absent, words]

/-! ## Finding the method -/

/-- The handler that is registered for a declared method. -/
def Service.handler (s : Service) (md : MethodDescriptor) (method : Bytes) (env : Request) :
    Option Invocation :=
  if md.streamingServer then (s.streams.find method).map (.stream · env)
  else (s.unary.find method).map (.unary · env)

/-- The invocation runs the method of this name: its handler, which is registered under the
name, for an envelope that names it in full. -/
structure Runs (s : Service) (inv : Invocation) (method : Bytes) : Prop where
  named : inv.desc.name = method
  env : inv.env.method = s.contract.fullName ++ lit "." ++ method
  registered : ∃ md, s.contract.byName method = some md ∧ s.handler md method inv.env = some inv

theorem Service.handler_eq_some {s : Service} {md : MethodDescriptor} {method : Bytes}
    {env : Request} {inv : Invocation} (h : s.handler md method env = some inv) :
    inv.env = env ∧
      (if md.streamingServer then s.streams else s.unary).find method = some inv.desc := by
  unfold Service.handler at h
  split at h
  · next streaming =>
    obtain ⟨desc, held, rfl⟩ := Option.map_eq_some_iff.mp h
    exact ⟨rfl, by rw [if_pos streaming]; exact held⟩
  · next single =>
    obtain ⟨desc, held, rfl⟩ := Option.map_eq_some_iff.mp h
    exact ⟨rfl, by rw [if_neg single]; exact held⟩

/-- What `resolve` accepts: the envelope names a declared method in full, and the method has a
handler. -/
theorem Service.resolve_eq_ok {s : Service} {label : Bytes} {env : Request} {inv : Invocation} :
    s.resolve label env = .ok inv ↔ ∃ method md, splitMethodName env.method =
      some (s.contract.fullName, method) ∧ s.contract.byName method = some md ∧
      s.handler md method env = some inv := by
  unfold Service.resolve
  simp only
  cases split : splitMethodName env.method with
  | none => simp
  | some parts =>
    obtain ⟨service, method⟩ := parts
    simp only [Option.some.injEq, Prod.mk.injEq]
    by_cases same : service = s.contract.fullName
    · subst same
      simp only [ne_eq, not_true_eq_false, if_false, true_and]
      constructor
      · intro h
        split at h
        · cases h
        · next md declared =>
          refine ⟨method, md, rfl, declared, ?_⟩
          unfold Service.handler
          split at h
          · next streaming =>
            rw [if_pos streaming]
            split at h <;> simp_all
          · next single =>
            rw [if_neg single]
            split at h <;> simp_all
      · rintro ⟨_, md, rfl, declared, found⟩
        rw [declared]
        simp only
        unfold Service.handler at found
        split at found
        · next streaming =>
          obtain ⟨desc, held, rfl⟩ := Option.map_eq_some_iff.mp found
          simp [streaming, held]
        · next single =>
          obtain ⟨desc, held, rfl⟩ := Option.map_eq_some_iff.mp found
          simp [single, held]
    · simp [same]

theorem Service.runs_of_resolve {s : Service} {label : Bytes} {env : Request} {inv : Invocation}
    (h : s.resolve label env = .ok inv) :
    inv.env = env ∧ Runs s inv (lastSegment env.method) := by
  obtain ⟨method, md, split, declared, found⟩ := Service.resolve_eq_ok.mp h
  obtain ⟨eq, -, -, absent⟩ := splitMethodName_eq_some.mp split
  obtain ⟨rfl, held⟩ := Service.handler_eq_some found
  rw [eq, lastSegment_append _ absent]
  exact ⟨rfl, Handlers.named _ method _ held, by rw [eq, append_lit_dot], md, declared, found⟩

variable {pw : Protowire} {s : Service} {d : Delivery} {inv inv' : Invocation}

theorem Service.dispatch_keyless (h : s.dispatch pw d = .ok inv) (keyless : d.routingKey = []) :
    decodeRequest pw d.body = (inv.env, none) ∧ Runs s inv (lastSegment inv.env.method) := by
  unfold Service.dispatch at h
  split at h
  · cases h
  · next env decoded =>
    simp only [keyless, if_true] at h
    obtain ⟨rfl, runs⟩ := Service.runs_of_resolve h
    exact ⟨decoded, runs⟩

theorem Service.dispatch_keyed (h : s.dispatch pw d = .ok inv) (keyed : d.routingKey ≠ []) :
    decodeRequest pw d.body = (inv.env, none) ∧ Runs s inv (lastSegment d.routingKey) ∧
      (lit "REQUEST." ++ s.name ++ lit ".") <+: d.routingKey := by
  unfold Service.dispatch at h
  split at h
  · cases h
  · next env decoded =>
    simp only [keyed, if_false] at h
    split at h
    · cases h
    · next begins =>
      split at h
      · cases h
      · next agrees =>
        obtain ⟨rfl, runs⟩ := Service.runs_of_resolve h
        rw [ne_eq, not_not] at agrees
        rw [agrees]
        exact ⟨decoded, runs, List.isPrefixOf_iff_prefix.mp (by simpa using begins)⟩

/-- A method has one handler. -/
theorem Runs.unique {method : Bytes} (h : Runs s inv method) (h' : Runs s inv' method) :
    inv.desc = inv'.desc := by
  obtain ⟨md, declared, found⟩ := h.registered
  obtain ⟨md', declared', found'⟩ := h'.registered
  obtain rfl := Option.some.inj (declared.symm.trans declared')
  have held := (Service.handler_eq_some found).2
  rw [(Service.handler_eq_some found').2] at held
  exact (Option.some.inj held).symm

/-! ## Answering without an error -/

/-- The handler's context has not ended. -/
def live : Cause → Bool
  | .none | .other => true
  | _ => false

/-- The reply, if the caller wants one. -/
def replyEvents (d : Delivery) (body : Bytes) (ok : Bool) : List Event :=
  if d.replyTo = [] then [] else [⟨.publishReply d.replyTo (replyMsg d body), ok⟩]

def isReply (e : Event) : Bool :=
  match e.1 with
  | .publishReply _ _ => true
  | _ => false

section
variable {wide : Int} {spec : Spec} {ran : Ran} {body : Bytes} {es : List Event}
  (answer : run spec d ran.ended = { reply := some body })
include answer

theorem run_settle_answer (h : Program.Run (settle wide spec d ran) es) :
    ∃ ok a, es = replyEvents d body ok ++
      if spec.lateAck then [closing (d.replyTo = [] || ok) a] else [] := by
  unfold settle at h
  simp only [answer] at h
  cases late : spec.lateAck with
  | true =>
    simp only [late, if_true] at h
    split at h
    · next silent =>
      obtain ⟨a, rfl⟩ := run_ack.mp h
      exact ⟨true, a, by simp [replyEvents, silent, closing]⟩
    · next due =>
      obtain ⟨ok, a, rfl⟩ := run_duePublish late h
      exact ⟨ok, a, by simp [replyEvents, due]⟩
  | false =>
    simp only [late, requeueLater, Bool.false_eq_true, if_false, ite_self] at h
    split at h
    · next silent =>
      cases h
      exact ⟨true, true, by simp [replyEvents, silent]⟩
    · next due =>
      obtain ⟨ok, rest, last, rfl⟩ := Program.run_perform_iff.mp h
      obtain rfl : rest = [] := by simpa using last
      exact ⟨ok, true, by simp [replyEvents, due]⟩

end

/-- The handler runs once. -/
theorem run_not_mem_settle {wide : Int} {spec : Spec} {ran : Ran} {es : List Event}
    (h : Program.Run (settle wide spec d ran) es) (again : Ran) : ⟨.run, again⟩ ∉ es := by
  intro mem
  cases late : spec.lateAck with
  | true =>
    have notice : ∀ {body : Option Bytes} {es : List Event}, Notice d body es →
        ⟨.run, again⟩ ∉ es := by
      intro body es sent
      cases sent <;> simp
    have shut : ∀ ok a, ⟨.run, again⟩ ≠ closing ok a := by
      intro ok a
      cases ok <;> simp [closing]
    cases settles_of_run late h with
    | answered => simp at mem
    | replied => simp [shut] at mem
    | retried => simp [shut, retryCopy] at mem
    | deadLettered _ _ _ _ _ _ _ sent => simp [shut, notice sent, deadLetterCopy] at mem
    | rejected _ _ _ _ sent => simp [notice sent] at mem
  | false =>
    rcases replies_of_run late h with rfl | ⟨key, msg, ok, rfl⟩
    · cases mem
    · simp at mem

/-- What `process` does once the handler is through. -/
def afterRun (wide : Int) (spec : Spec) (d : Delivery) (ran : Ran) : Code :=
  match ran.cause with
  | .cancelled => if spec.lateAck then ack else .done
  | .disconnected | .closed => .done
  | _ => settle wide spec d ran

section
variable {wide : Int} {spec : Spec} {ran ran' : Ran} {body : Bytes} {es : List Event}

theorem afterRun_cases (h : Program.Run (afterRun wide spec d ran) es) :
    ((∀ e ∈ es, e.1 = .ack) ∧ live ran.cause = false) ∨
      Program.Run (settle wide spec d ran) es := by
  unfold afterRun at h
  split at h
  · next cause =>
    left
    refine ⟨?_, by rw [cause]; rfl⟩
    split at h
    · obtain ⟨a, rfl⟩ := run_ack.mp h
      simp
    · cases h
      simp
  · next cause =>
    cases h
    exact .inl ⟨by simp, by rw [cause]; rfl⟩
  · next cause =>
    cases h
    exact .inl ⟨by simp, by rw [cause]; rfl⟩
  · exact .inr h

theorem run_not_mem_afterRun (h : Program.Run (afterRun wide spec d ran) es) (again : Ran) :
    ⟨.run, again⟩ ∉ es := by
  rcases afterRun_cases h with ⟨acks, -⟩ | settled
  · intro mem
    cases acks _ mem
  · exact run_not_mem_settle settled again

/-- A run of `process` in which the handler ran. -/
theorem run_process (h : Program.Run (process wide spec d) es) (mem : ⟨.run, ran⟩ ∈ es) :
    ∃ after, Program.Run (afterRun wide spec d ran) after ∧
      es = (if spec.lateAck then [] else [⟨.ack, true⟩]) ++ ⟨.run, ran⟩ :: after := by
  have once : ∀ {rest : List Event} {ran' : Ran}, Program.Run (afterRun wide spec d ran') rest →
      ⟨.run, ran⟩ ∈ (⟨.run, ran'⟩ : Event) :: rest → ran = ran' := by
    intro rest ran' next mem
    rcases List.mem_cons.mp mem with same | again
    · cases same
      rfl
    · exact absurd again (run_not_mem_afterRun next ran)
  unfold process at h
  cases late : spec.lateAck with
  | true =>
    simp only [late, if_true] at h
    obtain ⟨ran', rest, handled, rfl⟩ := Program.run_perform_iff.mp h
    have next : Program.Run (afterRun wide spec d ran') rest := by
      unfold afterRun
      rw [late]
      exact handled
    obtain rfl := once next mem
    exact ⟨rest, next, rfl⟩
  | false =>
    simp only [late, Bool.false_eq_true, if_false] at h
    obtain ⟨ok, rest, next, rfl⟩ := Program.run_perform_iff.mp h
    cases ok with
    | false =>
      obtain rfl : rest = [] := by simpa using next
      simp at mem
    | true =>
      simp only [if_true] at next
      obtain ⟨ran', rest, handled, rfl⟩ := Program.run_perform_iff.mp next
      have next : Program.Run (afterRun wide spec d ran') rest := by
        unfold afterRun
        rw [late]
        exact handled
      rcases List.mem_cons.mp mem with same | mem
      · cases same
      · obtain rfl := once next mem
        exact ⟨rest, next, rfl⟩

theorem closing_benign (ok a : Bool) : isCopy (closing ok a) = false ∧
    isReply (closing ok a) = false ∧ ∀ requeue, (closing ok a).1 ≠ .reject requeue := by
  cases ok <;> simp [closing, isCopy, isReply]

theorem replyEvents_benign {ok : Bool} {e : Event} (mem : e ∈ replyEvents d body ok) :
    isCopy e = false ∧ ∀ requeue, e.1 ≠ .reject requeue := by
  unfold replyEvents at mem
  split at mem
  · cases mem
  · obtain rfl := List.mem_singleton.mp mem
    simp [isCopy]

theorem isReply_replyEvents (ok : Bool) :
    (replyEvents d body ok).filter isReply = replyEvents d body ok := by
  unfold replyEvents
  split <;> simp [isReply]

/-- A handler's answer is published once and the delivery acknowledged; nothing is retried, put
on the dead-letter queue or rejected. -/
theorem answer_settles (answer : run spec d ran.ended = { reply := some body })
    (h : Program.Run (process wide spec d) es) (mem : ⟨.run, ran⟩ ∈ es) :
    (∀ e ∈ es, isCopy e = false ∧ ∀ requeue, e.1 ≠ .reject requeue) ∧
      (live ran.cause = true → ∃ ok, es.filter isReply = replyEvents d body ok ∧
        (d.replyTo = [] ∨ ok = true → ∃ a, ⟨.ack, a⟩ ∈ es)) := by
  obtain ⟨after, next, rfl⟩ := run_process h mem
  have split : ∀ P : Event → Prop, P ⟨.ack, true⟩ → P ⟨.run, ran⟩ → (∀ e ∈ after, P e) →
      ∀ e ∈ (if spec.lateAck then [] else [⟨.ack, true⟩]) ++ ⟨.run, ran⟩ :: after, P e := by
    intro P first handler rest e mem
    rcases List.mem_append.mp mem with mem | mem
    · split at mem
      · cases mem
      · obtain rfl := List.mem_singleton.mp mem
        exact first
    · rcases List.mem_cons.mp mem with rfl | mem
      · exact handler
      · exact rest e mem
  rcases afterRun_cases next with ⟨acks, dead⟩ | settled
  · refine ⟨split _ (by simp [isCopy]) (by simp [isCopy]) ?_, by simp [dead]⟩
    intro e mem
    simp [isCopy, acks e mem]
  · obtain ⟨ok, a, rfl⟩ := run_settle_answer answer settled
    refine ⟨split _ (by simp [isCopy]) (by simp [isCopy]) ?_, fun _ => ⟨ok, ?_, ?_⟩⟩
    · intro e mem
      rcases List.mem_append.mp mem with mem | mem
      · exact replyEvents_benign mem
      · split at mem
        · obtain rfl := List.mem_singleton.mp mem
          exact ⟨(closing_benign _ a).1, (closing_benign _ a).2.2⟩
        · cases mem
    · cases spec.lateAck <;>
        simp [isReply_replyEvents, (closing_benign _ a).2.1, isReply.eq_def]
    · intro paid
      have shut : (decide (d.replyTo = []) || ok) = true := by simpa using paid
      cases spec.lateAck with
      | true => exact ⟨a, by simp [shut, closing]⟩
      | false => exact ⟨true, by simp⟩

end

/-! ## The routing key -/

/-- For every service and every delivery: with a routing key, only the method that the key's last
segment names can run, on an envelope that names it in full; a key that the binding matches is
the service's name and one more word; a delivery that runs nothing is answered with one
`PROTOCOL_ERROR` and settled; and without a key the envelope names a declared method. -/
theorem routing_key_decides (pw : Protowire) (s : Service) :
    (∀ d inv, d.routingKey ≠ [] → s.dispatch pw d = .ok inv →
      decodeRequest pw d.body = (inv.env, none) ∧ Runs s inv (lastSegment d.routingKey) ∧
        (lit "REQUEST." ++ s.name ++ lit ".") <+: d.routingKey) ∧
    (∀ d d' inv inv', d.routingKey ≠ [] → d'.routingKey = d.routingKey →
      s.dispatch pw d = .ok inv → s.dispatch pw d' = .ok inv' → inv'.desc = inv.desc) ∧
    (∀ k, topicMatch (splitDots s.binding) (splitDots k) = true →
      k = lit "REQUEST." ++ s.name ++ lit "." ++ lastSegment k) ∧
    (∀ unary serveStream d r, s.dispatch pw d = .error r →
      s.handle pw unary serveStream d =
        { reply := some (encodeError pw r.label codeProtocol r.reason) } ∧
      ∀ wide timeoutReply es ran,
        Program.Run (process wide (s.requestSpec timeoutReply) d) es → ⟨.run, ran⟩ ∈ es →
        ran.ended = .returned (s.handle pw unary serveStream d) →
        (∀ e ∈ es, isCopy e = false ∧ ∀ requeue, e.1 ≠ .reject requeue) ∧
        (live ran.cause = true → ∃ ok, es.filter isReply =
            replyEvents d (encodeError pw r.label codeProtocol r.reason) ok ∧
          (d.replyTo = [] ∨ ok = true → ∃ a, ⟨.ack, a⟩ ∈ es))) ∧
    (∀ d inv, d.routingKey = [] → s.dispatch pw d = .ok inv →
      decodeRequest pw d.body = (inv.env, none) ∧ Runs s inv (lastSegment inv.env.method)) := by
  refine ⟨?_, ?_, ?_, ?_, ?_⟩
  · intro d inv keyed ok
    exact Service.dispatch_keyed ok keyed
  · intro d d' inv inv' keyed same ok ok'
    obtain ⟨-, runs, -⟩ := Service.dispatch_keyed ok keyed
    obtain ⟨-, runs', -⟩ := Service.dispatch_keyed ok' (same ▸ keyed)
    rw [same] at runs'
    exact runs'.unique runs
  · intro k matched
    obtain ⟨w, absent, rfl⟩ := (s.binding_iff k).mp matched
    have last : lastSegment (lit "REQUEST." ++ s.name ++ lit "." ++ w) = w := by
      rw [append_lit_dot, lastSegment_append _ absent]
    rw [last]
  · intro unary serveStream d r rejected
    have result : s.handle pw unary serveStream d =
        { reply := some (encodeError pw r.label codeProtocol r.reason) } := by
      simp [Service.handle, rejected, rejection]
    refine ⟨result, ?_⟩
    intro wide timeoutReply es ran h mem ended
    refine answer_settles ?_ h mem
    rw [ended, result]
    rfl
  · intro d inv keyless ok
    exact Service.dispatch_keyless ok keyless

end Protobus.Rpc
