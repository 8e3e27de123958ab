import Protobus.Errors.Replies
import Protobus.Rpc.Addressing

/-!
# A call over the bus is a call

A client marshals a request and wraps it in an envelope, the service finds the method, decodes the
request, runs the interceptors and the implementation and encodes what they return, the consumer
publishes the reply, and the client decodes it. Whatever happens to the delivery on the way, the
only answer that a caller can get is the one that the implementation would give it in its own
process: the response, or the error as `sanitizeForCaller` shows it.
-/
namespace Protobus.Rpc
open Library Consumer Amqp
open Wire hiding Event
open Errors (codeProtocol)

/-! ## Methods -/

/-- The messages of one type. `marshal` checks the custom types of a message, and `unmarshal` those
of what it has read. -/
structure Codec (α : Type) where
  marshal : α → Except Errors.Err Bytes
  unmarshal : Bytes → Option α
  reads : ∀ a data, marshal a = .ok data → unmarshal data = some a

/-- What a handler is told about its request. -/
structure CallInfo where
  method : Bytes
  actor : Bytes
  correlationId : Bytes
  messageId : Bytes
  routingKey : Bytes
  attempt : Nat
  headers : Amqp.Table

/-- An error of a handler, as `failure` tells them apart: a payload that did not decode, one that is
`ErrUnimplemented`, and any other. -/
inductive HandlerError
  | payload
  | unimplemented
  | other (err : Errors.Err)

/-- A handler may return no response. -/
abbrev UnaryHandler (Req Resp : Type) := CallInfo → Req → Except HandlerError (Option Resp)

/-- An interceptor is given the context, the request, `FullMethod` and the handler to go on with. -/
abbrev UnaryInterceptor (Req Resp : Type) :=
  CallInfo → Req → Bytes → UnaryHandler Req Resp → Except HandlerError (Option Resp)

section
variable {Req Resp : Type}

/-- The loop of `chainUnary` goes from the last interceptor to the second. -/
def chainUnary : List (UnaryInterceptor Req Resp) → Option (UnaryInterceptor Req Resp)
  | [] => none
  | [ic] => some ic
  | ic :: ics => some fun ctx req info handler => ic ctx req info
      (ics.reverse.foldl (fun next ic ctx req => ic ctx req info next) handler)

/-- A unary method with its types, what implements it, and the interceptors of its service. -/
structure Method (Req Resp : Type) where
  request : Codec Req
  response : Codec Resp
  impl : UnaryHandler Req Resp
  interceptors : List (UnaryInterceptor Req Resp)

/-- `MethodDesc.Handler`, as it is generated. -/
def Method.handler (m : Method Req Resp) (full : Bytes) (ctx : CallInfo) (data : Bytes) :
    Except HandlerError (Option Resp) :=
  match m.request.unmarshal data with
  | none => .error .payload
  | some req => match chainUnary m.interceptors with
    | none => m.impl ctx req
    | some ic => ic ctx req full m.impl

variable (wide : Int) (expose : Bool)

def callInfo (d : Delivery) (env : Request) : CallInfo where
  method := env.method
  actor := env.actor
  correlationId := d.correlationId
  messageId := d.messageId
  routingKey := d.routingKey
  attempt := retryCount wide d.headers
  headers := d.headers

/-- The cases of `failure`. -/
def HandlerError.callError : HandlerError → CallError
  | payload => .payload
  | unimplemented => .unimplemented
  | other err =>
    let shown := Errors.Err.sanitizeForCaller err expose
    if err.asAnswerable.isSome then .answerable shown.code shown.message
    else .internal (Errors.Err.safeErrorSummary (some err)) shown.code shown.message

/-- `fmt.Errorf("encoding the response of %s: %w", env.Method, err)`. -/
def encodingError (method : Bytes) (err : Errors.Err) : Errors.Err :=
  .wrap { typeName := lit "wrapError" }
    (lit "encoding the response of " ++ method ++ lit ": " ++ err.error) err

/-- What `handle` does with the method it has found, up to the envelope of the reply. -/
def Method.serve (m : Method Req Resp) (d : Delivery) (env : Request) : Except CallError Bytes :=
  match m.handler env.method (callInfo wide d env) env.data with
  | .error err => .error (err.callError expose)
  | .ok none => .ok []
  | .ok (some resp) => match m.response.marshal resp with
    | .ok data => .ok data
    | .error err => .error ((HandlerError.other (encodingError env.method err)).callError expose)

/-- `decodeReply`, with what it leaves in `out`. -/
def decodeReply (pw : Protowire) (method : Bytes) (unmarshal : Bytes → Option Resp)
    (reply : Bytes) : Except Stream.ReplyErr Resp :=
  match decodeResponse pw reply with
  | (_, some err) => .error (.invalid (some err))
  | (resp, none) => match resp.error, resp.result with
    | some e, _ => .error (.remote e)
    | none, some res =>
      if res.method ≠ method then .error (.otherMethod res.method)
      else match unmarshal res.data with
        | some out => .ok out
        | none => .error .payload
    | none, none => .error (.invalid none)

/-! ## The call in one process -/

/-- The interceptors around the implementation, the first outermost. -/
def Method.invoke (m : Method Req Resp) (full : Bytes) : UnaryHandler Req Resp :=
  m.interceptors.foldr (fun ic next ctx req => ic ctx req full next) m.impl

/-- The call with the request `x`, as the service makes it for the envelope of a delivery. -/
def Method.direct (m : Method Req Resp) (d : Delivery) (env : Request) (x : Req) :
    Except HandlerError (Option Resp) :=
  m.invoke env.method (callInfo wide d env) x

/-- An error as a caller is shown it. -/
def HandlerError.shown (full : Bytes) : HandlerError → Error
  | payload => ⟨full, lit "payload did not decode as the request type of " ++ full, codeProtocol⟩
  | unimplemented => ⟨full, lit "invalid service method " ++ lastSegment full, codeProtocol⟩
  | other err => Errors.answer expose full err

/-- What the caller makes of the outcome; no response reads as the empty message. -/
def Method.outcome (m : Method Req Resp) (full : Bytes) :
    Except HandlerError (Option Resp) → Except Stream.ReplyErr Resp
  | .ok (some resp) => .ok resp
  | .ok none => match m.response.unmarshal [] with
    | some out => .ok out
    | none => .error .payload
  | .error err => .error (.remote (err.shown expose full))

/-- The response that carries the outcome, if there is one. -/
def Method.carrier (m : Method Req Resp) (full : Bytes) :
    Except HandlerError (Option Resp) → Option Response
  | .ok (some resp) => match m.response.marshal resp with
    | .ok data => some ⟨some ⟨full, data⟩, none⟩
    | .error _ => none
  | .ok none => some ⟨some ⟨full, []⟩, none⟩
  | .error err => some ⟨none, some (err.shown expose full)⟩

/-- The envelope can hold the outcome: its texts are text, and its length is one. -/
def Method.Carries (pw : Protowire) (m : Method Req Resp) (full : Bytes)
    (result : Except HandlerError (Option Resp)) : Prop :=
  ∃ r, m.carrier expose full result = some r ∧ r.Fits pw ∧ r.Text

end

section
variable {Req Resp : Type} {m : Method Req Resp} {wide : Int} {expose : Bool} {pw : Protowire}
  {full : Bytes} {result : Except HandlerError (Option Resp)}

/-- The loop composes the interceptors in their order. -/
theorem handler_eq_invoke {ctx : CallInfo} {data : Bytes} {req : Req}
    (read : m.request.unmarshal data = some req) :
    m.handler full ctx data = m.invoke full ctx req := by
  simp only [Method.handler, read, Method.invoke]
  cases m.interceptors with
  | nil => rfl
  | cons ic ics =>
    cases ics with
    | nil => rfl
    | cons ic' ics => simp only [chainUnary, List.foldl_reverse, List.foldr_cons]

theorem decodeReply_carrier (laws : pw.Lawful) {r : Response}
    (carried : m.carrier expose full result = some r) (fits : r.Fits pw) (text : r.Text) :
    decodeReply pw full m.response.unmarshal (appendResponse pw .nil r).1.data =
      m.outcome expose full result := by
  have wf : r.WellFormed := by
    unfold Method.carrier at carried
    split at carried
    · split at carried
      · cases carried
        simp [Response.WellFormed]
      · cases carried
    · cases carried
      simp [Response.WellFormed]
    · cases carried
      simp [Response.WellFormed]
  obtain ⟨body, appended, decoded⟩ := exists_encoding_response laws r wf fits text
  have same : (appendResponse pw .nil r).1.data = body := (appended .nil).1
  rw [same, decodeReply, decoded]
  unfold Method.carrier at carried
  unfold Method.outcome
  split at carried
  · split at carried
    · next data marshalled =>
      cases carried
      simp [m.response.reads _ _ marshalled]
    · cases carried
  · cases carried
    simp only [ne_eq, not_true_eq_false, if_false]
  · cases carried
    rfl

/-- The reply that a result leads to, at once or after its last attempt. -/
def answerOf (res : HandlerResult) : Option Bytes :=
  if res.err.isSome then res.errReply else res.reply

theorem answerOf_failure (err : HandlerError) :
    answerOf (failure pw full (err.callError expose)) =
      some (appendResponse pw .nil ⟨none, some (err.shown expose full)⟩).1.data := by
  cases err with
  | payload => rfl
  | unimplemented => rfl
  | other err =>
    simp only [HandlerError.callError]
    split <;> rfl

/-- The service answers with the carrier of what its method returns. -/
theorem answerOf_handle {s : Service} {d : Delivery} {desc : MethodDesc} {env : Request}
    {unary : MethodDesc → Request → Except CallError Bytes}
    {serveStream : MethodDesc → Request → HandlerResult} {req : Req} {r : Response}
    (found : s.dispatch pw d = .ok (.unary desc env))
    (runs : unary desc env = m.serve wide expose d env)
    (read : m.request.unmarshal env.data = some req)
    (carried : m.carrier expose env.method (m.direct wide d env req) = some r) :
    answerOf (s.handle pw unary serveStream d) = some (appendResponse pw .nil r).1.data := by
  simp only [Service.handle, found, runs, Method.serve, handler_eq_invoke read]
  unfold Method.direct at carried
  cases outcome : m.invoke env.method (callInfo wide d env) req with
  | error err =>
    rw [outcome] at carried
    cases carried
    exact answerOf_failure err
  | ok resp =>
    rw [outcome] at carried
    cases resp with
    | none =>
      cases carried
      rfl
    | some resp =>
      simp only [Method.carrier] at carried ⊢
      split at carried
      · next data marshalled =>
        cases carried
        rfl
      · cases carried

/-! ## The reply of a delivery -/

variable {spec : Spec} {d : Delivery} {es : List Event}

theorem reply_of_notice {body : Option Bytes} {notice : List Event} (sent : Notice d body notice)
    {key : Bytes} {msg : Publishing} {ok : Bool} (mem : ⟨.publishReply key msg, ok⟩ ∈ notice) :
    key = d.replyTo ∧ ∃ reply, body = some reply ∧ msg = replyMsg d reply := by
  cases sent with
  | silent => cases mem
  | sent reply ok' eq due =>
    have same := List.mem_singleton.mp mem
    cases same
    exact ⟨rfl, reply, eq, rfl⟩

theorem reply_of_settle {ran : Ran} (h : Program.Run (settle wide spec d ran) es)
    {key : Bytes} {msg : Publishing} {ok : Bool} (mem : ⟨.publishReply key msg, ok⟩ ∈ es) :
    key = d.replyTo ∧ ∃ reply, answerOf (Consumer.run spec d ran.ended) = some reply ∧
      msg = replyMsg d reply := by
  unfold answerOf
  cases late : spec.lateAck with
  | true =>
    cases settles_of_run late h with
    | answered a => simp at mem
    | replied reply ok' a succeeded due =>
      cases ok' <;> simp [closing] at mem <;> simp_all
    | retried retry err ok' a => cases ok' <;> simp [closing, retryCopy] at mem
    | deadLettered retry err notice ok' a failed _ sent =>
      obtain mem | mem := List.mem_append.mp mem
      · simpa [failed] using reply_of_notice sent mem
      · cases ok' <;> simp [closing, deadLetterCopy] at mem
    | rejected err notice a failed sent =>
      obtain mem | mem := List.mem_append.mp mem
      · simpa [failed] using reply_of_notice sent mem
      · simp at mem
  | false =>
    simp only [settle, late, requeueLater] at h
    cases err : (Consumer.run spec d ran.ended).err with
    | none =>
      simp only [err] at h
      split at h
      · next reply due =>
        split at h
        · cases h
          cases mem
        · obtain ⟨ok', rest, next, rfl⟩ := Program.run_perform_iff.mp h
          obtain rfl : rest = [] := by cases ok' <;> simpa using next
          cases List.mem_singleton.mp mem
          exact ⟨rfl, reply, by simpa using due, rfl⟩
      · cases h
        cases mem
    | some failed =>
      simp only [err, Bool.not_false, ↓reduceIte] at h
      obtain ⟨notice, rest, sent, next, rfl⟩ := run_replyError h
      cases next
      rw [List.append_nil] at mem
      simpa using reply_of_notice sent mem

/-- From the run of the handler on. -/
theorem reply_of_handling {cancelled : Code} {key : Bytes} {msg : Publishing} {ok : Bool}
    (silent : ∀ es, Program.Run cancelled es → ⟨.publishReply key msg, ok⟩ ∉ es)
    (h : Program.Run (.perform .run fun ran => match ran.cause with
      | .cancelled => cancelled
      | .disconnected | .closed => .done
      | _ => settle wide spec d ran) es)
    (mem : ⟨.publishReply key msg, ok⟩ ∈ es) :
    ∃ ran, ⟨.run, ran⟩ ∈ es ∧ key = d.replyTo ∧ ∃ reply,
      answerOf (Consumer.run spec d ran.ended) = some reply ∧ msg = replyMsg d reply := by
  obtain ⟨ran, rest, next, rfl⟩ := Program.run_perform_iff.mp h
  have there : ⟨.publishReply key msg, ok⟩ ∈ rest := by simpa using mem
  refine ⟨ran, by simp, ?_⟩
  split at next
  · exact absurd there (silent rest next)
  · cases next
    cases there
  · cases next
    cases there
  · exact reply_of_settle next there

/-- What a delivery is answered with comes from the run of its handler. -/
theorem reply_of_process (h : Program.Run (process wide spec d) es) {key : Bytes}
    {msg : Publishing} {ok : Bool} (mem : ⟨.publishReply key msg, ok⟩ ∈ es) :
    ∃ ran, ⟨.run, ran⟩ ∈ es ∧ key = d.replyTo ∧ ∃ reply,
      answerOf (Consumer.run spec d ran.ended) = some reply ∧ msg = replyMsg d reply := by
  cases late : spec.lateAck with
  | true =>
    simp only [process, late, ↓reduceIte] at h
    refine reply_of_handling (fun es acked there => ?_) h mem
    obtain ⟨a, rfl⟩ := run_ack.mp acked
    simp at there
  | false =>
    simp only [process, late, Bool.false_eq_true, ↓reduceIte] at h
    obtain ⟨acked, rest, next, rfl⟩ := Program.run_perform_iff.mp h
    have there : ⟨.publishReply key msg, ok⟩ ∈ rest := by simpa using mem
    split at next
    · obtain ⟨ran, ran_mem, answered⟩ := reply_of_handling (by simp) next there
      exact ⟨ran, List.mem_cons_of_mem _ ran_mem, answered⟩
    · cases next
      cases there

/-- A handler that succeeds is answered for, if somebody asked and the channel is there. -/
theorem replied_of_process (h : Program.Run (process wide spec d) es) {res : HandlerResult}
    {reply : Bytes} (asked : d.replyTo ≠ []) (succeeded : res.err = none)
    (answer : res.reply = some reply) (began : ∃ ran, ⟨.run, ran⟩ ∈ es)
    (ends : ∀ ran, ⟨.run, ran⟩ ∈ es → ran.ended = .returned res ∧
      (ran.cause = .none ∨ ran.cause = .other)) :
    ∃ ok, ⟨.publishReply d.replyTo (replyMsg d reply), ok⟩ ∈ es := by
  have settled : ∀ {ran : Ran} {rest : List Event}, ran.ended = .returned res →
      Program.Run (settle wide spec d ran) rest →
      ∃ ok, ⟨.publishReply d.replyTo (replyMsg d reply), ok⟩ ∈ rest := by
    intro ran rest ended next
    have same : Consumer.run spec d ran.ended = res := by rw [ended]; rfl
    simp only [settle, same, succeeded, answer, asked, if_false] at next
    obtain ⟨ok, more, -, rfl⟩ := Program.run_perform_iff.mp next
    exact ⟨ok, by simp⟩
  cases late : spec.lateAck with
  | true =>
    simp only [process, late, ↓reduceIte] at h
    obtain ⟨ran, rest, after, rfl⟩ := Program.run_perform_iff.mp h
    obtain ⟨ended, cause⟩ := ends ran (by simp)
    obtain ⟨ok, there⟩ := settled ended
      (by obtain eq | eq := cause <;> simpa only [eq] using after)
    exact ⟨ok, List.mem_cons_of_mem _ there⟩
  | false =>
    simp only [process, late, Bool.false_eq_true, ↓reduceIte] at h
    obtain ⟨acked, rest, next, rfl⟩ := Program.run_perform_iff.mp h
    split at next
    · obtain ⟨ran, rest, after, rfl⟩ := Program.run_perform_iff.mp next
      obtain ⟨ended, cause⟩ := ends ran (by simp)
      obtain ⟨ok, there⟩ := settled ended
        (by obtain eq | eq := cause <;> simpa only [eq] using after)
      exact ⟨ok, List.mem_cons_of_mem _ (List.mem_cons_of_mem _ there)⟩
    · cases next
      simp at began

/-! ## Calls -/

/-- The service runs `m` under the name `method`. -/
structure Offers (wide : Int) (expose : Bool) (s : Service) (method : Bytes)
    (unary : MethodDesc → Request → Except CallError Bytes) (m : Method Req Resp) (d : Delivery) :
    Prop where
  declared : ∃ md, s.contract.byName method = some md ∧ md.streamingServer = false
  registered : ∃ desc, s.unary.find method = some desc ∧
    ∀ env, unary desc env = m.serve wide expose d env

/-- A result that is answered at once. -/
def Prompt : Except HandlerError (Option Resp) → Prop
  | .error (.other err) => err.asAnswerable.isSome = true
  | _ => True

theorem handle_succeeds {s : Service} {desc : MethodDesc} {env : Request}
    {unary : MethodDesc → Request → Except CallError Bytes}
    {serveStream : MethodDesc → Request → HandlerResult} {req : Req}
    (found : s.dispatch pw d = .ok (.unary desc env))
    (runs : unary desc env = m.serve wide expose d env)
    (read : m.request.unmarshal env.data = some req)
    {r : Response} (carried : m.carrier expose env.method (m.direct wide d env req) = some r)
    (prompt : Prompt (m.direct wide d env req)) :
    (s.handle pw unary serveStream d).err = none := by
  simp only [Service.handle, found, runs, Method.serve, handler_eq_invoke read]
  unfold Method.direct at carried prompt
  cases outcome : m.invoke env.method (callInfo wide d env) req with
  | error err =>
    rw [outcome] at prompt
    cases err with
    | payload => rfl
    | unimplemented => rfl
    | other err =>
      have answerable : err.asAnswerable.isSome = true := prompt
      simp only [HandlerError.callError, answerable, if_true]
      rfl
  | ok resp =>
    cases resp with
    | none => rfl
    | some resp =>
      rw [outcome] at carried
      simp only [Method.carrier] at carried
      split at carried
      · next data marshalled => simp only [marshalled]
      · cases carried

/-- A client calls a unary method of a service that runs under its runtime name. The request it
publishes is such that, in every run of the consumer that gets it, at whatever attempt: every reply
goes to the caller's queue under the call's correlation id and is decoded to the outcome of the
method itself, interceptors and all, on the very request; and unless the method fails with an
internal error, which is tried again, there is a reply. -/
theorem call_transparent (laws : pw.Lawful) {s : Service} {c : Client} {method actor data : Bytes}
    {x : Req} {env : Request} (sent : env = ⟨c.contract ++ lit "." ++ method, actor, data⟩)
    (valid : c.err = false) (contract : c.contract = s.contract.fullName)
    (runtime : s.name = c.runtime) (marshalled : m.request.marshal x = .ok data)
    (text : validUTF8 actor = true) (fits : env.Fits) :
    ∃ body, c.envelope pw method actor data = some body ∧
      ∀ (d : Delivery) (spec : Spec) (es : List Event) unary serveStream,
        d.routingKey = c.routingKey method → d.body = body →
        Offers wide expose s method unary m d →
        m.Carries expose pw env.method (m.direct wide d env x) →
        Program.Run (process wide spec d) es →
        (∀ ran, ⟨.run, ran⟩ ∈ es → ran.ended = .returned (s.handle pw unary serveStream d)) →
        (∀ key msg ok, ⟨.publishReply key msg, ok⟩ ∈ es → key = d.replyTo ∧
          msg.correlationId = d.correlationId ∧
          decodeReply pw env.method m.response.unmarshal msg.body =
            m.outcome expose env.method (m.direct wide d env x)) ∧
        (Prompt (m.direct wide d env x) → d.replyTo ≠ [] → (∃ ran, ⟨.run, ran⟩ ∈ es) →
          (∀ ran, ⟨.run, ran⟩ ∈ es → ran.cause = .none ∨ ran.cause = .other) →
          ∃ key msg ok, ⟨.publishReply key msg, ok⟩ ∈ es) := by
  have built : c.envelope pw method actor data = some (appendRequest pw .nil env).data := by
    simp [Client.envelope, valid, sent]
  refine ⟨_, built, ?_⟩
  intro d spec es unary serveStream key body offers carries ran ends
  obtain ⟨md, declared, single⟩ := offers.declared
  obtain ⟨desc, registered, runs⟩ := offers.registered
  obtain ⟨r, carried, rFits, rText⟩ := carries
  have ident := s.contract.isIdent_of_byName declared
  have envText : env.Text := by
    subst sent
    refine ⟨?_, text⟩
    change validUTF8 (c.contract ++ lit "." ++ method) = true
    rw [append_lit_dot, contract]
    exact validUTF8_concat s.contract.fullName_valid ident
  have decoded : decodeRequest pw d.body = (env, none) := by
    rw [body]
    subst sent
    exact decodeRequest_envelope laws built fits envText
  have found : s.dispatch pw d = .ok (.unary desc env) := by
    rw [dispatch_routingKey (dot_not_mem_of_isIdent ident) runtime key decoded (by rw [sent])]
    have full : env.method = s.contract.fullName ++ lit "." ++ method := by rw [sent, contract]
    refine (resolve_eq_ok_iff ident full).mpr ⟨rfl, md, declared, ?_⟩
    simp [Service.handler, single, registered]
  have read : m.request.unmarshal env.data = some x := by
    rw [sent]
    exact m.request.reads x data marshalled
  have answer : answerOf (s.handle pw unary serveStream d) = _ :=
    answerOf_handle found (runs env) read carried
  constructor
  · intro key msg ok mem
    obtain ⟨ran, began, rfl, reply, eq, rfl⟩ := reply_of_process ran mem
    have same : Consumer.run spec d ran.ended = s.handle pw unary serveStream d := by
      rw [ends ran began]
      rfl
    rw [same, answer] at eq
    cases eq
    exact ⟨rfl, rfl, decodeReply_carrier laws carried rFits rText⟩
  · intro prompt asked began causes
    have succeeded : (s.handle pw unary serveStream d).err = none :=
      handle_succeeds found (runs env) read carried prompt
    rw [answerOf, succeeded] at answer
    obtain ⟨ok, there⟩ := replied_of_process ran asked succeeded answer began
      fun ran mem => ⟨ends ran mem, causes ran mem⟩
    exact ⟨_, _, ok, there⟩

end

/-- A method that doubles its request, behind one interceptor. -/
def doubling : Method Bytes Bytes where
  request := ⟨.ok, some, by simp⟩
  response := ⟨.ok, some, by simp⟩
  impl _ x := .ok (some (x ++ x))
  interceptors := [fun ctx x _ next => next ctx (x ++ [0])]

theorem call_transparent_doubling :
    ∃ (d : Delivery) (es : List Event) (key : Bytes) (msg : Publishing) (ok : Bool),
      (newClient (lit "a.b") (lit "c")).envelope .reference (lit "m") [] [7] = some d.body ∧
      Program.Run (process 0 ⟨lit "a.b.c", true, none, false, none⟩ d) es ∧
      ⟨.publishReply key msg, ok⟩ ∈ es ∧ key = lit "reply" ∧
      decodeReply .reference (lit "a.b.m") doubling.response.unmarshal msg.body =
        .ok [7, 0, 7, 0] := by
  let s := serviceOf (contractOf (lit "a.b") (by decide)) (lit "c") (by decide)
  let c := newClient (lit "a.b") (lit "c")
  obtain ⟨body, built, served⟩ := @call_transparent Bytes Bytes doubling 0 false .reference
    Protowire.reference_lawful s c (lit "m") [] [7] [7] ⟨lit "a.b.m", [], [7]⟩
    rfl rfl rfl rfl rfl (by decide) ⟨by decide, by decide, by decide⟩
  let d : Delivery := { routingKey := c.routingKey (lit "m"), body, replyTo := lit "reply" }
  let ran : Ran := ⟨.returned (s.handle .reference
    (fun _ env => doubling.serve 0 false d env) (fun _ _ => {}) d), .none, 0, 0⟩
  let spec : Spec := ⟨lit "a.b.c", true, none, false, none⟩
  let es : List Event := (Program.trace (Op.obliged ran) (process 0 spec d)).map
    fun o => ⟨o, Op.obliged ran o⟩
  have same : ∀ ran', (⟨.run, ran'⟩ : Event) ∈ es → ran' = ran := by
    intro ran' mem
    obtain ⟨o, -, eq⟩ := List.mem_map.mp mem
    cases eq
    rfl
  have runs : Program.Run (process 0 spec d) es := Program.exists_run_trace _ _
  obtain ⟨decodes, replied⟩ := served d spec es _ _ rfl rfl
    ⟨⟨_, rfl, rfl⟩, ⟨_, rfl, fun _ => rfl⟩⟩
    ⟨⟨some ⟨lit "a.b.m", [7, 0, 7, 0]⟩, none⟩, rfl, by simp [Response.Fits]; decide,
      by simp [Response.Text, Result.Text]; decide⟩
    runs (fun ran' mem => by rw [same ran' mem])
  obtain ⟨key, msg, ok, there⟩ := replied trivial (by simp only [d]; decide)
    ⟨ran, List.mem_cons_self⟩ (fun ran' mem => .inl (by rw [same ran' mem]))
  obtain ⟨rfl, -, decoded⟩ := decodes key msg ok there
  exact ⟨d, es, _, msg, ok, built, runs, there, rfl, decoded⟩

end Protobus.Rpc
