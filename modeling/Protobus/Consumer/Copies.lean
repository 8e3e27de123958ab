import Protobus.Consumer.Settlement

/-!
# Copies keep the message and its route

A failed message is republished again and again: to the retry queue, back through the broker,
and in the end to the dead-letter queue. Its headers are under the control of whoever published
it first. `Hops` is such a chain of copies; along it the message stays what it was, and nothing
in it decides where a copy goes except the count that tells a retry from the last attempt.
-/
namespace Protobus.Consumer
open Library Amqp

inductive Kind
  | retry
  | deadLetter

/-- The exchange and routing key of a copy, from the configuration and the delivered key. -/
def Kind.destination (retry : RetrySpec) (key : Bytes) : Kind → Bytes × Bytes
  | .retry => (retry.exchange, key)
  | .deadLetter => ([], retry.dlq)

def Kind.replyTo (d : Delivery) : Kind → Bytes
  | .retry => d.replyTo
  | .deadLetter => []

inductive CopyOf (wide : Int) (spec : Spec) (retry : RetrySpec) (d : Delivery) : Kind → Op → Prop
  | retry (err : Failure) (now : Int64) :
      CopyOf wide spec retry d .retry (retryCopy wide retry d err now)
  | deadLetter (err : Failure) (failedAt now : Int64) :
      CopyOf wide spec retry d .deadLetter (deadLetterCopy wide spec retry d err failedAt now)

/-- `pubChannel.publish` gives a message that has no id a fresh one. -/
def stamped (id : Bytes) (msg : Publishing) : Publishing :=
  if msg.messageId = [] then { msg with messageId := id } else msg

def headerDeath := lit "x-death"

/-- A message comes back from the retry queue: under its key, with its death recorded. -/
def redelivered (msg : Publishing) (key : Bytes) (death : Value) : Delivery :=
  { msg.deliver key with headers := msg.headers.set headerDeath death }

/-- The message `d` was parked as each of the copies, one after the other, and came back
every time, in the end as the last delivery. -/
inductive Hops (wide : Int) (spec : Spec) (d : Delivery) : List Publishing → Delivery → Prop
  | start : Hops wide spec d [] d
  | hop {sent : List Publishing} {d' : Delivery} {retry : RetrySpec} {exchange key : Bytes}
      {mandatory : Bool} {msg : Publishing} (id : Bytes) (death : Value) :
      Hops wide spec d sent d' → spec.retry = some retry →
      (process wide spec d').Performs (.publish exchange key mandatory msg) →
      CopyOf wide spec retry d' .retry (.publish exchange key mandatory msg) →
      Hops wide spec d (sent ++ [stamped id msg]) (redelivered (stamped id msg) key death)

/-- The headers that a copy may change: those of the protocol, the distribution headers of the
sender and the broker's record. -/
def ownHeaders : List Bytes :=
  [headerRetryCount, headerOriginalKey, headerOriginalQueue, headerFirstFailure,
    headerDeadLetterTime, headerLastError, lit "CC", lit "BCC", headerDeath]

/-- The time of the first failure, if the table has one that can be read. -/
def failureTime (wide : Int) (h : Table) : Option Value :=
  (h headerFirstFailure).filter fun v => (headerInt wide v).any (· ≠ 0)

/-- The message `e` is `d` again, after the copies `sent`. -/
structure SameMessage (wide : Int) (d : Delivery) (sent : List Publishing) (e : Delivery) :
    Prop where
  body : e.body = d.body
  correlationId : e.correlationId = d.correlationId
  messageId : d.messageId ≠ [] → e.messageId = d.messageId
  contentType : e.contentType = d.contentType
  contentEncoding : e.contentEncoding = d.contentEncoding
  priority : e.priority = d.priority
  timestamp : e.timestamp = d.timestamp
  type : e.type = d.type
  appId : e.appId = d.appId
  headers : ∀ k, k ∉ ownHeaders → e.headers k = d.headers k
  failureTime : ∀ h ∈ d.headers :: sent.map Publishing.headers, failureTime wide h ≠ none →
    e.headers headerFirstFailure = h headerFirstFailure

section
variable {wide : Int} {spec : Spec} {retry : RetrySpec} {d d' e : Delivery}
  {sent : List Publishing}

theorem Settles.copyOf {ran : Ran} {rest : List Event} (h : Settles wide spec d ran rest)
    {exchange key : Bytes} {mandatory : Bool} {msg : Publishing} {ok : Bool}
    (mem : ⟨.publish exchange key mandatory msg, ok⟩ ∈ rest) :
    ∃ retry kind, spec.retry = some retry ∧
      CopyOf wide spec retry d kind (.publish exchange key mandatory msg) := by
  cases h with
  | answered a => simp at mem
  | replied reply ok a => cases ok <;> simp [closing] at mem
  | retried retry err ok a _ topology =>
    rcases List.mem_cons.mp mem with eq | mem
    · have same : Op.publish .. = retryCopy .. := congrArg Sigma.fst eq
      rw [same]
      exact ⟨retry, .retry, topology, .retry err ran.failedAt⟩
    · cases ok <;> simp [closing] at mem
  | deadLettered retry err notice ok a _ topology sent =>
    rcases List.mem_append.mp mem with mem | mem
    · obtain ⟨_, _, _, eq⟩ := sent.reply mem
      simp at eq
    · rcases List.mem_cons.mp mem with eq | mem
      · have same : Op.publish .. = deadLetterCopy .. := congrArg Sigma.fst eq
        rw [same]
        exact ⟨retry, .deadLetter, topology, .deadLetter err ran.failedAt ran.deadLetteredAt⟩
      · cases ok <;> simp [closing] at mem
  | rejected err notice a _ sent =>
    rcases List.mem_append.mp mem with mem | mem
    · obtain ⟨_, _, _, eq⟩ := sent.reply mem
      simp at eq
    · simp at mem

theorem copyOf_performs {exchange key : Bytes} {mandatory : Bool} {msg : Publishing}
    (h : (process wide spec d).Performs (.publish exchange key mandatory msg)) :
    ∃ retry kind, spec.retry = some retry ∧
      CopyOf wide spec retry d kind (.publish exchange key mandatory msg) := by
  obtain ⟨es, run, ok, mem⟩ := h
  cases processes_of_run run with
  | cancelled | gone | refused | acked | ackedReplied => simp at mem
  | settled ran rest late cause settles => exact settles.copyOf (by simpa using mem)

/-! ## One copy -/

@[simp] theorem stamped_headers (id : Bytes) (msg : Publishing) :
    (stamped id msg).headers = msg.headers := by
  unfold stamped
  split <;> rfl

theorem failureTime_eq_some {h : Table} {v : Value} :
    failureTime wide h = some v ↔
      h headerFirstFailure = some v ∧ (headerInt wide v).any (· ≠ 0) = true := by
  simp [failureTime, Option.filter_eq_some_iff]

theorem firstFailure_of_failureTime (now : Int64) {v : Value}
    (h : failureTime wide d.headers = some v) : firstFailure wide d now = v := by
  obtain ⟨present, readable⟩ := failureTime_eq_some.mp h
  simp only [firstFailure, present, readable, ↓reduceIte]

theorem republishedHeaders_apply (d : Delivery) (k : Bytes) :
    republishedHeaders d k = if k = lit "BCC" ∨ k = lit "CC" then none else d.headers k := by
  simp only [republishedHeaders, Table.delete_apply]
  grind

theorem retryMsg_headers {attempt : Nat} {err : Failure} {now : Int64} {k : Bytes}
    (other : k ∉ ownHeaders) : (retryMsg wide d attempt err now).headers k = d.headers k := by
  simp only [ownHeaders, List.mem_cons, List.not_mem_nil, or_false, not_or] at other
  simp [retryMsg, republishedHeaders_apply, other]

theorem deadLetterMsg_headers {attempt : Nat} {err : Failure} {failedAt now : Int64} {k : Bytes}
    (other : k ∉ ownHeaders) :
    (deadLetterMsg wide spec d attempt err failedAt now).headers k = d.headers k := by
  simp only [ownHeaders, List.mem_cons, List.not_mem_nil, or_false, not_or] at other
  simp [deadLetterMsg, republishedHeaders_apply, other]

theorem SameMessage.stamped {msg : Publishing} {key : Bytes} (id : Bytes)
    (h : SameMessage wide d sent (msg.deliver key)) :
    SameMessage wide d sent ((stamped id msg).deliver key) := by
  by_cases named : msg.messageId = []
  · rw [Consumer.stamped, if_pos named]
    refine { h with messageId := ?_ }
    intro given
    exact absurd ((h.messageId given).symm.trans named) given
  · rw [Consumer.stamped, if_neg named]
    exact h

namespace CopyOf
variable {kind : Kind} {exchange key : Bytes} {mandatory : Bool} {msg : Publishing}
  (h : CopyOf wide spec retry d kind (.publish exchange key mandatory msg))
include h

theorem destination : (exchange, key) = kind.destination retry d.routingKey := by
  cases h with
  | retry err now => rfl
  | deadLetter err failedAt now => rfl

theorem replyTo : msg.replyTo = kind.replyTo d := by
  cases h with
  | retry err now => rfl
  | deadLetter err failedAt now => rfl

theorem firstFailure : ∃ now, msg.headers headerFirstFailure = some (firstFailure wide d now) := by
  have deadLetterTime : headerFirstFailure ≠ headerDeadLetterTime := by decide
  have lastError : headerFirstFailure ≠ headerLastError := by decide
  cases h with
  | retry err now => exact ⟨now, by simp [retryMsg, lastError]⟩
  | deadLetter err failedAt now =>
    exact ⟨failedAt, by simp [deadLetterMsg, deadLetterTime, lastError]⟩

theorem same (id : Bytes) : SameMessage wide d [] ((stamped id msg).deliver key) := by
  apply SameMessage.stamped
  obtain ⟨now, time⟩ := h.firstFailure
  have kept : ∀ table ∈ [d.headers], Consumer.failureTime wide table ≠ none →
      msg.headers headerFirstFailure = table headerFirstFailure := by
    intro table mem present
    obtain rfl := List.mem_singleton.mp mem
    obtain ⟨v, found⟩ := Option.ne_none_iff_exists'.mp present
    rw [time, firstFailure_of_failureTime now found, (failureTime_eq_some.mp found).1]
  cases h with
  | retry err now =>
    exact ⟨rfl, rfl, fun _ => rfl, rfl, rfl, rfl, rfl, rfl, rfl, fun _ => retryMsg_headers, kept⟩
  | deadLetter err failedAt now =>
    exact ⟨rfl, rfl, fun _ => rfl, rfl, rfl, rfl, rfl, rfl, rfl, fun _ => deadLetterMsg_headers,
      kept⟩

/-- No copy is distributed to keys of the sender's choice. -/
theorem undistributed : msg.headers (lit "CC") = none ∧ msg.headers (lit "BCC") = none := by
  cases h with
  | retry err now => constructor <;> simp +decide [retryMsg, republishedHeaders_apply]
  | deadLetter err failedAt now =>
    constructor <;> simp +decide [deadLetterMsg, republishedHeaders_apply]

end CopyOf

/-! ## Chains of copies -/

theorem SameMessage.refl (wide : Int) (d : Delivery) : SameMessage wide d [] d where
  body := rfl
  correlationId := rfl
  messageId := fun _ => rfl
  contentType := rfl
  contentEncoding := rfl
  priority := rfl
  timestamp := rfl
  type := rfl
  appId := rfl
  headers := fun _ _ => rfl
  failureTime := by
    intro h mem _
    rw [List.mem_singleton.mp mem]

theorem failureTime_congr {h h' : Table} (same : h headerFirstFailure = h' headerFirstFailure) :
    failureTime wide h = failureTime wide h' := by
  simp only [failureTime, same]

theorem SameMessage.trans (h : SameMessage wide d sent d') (next : SameMessage wide d' [] e) :
    SameMessage wide d sent e where
  body := next.body.trans h.body
  correlationId := next.correlationId.trans h.correlationId
  messageId := by
    intro given
    have kept := h.messageId given
    exact (next.messageId (kept ▸ given)).trans kept
  contentType := next.contentType.trans h.contentType
  contentEncoding := next.contentEncoding.trans h.contentEncoding
  priority := next.priority.trans h.priority
  timestamp := next.timestamp.trans h.timestamp
  type := next.type.trans h.type
  appId := next.appId.trans h.appId
  headers := fun k other => (next.headers k other).trans (h.headers k other)
  failureTime := by
    intro table mem present
    have kept := h.failureTime table mem present
    have still : Consumer.failureTime wide d'.headers ≠ none := by
      rwa [failureTime_congr kept]
    exact (next.failureTime d'.headers (.head _) still).trans kept

/-- The way through the broker: the copy itself is now one of the earlier ones. -/
theorem SameMessage.redelivered {msg : Publishing} {key : Bytes} (death : Value)
    (h : SameMessage wide d sent (msg.deliver key)) :
    SameMessage wide d (sent ++ [msg]) (redelivered msg key death) := by
  have time : (Consumer.redelivered msg key death).headers headerFirstFailure =
      msg.headers headerFirstFailure := by
    have : headerFirstFailure ≠ headerDeath := by decide
    simp [Consumer.redelivered, this]
  refine ⟨h.body, h.correlationId, h.messageId, h.contentType, h.contentEncoding, h.priority,
    h.timestamp, h.type, h.appId, ?_, ?_⟩
  · intro k other
    rw [← h.headers k other]
    have : k ≠ headerDeath := by
      intro eq
      simp [eq, ownHeaders] at other
    simp [Consumer.redelivered, Publishing.deliver, this]
  · intro table mem present
    rw [time]
    rw [List.map_append, ← List.cons_append] at mem
    rcases List.mem_append.mp mem with mem | mem
    · exact h.failureTime table mem present
    · rw [List.mem_singleton.mp mem]

/-- Along a chain of copies the message stays itself, under its own key. -/
theorem Hops.same (h : Hops wide spec d sent d') :
    SameMessage wide d sent d' ∧ d'.routingKey = d.routingKey ∧ d'.replyTo = d.replyTo := by
  induction h with
  | start => exact ⟨.refl wide d, rfl, rfl⟩
  | @hop sent d' retry exchange key mandatory msg id death _ _ _ copy ih =>
    obtain ⟨same, route, answer⟩ := ih
    refine ⟨(same.trans (copy.same id)).redelivered death, ?_, ?_⟩
    · exact (congrArg Prod.snd copy.destination).trans route
    · have kept : (stamped id msg).replyTo = msg.replyTo := by
        unfold stamped
        split <;> rfl
      exact kept.trans (copy.replyTo.trans answer)

/-- Every copy along a chain is the message `d` again: the same body, properties and headers,
without distribution headers, and with the time of the first failure as soon as there is one.
Where it goes depends on the configuration, the delivered key and the kind of the copy; a twin
of `d` that differs in its headers alone has its copies of that kind sent to the same place. -/
theorem copies_keep_message {exchange key : Bytes} {mandatory : Bool} {msg : Publishing}
    (hops : Hops wide spec d sent d')
    (published : (process wide spec d').Performs (.publish exchange key mandatory msg))
    (id : Bytes) :
    ∃ retry kind, spec.retry = some retry ∧
      CopyOf wide spec retry d' kind (.publish exchange key mandatory msg) ∧
      SameMessage wide d sent ((stamped id msg).deliver key) ∧
      (stamped id msg).headers (lit "CC") = none ∧ (stamped id msg).headers (lit "BCC") = none ∧
      msg.replyTo = kind.replyTo d ∧
      (exchange, key) = kind.destination retry d.routingKey ∧
      ∀ twin sent₂ twin' exchange₂ key₂ mandatory₂ msg₂,
        { twin with headers := d.headers } = d → Hops wide spec twin sent₂ twin' →
        (process wide spec twin').Performs (.publish exchange₂ key₂ mandatory₂ msg₂) →
        CopyOf wide spec retry twin' kind (.publish exchange₂ key₂ mandatory₂ msg₂) →
        (exchange₂, key₂) = (exchange, key) := by
  obtain ⟨retry, kind, topology, copy⟩ := copyOf_performs published
  obtain ⟨same, route, answer⟩ := hops.same
  have destination : (exchange, key) = kind.destination retry d.routingKey := by
    rw [copy.destination, route]
  have replyTo : msg.replyTo = kind.replyTo d := by
    rw [copy.replyTo]
    cases kind with
    | retry => exact answer
    | deadLetter => rfl
  rw [stamped_headers]
  refine ⟨retry, kind, topology, copy, same.trans (copy.same id), copy.undistributed.1,
    copy.undistributed.2, replyTo, destination, ?_⟩
  intro twin sent₂ twin' exchange₂ key₂ mandatory₂ msg₂ differ hops₂ _ copy₂
  have sameKey : twin.routingKey = d.routingKey := by rw [← differ]
  rw [destination, copy₂.destination, hops₂.same.2.1, sameKey]

/-- Below the last attempt a handler that panics has the message parked. -/
theorem performs_retryCopy (late : spec.lateAck = true) (topology : spec.retry = some retry)
    (below : retryCount wide d.headers < retry.maxRetries) (err : Failure) (now : Int64) :
    (process wide spec d).Performs (retryCopy wide retry d err now) := by
  apply @Program.performs_of_mem_trace _ _ (Op.obliged ⟨.panicked err, .none, now, now⟩)
  simp [process, late, settle, run, topology, below, retryCopy, Op.obliged]

/-- On the last attempt it has the message dead-lettered. -/
theorem performs_deadLetterCopy (late : spec.lateAck = true) (topology : spec.retry = some retry)
    (silent : spec.timeoutReply = none)
    (last : retry.maxRetries ≤ retryCount wide d.headers) (err : Failure) (now : Int64) :
    (process wide spec d).Performs (deadLetterCopy wide spec retry d err now now) := by
  have last : ¬retryCount wide d.headers < retry.maxRetries := by omega
  apply @Program.performs_of_mem_trace _ _ (Op.obliged ⟨.panicked err, .none, now, now⟩)
  simp [process, late, settle, run, topology, last, deadLetter, replyError, silent,
    deadLetterCopy, Op.obliged]

/-- A request that asks to be distributed to another service as well. -/
def distributed : Delivery where
  headers := Table.empty.set (lit "CC") (.string (lit "REQUEST.Other.drop"))
  messageId := lit "m1"
  routingKey := lit "REQUEST.Calc.add"

/-- The second copy of the request, after the first came back. -/
theorem copies_keep_message_distributed :
    let first := stamped [] (retryMsg 0 distributed 0 (lit "Error") 5)
    let back := redelivered first distributed.routingKey .other
    let second := stamped [] (retryMsg 0 back 1 (lit "Error") 9)
    second.headers (lit "CC") = none ∧ second.messageId = lit "m1" ∧
      second.headers headerFirstFailure = some (.int64 5) := by
  intro first back second
  have hops : Hops 0 calcSpec distributed [first] back := .hop [] .other .start rfl
    (performs_retryCopy rfl rfl (by decide) (lit "Error") 5) (.retry (lit "Error") 5)
  have count : retryCount 0 back.headers = 1 := by decide
  have published := @performs_retryCopy 0 calcSpec calcRetry back rfl rfl
    (by rw [count]; decide) (lit "Error") 9
  obtain ⟨retry, kind, topology, copy, same, cc, bcc, -⟩ := copies_keep_message hops published []
  rw [count] at same cc
  have failed : first.headers headerFirstFailure = some (.int64 5) := by
    simp +decide [first, retryMsg, firstFailure, distributed, Table.empty]
  refine ⟨cc, same.messageId (by decide), ?_⟩
  rw [← failed]
  exact same.failureTime first.headers (by simp) (by decide)

/-- The kind matters: the count, which is a header, tells a message that is parked from one
that goes to the dead-letter queue. -/
theorem copies_part_by_count :
    let spent : Delivery := { distributed with
      headers := distributed.headers.set headerRetryCount (intHeader 3) }
    { spent with headers := distributed.headers } = distributed ∧
      ∃ msg msg', (process 0 calcSpec distributed).Performs
          (.publish calcRetry.exchange (lit "REQUEST.Calc.add") true msg) ∧
        (process 0 calcSpec spent).Performs (.publish [] calcRetry.dlq true msg') ∧
        calcRetry.exchange ≠ [] := by
  intro spent
  exact ⟨rfl, _, _, performs_retryCopy rfl rfl (by decide) (lit "Error") 5,
    performs_deadLetterCopy rfl rfl rfl (by decide) (lit "Error") 5, by decide⟩

end
end Protobus.Consumer
