import Protobus.Consumer.Model

/-!
# The retry ladder

A message that fails is parked on the retry queue and comes back with its count raised by one,
until the count has reached `maxRetries` and it goes to the dead-letter queue. The count lives
in a header that anybody can write; whatever is there at first, the ladder is climbed one rung
at a time from what is read.
-/
namespace Protobus.Consumer
open Library Amqp

/-- The attempt failed, not on purpose, and its channel is still there. -/
def Ran.failsUnhandled (ran : Ran) : Prop :=
  (match ran.cause with
    | .cancelled | .disconnected | .closed => False
    | _ => True) ∧
  match ran.ended with
    | .returned r => r.err ≠ none ∧ r.handled = false
    | _ => True

section
variable (wide : Int) (spec : Spec) (retry : RetrySpec)

def isRetryCopy : Op → Bool
  | .publish exchange _ _ _ => exchange = retry.exchange
  | _ => false

def isDeadLetter : Op → Bool
  | .publish exchange key _ _ => exchange = [] && key = retry.dlq
  | _ => false

def isReply : Op → Bool
  | .publishReply _ _ => true
  | _ => false

/-- The message and key of the copy that an attempt parked on the retry queue. -/
def parked : List Op → Option (Publishing × Bytes)
  | [] => none
  | .publish exchange key _ msg :: ops =>
    if exchange = retry.exchange then some (msg, key) else parked ops
  | _ :: ops => parked ops

-- how the broker brings a parked message back when its time is over, and the answers that the
-- operations of each attempt get
variable (redeliver : Publishing → Bytes → Delivery) (env : Nat → (o : Op) → o.Answer)

/-- The attempts of one message from the `i`th on, each with its operations. -/
def ladder : Nat → Nat → Delivery → List (Delivery × List Op)
  | 0, _, _ => []
  | fuel + 1, i, d =>
    let ops := (process wide spec d).trace (env i)
    (d, ops) :: match parked retry ops with
      | some (msg, key) => ladder fuel (i + 1) (redeliver msg key)
      | none => []

end

/-! ## One attempt -/

section
variable {wide : Int} {spec : Spec} {retry : RetrySpec} {answer : (o : Op) → o.Answer}
  {d : Delivery}

theorem retryMsg_retryCount (n : Nat) (err : Failure) (now : Int64) :
    (retryMsg wide d n err now).headers headerRetryCount = some (intHeader (n + 1 : Nat)) := by
  have originalKey : headerRetryCount ≠ headerOriginalKey := by decide
  have firstFailure : headerRetryCount ≠ headerFirstFailure := by decide
  have lastError : headerRetryCount ≠ headerLastError := by decide
  simp [retryMsg, originalKey, firstFailure, lastError]

theorem deadLetterMsg_retryCount (n : Nat) (err : Failure) (failedAt now : Int64) :
    (deadLetterMsg wide spec d n err failedAt now).headers headerRetryCount =
      some (intHeader n) := by
  have originalKey : headerRetryCount ≠ headerOriginalKey := by decide
  have originalQueue : headerRetryCount ≠ headerOriginalQueue := by decide
  have firstFailure : headerRetryCount ≠ headerFirstFailure := by decide
  have deadLetterTime : headerRetryCount ≠ headerDeadLetterTime := by decide
  have lastError : headerRetryCount ≠ headerLastError := by decide
  simp [deadLetterMsg, originalKey, originalQueue, firstFailure, deadLetterTime, lastError]

theorem retryCount_retryMsg {n : Nat} (le : n + 1 ≤ 2 ^ 31 - 1) (err : Failure) (now : Int64) :
    retryCount wide (retryMsg wide d n err now).headers = n + 1 :=
  retryCount_of_get wide le (retryMsg_retryCount n err now)

theorem retryCount_deadLetterMsg {n : Nat} (le : n ≤ 2 ^ 31 - 1) (err : Failure)
    (failedAt now : Int64) :
    retryCount wide (deadLetterMsg wide spec d n err failedAt now).headers = n :=
  retryCount_of_get wide le (deadLetterMsg_retryCount n err failedAt now)

theorem err_of_failsUnhandled (spec : Spec) (d : Delivery) {ran : Ran}
    (fails : ran.failsUnhandled) :
    ∃ err, (run spec d ran.ended).err = some err ∧ (run spec d ran.ended).handled = false := by
  have failed := fails.2
  cases h : ran.ended with
  | returned r =>
    rw [h] at failed
    obtain ⟨err, eq⟩ := Option.ne_none_iff_exists'.mp failed.1
    exact ⟨err, eq, failed.2⟩
  | panicked err | timedOut err => exact ⟨err, rfl, rfl⟩

theorem trace_process (late : spec.lateAck = true) (fails : (answer .run).failsUnhandled) :
    (process wide spec d).trace answer =
      .run :: (settle wide spec d (answer .run)).trace answer := by
  have live := fails.1
  simp only [process, late, ↓reduceIte, Program.trace_perform]
  cases h : (answer .run).cause <;> simp_all

/-- The attempt is not the last: the copy, then the ack, and no reply. -/
theorem trace_retry (late : spec.lateAck = true) (topology : spec.retry = some retry)
    (fails : (answer .run).failsUnhandled)
    (published : ∀ exchange key mandatory msg, answer (.publish exchange key mandatory msg) = true)
    (bound : retry.maxRetries ≤ 2 ^ 31 - 1) (lt : retryCount wide d.headers < retry.maxRetries) :
    ∃ msg, retryCount wide msg.headers = retryCount wide d.headers + 1 ∧
      (process wide spec d).trace answer =
        [.run, .publish retry.exchange d.routingKey true msg, .ack] := by
  obtain ⟨err, failed, unhandled⟩ := err_of_failsUnhandled spec d fails
  refine ⟨retryMsg wide d (retryCount wide d.headers) err (answer .run).failedAt,
    retryCount_retryMsg (by omega) _ _, ?_⟩
  rw [trace_process late fails]
  simp [settle, failed, unhandled, late, topology, lt, published, ack, originalRoutingKey]

/-- The last attempt: a reply if one is due, then the dead-letter copy and the ack. -/
theorem trace_deadLetter (late : spec.lateAck = true) (topology : spec.retry = some retry)
    (fails : (answer .run).failsUnhandled)
    (published : ∀ exchange key mandatory msg, answer (.publish exchange key mandatory msg) = true)
    (ge : retry.maxRetries ≤ retryCount wide d.headers) :
    ∃ msg replies, retryCount wide msg.headers = retryCount wide d.headers ∧
      (replies = [] ∨ ∃ key reply, replies = [.publishReply key reply]) ∧
      (process wide spec d).trace answer =
        .run :: replies ++ [.publish [] retry.dlq true msg, .ack] := by
  obtain ⟨err, failed, unhandled⟩ := err_of_failsUnhandled spec d fails
  have last : ¬retryCount wide d.headers < retry.maxRetries := by omega
  let msg := deadLetterMsg wide spec d (retryCount wide d.headers) err (answer .run).failedAt
    (answer .run).deadLetteredAt
  have count : retryCount wide msg.headers = retryCount wide d.headers :=
    retryCount_deadLetterMsg (retryCount_le wide d.headers) ..
  rw [trace_process late fails]
  simp only [settle, failed, unhandled, late, topology, last, deadLetter]
  cases due : (run spec d (answer .run).ended).errReply with
  | none => exact ⟨msg, [], count, .inl rfl, by simp [replyError, published, ack, msg]⟩
  | some body =>
    by_cases silent : d.replyTo = []
    · exact ⟨msg, [], count, .inl rfl, by simp [replyError, silent, published, ack, msg]⟩
    · exact ⟨msg, [.publishReply d.replyTo (replyMsg d body)], count, .inr ⟨_, _, rfl⟩,
        by simp [replyError, silent, published, ack, msg]⟩

end

/-! ## The climb -/

/-- Every attempt fails unhandled, every copy is published, and a parked message comes back
with the count it was parked with. -/
structure Hopeless (spec : Spec) (retry : RetrySpec) (redeliver : Publishing → Bytes → Delivery)
    (env : Nat → (o : Op) → o.Answer) : Prop where
  late : spec.lateAck = true
  topology : spec.retry = some retry
  named : retry.exchange ≠ []
  bound : retry.maxRetries ≤ 2 ^ 31 - 1
  fails : ∀ i, (env i .run).failsUnhandled
  published : ∀ i exchange key mandatory msg, env i (.publish exchange key mandatory msg) = true
  keeps : ∀ msg key, (redeliver msg key).headers headerRetryCount = msg.headers headerRetryCount

/-- What the attempts of a message look like that is first read with the count `c`. -/
structure Climbed (wide : Int) (retry : RetrySpec) (c : Nat) (hops : List (Delivery × List Op)) :
    Prop where
  counts : hops.map (fun hop => retryCount wide hop.1.headers) =
    List.range' c (retry.maxRetries - c + 1)
  copies : (hops.flatMap Prod.snd).countP (isRetryCopy retry) = retry.maxRetries - c
  silent : ∀ hop ∈ hops, hop.2.any (isRetryCopy retry) = true → hop.2.any isReply = false
  written : ∀ hop ∈ hops, ∀ key mandatory msg, .publish retry.exchange key mandatory msg ∈ hop.2 →
    retryCount wide msg.headers = retryCount wide hop.1.headers + 1
  dead : ∃ front last msg, hops = front ++ [last] ∧
    (front.flatMap Prod.snd).any (isDeadLetter retry) = false ∧
    last.2.filter (isDeadLetter retry) = [.publish [] retry.dlq true msg] ∧
    retryCount wide msg.headers = max c retry.maxRetries

section
variable {wide : Int} {spec : Spec} {retry : RetrySpec}
  {redeliver : Publishing → Bytes → Delivery} {env : Nat → (o : Op) → o.Answer}

namespace Hopeless
variable (h : Hopeless spec retry redeliver env)
include h

/-- The top of the ladder. -/
theorem ladder_top (fuel i : Nat) {d : Delivery}
    (ge : retry.maxRetries ≤ retryCount wide d.headers) :
    Climbed wide retry (retryCount wide d.headers)
      (ladder wide spec retry redeliver env (fuel + 1) i d) := by
  obtain ⟨msg, replies, count, isReplies, eq⟩ :=
    trace_deadLetter h.late h.topology (h.fails i) (h.published i) ge
  have named : ¬[] = retry.exchange := fun eq => h.named eq.symm
  have top : retry.maxRetries - retryCount wide d.headers = 0 := by omega
  have attempt : ladder wide spec retry redeliver env (fuel + 1) i d =
      [(d, .run :: replies ++ [.publish [] retry.dlq true msg, .ack])] := by
    rcases isReplies with rfl | ⟨key, reply, rfl⟩ <;> simp [ladder, eq, parked, named]
  rw [attempt]
  refine ⟨by simp [top], ?_, ?_, ?_, [], _, msg, rfl, rfl, ?_, by rw [count]; omega⟩ <;>
    rcases isReplies with rfl | ⟨key, reply, rfl⟩ <;>
    simp [isRetryCopy, isDeadLetter, named, h.named, top]

/-- One rung. -/
theorem ladder_rung {fuel i : Nat} {d : Delivery}
    (lt : retryCount wide d.headers < retry.maxRetries)
    (above : ∀ d', retryCount wide d'.headers = retryCount wide d.headers + 1 →
      Climbed wide retry (retryCount wide d'.headers)
        (ladder wide spec retry redeliver env fuel (i + 1) d')) :
    Climbed wide retry (retryCount wide d.headers)
      (ladder wide spec retry redeliver env (fuel + 1) i d) := by
  obtain ⟨msg, count, eq⟩ :=
    trace_retry h.late h.topology (h.fails i) (h.published i) h.bound lt
  have back : retryCount wide (redeliver msg d.routingKey).headers =
      retryCount wide d.headers + 1 := by
    rw [retryCount, h.keeps]
    exact count
  have rest := above _ back
  rw [back] at rest
  obtain ⟨front, last, dlq, split, clean, one, top⟩ := rest.dead
  have attempt : ladder wide spec retry redeliver env (fuel + 1) i d =
      (d, [.run, .publish retry.exchange d.routingKey true msg, .ack]) ::
        ladder wide spec retry redeliver env fuel (i + 1) (redeliver msg d.routingKey) := by
    simp [ladder, eq, parked]
  rw [attempt]
  refine ⟨?_, ?_, ?_, ?_, _ :: front, last, dlq, by rw [split]; rfl, ?_, one, by omega⟩
  · have length : retry.maxRetries - retryCount wide d.headers + 1 =
        retry.maxRetries - (retryCount wide d.headers + 1) + 1 + 1 := by omega
    rw [List.map_cons, rest.counts, length]
    rfl
  · rw [List.flatMap_cons, List.countP_append, rest.copies]
    simp [isRetryCopy]
    omega
  · rintro hop (_ | ⟨_, mem⟩)
    · exact fun _ => rfl
    · exact rest.silent hop mem
  · rintro hop (_ | ⟨_, mem⟩)
    · simpa using count
    · exact rest.written hop mem
  · simp only [List.flatMap_cons, List.any_append, clean, Bool.or_false]
    simp [isDeadLetter, h.named]

end Hopeless

/-- Whatever count a message arrives with, its attempts read `c, c + 1, …, max c maxRetries`,
each but the last parks one copy and sends no reply, and the last one leaves the only
dead-letter copy. More fuel changes nothing: no attempt follows. A delivery that comes again
because its acknowledgement was lost starts a ladder of its own, with the count it had. -/
theorem ladder_climbs (h : Hopeless spec retry redeliver env) (d : Delivery) (fuel i : Nat)
    (enough : retry.maxRetries - retryCount wide d.headers < fuel) :
    Climbed wide retry (retryCount wide d.headers)
      (ladder wide spec retry redeliver env fuel i d) := by
  induction fuel generalizing i d with
  | zero => omega
  | succ fuel ih =>
    by_cases lt : retryCount wide d.headers < retry.maxRetries
    · exact h.ladder_rung lt fun d' count => ih d' (i + 1) (by omega)
    · exact h.ladder_top fuel i (by omega)

def calcRetry : RetrySpec := ⟨3, lit "Calc.Retry.Exchange", lit "Calc.Retry", lit "Calc.DLQ"⟩

def calcSpec : Spec := ⟨lit "Calc", true, some calcRetry, false, none⟩

/-- Every handler panics, and the broker does what it is asked to. -/
def panics : Nat → (o : Op) → o.Answer
  | _, .run => ⟨.panicked (lit "Error"), .none, 0, 0⟩
  | _, .publishReply _ _ | _, .publish _ _ _ _ | _, .ack | _, .nack _ | _, .reject _ => true

/-- A count that the publisher forged as a text, two below the bound. -/
theorem ladder_climbs_forged :
    let d : Delivery := { headers := Table.empty.set headerRetryCount (.string (lit " 1")) }
    retryCount 0 d.headers = 1 ∧
      Climbed 0 calcRetry 1 (ladder 0 calcSpec calcRetry Publishing.deliver panics 3 0 d) := by
  intro d
  have hopeless : Hopeless calcSpec calcRetry Publishing.deliver panics :=
    ⟨rfl, rfl, by decide, by decide, fun _ => ⟨trivial, trivial⟩, fun _ _ _ _ _ => rfl,
      fun _ _ => rfl⟩
  have count : retryCount 0 d.headers = 1 := by decide
  have climbed := ladder_climbs hopeless d 3 0 (show 3 - retryCount 0 d.headers < 3 by omega)
  rw [count] at climbed
  exact ⟨count, climbed⟩

end
end Protobus.Consumer
