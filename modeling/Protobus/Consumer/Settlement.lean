import Protobus.Consumer.Ladder

/-!
# The runs of `process`

Settling a delivery twice is a channel error that takes down everything in flight, and settling
it before what it owes is published loses the message. `Settles` lists the runs of `settle`
under late ack, one constructor per outcome; what holds of every run of `process` is read off
the list.
-/
namespace Protobus.Consumer
open Library Amqp

/-- An operation of a run with its answer. -/
abbrev Event := (o : Op) × o.Answer

/-- The due publish decides how the delivery is settled. -/
def closing : Bool → Bool → Event
  | true, a => ⟨.ack, a⟩
  | false, a => ⟨.nack true, a⟩

section
variable (wide : Int) (spec : Spec) (retry : RetrySpec) (d : Delivery)

/-- What `publishRetry` publishes. -/
def retryCopy (err : Failure) (now : Int64) : Op :=
  .publish retry.exchange (originalRoutingKey d) true
    (retryMsg wide d (retryCount wide d.headers) err now)

/-- What `publishDeadLetter` publishes. -/
def deadLetterCopy (err : Failure) (failedAt now : Int64) : Op :=
  .publish [] retry.dlq true
    (deadLetterMsg wide spec d (retryCount wide d.headers) err failedAt now)

/-- The best-effort error reply, if there is one. -/
inductive Notice (body : Option Bytes) : List Event → Prop
  | silent : Notice body []
  | sent (reply : Bytes) (ok : Bool) : body = some reply → d.replyTo ≠ [] →
      Notice body [⟨.publishReply d.replyTo (replyMsg d reply), ok⟩]

inductive Settles (ran : Ran) : List Event → Prop
  | answered (a : Bool) : (run spec d ran.ended).err = none →
      ((run spec d ran.ended).reply = none ∨ d.replyTo = []) → Settles ran [⟨.ack, a⟩]
  | replied (reply : Bytes) (ok a : Bool) : (run spec d ran.ended).err = none →
      (run spec d ran.ended).reply = some reply → d.replyTo ≠ [] →
      Settles ran [⟨.publishReply d.replyTo (replyMsg d reply), ok⟩, closing ok a]
  | retried (retry : RetrySpec) (err : Failure) (ok a : Bool) :
      (run spec d ran.ended).err = some err → spec.retry = some retry →
      Settles ran [⟨retryCopy wide retry d err ran.failedAt, ok⟩, closing ok a]
  | deadLettered (retry : RetrySpec) (err : Failure) (notice : List Event) (ok a : Bool) :
      (run spec d ran.ended).err = some err → spec.retry = some retry →
      Notice d (run spec d ran.ended).errReply notice →
      Settles ran (notice ++
        [⟨deadLetterCopy wide spec retry d err ran.failedAt ran.deadLetteredAt, ok⟩, closing ok a])
  | rejected (err : Failure) (notice : List Event) (a : Bool) :
      (run spec d ran.ended).err = some err →
      Notice d (run spec d ran.ended).errReply notice →
      Settles ran (notice ++ [⟨.reject false, a⟩])

end

section
variable {wide : Int} {spec : Spec} {d : Delivery} {es : List Event}

theorem run_ack : Program.Run ack es ↔ ∃ a, es = [⟨.ack, a⟩] := by
  simp [ack]

theorem run_closing (late : spec.lateAck = true) {ok : Bool} :
    Program.Run (if ok then ack else requeueLater spec) es ↔ ∃ a, es = [closing ok a] := by
  cases ok <;> simp [ack, requeueLater, late, closing]

theorem run_replyError {body : Option Bytes} {next : Code}
    (h : Program.Run (replyError d body next) es) :
    ∃ notice rest, Notice d body notice ∧ Program.Run next rest ∧ es = notice ++ rest := by
  unfold replyError at h
  split at h
  · next reply =>
    split at h
    · exact ⟨[], es, .silent, h, rfl⟩
    · next due =>
      obtain ⟨ok, rest, next, rfl⟩ := Program.run_perform_iff.mp h
      exact ⟨_, rest, .sent reply ok rfl due, next, rfl⟩
  · exact ⟨[], es, .silent, h, rfl⟩

/-- A due publish and the settlement that follows from it. -/
theorem run_duePublish (late : spec.lateAck = true) {o : Op} {answer : o.Answer → Bool}
    (h : Program.Run (.perform o fun ok => if answer ok then ack else requeueLater spec) es) :
    ∃ ok a, es = [⟨o, ok⟩, closing (answer ok) a] := by
  obtain ⟨ok, rest, next, rfl⟩ := Program.run_perform_iff.mp h
  obtain ⟨a, rfl⟩ := (run_closing late).mp next
  exact ⟨ok, a, rfl⟩

theorem settles_deadLetter (late : spec.lateAck = true) {retry : RetrySpec} {ran : Ran}
    {err : Failure} (failed : (run spec d ran.ended).err = some err)
    (topology : spec.retry = some retry)
    (h : Program.Run (deadLetter wide spec retry d (retryCount wide d.headers)
      (run spec d ran.ended) err ran) es) : Settles wide spec d ran es := by
  obtain ⟨notice, rest, sent, next, rfl⟩ := run_replyError h
  obtain ⟨ok, a, rfl⟩ := run_duePublish late next
  exact .deadLettered retry err notice ok a failed topology sent

theorem settles_reject {ran : Ran} {err : Failure}
    (failed : (run spec d ran.ended).err = some err)
    (h : Program.Run (replyError d (run spec d ran.ended).errReply
      (.perform (.reject false) fun _ => .done)) es) : Settles wide spec d ran es := by
  obtain ⟨notice, rest, sent, next, rfl⟩ := run_replyError h
  obtain ⟨a, _, ⟨⟩, rfl⟩ := Program.run_perform_iff.mp next
  exact .rejected err notice a failed sent

theorem settles_of_run (late : spec.lateAck = true) {ran : Ran}
    (h : Program.Run (settle wide spec d ran) es) : Settles wide spec d ran es := by
  simp only [settle, late] at h
  cases err : (run spec d ran.ended).err with
  | none =>
    simp only [err] at h
    cases reply : (run spec d ran.ended).reply with
    | none =>
      obtain ⟨a, rfl⟩ := run_ack.mp (by simpa [reply] using h)
      exact .answered a err (.inl reply)
    | some body =>
      simp only [reply] at h
      split at h
      · next silent =>
        obtain ⟨a, rfl⟩ := run_ack.mp h
        exact .answered a err (.inr silent)
      · next due =>
        obtain ⟨ok, a, rfl⟩ := run_duePublish late h
        exact .replied body ok a err reply due
  | some failure =>
    simp only [err, Bool.not_true, Bool.false_eq_true, ↓reduceIte] at h
    cases topology : spec.retry with
    | none =>
      simp only [topology] at h
      exact settles_reject err h
    | some retry =>
      simp only [topology] at h
      split at h
      · split at h
        · obtain ⟨ok, a, rfl⟩ := run_duePublish late h
          exact .retried retry failure ok a err topology
        · exact settles_deadLetter late err topology h
      · split at h
        · exact settles_deadLetter late err topology h
        · exact settles_reject err h

/-- Without late ack only a reply can follow the handler. -/
theorem replies_of_run (early : spec.lateAck = false) {ran : Ran}
    (h : Program.Run (settle wide spec d ran) es) :
    es = [] ∨ ∃ key msg ok, es = [⟨.publishReply key msg, ok⟩] := by
  simp only [settle, early, requeueLater] at h
  cases err : (run spec d ran.ended).err with
  | none =>
    simp only [err] at h
    split at h
    · split at h
      · exact .inl (Program.run_done_iff.mp h)
      · obtain ⟨ok, rest, next, rfl⟩ := Program.run_perform_iff.mp h
        obtain rfl : rest = [] := by simpa using next
        exact .inr ⟨_, _, ok, rfl⟩
    · exact .inl (Program.run_done_iff.mp h)
  | some failure =>
    simp only [err, Bool.not_false, ↓reduceIte] at h
    obtain ⟨notice, rest, sent, ⟨⟩, rfl⟩ := run_replyError h
    cases sent with
    | silent => exact .inl rfl
    | sent reply ok => exact .inr ⟨_, _, ok, rfl⟩

end

/-! ## Whole runs -/

/-- The channel of the delivery is gone. -/
def Cause.gone : Cause → Bool
  | .disconnected | .closed => true
  | _ => false

inductive Processes (wide : Int) (spec : Spec) (d : Delivery) : List Event → Prop
  | cancelled (ran : Ran) (a : Bool) : spec.lateAck = true → ran.cause = .cancelled →
      Processes wide spec d [⟨.run, ran⟩, ⟨.ack, a⟩]
  | gone (ran : Ran) : spec.lateAck = true → ran.cause.gone = true →
      Processes wide spec d [⟨.run, ran⟩]
  | settled (ran : Ran) (rest : List Event) : spec.lateAck = true → ran.cause.gone = false →
      Settles wide spec d ran rest → Processes wide spec d (⟨.run, ran⟩ :: rest)
  | refused : spec.lateAck = false → Processes wide spec d [⟨.ack, false⟩]
  | acked (ran : Ran) : spec.lateAck = false → Processes wide spec d [⟨.ack, true⟩, ⟨.run, ran⟩]
  | ackedReplied (ran : Ran) (key : Bytes) (msg : Publishing) (ok : Bool) :
      spec.lateAck = false → ran.cause.gone = false →
      Processes wide spec d [⟨.ack, true⟩, ⟨.run, ran⟩, ⟨.publishReply key msg, ok⟩]

section
variable {wide : Int} {spec : Spec} {d : Delivery} {es : List Event}

theorem processes_of_run (h : Program.Run (process wide spec d) es) :
    Processes wide spec d es := by
  unfold process at h
  cases late : spec.lateAck with
  | true =>
    simp only [late, ↓reduceIte] at h
    obtain ⟨ran, rest, next, rfl⟩ := Program.run_perform_iff.mp h
    split at next
    · next cause =>
      obtain ⟨a, rfl⟩ := run_ack.mp next
      exact .cancelled ran a late cause
    · next cause =>
      cases next
      exact .gone ran late (by rw [cause]; rfl)
    · next cause =>
      cases next
      exact .gone ran late (by rw [cause]; rfl)
    · next disconnected closed =>
      refine .settled ran rest late ?_ (settles_of_run late next)
      cases cause : ran.cause <;> simp_all [Cause.gone]
  | false =>
    simp only [late, Bool.false_eq_true, ↓reduceIte] at h
    obtain ⟨ok, rest, next, rfl⟩ := Program.run_perform_iff.mp h
    cases ok with
    | false =>
      obtain rfl : rest = [] := by simpa using next
      exact .refused late
    | true =>
      simp only [↓reduceIte] at next
      obtain ⟨ran, rest, settled, rfl⟩ := Program.run_perform_iff.mp next
      split at settled
      · cases settled
        exact .acked ran late
      · cases settled
        exact .acked ran late
      · cases settled
        exact .acked ran late
      · next disconnected closed =>
        rcases replies_of_run late settled with rfl | ⟨key, msg, ok, rfl⟩
        · exact .acked ran late
        · refine .ackedReplied ran key msg ok late ?_
          cases cause : ran.cause <;> simp_all [Cause.gone]

end

/-! ## At most one settlement, after what is owed -/

def isSettlement (e : Event) : Bool :=
  match e.1 with
  | .ack | .nack _ | .reject _ => true
  | _ => false

/-- A retry copy or a dead-letter copy. -/
def isCopy (e : Event) : Bool :=
  match e.1 with
  | .publish _ _ _ _ => true
  | _ => false

/-- A reply that the handler's result asks for, or a copy, that could not be published. The
best-effort error reply is not due. -/
def FailedDue (spec : Spec) (d : Delivery) (ran : Ran) : Event → Prop
  | ⟨.publish _ _ _ _, ok⟩ => ok = false
  | ⟨.publishReply _ _, ok⟩ => ok = false ∧ (run spec d ran.ended).err = none
  | _ => False

/-- What the delivery owes has been published, or it owes nothing. -/
inductive Paid (wide : Int) (spec : Spec) (d : Delivery) (before : List Event) : Prop
  | cancelled (ran : Ran) : ⟨.run, ran⟩ ∈ before → ran.cause = .cancelled →
      Paid wide spec d before
  | nothingDue (ran : Ran) : ⟨.run, ran⟩ ∈ before → (run spec d ran.ended).err = none →
      ((run spec d ran.ended).reply = none ∨ d.replyTo = []) → Paid wide spec d before
  | replied (ran : Ran) (reply : Bytes) : ⟨.run, ran⟩ ∈ before →
      (run spec d ran.ended).err = none → (run spec d ran.ended).reply = some reply →
      ⟨.publishReply d.replyTo (replyMsg d reply), true⟩ ∈ before → Paid wide spec d before
  | retried (ran : Ran) (retry : RetrySpec) (err : Failure) : ⟨.run, ran⟩ ∈ before →
      (run spec d ran.ended).err = some err → spec.retry = some retry →
      ⟨retryCopy wide retry d err ran.failedAt, true⟩ ∈ before → Paid wide spec d before
  | deadLettered (ran : Ran) (retry : RetrySpec) (err : Failure) : ⟨.run, ran⟩ ∈ before →
      (run spec d ran.ended).err = some err → spec.retry = some retry →
      ⟨deadLetterCopy wide spec retry d err ran.failedAt ran.deadLetteredAt, true⟩ ∈ before →
      Paid wide spec d before

structure Orderly (wide : Int) (spec : Spec) (d : Delivery) (es : List Event) : Prop where
  once : es.countP isSettlement ≤ 1
  paid : spec.lateAck = true → ∀ a, ⟨.ack, a⟩ ∈ es →
    ∃ before, es = before ++ [⟨.ack, a⟩] ∧ Paid wide spec d before
  requeued : spec.lateAck = true → ∀ ran, ⟨.run, ran⟩ ∈ es → ∀ e ∈ es, FailedDue spec d ran e →
    ∃ a, es.filter isSettlement = [⟨.nack true, a⟩]
  oneCopy : es.countP isCopy ≤ 1
  parked : ∀ retry err now ok, ⟨retryCopy wide retry d err now, ok⟩ ∈ es →
    ∀ key msg ok, ⟨.publishReply key msg, ok⟩ ∉ es
  gone : ∀ ran, ⟨.run, ran⟩ ∈ es → ran.cause.gone = true →
    es = (if spec.lateAck then [] else [⟨.ack, true⟩]) ++ [⟨.run, ran⟩]
  refused : spec.lateAck = false → ⟨.ack, false⟩ ∈ es → ∀ ran, ⟨.run, ran⟩ ∉ es
  noCopy : spec.lateAck = false → es.countP isCopy = 0
  onArrival : spec.lateAck = false → ∃ a rest, es = ⟨.ack, a⟩ :: rest

section
variable {wide : Int} {spec : Spec} {d : Delivery} {es : List Event}

/-- The two kinds of copies carry different counts. -/
theorem retryCopy_ne_deadLetterCopy (retry retry' : RetrySpec) (err err' : Failure)
    (now failedAt deadLetteredAt : Int64) :
    retryCopy wide retry d err now ≠
      deadLetterCopy wide spec retry' d err' failedAt deadLetteredAt := by
  intro same
  have headers := congrArg Publishing.headers (Op.publish.inj same).2.2.2
  have count := congrFun headers headerRetryCount
  rw [retryMsg_retryCount, deadLetterMsg_retryCount] at count
  have bound := retryCount_le wide d.headers
  have read := congrArg (headerInt wide) (Option.some.inj count)
  rw [headerInt_intHeader wide (by omega) (by omega),
    headerInt_intHeader wide (by omega) (by omega)] at read
  simp at read

@[simp] theorem isSettlement_closing (ok a : Bool) : isSettlement (closing ok a) = true := by
  cases ok <;> rfl

@[simp] theorem isCopy_closing (ok a : Bool) : isCopy (closing ok a) = false := by
  cases ok <;> rfl

theorem closing_eq_ack {ok a b : Bool} (h : closing ok a = ⟨.ack, b⟩) : ok = true ∧ a = b := by
  cases ok <;> simp_all [closing]

theorem Notice.reply {body : Option Bytes} {notice : List Event} (h : Notice d body notice)
    {e : Event} (mem : e ∈ notice) : ∃ key msg ok, e = ⟨.publishReply key msg, ok⟩ := by
  cases h with
  | silent => simp at mem
  | sent reply ok => exact ⟨_, _, ok, by simpa using mem⟩

theorem Notice.filter_isSettlement {body : Option Bytes} {notice : List Event}
    (h : Notice d body notice) : notice.filter isSettlement = [] := by
  cases h <;> rfl

theorem Notice.countP_isCopy {body : Option Bytes} {notice : List Event}
    (h : Notice d body notice) : notice.countP isCopy = 0 := by
  cases h <;> rfl

namespace Settles
variable {ran : Ran} {rest : List Event}

/-- The settlement comes last. -/
theorem last (h : Settles wide spec d ran rest) :
    ∃ before e, rest = before ++ [e] ∧ isSettlement e = true ∧
      before.filter isSettlement = [] := by
  cases h with
  | answered a => exact ⟨[], _, rfl, rfl, rfl⟩
  | replied reply ok a => exact ⟨[_], _, rfl, by simp, rfl⟩
  | retried retry err ok a => exact ⟨[_], _, rfl, by simp, rfl⟩
  | deadLettered retry err notice ok a _ _ sent =>
    refine ⟨notice ++ [_], _, (List.append_assoc notice [_] [_]).symm,
      isSettlement_closing ok a, ?_⟩
    rw [List.filter_append, sent.filter_isSettlement]
    rfl
  | rejected err notice a _ sent => exact ⟨notice, _, rfl, rfl, sent.filter_isSettlement⟩

theorem not_run (h : Settles wide spec d ran rest) (other : Ran) : ⟨.run, other⟩ ∉ rest := by
  intro mem
  cases h with
  | answered a => simp at mem
  | replied reply ok a => cases ok <;> simp [closing] at mem
  | retried retry err ok a => cases ok <;> simp [closing, retryCopy] at mem
  | deadLettered retry err notice ok a _ _ sent =>
    rcases List.mem_append.mp mem with mem | mem
    · obtain ⟨_, _, _, eq⟩ := sent.reply mem
      simp at eq
    · cases ok <;> simp [closing, deadLetterCopy] at mem
  | rejected err notice a _ sent =>
    rcases List.mem_append.mp mem with mem | mem
    · obtain ⟨_, _, _, eq⟩ := sent.reply mem
      simp at eq
    · simp at mem

theorem filter_isSettlement (h : Settles wide spec d ran rest) :
    ∃ e, rest.filter isSettlement = [e] := by
  obtain ⟨before, e, rfl, settles, clean⟩ := h.last
  exact ⟨e, by simp [List.filter_append, clean, settles]⟩

theorem oneCopy (h : Settles wide spec d ran rest) : rest.countP isCopy ≤ 1 := by
  cases h with
  | answered a => exact Nat.zero_le 1
  | replied reply ok a => cases ok <;> exact Nat.zero_le 1
  | retried retry err ok a => cases ok <;> exact Nat.le_refl 1
  | deadLettered retry err notice ok a _ _ sent =>
    rw [List.countP_append, sent.countP_isCopy]
    cases ok <;> exact Nat.le_refl 1
  | rejected err notice a _ sent =>
    rw [List.countP_append, sent.countP_isCopy]
    exact Nat.zero_le 1

/-- An ack follows the publish that is due, with nothing in between. -/
theorem paid (h : Settles wide spec d ran rest) {a : Bool} (mem : ⟨.ack, a⟩ ∈ rest) :
    ∃ before, rest = before ++ [⟨.ack, a⟩] ∧ Paid wide spec d (⟨.run, ran⟩ :: before) := by
  cases h with
  | answered b succeeded nothing =>
    obtain rfl : a = b := by simpa using mem
    exact ⟨[], rfl, .nothingDue ran (.head _) succeeded nothing⟩
  | replied reply ok b succeeded due _ =>
    obtain ⟨rfl, rfl⟩ := closing_eq_ack (b := a) (by simpa [eq_comm] using mem)
    exact ⟨[_], rfl, .replied ran reply (.head _) succeeded due (by simp)⟩
  | retried retry err ok b failed topology =>
    obtain ⟨rfl, rfl⟩ := closing_eq_ack (b := a) (by simpa [eq_comm, retryCopy] using mem)
    exact ⟨[_], rfl, .retried ran retry err (.head _) failed topology (by simp)⟩
  | deadLettered retry err notice ok b failed topology sent =>
    rcases List.mem_append.mp mem with mem | mem
    · obtain ⟨_, _, _, eq⟩ := sent.reply mem
      simp at eq
    · obtain ⟨rfl, rfl⟩ := closing_eq_ack (b := a) (by simpa [eq_comm, deadLetterCopy] using mem)
      refine ⟨notice ++ [_], (List.append_assoc notice [_] [_]).symm, ?_⟩
      exact .deadLettered ran retry err (.head _) failed topology (by simp)
  | rejected err notice b _ sent =>
    rcases List.mem_append.mp mem with mem | mem
    · obtain ⟨_, _, _, eq⟩ := sent.reply mem
      simp at eq
    · simp at mem

/-- What is due and could not be published puts the delivery back. -/
theorem requeued (h : Settles wide spec d ran rest) {e : Event} (mem : e ∈ rest)
    (failed : FailedDue spec d ran e) : ∃ a, rest.filter isSettlement = [⟨.nack true, a⟩] := by
  cases h with
  | answered a =>
    obtain rfl := List.mem_singleton.mp mem
    exact failed.elim
  | replied reply ok a =>
    cases ok with
    | true =>
      simp [closing] at mem
      rcases mem with rfl | rfl <;> simp [FailedDue] at failed
    | false => exact ⟨a, rfl⟩
  | retried retry err ok a =>
    cases ok with
    | true =>
      simp [closing] at mem
      rcases mem with rfl | rfl <;> simp [FailedDue, retryCopy] at failed
    | false => exact ⟨a, rfl⟩
  | deadLettered retry err notice ok a errs _ sent =>
    cases ok with
    | true =>
      rcases List.mem_append.mp mem with mem | mem
      · obtain ⟨_, _, _, rfl⟩ := sent.reply mem
        simp [FailedDue, errs] at failed
      · simp [closing] at mem
        rcases mem with rfl | rfl <;> simp [FailedDue, deadLetterCopy] at failed
    | false =>
      refine ⟨a, ?_⟩
      rw [List.filter_append, sent.filter_isSettlement]
      rfl
  | rejected err notice a errs sent =>
    rcases List.mem_append.mp mem with mem | mem
    · obtain ⟨_, _, _, rfl⟩ := sent.reply mem
      simp [FailedDue, errs] at failed
    · obtain rfl := List.mem_singleton.mp mem
      exact failed.elim

/-- The caller of a parked message is not answered. -/
theorem parked (h : Settles wide spec d ran rest) {retry : RetrySpec} {err : Failure}
    {now : Int64} {ok : Bool} (mem : ⟨retryCopy wide retry d err now, ok⟩ ∈ rest) {key : Bytes}
    {msg : Publishing} {ok' : Bool} : ⟨.publishReply key msg, ok'⟩ ∉ rest := by
  cases h with
  | answered a => simp
  | replied reply ok a => cases ok <;> simp [closing, retryCopy] at mem
  | retried retry err ok a => cases ok <;> simp [closing, retryCopy]
  | deadLettered retry' err' notice ok a _ _ sent =>
    rcases List.mem_append.mp mem with mem | mem
    · obtain ⟨_, _, _, eq⟩ := sent.reply mem
      simp [retryCopy] at eq
    · rcases List.mem_cons.mp mem with eq | mem
      · exact (retryCopy_ne_deadLetterCopy _ _ _ _ _ _ _ (congrArg Sigma.fst eq)).elim
      · cases ok <;> simp [closing, retryCopy] at mem
  | rejected err' notice a _ sent =>
    rcases List.mem_append.mp mem with mem | mem
    · obtain ⟨_, _, _, eq⟩ := sent.reply mem
      simp [retryCopy] at eq
    · simp [retryCopy] at mem

end Settles

/-- Whatever the handler does and whatever fails, a delivery is settled at most once, and
never before what it owes is published. -/
theorem process_orderly (h : Program.Run (process wide spec d) es) : Orderly wide spec d es := by
  cases processes_of_run h with
  | cancelled ran a late cause =>
    refine ⟨Nat.le_refl 1, fun _ b mem => ?_, fun _ _ _ e mem failed => ?_, Nat.zero_le 1, ?_, ?_,
      ?_, ?_, ?_⟩
    · obtain rfl : b = a := by simpa using mem
      exact ⟨[_], rfl, .cancelled ran (.head _) cause⟩
    · simp only [List.mem_cons, List.not_mem_nil, or_false] at mem
      rcases mem with rfl | rfl <;> exact failed.elim
    · simp
    · intro other mem gone
      obtain rfl : other = ran := by simpa using mem
      simp [cause, Cause.gone] at gone
    · simp [late]
    · simp [late]
    · simp [late]
  | gone ran late cause =>
    refine ⟨Nat.zero_le 1, by simp, fun _ _ _ e mem failed => ?_, Nat.zero_le 1, by simp, ?_,
      by simp [late], by simp [late], by simp [late]⟩
    · obtain rfl := List.mem_singleton.mp mem
      exact failed.elim
    · intro other mem _
      obtain rfl : other = ran := by simpa using mem
      simp [late]
  | settled ran rest late cause settles =>
    have own : ∀ other, (⟨.run, other⟩ : Event) ∈ ⟨.run, ran⟩ :: rest → other = ran := by
      intro other mem
      rcases List.mem_cons.mp mem with eq | mem
      · simpa using eq
      · exact absurd mem (settles.not_run other)
    refine ⟨?_, fun _ a mem => ?_, fun _ other run e mem failed => ?_, ?_, ?_, ?_, by simp [late],
      by simp [late], by simp [late]⟩
    · obtain ⟨e, one⟩ := settles.filter_isSettlement
      simp [List.countP_eq_length_filter, one, isSettlement]
    · obtain ⟨before, rfl, paid⟩ := settles.paid (by simpa using mem)
      exact ⟨_ :: before, rfl, paid⟩
    · obtain rfl := own other run
      rcases List.mem_cons.mp mem with rfl | mem
      · exact failed.elim
      · exact settles.requeued mem failed
    · simpa [List.countP_cons, isCopy] using settles.oneCopy
    · intro retry err now ok copied key msg ok'
      rcases List.mem_cons.mp copied with eq | copied
      · have := congrArg Sigma.fst eq
        simp [retryCopy] at this
      · simpa using settles.parked copied
    · intro other run gone
      obtain rfl := own other run
      simp [cause] at gone
  | refused early =>
    refine ⟨Nat.le_refl 1, ?_, ?_, Nat.zero_le 1, ?_, ?_, ?_, ?_, ?_⟩ <;> simp [early, isCopy]
  | acked ran early =>
    refine ⟨Nat.le_refl 1, ?_, ?_, Nat.zero_le 1, ?_, ?_, ?_, ?_, ?_⟩ <;> simp [early, isCopy]
  | ackedReplied ran key msg ok early cause =>
    refine ⟨Nat.le_refl 1, ?_, ?_, Nat.zero_le 1, ?_, ?_, ?_, ?_, ?_⟩ <;>
      simp [early, isCopy, cause, retryCopy]

/-- Every handler panics and no copy can be published. -/
def copyFails : (o : Op) → o.Answer
  | .run => ⟨.panicked (lit "Error"), .none, 0, 0⟩
  | .publish _ _ _ _ => false
  | .publishReply _ _ | .ack | .nack _ | .reject _ => true

/-- The copy cannot be parked, and the delivery goes back to its queue. -/
theorem process_orderly_copyFails :
    let es : List Event := ((process 0 calcSpec {}).trace copyFails).map fun o => ⟨o, copyFails o⟩
    es.map (fun e => (isCopy e, isSettlement e)) = [(false, false), (true, false), (false, true)] ∧
      Orderly 0 calcSpec {} es :=
  ⟨by decide, process_orderly (Program.exists_run_trace copyFails (process 0 calcSpec {}))⟩

/-- Every handler asks for a reply, and no reply can be published. -/
def replyFails : (o : Op) → o.Answer
  | .run => ⟨.returned { reply := some (lit "sum") }, .none, 0, 0⟩
  | .publishReply _ _ => false
  | .publish _ _ _ _ | .ack | .nack _ | .reject _ => true

/-- The mode matters: a delivery that was acknowledged on arrival is not put back when the reply
it owes cannot be published. -/
theorem reply_fails_after_early_ack :
    let spec : Spec := { calcSpec with lateAck := false }
    let d : Delivery := { replyTo := lit "caller" }
    ∃ es, Program.Run (process 0 spec d) es ∧
      (∃ ran e, ⟨.run, ran⟩ ∈ es ∧ e ∈ es ∧ FailedDue spec d ran e) ∧
      ∀ requeue a, (⟨.nack requeue, a⟩ : Event) ∉ es := by
  intro spec d
  refine ⟨_, Program.exists_run_trace replyFails (process 0 spec d), ?_, ?_⟩
  · exact ⟨_, _, .tail _ (.head _), .tail _ (.tail _ (.head _)), rfl, rfl⟩
  · intro requeue a mem
    rcases mem with _ | ⟨_, _ | ⟨_, _ | ⟨_, mem⟩⟩⟩
    cases mem

end
end Protobus.Consumer
