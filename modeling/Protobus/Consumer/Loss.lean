import Protobus.Consumer.Broker

/-!
# No message is lost

A thread acknowledges its delivery only after a copy of the message was stored, or when the
message is done with. A copy that allowed an ack may itself have moved on and been
acknowledged, after a copy of its own: copies are numbered, and the one an ack rests on is
always younger than the one acknowledged.
-/
namespace Protobus.Consumer
open Library Amqp Topic

/-! ## What a thread may do -/

/-- The delivery may be acknowledged: the caller cancelled, or the handler succeeded and the
reply that was due is out. -/
def Ackable (t : Topology) (d : Delivery) (past : Past) : Prop :=
  ∃ ran, past.ran = some ran ∧ (ran.cause = .cancelled ∨
    (run t.spec d ran.ended).err = none ∧
      ((run t.spec d ran.ended).reply ≠ none → d.replyTo ≠ [] → past.replied = true))

/-- The delivery may be rejected: a handled failure, with `dlqHandled` off. -/
def Rejectable (t : Topology) (d : Delivery) (past : Past) : Prop :=
  ∃ ran, past.ran = some ran ∧ (run t.spec d ran.ended).err ≠ none ∧
    (run t.spec d ran.ended).handled = true ∧ t.spec.dlqHandled = false

def Allowed (t : Topology) (d : Delivery) (past : Past) : Op → Prop
  | .ack => past.copied = true ∨ Ackable t d past
  | .reject requeue => requeue = false ∧ Rejectable t d past
  | .nack requeue => requeue = true
  | .publish exchange key _ _ =>
    exchange = [] ∧ key = t.retry.dlq ∨ exchange = t.retry.exchange ∧ key = d.routingKey
  | _ => True

section
variable {wide : Int} {t : Topology} {d : Delivery} {past : Past}

abbrev SafeCode (t : Topology) (d : Delivery) : Past → Code → Prop :=
  Program.Safe Past.record (Allowed t d)

theorem safe_ack (h : past.copied = true ∨ Ackable t d past) : SafeCode t d past ack :=
  ⟨h, fun _ => trivial⟩

theorem safe_requeueLater : SafeCode t d past (requeueLater t.spec) := by
  rw [requeueLater, t.late]
  exact ⟨rfl, fun _ => trivial⟩

/-- The error reply changes nothing that the rest depends on. -/
theorem safe_replyError {body : Option Bytes} {next : Code}
    (h : ∀ replied, SafeCode t d { past with replied } next) :
    SafeCode t d past (replyError d body next) := by
  cases body with
  | none => exact h past.replied
  | some body =>
    simp only [replyError]
    split
    · exact h past.replied
    · exact ⟨trivial, fun ok => h _⟩

theorem safe_copy {exchange key : Bytes} {msg : Publishing}
    (h : exchange = [] ∧ key = t.retry.dlq ∨ exchange = t.retry.exchange ∧ key = d.routingKey) :
    SafeCode t d past (.perform (.publish exchange key true msg) fun ok =>
      if ok then ack else requeueLater t.spec) := by
  refine ⟨h, fun ok => ?_⟩
  cases ok with
  | true => exact safe_ack (.inl (Bool.or_true _))
  | false => exact safe_requeueLater

theorem safe_deadLetter (attempt : Nat) (res : HandlerResult) (err : Failure) (ran : Ran) :
    SafeCode t d past (deadLetter wide t.spec t.retry d attempt res err ran) :=
  safe_replyError fun _ => safe_copy (.inl ⟨rfl, rfl⟩)

theorem safe_settle {ran : Ran} (h : past.ran = some ran) :
    SafeCode t d past (settle wide t.spec d ran) := by
  simp only [settle, t.late, t.retries]
  cases err : (run t.spec d ran.ended).err with
  | none =>
    cases reply : (run t.spec d ran.ended).reply with
    | none => exact safe_ack (.inr ⟨ran, h, .inr ⟨err, fun due => absurd reply due⟩⟩)
    | some body =>
      simp only
      split
      · next silent => exact safe_ack (.inr ⟨ran, h, .inr ⟨err, fun _ due => absurd silent due⟩⟩)
      · refine ⟨trivial, fun ok => ?_⟩
        cases ok with
        | true => exact safe_ack (.inr ⟨ran, h, .inr ⟨err, fun _ _ => Bool.or_true _⟩⟩)
        | false => exact safe_requeueLater
  | some failure =>
    simp only [Bool.not_true, Bool.false_eq_true, ↓reduceIte]
    split
    · split
      · exact safe_copy (.inr ⟨rfl, rfl⟩)
      · exact safe_deadLetter ..
    · next handled =>
      split
      · exact safe_deadLetter ..
      · next off =>
        refine safe_replyError fun _ => ⟨⟨rfl, ran, h, by simp [err], ?_⟩, fun _ => trivial⟩
        exact ⟨by simpa using handled, by simpa using off⟩

theorem safe_process : SafeCode t d {} (process wide t.spec d) := by
  simp only [process, t.late, ↓reduceIte]
  refine ⟨trivial, fun ran => ?_⟩
  cases h : ran.cause with
  | cancelled =>
    simp only [h]
    exact safe_ack (.inr ⟨ran, rfl, .inl h⟩)
  | disconnected | closed => simp [h]
  | none | other =>
    simp only [h]
    exact safe_settle rfl

end
/-! ## What is kept of a message -/

/-- The copy `n` of the message `m` is on a queue or unacknowledged. -/
def Live (s : State) (m n : Nat) : Prop :=
  (∃ c, (c ∈ s.queue ∨ c ∈ s.retry ∨ c ∈ s.dlq) ∧ c.msg = m ∧ c.inst = n) ∨
  ∃ k th, s.threads k = some th ∧ th.held = true ∧ th.copy.msg = m ∧ th.copy.inst = n

/-- The ack or reject that ended a message. -/
def Receipt.settles (t : Topology) (r : Receipt) : Prop :=
  if r.rejected then Rejectable t r.copy.d r.past else Ackable t r.copy.d r.past

def Finished (t : Topology) (s : State) (m : Nat) : Prop :=
  ∃ r ∈ s.receipts, r.copy.msg = m ∧ r.settles t

/-- The message is done with, or there is a copy of it that is not older than `n`. -/
def Kept (t : Topology) (s : State) (m n : Nat) : Prop :=
  Finished t s m ∨ ∃ n', n ≤ n' ∧ Live s m n'

structure Sound (t : Topology) (s : State) : Prop where
  numbered : ∀ m n, Live s m n → n < s.instances ∧ m < s.messages
  thread : ∀ k th, s.threads k = some th → th.copy.inst < s.instances ∧ th.copy.msg < s.messages ∧
    SafeCode t th.copy.d th.past th.code
  fresh : ∀ k, s.started ≤ k → s.threads k = none
  returns : ∀ c, c ∈ s.queue ∨ c ∈ s.retry ∨ (∃ k th, s.threads k = some th ∧ th.copy = c) →
    routes t.bindings t.deadLetterTo c.d.routingKey = true
  /-- The copy that allows an ack is younger than the delivery acknowledged. -/
  copied : ∀ k th, s.threads k = some th → th.held = true → th.past.copied = true →
    Kept t s th.copy.msg (th.copy.inst + 1)
  kept : ∀ m < s.messages, Kept t s m 0

section
variable {t : Topology} {s s' : State}

theorem Finished.mono {m : Nat} (receipts : s.receipts ⊆ s'.receipts) (h : Finished t s m) :
    Finished t s' m := by
  obtain ⟨r, mem, rest⟩ := h
  exact ⟨r, receipts mem, rest⟩

theorem Kept.mono {m n : Nat} (receipts : s.receipts ⊆ s'.receipts)
    (live : ∀ m n, Live s m n → Live s' m n) (h : Kept t s m n) : Kept t s' m n :=
  h.imp (Finished.mono receipts) fun ⟨n', le, h⟩ => ⟨n', le, live m n' h⟩

/-- One delivery is let go of, for which there is a younger copy or nothing left to do. -/
theorem Kept.release {c : Copy} (receipts : s.receipts ⊆ s'.receipts)
    (live : ∀ m n, Live s m n → Live s' m n ∨ m = c.msg ∧ n = c.inst)
    (own : Kept t s' c.msg c.inst) {m n : Nat} (h : Kept t s m n) : Kept t s' m n := by
  rcases h with done | ⟨n', le, h⟩
  · exact .inl (done.mono receipts)
  · rcases live m n' h with h | ⟨rfl, rfl⟩
    · exact .inr ⟨n', le, h⟩
    · exact own.imp_right fun ⟨n'', le', h⟩ => ⟨n'', by omega, h⟩

/-- A younger copy than the delivery itself is not the delivery. -/
theorem Kept.own {c : Copy} (receipts : s.receipts ⊆ s'.receipts)
    (live : ∀ m n, Live s m n → Live s' m n ∨ m = c.msg ∧ n = c.inst)
    (h : Kept t s c.msg (c.inst + 1)) : Kept t s' c.msg c.inst := by
  rcases h with done | ⟨n', le, h⟩
  · exact .inl (done.mono receipts)
  · rcases live _ n' h with h | ⟨-, rfl⟩
    · exact .inr ⟨n', by omega, h⟩
    · omega

/-! ## A step of a thread -/

variable {k : Nat} {th th' : Thread}

/-- When only the queues grow and one thread moves, that thread's delivery is all that can get
lost. -/
theorem live_move (s s' : State) (before : s.threads k = some th)
    (threads : s'.threads = Function.update s.threads k (some th')) (copy : th'.copy = th.copy)
    (queue : s.queue ⊆ s'.queue) (retry : s.retry ⊆ s'.retry) (dlq : s.dlq ⊆ s'.dlq)
    {m n : Nat} (h : Live s m n) : Live s' m n ∨
      (th.held = true ∧ th'.held = false) ∧ m = th.copy.msg ∧ n = th.copy.inst := by
  rcases h with ⟨c, place, same⟩ | ⟨j, thj, hj, held, same⟩
  · exact .inl (.inl ⟨c, place.imp (queue ·) (Or.imp (retry ·) (dlq ·)), same⟩)
  · by_cases own : j = k
    · subst own
      obtain rfl := Option.some.inj (before.symm.trans hj)
      cases still : th'.held with
      | true => exact .inl (.inr ⟨j, th', by simp [threads], still, by rwa [copy]⟩)
      | false => exact .inr ⟨⟨held, rfl⟩, same.1.symm, same.2.symm⟩
    · exact .inl (.inr ⟨j, thj, by simpa [threads, own] using hj, held, same⟩)

theorem Sound.move (inv : Sound t s) (before : s.threads k = some th)
    (threads : s'.threads = Function.update s.threads k (some th')) (copy : th'.copy = th.copy)
    (safe : SafeCode t th.copy.d th'.past th'.code) (started : s'.started = s.started)
    (messages : s'.messages = s.messages) (instances : s.instances ≤ s'.instances)
    (keeps : ∀ m n, Kept t s m n → Kept t s' m n)
    (places : ∀ c, c ∈ s'.queue ∨ c ∈ s'.retry ∨ c ∈ s'.dlq →
      c.inst < s'.instances ∧ c.msg < s.messages)
    (returns : ∀ c, c ∈ s'.queue ∨ c ∈ s'.retry →
      routes t.bindings t.deadLetterTo c.d.routingKey = true)
    (copied : th'.held = true → th'.past.copied = true →
      Kept t s' th.copy.msg (th.copy.inst + 1)) : Sound t s' := by
  have other {j : Nat} {thj : Thread} (hj : s'.threads j = some thj) :
      j = k ∧ thj = th' ∨ j ≠ k ∧ s.threads j = some thj := by
    rw [threads, Function.update_apply] at hj
    grind
  have own := inv.thread k th before
  refine ⟨fun m n live => ?_, fun j thj hj => ?_, fun j le => ?_, fun c mem => ?_,
    fun j thj hj held was => ?_, fun m lt => keeps m 0 (inv.kept m (messages ▸ lt))⟩
  · rw [messages]
    rcases live with ⟨c, place, rfl, rfl⟩ | ⟨j, thj, hj, -, rfl, rfl⟩
    · exact places c place
    · rcases other hj with ⟨-, rfl⟩ | ⟨-, hj⟩
      · rw [copy]
        exact ⟨by omega, own.2.1⟩
      · have := inv.thread j thj hj
        exact ⟨by omega, this.2.1⟩
  · rw [messages]
    rcases other hj with ⟨-, rfl⟩ | ⟨-, hj⟩
    · rw [copy]
      exact ⟨by omega, own.2.1, safe⟩
    · have := inv.thread j thj hj
      exact ⟨by omega, this.2⟩
  · rw [started] at le
    have none := inv.fresh j le
    have ne : j ≠ k := by
      rintro rfl
      simp [before] at none
    rw [threads, Function.update_of_ne ne, none]
  · rcases mem with queue | retry | ⟨j, thj, hj, rfl⟩
    · exact returns c (.inl queue)
    · exact returns c (.inr retry)
    · rcases other hj with ⟨-, rfl⟩ | ⟨-, hj⟩
      · exact copy ▸ inv.returns _ (.inr (.inr ⟨k, th, before, rfl⟩))
      · exact inv.returns _ (.inr (.inr ⟨j, thj, hj, rfl⟩))
  · rcases other hj with ⟨-, rfl⟩ | ⟨-, hj⟩
    · rw [copy]
      exact copied held was
    · exact keeps _ _ (inv.copied j thj hj held was)

theorem store_dlq (c : Copy) : store t s [] t.retry.dlq c = { s with dlq := c :: s.dlq } := by
  simp [store]

theorem store_retry (key : Bytes) (c : Copy) :
    store t s t.retry.exchange key c = { s with retry := c :: s.retry } := by
  simp [store, t.named, splitDots_hash]

namespace Sound
variable (inv : Sound t s)
include inv

theorem places (c : Copy) (h : c ∈ s.queue ∨ c ∈ s.retry ∨ c ∈ s.dlq) :
    c.inst < s.instances ∧ c.msg < s.messages := inv.numbered _ _ (.inl ⟨c, h, rfl, rfl⟩)

/-- An operation that at most adds a copy of the message, younger than all others. -/
theorem grow (before : s.threads k = some th) (s' : State) {code : Code} {past : Past}
    (safe : SafeCode t th.copy.d past code)
    (threads : s'.threads = Function.update s.threads k (some { th with code, past }))
    (started : s'.started = s.started) (messages : s'.messages = s.messages)
    (instances : s.instances ≤ s'.instances) (receipts : s'.receipts = s.receipts)
    (queue : s'.queue = s.queue) (retry : s.retry ⊆ s'.retry) (dlq : s.dlq ⊆ s'.dlq)
    (only : ∀ c, c ∈ s'.retry ∨ c ∈ s'.dlq →
      (c ∈ s.retry ∨ c ∈ s.dlq) ∨ c.inst < s'.instances ∧ c.msg = th.copy.msg)
    (returns : ∀ c ∈ s'.retry, c ∈ s.retry ∨ c.d.routingKey = th.copy.d.routingKey)
    (copied : past.copied = true → th.past.copied = true ∨ Live s' th.copy.msg s.instances) :
    Sound t s' := by
  have own := inv.thread k th before
  have keeps (m n : Nat) : Kept t s m n → Kept t s' m n := by
    refine Kept.mono (fun _ h => receipts ▸ h) fun m n live => ?_
    refine (live_move s s' before threads rfl (fun _ h => queue ▸ h) retry dlq live).resolve_right
      ?_
    rintro ⟨⟨held, dropped⟩, -⟩
    simp [held] at dropped
  refine inv.move before threads rfl safe started messages instances keeps (fun c h => ?_)
    (fun c h => ?_) fun held was => ?_
  · rcases h with h | h
    · have := inv.places c (.inl (queue ▸ h))
      exact ⟨by omega, this.2⟩
    · rcases only c h with h | ⟨lt, same⟩
      · have := inv.places c (.inr h)
        exact ⟨by omega, this.2⟩
      · exact ⟨lt, same ▸ own.2.1⟩
  · rcases h with h | h
    · exact inv.returns c (.inl (queue ▸ h))
    · rcases returns c h with h | h
      · exact inv.returns c (.inr (.inl h))
      · rw [h]
        exact inv.returns _ (.inr (.inr ⟨k, th, before, rfl⟩))
  · rcases copied was with was | new
    · exact keeps _ _ (inv.copied k th before held was)
    · exact .inr ⟨s.instances, by omega, new⟩

/-- An operation that has no effect on the queues. -/
theorem idle (before : s.threads k = some th) {code : Code} {past : Past}
    (safe : SafeCode t th.copy.d past code) (copied : past.copied = th.past.copied) :
    Sound t { s with threads := Function.update s.threads k (some { th with code, past }) } :=
  inv.grow before _ safe rfl rfl rfl (Nat.le_refl _) rfl rfl (fun _ h => h) (fun _ h => h)
    (fun _ h => .inl h) (fun _ h => .inl h) fun was => .inl (copied ▸ was)

theorem stored (before : s.threads k = some th) {exchange key : Bytes} {msg : Publishing}
    (dest : exchange = [] ∧ key = t.retry.dlq ∨
      exchange = t.retry.exchange ∧ key = th.copy.d.routingKey)
    {code : Code} {past : Past} (safe : SafeCode t th.copy.d past code) :
    Sound t { store t { s with instances := s.instances + 1 } exchange key
        ⟨s.instances, th.copy.msg, msg.deliver key⟩ with
      threads := Function.update s.threads k (some { th with code, past }) } := by
  rcases dest with ⟨rfl, rfl⟩ | ⟨rfl, rfl⟩
  · rw [store_dlq]
    refine inv.grow before _ safe rfl rfl rfl (Nat.le_succ _) rfl rfl (fun _ h => h)
      (fun _ h => List.mem_cons_of_mem _ h) (fun c h => ?_) (fun c h => .inl h)
      fun _ => .inr (.inl ⟨_, .inr (.inr List.mem_cons_self), rfl, rfl⟩)
    rcases h with h | h
    · exact .inl (.inl h)
    · rcases List.mem_cons.mp h with rfl | h
      · exact .inr ⟨Nat.lt_succ_self _, rfl⟩
      · exact .inl (.inr h)
  · rw [store_retry]
    refine inv.grow before _ safe rfl rfl rfl (Nat.le_succ _) rfl rfl
      (fun _ h => List.mem_cons_of_mem _ h) (fun _ h => h) (fun c h => ?_) (fun c h => ?_)
      fun _ => .inr (.inl ⟨_, .inr (.inl List.mem_cons_self), rfl, rfl⟩)
    · rcases h with h | h
      · rcases List.mem_cons.mp h with rfl | h
        · exact .inr ⟨Nat.lt_succ_self _, rfl⟩
        · exact .inl (.inl h)
      · exact .inl (.inr h)
    · rcases List.mem_cons.mp h with rfl | h
      · exact .inr rfl
      · exact .inl h

/-- The delivery is let go of. -/
theorem release (before : s.threads k = some th) (s' : State) {code : Code} {past : Past}
    (safe : SafeCode t th.copy.d past code)
    (threads : s'.threads =
      Function.update s.threads k (some { th with code, past, held := false }))
    (rest : s' = { s with queue := s'.queue, receipts := s'.receipts, threads := s'.threads })
    (receipts : s.receipts ⊆ s'.receipts)
    (queue : s'.queue = s.queue ∨ s'.queue = s.queue ++ [th.copy])
    (own : (∀ m n, Live s m n → Live s' m n ∨ m = th.copy.msg ∧ n = th.copy.inst) →
      Kept t s' th.copy.msg th.copy.inst) : Sound t s' := by
  have others : s.queue ⊆ s'.queue := by
    rcases queue with eq | eq <;> rw [eq]
    · exact fun _ h => h
    · exact fun _ h => List.mem_append_left _ h
  have mem (c : Copy) (h : c ∈ s'.queue) : c ∈ s.queue ∨ c = th.copy := by
    rcases queue with eq | eq <;> rw [eq] at h
    · exact .inl h
    · simpa using h
  have live (m n : Nat) (h : Live s m n) : Live s' m n ∨ m = th.copy.msg ∧ n = th.copy.inst :=
    (live_move s s' before threads rfl others (by rw [rest]; exact fun _ h => h)
      (by rw [rest]; exact fun _ h => h) h).imp_right (·.2)
  refine inv.move before threads rfl safe (by rw [rest]) (by rw [rest])
    (Nat.le_of_eq (by rw [rest]))
    (fun m n => Kept.release receipts live (own live)) (fun c h => ?_) (fun c h => ?_) nofun
  · rw [rest]
    rcases h with h | h
    · rcases mem c h with h | rfl
      · exact inv.places c (.inl h)
      · exact ⟨(inv.thread k th before).1, (inv.thread k th before).2.1⟩
    · rw [rest] at h
      exact inv.places c (.inr h)
  · rcases h with h | h
    · rcases mem c h with h | rfl
      · exact inv.returns c (.inl h)
      · exact inv.returns _ (.inr (.inr ⟨k, th, before, rfl⟩))
    · rw [rest] at h
      exact inv.returns c (.inr (.inl h))

theorem requeued (before : s.threads k = some th) {code : Code} {past : Past}
    (safe : SafeCode t th.copy.d past code) :
    Sound t { s with
      queue := s.queue ++ [th.copy]
      threads := Function.update s.threads k (some { th with code, past, held := false }) } :=
  inv.release before _ safe rfl rfl (fun _ h => h) (.inr rfl) fun _ =>
    .inr ⟨th.copy.inst, Nat.le_refl _, .inl ⟨th.copy, .inl (by simp), rfl, rfl⟩⟩

/-- An ack or a reject that the broker carries out. -/
theorem received (before : s.threads k = some th) (held : th.held = true) {code : Code}
    {past : Past} (safe : SafeCode t th.copy.d past code) {rejected : Bool}
    (settles : th.past.copied = true ∨ (⟨th.copy, th.past, rejected⟩ : Receipt).settles t) :
    Sound t { s with
      receipts := ⟨th.copy, th.past, rejected⟩ :: s.receipts
      threads := Function.update s.threads k (some { th with code, past, held := false }) } := by
  have more : s.receipts ⊆ ⟨th.copy, th.past, rejected⟩ :: s.receipts :=
    fun _ h => List.mem_cons_of_mem _ h
  refine inv.release before _ safe rfl rfl more (.inl rfl) fun live => ?_
  rcases settles with was | done
  · exact (inv.copied k th before held was).own more live
  · exact .inl ⟨_, List.mem_cons_self, rfl, done⟩

theorem performOp (before : s.threads k = some th) {o : Op} {next : o.Answer → Code}
    (code : th.code = .perform o next) (a : o.Answer) (effect : Bool) :
    Sound t (performOp t s k th o next a effect) := by
  have safe := (inv.thread k th before).2.2
  rw [code] at safe
  obtain ⟨allowed, safe⟩ := safe
  have safe := safe a
  by_cases did : takesEffect effect o a = true
  · simp only [Consumer.performOp, did, ↓reduceIte]
    cases o with
    | run | publishReply key msg => exact inv.idle before safe rfl
    | publish exchange key mandatory msg =>
      have threads : (carryOut t s th (.publish exchange key mandatory msg)).1.threads =
          s.threads := by
        simp only [carryOut, store]
        split
        · rfl
        · split <;> rfl
      rw [threads]
      exact inv.stored before allowed safe
    | ack =>
      by_cases held : th.held = true
      · simp only [carryOut, held, ↓reduceIte]
        exact inv.received before held safe allowed
      · simp only [carryOut, held]
        exact inv.idle before safe rfl
    | nack requeue =>
      obtain rfl : requeue = true := allowed
      by_cases held : th.held = true
      · simp only [carryOut, held, ↓reduceIte]
        exact inv.requeued before safe
      · simp only [carryOut, held]
        exact inv.idle before safe rfl
    | reject requeue =>
      obtain ⟨rfl, rejectable⟩ := allowed
      by_cases held : th.held = true
      · simp only [carryOut, held, ↓reduceIte]
        exact inv.received before held safe (.inr rejectable)
      · simp only [carryOut, held]
        exact inv.idle before safe rfl
  · simp only [Consumer.performOp, did]
    refine inv.idle before safe ?_
    -- a publish that succeeds takes effect
    cases o with
    | publish exchange key mandatory msg =>
      have failed : a = false := by
        simpa [takesEffect] using fun h : a = true => did (by simp [takesEffect, h])
      simp [Past.record, failed]
    | _ => rfl

/-- A step of the broker: copies move, threads start or lose their deliveries, and no copy is
gone. -/
theorem broker (s' : State) (live : ∀ m n, Live s m n → Live s' m n)
    (receipts : s'.receipts = s.receipts) (instances : s.instances ≤ s'.instances)
    (messages : s.messages ≤ s'.messages)
    (places : ∀ c, c ∈ s'.queue ∨ c ∈ s'.retry ∨ c ∈ s'.dlq →
      c.inst < s'.instances ∧ c.msg < s'.messages)
    (threads : ∀ k th', s'.threads k = some th' →
      (∃ th, s.threads k = some th ∧ th'.copy = th.copy ∧ th'.past = th.past ∧ th'.code = th.code ∧
        (th'.held = true → th.held = true)) ∨
      th'.copy ∈ s.queue ∧ th'.past = {} ∧ ∃ wide, th'.code = process wide t.spec th'.copy.d)
    (fresh : ∀ k, s'.started ≤ k → s'.threads k = none)
    (returns : ∀ c, c ∈ s'.queue ∨ c ∈ s'.retry →
      routes t.bindings t.deadLetterTo c.d.routingKey = true)
    (new : ∀ m, s.messages ≤ m → m < s'.messages → Live s' m s.instances) : Sound t s' := by
  have keeps (m n : Nat) : Kept t s m n → Kept t s' m n :=
    Kept.mono (fun _ h => receipts ▸ h) live
  have thread (k : Nat) (th' : Thread) (h : s'.threads k = some th') :
      th'.copy.inst < s'.instances ∧ th'.copy.msg < s'.messages ∧
        SafeCode t th'.copy.d th'.past th'.code := by
    rcases threads k th' h with ⟨th, before, copy, past, code, -⟩ | ⟨mem, past, wide, code⟩
    · have := inv.thread k th before
      rw [copy, past, code]
      exact ⟨by omega, by omega, this.2.2⟩
    · have := inv.places _ (.inl mem)
      rw [past, code]
      exact ⟨by omega, by omega, safe_process⟩
  refine ⟨fun m n h => ?_, thread, fresh, fun c h => ?_, fun k th' h held was => ?_, fun m lt => ?_⟩
  · rcases h with ⟨c, place, rfl, rfl⟩ | ⟨k, th', h, -, rfl, rfl⟩
    · exact places c place
    · exact ⟨(thread k th' h).1, (thread k th' h).2.1⟩
  · rcases h with h | h | ⟨k, th', h, rfl⟩
    · exact returns c (.inl h)
    · exact returns c (.inr h)
    · rcases threads k th' h with ⟨th, before, copy, -⟩ | ⟨mem, -⟩
      · exact copy ▸ inv.returns _ (.inr (.inr ⟨k, th, before, rfl⟩))
      · exact inv.returns _ (.inl mem)
  · rcases threads k th' h with ⟨th, before, copy, past, -, holds⟩ | ⟨-, past, -⟩
    · rw [copy]
      exact keeps _ _ (inv.copied k th before (holds held) (past ▸ was))
    · simp [past] at was
  · by_cases old : m < s.messages
    · exact keeps m 0 (inv.kept m old)
    · exact .inr ⟨_, Nat.zero_le _, new m (by omega) lt⟩

theorem accept {exchange : Bytes} {d : Delivery}
    (routed : routes t.bindings exchange d.routingKey = true) :
    Sound t { s with
      queue := s.queue ++ [⟨s.instances, s.messages, d⟩]
      instances := s.instances + 1
      messages := s.messages + 1 } := by
  refine inv.broker _ (fun m n live => ?_) rfl (Nat.le_succ _) (Nat.le_succ _) (fun c h => ?_)
    (fun k th h => .inl ⟨th, h, rfl, rfl, rfl, id⟩) inv.fresh (fun c h => ?_) fun m le lt => ?_
  · refine live.imp_left fun ⟨c, place, same⟩ => ⟨c, place.imp_left ?_, same⟩
    exact List.mem_append_left _
  · have old (h : c ∈ s.queue ∨ c ∈ s.retry ∨ c ∈ s.dlq) := inv.places c h
    simp only [List.mem_append, List.mem_singleton] at h ⊢
    grind
  · simp only [List.mem_append, List.mem_singleton] at h
    rcases h with (h | rfl) | h
    · exact inv.returns c (.inl h)
    · exact t.returns _ _ routed
    · exact inv.returns c (.inr (.inl h))
  · obtain rfl : m = s.messages := Nat.le_antisymm (Nat.le_of_lt_succ lt) le
    exact .inl ⟨_, .inl (List.mem_append_right _ (List.mem_singleton_self _)), rfl, rfl⟩

theorem deliver {wide : Int} {i channel : Nat} {c : Copy} (head : s.queue[i]? = some c) :
    Sound t { s with
      queue := s.queue.eraseIdx i
      started := s.started + 1
      threads := Function.update s.threads s.started
        (some ⟨c, channel, true, process wide t.spec c.d, {}⟩) } := by
  have rest (c' : Copy) (h : c' ∈ s.queue.eraseIdx i) : c' ∈ s.queue := List.mem_of_mem_eraseIdx h
  have hc : c ∈ s.queue := List.mem_of_getElem? head
  have unstarted := inv.fresh s.started (Nat.le_refl _)
  refine inv.broker _ (fun m n live => ?_) rfl (Nat.le_refl _) (Nat.le_refl _)
    (fun c' h => inv.places c' (h.imp_left (rest c'))) (fun k th h => ?_) (fun k le => ?_)
    (fun c' h => ?_) fun m le lt => absurd lt (Nat.not_lt.mpr le)
  · rcases live with ⟨c', place, same⟩ | ⟨k, th, h, held, same⟩
    · rcases place with queued | other
      · rcases Library.mem_eraseIdx_or head queued with rfl | still
        · exact .inr ⟨s.started, _, Function.update_self .., rfl, same⟩
        · exact .inl ⟨c', .inl still, same⟩
      · exact .inl ⟨c', .inr other, same⟩
    · have ne : k ≠ s.started := by
        rintro rfl
        simp [unstarted] at h
      exact .inr ⟨k, th, by simpa [ne] using h, held, same⟩
  · simp only [Function.update_apply] at h
    split at h
    · obtain rfl := Option.some.inj h
      exact .inr ⟨hc, rfl, wide, rfl⟩
    · exact .inl ⟨th, h, rfl, rfl, rfl, id⟩
  · have ne : k ≠ s.started := by
      have : s.started + 1 ≤ k := le
      omega
    simpa [ne] using inv.fresh k (by have : s.started + 1 ≤ k := le; omega)
  · exact inv.returns c' (h.imp (rest c') .inl)

theorem lose (channel : Nat) : Sound t { s with
    queue := s.queue ++
      (List.range s.started).filterMap fun k => (s.threads k).bind (Thread.dropped channel)
    threads := fun k => (s.threads k).map (Thread.lose channel) } := by
  have back (c : Copy) : c ∈ ((List.range s.started).filterMap fun k =>
      (s.threads k).bind (Thread.dropped channel)) ↔
      ∃ k th, s.threads k = some th ∧ th.channel = channel ∧ th.held = true ∧ th.copy = c := by
    have started (k : Nat) (th : Thread) (h : s.threads k = some th) : k < s.started := by
      by_contra le
      simp [inv.fresh k (by omega)] at h
    simp only [List.mem_filterMap, List.mem_range, Option.bind_eq_some_iff, Thread.dropped]
    grind
  refine inv.broker _ (fun m n live => ?_) rfl (Nat.le_refl _) (Nat.le_refl _) (fun c h => ?_)
    (fun k th h => ?_) (fun k le => by simp [inv.fresh k le]) (fun c h => ?_)
    fun m le lt => absurd lt (Nat.not_lt.mpr le)
  · rcases live with ⟨c, place, same⟩ | ⟨k, th, h, held, same⟩
    · exact .inl ⟨c, place.imp_left (List.mem_append_left _), same⟩
    · by_cases own : th.channel = channel
      · have mem := (back th.copy).mpr ⟨k, th, h, own, held, rfl⟩
        exact .inl ⟨th.copy, .inl (List.mem_append_right _ mem), same⟩
      · exact .inr ⟨k, th, by simp [h, Thread.lose, own], held, same⟩
  · simp only [List.mem_append, back] at h
    rcases h with (h | ⟨k, th, before, -, -, rfl⟩) | h
    · exact inv.places c (.inl h)
    · exact ⟨(inv.thread k th before).1, (inv.thread k th before).2.1⟩
    · exact inv.places c (.inr h)
  · obtain ⟨th, before, rfl⟩ := Option.map_eq_some_iff.mp h
    refine .inl ⟨th, before, ?_⟩
    simp only [Thread.lose]
    split <;> simp
  · simp only [List.mem_append, back] at h
    rcases h with (h | ⟨k, th, before, -, -, rfl⟩) | h
    · exact inv.returns c (.inl h)
    · exact inv.returns _ (.inr (.inr ⟨k, th, before, rfl⟩))
    · exact inv.returns c (.inr (.inl h))

theorem expire {i : Nat} {c : Copy} (head : s.retry[i]? = some c) (headers : Table) :
    Sound t { s with
      retry := s.retry.eraseIdx i
      queue := if routes t.bindings t.deadLetterTo c.d.routingKey
        then s.queue ++ [{ c with d.headers := headers }] else s.queue } := by
  have rest (c' : Copy) (h : c' ∈ s.retry.eraseIdx i) : c' ∈ s.retry := List.mem_of_mem_eraseIdx h
  have hc : c ∈ s.retry := List.mem_of_getElem? head
  have routed := inv.returns c (.inr (.inl hc))
  rw [if_pos routed]
  refine inv.broker _ (fun m n live => ?_) rfl (Nat.le_refl _) (Nat.le_refl _) (fun c' h => ?_)
    (fun k th h => .inl ⟨th, h, rfl, rfl, rfl, id⟩) inv.fresh (fun c' h => ?_)
    fun m le lt => absurd lt (Nat.not_lt.mpr le)
  · refine live.imp_left fun ⟨c', place, same⟩ => ?_
    rcases place with queued | retried | dead
    · exact ⟨c', .inl (List.mem_append_left _ queued), same⟩
    · rcases Library.mem_eraseIdx_or head retried with rfl | still
      · exact ⟨_, .inl (List.mem_append_right _ (List.mem_singleton_self _)), same⟩
      · exact ⟨c', .inr (.inl still), same⟩
    · exact ⟨c', .inr (.inr dead), same⟩
  · rcases h with h | h | h
    · rcases List.mem_append.mp h with h | h
      · exact inv.places c' (.inl h)
      · obtain rfl := List.mem_singleton.mp h
        exact inv.places c (.inr (.inl hc))
    · exact inv.places c' (.inr (.inl (rest c' h)))
    · exact inv.places c' (.inr (.inr h))
  · rcases h with h | h
    · rcases List.mem_append.mp h with h | h
      · exact inv.returns c' (.inl h)
      · obtain rfl := List.mem_singleton.mp h
        exact routed
    · exact inv.returns c' (.inr (.inl (rest c' h)))

theorem step {wide : Int} {a : Action} (h : step wide t s a = some s') : Sound t s' := by
  cases a with
  | accept exchange d =>
    simp only [Consumer.step] at h
    split at h
    · next routed =>
      cases h
      exact inv.accept routed
    · cases h
  | deliver i channel =>
    obtain ⟨c, head, rfl⟩ := Option.map_eq_some_iff.mp h
    exact inv.deliver head
  | perform k answer effect =>
    simp only [Consumer.step] at h
    split at h
    · next th before =>
      split at h
      · next o next code =>
        cases h
        exact inv.performOp before code (answer o) effect
      · cases h
    · cases h
  | lose channel =>
    cases h
    exact inv.lose channel
  | expire i headers =>
    obtain ⟨c, head, rfl⟩ := Option.map_eq_some_iff.mp h
    exact inv.expire head headers

end Sound

/-- Every message that came in is on the consumer's queue, on the retry queue, on the
dead-letter queue or unacknowledged, unless an ack or reject of it has been carried out that
`Receipt.settles` describes. -/
theorem no_message_lost {wide : Int} (reach : (system wide t).Reachable s) (m : Nat)
    (accepted : m < s.messages) : (∃ n, Live s m n) ∨ Finished t s m := by
  have sound : Sound t s := by
    refine reach.invariant (Sound t) ?_ fun s a s' _ inv h => inv.step h
    rintro s rfl
    constructor <;> simp [State.start, Live]
  rcases sound.kept m accepted with done | ⟨n, -, live⟩
  · exact .inr done
  · exact .inl ⟨n, live⟩

/-- An event of which nobody needs to hear: its handling is cancelled. -/
theorem no_message_lost_cancelled :
    let t := Topology.listener (lit "proto.bus.events") (lit "Log") [lit "#"] 3
    ∃ s, (system 0 t).Reachable s ∧ s.messages = 1 ∧ s.receipts.length = 1 ∧
      ((∃ n, Live s 0 n) ∨ Finished t s 0) := by
  intro t
  let d : Delivery := { routingKey := lit "EVENT.Log" }
  have routed : routes t.bindings (lit "proto.bus.events") d.routingKey = true := by
    simp [routes, t, Topology.listener, splitDots_hash]
  let answer := Op.obliged ⟨.returned {}, .cancelled, 0, 0⟩
  have accepted : (system 0 t).Reachable _ := .step (a := .accept (lit "proto.bus.events") d)
    (.init rfl) (if_pos routed)
  have reach : (system 0 t).Reachable _ := accepted.run (rfl : (system 0 t).run
    [.deliver 0 7, .perform 0 answer false, .perform 0 answer false] _ = some _)
  exact ⟨_, reach, rfl, rfl, no_message_lost reach 0 Nat.zero_lt_one⟩

end
end Protobus.Consumer
