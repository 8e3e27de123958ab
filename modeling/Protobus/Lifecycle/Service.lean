import Protobus.Lifecycle.Listener

/-!
# Starting a service

`Service.Start` starts three things one after the other: the requests consumer, the event
listener and the process's cancel listener. Each keeps a flag of its own about having started,
and each failure undoes the steps before it in its own way. The listener's flag is not among
what is undone, so a later `Start` finds the listener started and passes it by.
-/
namespace Protobus.Lifecycle
open Library

/-- `cancelSub` belongs to the bus: another service of the process may have set it. -/
structure Service where
  name : Bytes
  started : Bool := false
  requests : ConsumerState := {}
  events : Option Listener := none
  cancelSub : Bool := false

/-- How the attaches of one call end, those that it comes to. -/
structure Broker where
  requests : Attach
  events : Attach
  cancel : Attach

/-- The step at which a start failed, with the error it gave. -/
inductive StartError
  | requests (err : Bytes)
  | events (err : Bytes)
  | cancel (err : Bytes)
  deriving DecidableEq

def StartError.text (name : Bytes) : StartError → Bytes
  | requests err => lit "protobus: starting " ++ name ++ lit ": " ++ err
  | events err | cancel err => err

def StartError.isCancel : StartError → Bool
  | cancel _ => true
  | _ => false

namespace Service
variable (s : Service) (b : Broker)

def ensureCancelListener (a : Attach) : Service × Option Bytes :=
  if s.cancelSub then (s, none)
  else match a with
    | .attached => ({ s with cancelSub := true }, none)
    | .failed err _ => (s, some err)
    | .busClosed => (s, some errClosed)

def startEvents (a : Attach) : Service × Option Bytes :=
  match s.events with
  | none => (s, none)
  | some l => ({ s with events := some (l.start a).1 }, (l.start a).2)

/-- Stop the consumers of a start that failed. -/
def stopRequests : Service := { s with requests := s.requests.stopConsuming }

def stopEvents : Service :=
  { s with events := s.events.map fun l => { l with consumer := l.consumer.stopConsuming } }

/-- The last two steps. -/
def startCancel : Service × Option StartError :=
  match s.ensureCancelListener b.cancel with
  | (s, some err) => (s.stopEvents.stopRequests, some (.cancel err))
  | (s, none) => ({ s with started := true }, none)

def start : Service × Option StartError :=
  if s.started then (s, none)
  else match s.requests.start b.requests with
    | (c, some err) => ({ s with requests := c }, some (.requests err))
    | (c, none) => match ({ s with requests := c } : Service).startEvents b.events with
      | (s, some err) => (s.stopRequests, some (.events err))
      | (s, none) => s.startCancel b

/-- Call after call, each with its own broker. -/
def starts : List Broker → Service → Service × List (Option StartError)
  | [], s => (s, [])
  | b :: bs, s =>
    let (s, r) := s.start b
    let (s, rs) := starts bs s
    (s, r :: rs)

/-- Everything that the service has wants deliveries. -/
def Serving : Prop :=
  s.requests.consuming = true ∧ ∀ l, s.events = some l → l.consumer.consuming = true

/-- Not started before: a listener that has been started by hand is consuming. -/
structure Unstarted : Prop where
  started : s.started = false
  events : ∀ l, s.events = some l → l.started = true → l.consumer.consuming = true

end Service

/-- One of the calls failed at its last step. -/
def cancelFailed (rs : List (Option StartError)) : Bool := rs.any (·.any StartError.isCancel)

theorem ConsumerState.start_consuming {c : ConsumerState} {a : Attach}
    (ok : (c.start a).2 = none) : (c.start a).1.consuming = true := by
  unfold start at ok ⊢
  split at ok
  · simp at ok
  · next open' =>
    simp only [open', Bool.false_eq_true, ↓reduceIte]
    cases a with
    | attached => rfl
    | failed err channel => simp at ok
    | busClosed => simp at ok

/-- A listener that was started before is left as it is. -/
theorem Listener.start_of_started {l : Listener} (started : l.started = true) (a : Attach) :
    l.start a = (l, none) := by
  simp [start, started]

theorem Listener.start_of_idle {l : Listener} (idle : l.started = false) (a : Attach) :
    l.start a = ({ l with
        started := (l.consumer.start a).2.isNone
        consumer := (l.consumer.start a).1 },
      (l.consumer.start a).2.map fun err =>
        lit "protobus: starting event listener " ++ l.queue ++ lit ": " ++ err) := by
  simp only [start, idle, Bool.false_eq_true, ↓reduceIte]
  obtain ⟨c, err⟩ := l.consumer.start a
  cases err <;> rfl

theorem Listener.start_ok {l : Listener} {a : Attach} (idle : l.started = false)
    (ok : (l.start a).2 = none) :
    (l.start a).1.started = true ∧ (l.start a).1.consumer.consuming = true := by
  rw [start_of_idle idle] at ok ⊢
  have attached : (l.consumer.start a).2 = none := Option.map_eq_none_iff.mp ok
  exact ⟨by simp [attached], ConsumerState.start_consuming attached⟩

theorem Listener.start_failed {l : Listener} {a : Attach} (idle : l.started = false)
    (failed : (l.start a).2 ≠ none) : (l.start a).1.started = false := by
  rw [start_of_idle idle] at failed ⊢
  cases err : (l.consumer.start a).2 with
  | none => simp [err] at failed
  | some err => rfl

namespace Service
variable {s : Service} {b : Broker} {failed : Bool}

/-- Where a sequence of calls has come to. A listener that has started is consuming unless a
call failed at the last step, which stops it and leaves it marked as started. -/
structure Progress (s : Service) (failed : Bool) : Prop where
  requests : s.started = true → s.requests.consuming = true
  events : ∀ l, s.events = some l →
    l.started = true ∧ l.consumer.consuming = !failed ∨
      l.started = false ∧ failed = false ∧ s.started = false

theorem Unstarted.progress (h : s.Unstarted) : s.Progress false := by
  refine ⟨by simp [h.started], ?_⟩
  intro l present
  cases started : l.started with
  | true => exact .inl ⟨rfl, h.events l present started⟩
  | false => exact .inr ⟨rfl, rfl, h.started⟩

/-- The events step. -/
theorem startEvents_progress (h : s.Progress failed) (idle : s.started = false) (a : Attach) :
    (s.startEvents a).1.requests = s.requests ∧
      (s.startEvents a).1.started = false ∧
      (s.startEvents a).1.Progress failed ∧
      ((s.startEvents a).2 = none →
        ∀ l, (s.startEvents a).1.events = some l → l.started = true) := by
  unfold startEvents
  cases present : s.events with
  | none => exact ⟨rfl, idle, h, by simp [present]⟩
  | some l =>
    refine ⟨rfl, idle, ⟨by simp [idle], ?_⟩, ?_⟩
    · intro l' eq
      obtain rfl : (l.start a).1 = l' := by simpa using eq
      rcases h.events l present with ⟨started, consuming⟩ | ⟨waiting, fine, -⟩
      · rw [Listener.start_of_started started]
        exact .inl ⟨started, consuming⟩
      · by_cases ok : (l.start a).2 = none
        · left
          rw [fine]
          exact Listener.start_ok waiting ok
        · exact .inr ⟨Listener.start_failed waiting ok, fine, idle⟩
    · intro ok l' eq
      obtain rfl : (l.start a).1 = l' := by simpa using eq
      cases started : l.started with
      | true => rw [Listener.start_of_started started, started]
      | false => exact (Listener.start_ok started ok).1

/-- What a call has to show for its result. -/
structure StartOk (failed : Bool) (after : Service × Option StartError) : Prop where
  progress : after.1.Progress (failed || after.2.any StartError.isCancel)
  started : after.2 = none → after.1.started = true

theorem ensureCancelListener_records (a : Attach) :
    ∃ cancelSub, (s.ensureCancelListener a).1 = { s with cancelSub } := by
  unfold ensureCancelListener
  split
  · exact ⟨_, rfl⟩
  · cases a <;> exact ⟨_, rfl⟩

/-- The last step. When it fails, the listener is stopped but remains marked as started. -/
theorem startCancel_ok (h : s.Progress failed) (idle : s.started = false)
    (requests : s.requests.consuming = true)
    (events : ∀ l, s.events = some l → l.started = true) : StartOk failed (s.startCancel b) := by
  obtain ⟨cancelSub, eq⟩ := @ensureCancelListener_records s b.cancel
  unfold startCancel
  split
  · next s' err done =>
    obtain rfl : { s with cancelSub } = s' := by rw [← eq, done]
    refine ⟨⟨by simp [stopRequests, stopEvents, idle], ?_⟩, by simp⟩
    intro l' stopped
    obtain ⟨l, present, rfl⟩ := Option.map_eq_some_iff.mp stopped
    left
    exact ⟨events l present, by simp [ConsumerState.stopConsuming, StartError.isCancel]⟩
  · next s' done =>
    obtain rfl : { s with cancelSub } = s' := by rw [← eq, done]
    refine ⟨⟨fun _ => requests, ?_⟩, fun _ => rfl⟩
    intro l present
    left
    refine ⟨events l present, ?_⟩
    rcases h.events l present with ⟨-, consuming⟩ | ⟨waiting, -⟩
    · simpa using consuming
    · simp [events l present] at waiting

theorem start_ok (h : s.Progress failed) (b : Broker) : StartOk failed (s.start b) := by
  unfold start
  split
  · next started => exact ⟨by simpa using h, fun _ => started⟩
  · next idle =>
    have idle : s.started = false := by simpa using idle
    split
    · next c err _ =>
      refine ⟨⟨by simp [idle], ?_⟩, by simp⟩
      simpa [StartError.isCancel] using h.events
    · next c attached =>
      have consuming : c.consuming = true := by
        have := @ConsumerState.start_consuming s.requests b.requests (by rw [attached])
        rwa [attached] at this
      have before : ({ s with requests := c } : Service).Progress failed :=
        ⟨by simp [idle], h.events⟩
      obtain ⟨requests, waiting, progress, started⟩ :=
        startEvents_progress before idle b.events
      split
      · next s' err done =>
        rw [done] at waiting progress
        change s'.started = false at waiting
        refine ⟨⟨by simp [stopRequests, waiting], ?_⟩, by simp⟩
        simpa [StartError.isCancel, stopRequests] using progress.events
      · next s' done =>
        rw [done] at requests waiting progress started
        exact startCancel_ok progress waiting (by rw [requests]; exact consuming) (started rfl)

/-- Call after call. -/
theorem starts_progress (bs : List Broker) (h : s.Progress failed) :
    (starts bs s).1.Progress (failed || cancelFailed (starts bs s).2) := by
  induction bs generalizing s failed with
  | nil => simpa [starts, cancelFailed] using h
  | cons b bs ih =>
    have := ih (start_ok h b).progress
    simpa [starts, cancelFailed, Bool.or_assoc] using this

/-- A call of `Start` that returns nil, after any calls before it, leaves the service fully
serving exactly when it has no listener, or no call before it failed at the last step. -/
theorem start_serving_iff (h : s.Unstarted) (bs : List Broker) (b : Broker)
    (ok : ((starts bs s).1.start b).2 = none) :
    ((starts bs s).1.start b).1.Serving ↔
      ((starts bs s).1.start b).1.events = none ∨ cancelFailed (starts bs s).2 = false := by
  have last := start_ok (starts_progress bs h.progress) b
  have started := last.started ok
  have progress := last.progress
  rw [ok, Bool.false_or, Option.any_none, Bool.or_false] at progress
  constructor
  · intro serving
    cases present : ((starts bs s).1.start b).1.events with
    | none => exact .inl rfl
    | some l =>
      right
      rcases progress.events l present with ⟨-, consuming⟩ | ⟨-, fine, -⟩
      · simpa [serving.2 l present] using consuming
      · exact fine
  · intro condition
    refine ⟨progress.requests started, ?_⟩
    intro l present
    rcases progress.events l present with ⟨-, consuming⟩ | ⟨-, -, idle⟩
    · rcases condition with absent | fine
      · simp [present] at absent
      · simpa [fine] using consuming
    · simp [started] at idle

def calcService : Service where
  name := lit "Calc"
  events := some { queue := lit "Calc.Events", lazy := false }

theorem calcService_unstarted : calcService.Unstarted := by
  refine ⟨rfl, ?_⟩
  intro l present started
  obtain rfl : { queue := lit "Calc.Events", lazy := false } = l := Option.some.inj present
  simp at started

def connected : Broker := ⟨.attached, .attached, .attached⟩

/-- The first call fails at the listener, and the second one succeeds. -/
theorem start_serving_iff_retried :
    let s := (starts [{ connected with events := .failed (lit "timeout") false }] calcService).1
    (s.start connected).2 = none ∧ (s.start connected).1.Serving :=
  ⟨by decide, (start_serving_iff calcService_unstarted
    [{ connected with events := .failed (lit "timeout") false }] connected (by decide)).mpr
    (.inr (by decide))⟩

/-- The first call fails at the cancel listener. The second one returns nil, and the event
listener does not consume. -/
theorem start_half_serving :
    let s := (starts [{ connected with cancel := .failed (lit "timeout") false }] calcService).1
    calcService.Unstarted ∧ (s.start connected).2 = none ∧
      (s.start connected).1.requests.consuming = true ∧
      (s.start connected).1.events.map (fun l => (l.started, l.consumer.consuming)) =
        some (true, false) :=
  ⟨calcService_unstarted, by decide, by decide, by decide⟩

end Service

end Protobus.Lifecycle
