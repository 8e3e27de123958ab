import Protobus.Library.Transition
import Mathlib.Data.List.Nodup

/-!
# Stopping a consumer

The fields of a consumer that its mutex protects, and the steps between them of everything that may
run at once: starts, one restore at a time (they share the session's restore lock), any number of
calls of `stopConsuming` and `close`, and losses of the channel or the connection. A restore
registers a consumer at the broker outside the mutex, between reading the channel and recording the
tag, and looks again when it records: if the application has stopped meanwhile, it cancels what it
registered.
-/
namespace Protobus.Consumer.Channel
open Library

/-- Where `restoreTopology` and the `startConsuming` in it have come to. Channels, consumer tags and
the stop channels of loops are known by numbers. -/
inductive Restore
  | idle
  /-- The consumer was not closed. -/
  | begun
  | declaring (ch : Nat)
  /-- Installed; the channel before it is to be closed. -/
  | swapped (ch old : Nat) (oldStop : Option Nat) (consuming : Bool)
  | draining (ch old : Nat) (consuming : Bool)
  /-- `startConsuming` is called. -/
  | starting (ch : Nat)
  | consuming (ch : Nat)
  /-- The broker has the consumer. -/
  | consumed (ch tag : Nat)
  /-- It is not to be kept. -/
  | cancelling (ch tag : Nat)
deriving DecidableEq

/-- The new channel is in place: `startConsuming` follows if the application wanted deliveries. -/
def Restore.installed (ch : Nat) (consuming : Bool) : Restore :=
  if consuming then .starting ch else .idle

/-- A call of `stopConsuming` after its critical section, with what it took. In `close`, more
follows. -/
structure Stop where
  pending : Option (Nat × Nat)
  closing : Bool
deriving DecidableEq

/-- The call of `close` that found the consumer open, after its critical section. -/
inductive Teardown
  | none
  | signalling (ch stop : Option Nat)
  | closing (ch : Option Nat)
  | done
deriving DecidableEq

structure State where
  ch : Option Nat := none
  tag : Option Nat := none
  consuming : Bool := false
  closed : Bool := false
  loopStop : Option Nat := none
  starts : Nat := 0
  restore : Restore := .idle
  /-- The last restore returned an error. -/
  failed : Bool := false
  stops : List Stop := []
  /-- Calls of `close` that are past their `stopConsuming`. -/
  lockers : Nat := 0
  teardown : Teardown := .none
  opened : Nat := 0
  tags : Nat := 0
  loops : Nat := 0
  /-- The channels that are closed. -/
  down : List Nat := []
  /-- The consumers that the broker was given, by channel and tag, and those it cancelled. -/
  registered : List (Nat × Nat) := []
  cancelled : List (Nat × Nat) := []
  /-- The stop channels that were closed, once for every time. -/
  signalled : List Nat := []
  /-- A stop has been through its critical section, and no start has begun since. -/
  stopped : Bool := false
  /-- A stop or a close has completed, and no start has begun since. -/
  completed : Bool := false
  /-- The calls of `close` that have returned. -/
  closes : Nat := 0
deriving DecidableEq

inductive Act
  | start
  | startEnds (ok : Bool)
  | restore
  | recover (dead : Nat)
  | openFails
  | openChannel
  | declareFails
  | swap
  | signalOld
  | closeOld
  | readChannel
  | consumeFails
  | consume
  | record
  | cancelNew
  /-- The critical section of `stopConsuming`, called for itself or by `close`. -/
  | stop (closing : Bool)
  | cancelTaken (i : Nat)
  /-- The critical section of `close`. -/
  | lock
  | signalStop
  | closeChannel
  | channelLost (ch : Nat)
  | connectionLost
deriving DecidableEq

namespace State
variable (s : State)

/-- The consumers cancelled after one more request. On a channel that is closed it does nothing, and
a request that fails leaves its channel closed. -/
def cancel : Option (Nat × Nat) → List (Nat × Nat)
  | none => s.cancelled
  | some r => if r.1 ∈ s.down then s.cancelled else r :: s.cancelled

/-- What `stopConsuming` takes. -/
def current : Option (Nat × Nat) :=
  match s.ch, s.tag with
  | some ch, some tag => some (ch, tag)
  | _, _ => none

/-- The steps of a restore. -/
def restoreStep : Act → Option State
  | .restore => match s.restore with
    | .idle => some (if s.closed then { s with failed := false }
      else { s with restore := .begun, failed := false })
    | _ => none
  | .recover dead => match s.restore with
    | .idle =>
      if s.closed || !s.consuming || s.ch ≠ some dead then some s
      else some { s with restore := .begun, failed := false }
    | _ => none
  | .openFails => match s.restore with
    | .begun => some { s with restore := .idle, failed := true }
    | _ => none
  | .openChannel => match s.restore with
    | .begun => some { s with restore := .declaring s.opened, opened := s.opened + 1 }
    | _ => none
  | .declareFails => match s.restore with
    | .declaring ch => some { s with restore := .idle, down := ch :: s.down, failed := true }
    | _ => none
  | .swap => match s.restore with
    | .declaring ch =>
      if s.closed then some { s with restore := .idle, down := ch :: s.down }
      else match s.ch with
        | none => some { s with
            ch := some ch
            loopStop := none
            restore := .installed ch s.consuming }
        | some old => some { s with
            ch := some ch
            loopStop := none
            restore := .swapped ch old s.loopStop s.consuming }
    | _ => none
  | .signalOld => match s.restore with
    | .swapped ch old oldStop consuming => some { s with
        restore := .draining ch old consuming
        signalled := oldStop.toList ++ s.signalled }
    | _ => none
  | .closeOld => match s.restore with
    | .draining ch old consuming => some { s with
        restore := .installed ch consuming
        down := old :: s.down }
    | _ => none
  | .readChannel => match s.restore with
    | .starting _ => match s.ch with
      | none => some { s with restore := .idle, failed := true }
      | some ch => some { s with restore := .consuming ch }
    | _ => none
  | .consumeFails => match s.restore with
    | .consuming _ => some { s with restore := .idle, failed := true }
    | _ => none
  | .consume => match s.restore with
    | .consuming ch =>
      if ch ∈ s.down then none
      else some { s with
        restore := .consumed ch s.tags
        tags := s.tags + 1
        registered := (ch, s.tags) :: s.registered }
    | _ => none
  | .record => match s.restore with
    | .consumed ch tag =>
      if s.consuming && !s.closed && s.ch = some ch then some { s with
        tag := some tag
        loopStop := some s.loops
        loops := s.loops + 1
        restore := .idle }
      else some { s with
        loopStop := some s.loops
        loops := s.loops + 1
        restore := .cancelling ch tag }
    | _ => none
  | .cancelNew => match s.restore with
    | .cancelling ch tag => some { s with
        restore := .idle
        cancelled := s.cancel (some (ch, tag)) }
    | _ => none
  | _ => none

def step : Act → Option State
  | .start => some (if s.closed then s else { s with
      consuming := true
      starts := s.starts + 1
      stopped := false
      completed := false })
  | .startEnds ok =>
    if s.starts = 0 then none
    else some { s with consuming := ok && s.consuming, starts := s.starts - 1 }
  | .stop closing => some { s with
      consuming := false
      tag := none
      stops := s.stops ++ [⟨s.current, closing⟩]
      stopped := true }
  | .cancelTaken i => match s.stops[i]? with
    | none => none
    | some p => some { s with
        cancelled := s.cancel p.pending
        stops := s.stops.eraseIdx i
        lockers := if p.closing then s.lockers + 1 else s.lockers
        completed := s.completed || !p.closing }
  | .lock =>
    if s.lockers = 0 then none
    else if s.closed then some { s with
      lockers := s.lockers - 1
      completed := true
      closes := s.closes + 1 }
    else some { s with
      closed := true
      ch := none
      lockers := s.lockers - 1
      teardown := .signalling s.ch s.loopStop }
  | .signalStop => match s.teardown with
    | .signalling ch stop => some { s with
        teardown := .closing ch
        signalled := stop.toList ++ s.signalled }
    | _ => none
  | .closeChannel => match s.teardown with
    | .closing ch => some { s with
        teardown := .done
        down := ch.toList ++ s.down
        completed := true
        closes := s.closes + 1 }
    | _ => none
  | .channelLost ch => some { s with down := ch :: s.down }
  | .connectionLost => some { s with down := List.range s.opened ++ s.down }
  | a => s.restoreStep a

end State

def channels : System State Act where
  init s := s = {}
  step := State.step

section Inversion

/-- What one step does. -/
inductive Steps (s : State) : State → Prop
  | same : Steps s s
  | start : Steps s { s with
      consuming := true
      starts := s.starts + 1
      stopped := false
      completed := false }
  | startEnds (ok : Bool) : Steps s { s with
      consuming := ok && s.consuming
      starts := s.starts - 1 }
  | stop (closing : Bool) : Steps s { s with
      consuming := false
      tag := none
      stops := s.stops ++ [⟨s.current, closing⟩]
      stopped := true }
  | cancelTaken {i : Nat} {p : Stop} (at_i : s.stops[i]? = some p) : Steps s { s with
      cancelled := s.cancel p.pending
      stops := s.stops.eraseIdx i
      lockers := if p.closing then s.lockers + 1 else s.lockers
      completed := s.completed || !p.closing }
  | lockAgain (closed : s.closed = true) : Steps s { s with
      lockers := s.lockers - 1
      completed := true
      closes := s.closes + 1 }
  | lock (live : s.closed = false) : Steps s { s with
      closed := true
      ch := none
      lockers := s.lockers - 1
      teardown := .signalling s.ch s.loopStop }
  | signalStop {ch stop : Option Nat} (at_stop : s.teardown = .signalling ch stop) :
      Steps s { s with
      teardown := .closing ch
      signalled := stop.toList ++ s.signalled }
  | closeChannel {ch : Option Nat} (at_close : s.teardown = .closing ch) : Steps s { s with
      teardown := .done
      down := ch.toList ++ s.down
      completed := true
      closes := s.closes + 1 }
  | lost (chs : List Nat) : Steps s { s with down := chs ++ s.down }
  | skip : Steps s { s with failed := false }
  | restore (idle : s.restore = .idle) : Steps s { s with restore := .begun, failed := false }
  | quit {ch : Nat}
      (early : s.restore = .begun ∨ s.restore = .starting ch ∨ s.restore = .consuming ch) :
      Steps s { s with restore := .idle, failed := true }
  | openChannel (begun : s.restore = .begun) : Steps s { s with
      restore := .declaring s.opened
      opened := s.opened + 1 }
  | discard {ch : Nat} (declared : s.restore = .declaring ch) (failed : Bool) : Steps s { s with
      restore := .idle
      down := ch :: s.down
      failed := failed }
  | install {ch : Nat} (declared : s.restore = .declaring ch) (live : s.closed = false)
      (first : s.ch = none) : Steps s { s with
      ch := some ch
      loopStop := none
      restore := .installed ch s.consuming }
  | replace {ch old : Nat} (declared : s.restore = .declaring ch) (live : s.closed = false)
      (before : s.ch = some old) : Steps s { s with
      ch := some ch
      loopStop := none
      restore := .swapped ch old s.loopStop s.consuming }
  | signalOld {ch old : Nat} {oldStop : Option Nat} {consuming : Bool}
      (swapped : s.restore = .swapped ch old oldStop consuming) : Steps s { s with
      restore := .draining ch old consuming
      signalled := oldStop.toList ++ s.signalled }
  | closeOld {ch old : Nat} {consuming : Bool}
      (draining : s.restore = .draining ch old consuming) : Steps s { s with
      restore := .installed ch consuming
      down := old :: s.down }
  | readChannel {ch₀ ch : Nat} (starting : s.restore = .starting ch₀) (read : s.ch = some ch) :
      Steps s { s with restore := .consuming ch }
  | consume {ch : Nat} (consuming : s.restore = .consuming ch) (up : ch ∉ s.down) : Steps s { s with
      restore := .consumed ch s.tags
      tags := s.tags + 1
      registered := (ch, s.tags) :: s.registered }
  | keep {ch tag : Nat} (consumed : s.restore = .consumed ch tag) (wanted : s.consuming = true)
      (live : s.closed = false) (same : s.ch = some ch) : Steps s { s with
      tag := some tag
      loopStop := some s.loops
      loops := s.loops + 1
      restore := .idle }
  | refuse {ch tag : Nat} (consumed : s.restore = .consumed ch tag) : Steps s { s with
      loopStop := some s.loops
      loops := s.loops + 1
      restore := .cancelling ch tag }
  | cancelNew {ch tag : Nat} (cancelling : s.restore = .cancelling ch tag) : Steps s { s with
      restore := .idle
      cancelled := s.cancel (some (ch, tag)) }

variable {s t : State} {a : Act}

theorem restoreStep_cases (h : s.restoreStep a = some t) : Steps s t := by
  cases a <;> simp only [State.restoreStep, reduceCtorEq] at h
  case restore =>
    split at h <;> cases h
    split
    · exact .skip
    · exact .restore ‹_›
  case recover dead =>
    split at h
    · split at h <;> cases h
      · exact .same
      · exact .restore ‹_›
    · cases h
  case openFails =>
    split at h <;> cases h
    exact @Steps.quit _ 0 (.inl ‹_›)
  case openChannel =>
    split at h <;> cases h
    exact .openChannel ‹_›
  case declareFails =>
    split at h <;> cases h
    exact .discard ‹_› true
  case swap =>
    split at h
    · split at h
      · cases h
        exact .discard ‹_› s.failed
      · next live =>
        split at h <;> cases h
        · exact .install ‹_› (Bool.eq_false_iff.mpr live) ‹_›
        · exact .replace ‹_› (Bool.eq_false_iff.mpr live) ‹_›
    · cases h
  case signalOld =>
    split at h <;> cases h
    exact .signalOld ‹_›
  case closeOld =>
    split at h <;> cases h
    exact .closeOld ‹_›
  case readChannel =>
    split at h
    · next ch₀ starting =>
      split at h <;> cases h
      · exact .quit (.inr (.inl starting))
      · exact .readChannel starting ‹_›
    · cases h
  case consumeFails =>
    split at h
    · next ch consuming =>
      cases h
      exact .quit (.inr (.inr consuming))
    · cases h
  case consume =>
    split at h
    · split at h <;> cases h
      exact .consume ‹_› ‹_›
    · cases h
  case record =>
    split at h
    · next ch tag consumed =>
      split at h <;> cases h
      · next wanted =>
        simp only [Bool.and_eq_true, Bool.not_eq_true', decide_eq_true_eq] at wanted
        exact .keep consumed wanted.1.1 wanted.1.2 wanted.2
      · exact .refuse consumed
    · cases h
  case cancelNew =>
    split at h <;> cases h
    exact .cancelNew ‹_›

theorem step_cases (h : s.step a = some t) : Steps s t := by
  cases a
  case start =>
    cases h
    split
    · exact .same
    · exact .start
  case startEnds ok =>
    simp only [State.step, Option.ite_none_left_eq_some] at h
    cases h.2
    exact .startEnds ok
  case stop closing =>
    cases h
    exact .stop closing
  case cancelTaken i =>
    simp only [State.step] at h
    split at h <;> cases h
    exact .cancelTaken ‹_›
  case lock =>
    simp only [State.step, Option.ite_none_left_eq_some] at h
    obtain ⟨-, h⟩ := h
    split at h <;> cases h
    · exact .lockAgain ‹_›
    · exact .lock (Bool.eq_false_iff.mpr ‹_›)
  case signalStop =>
    simp only [State.step] at h
    split at h <;> cases h
    exact .signalStop ‹_›
  case closeChannel =>
    simp only [State.step] at h
    split at h <;> cases h
    exact .closeChannel ‹_›
  case channelLost ch =>
    cases h
    exact .lost [ch]
  case connectionLost =>
    cases h
    exact .lost (List.range s.opened)
  all_goals exact restoreStep_cases (by simpa only [State.step] using h)

end Inversion

section Accounting

/-- The consumers a restore is responsible for: the one it registered, and those of the channel that
it is about to close. -/
def Restore.Holds (r : Nat × Nat) : Restore → Prop
  | .swapped _ old _ _ => r.1 = old
  | .draining _ old _ => r.1 = old
  | .consumed ch tag => r = (ch, tag)
  | .cancelling ch tag => r = (ch, tag)
  | _ => False

/-- The channel of a restore that has not registered its consumer. -/
def Restore.fresh : Restore → Option Nat
  | .declaring ch => some ch
  | .swapped ch _ _ _ => some ch
  | .draining ch _ _ => some ch
  | .starting ch => some ch
  | .consuming ch => some ch
  | _ => none

/-- The channel that a restore put in place and is to consume on. -/
def Restore.inPlace : Restore → Option Nat
  | .swapped ch _ _ _ => some ch
  | .draining ch _ _ => some ch
  | .starting ch => some ch
  | .consuming ch => some ch
  | _ => none

/-- The channel a close has still to close. -/
def Teardown.channel : Teardown → Option Nat
  | .signalling ch _ => ch
  | .closing ch => ch
  | _ => Option.none

/-- Why a consumer that the broker was given will not stay after a stop: it is gone, or the next
stop takes it, or a stop, the restore or the close that is under way has it. -/
def Accounted (s : State) (r : Nat × Nat) : Prop :=
  r ∈ s.cancelled ∨ r.1 ∈ s.down ∨ (s.ch = some r.1 ∧ s.tag = some r.2) ∨
    (∃ p ∈ s.stops, p.pending = some r) ∨ s.restore.Holds r ∨ s.teardown.channel = some r.1

structure Inv (s : State) : Prop where
  accounted {r : Nat × Nat} : r ∈ s.registered → Accounted s r
  opened {r : Nat × Nat} : r ∈ s.registered → r.1 < s.opened
  below {ch : Nat} : s.ch = some ch → ch < s.opened
  unused {ch : Nat} : s.restore.fresh = some ch → ch < s.opened ∧ ∀ tag, (ch, tag) ∉ s.registered
  only {ch tag : Nat} : s.restore = .consumed ch tag →
    ∀ {tag'}, (ch, tag') ∈ s.registered → tag' = tag
  inPlace {ch ch' : Nat} : s.restore.inPlace = some ch → s.ch = some ch' → ch' = ch
  stopped : s.stopped = true → s.consuming = false ∧ s.tag = none
  closed : s.closed = true → s.ch = none
  torn : s.teardown ≠ .none → s.closed = true
  returned : 0 < s.closes → s.closed = true

theorem Inv.init : Inv {} := by
  constructor <;> simp [Restore.fresh, Restore.inPlace]

variable {s t : State} {r : Nat × Nat}

theorem mem_cancel_of_mem {p : Option (Nat × Nat)} (mem : r ∈ s.cancelled) : r ∈ s.cancel p := by
  cases p with
  | none => exact mem
  | some q =>
    simp only [State.cancel]
    split
    · exact mem
    · exact List.mem_cons_of_mem q mem

/-- A request to cancel a consumer leaves it cancelled, or its channel was closed. -/
theorem mem_cancel (r : Nat × Nat) : r ∈ s.cancel (some r) ∨ r.1 ∈ s.down := by
  by_cases down : r.1 ∈ s.down
  · exact .inr down
  · simp [State.cancel, down]

theorem current_eq_some (ch : s.ch = some r.1) (tag : s.tag = some r.2) : s.current = some r := by
  simp [State.current, ch, tag]

theorem Restore.fresh_installed {ch ch' : Nat} {consuming : Bool}
    (h : (Restore.installed ch consuming).fresh = some ch') : ch' = ch := by
  cases consuming <;> simp_all [Restore.installed, Restore.fresh]

theorem Restore.inPlace_installed {ch ch' : Nat} {consuming : Bool}
    (h : (Restore.installed ch consuming).inPlace = some ch') : ch' = ch := by
  cases consuming <;> simp_all [Restore.installed, Restore.inPlace]

theorem Restore.installed_ne_consumed {ch ch' tag : Nat} {consuming : Bool} :
    Restore.installed ch consuming ≠ .consumed ch' tag := by
  cases consuming <;> simp [Restore.installed]

namespace Accounted

theorem cancelled (gone : r ∈ s.cancelled) : Accounted s r := .inl gone

theorem down (gone : r.1 ∈ s.down) : Accounted s r := .inr (.inl gone)

theorem current (ch : s.ch = some r.1) (tag : s.tag = some r.2) : Accounted s r :=
  .inr (.inr (.inl ⟨ch, tag⟩))

theorem taken {p : Stop} (mem : p ∈ s.stops) (takes : p.pending = some r) : Accounted s r :=
  .inr (.inr (.inr (.inl ⟨p, mem, takes⟩)))

theorem held (holds : s.restore.Holds r) : Accounted s r :=
  .inr (.inr (.inr (.inr (.inl holds))))

theorem closing (holds : s.teardown.channel = some r.1) : Accounted s r :=
  .inr (.inr (.inr (.inr (.inr holds))))

/-- What is gone stays gone; whoever has the consumer now is to account for it. -/
theorem imp (acc : Accounted s r) (cancelled : s.cancelled ⊆ t.cancelled) (down : s.down ⊆ t.down)
    (current : s.ch = some r.1 → s.tag = some r.2 → Accounted t r)
    (taken : ∀ {p}, p ∈ s.stops → p.pending = some r → Accounted t r)
    (held : s.restore.Holds r → Accounted t r)
    (closing : s.teardown.channel = some r.1 → Accounted t r) : Accounted t r := by
  obtain gone | gone | ⟨ch, tag⟩ | ⟨p, mem, takes⟩ | holds | holds := acc
  · exact .cancelled (cancelled gone)
  · exact .down (down gone)
  · exact current ch tag
  · exact taken mem takes
  · exact held holds
  · exact closing holds

/-- A step of the restore accounts for what the restore held, and leaves the rest as it was. -/
theorem restoring (acc : Accounted s r) (ch : t.ch = s.ch) (tag : t.tag = s.tag)
    (stops : t.stops = s.stops) (teardown : t.teardown = s.teardown)
    (cancelled : s.cancelled ⊆ t.cancelled) (down : s.down ⊆ t.down)
    (held : s.restore.Holds r → Accounted t r) : Accounted t r := by
  refine acc.imp cancelled down (fun at_ch at_tag => ?_) (fun mem takes => ?_) held fun holds => ?_
  · exact .current (ch.trans at_ch) (tag.trans at_tag)
  · exact .taken (stops ▸ mem) takes
  · exact .closing (teardown ▸ holds)

end Accounted

namespace Inv

theorem stop (inv : Inv s) (closing : Bool) : Inv { s with
    consuming := false
    tag := none
    stops := s.stops ++ [⟨s.current, closing⟩]
    stopped := true } where
  __ := inv
  accounted mem := by
    refine (inv.accounted mem).imp (List.Subset.refl _) (List.Subset.refl _) (fun ch tag => ?_)
      (fun mem takes => ?_) (fun h => .held h) fun h => .closing h
    · have mine : ⟨s.current, closing⟩ ∈ s.stops ++ [⟨s.current, closing⟩] := by simp
      exact .taken mine (current_eq_some ch tag)
    · exact .taken (List.mem_append_left _ mem) takes
  stopped _ := ⟨rfl, rfl⟩

theorem cancelTaken (inv : Inv s) {i : Nat} {p : Stop} (at_i : s.stops[i]? = some p)
    {lockers : Nat} {completed : Bool} : Inv { s with
    cancelled := s.cancel p.pending
    stops := s.stops.eraseIdx i
    lockers := lockers
    completed := completed } where
  __ := inv
  accounted {r} mem := by
    refine (inv.accounted mem).imp (fun _ gone => @mem_cancel_of_mem s _ p.pending gone)
      (List.Subset.refl _) (fun ch tag => .current ch tag) (fun {q} mem takes => ?_)
      (fun h => .held h) fun h => .closing h
    rcases Library.mem_eraseIdx_or at_i mem with rfl | still
    · rw [Accounted, takes]
      exact (mem_cancel r).imp_right .inl
    · -- another stop has it
      exact .taken still takes

theorem lock (inv : Inv s) (live : s.closed = false) {lockers : Nat} : Inv { s with
    closed := true
    ch := none
    lockers := lockers
    teardown := .signalling s.ch s.loopStop } where
  __ := inv
  accounted mem := by
    refine (inv.accounted mem).imp (List.Subset.refl _) (List.Subset.refl _)
      (fun ch _ => .closing ch) (fun mem takes => .taken mem takes) (fun h => .held h)
      fun closing => ?_
    have intact : s.teardown = .none := by
      by_contra torn
      exact Bool.false_ne_true (live.symm.trans (inv.torn torn))
    rw [intact] at closing
    cases closing
  below h := by cases h
  inPlace _ h := by cases h
  closed _ := rfl
  torn _ := rfl
  returned _ := rfl

theorem closeChannel (inv : Inv s) {ch : Option Nat} (at_close : s.teardown = .closing ch) :
    Inv { s with
      teardown := .done
      down := ch.toList ++ s.down
      completed := true
      closes := s.closes + 1 } where
  __ := inv
  accounted mem := by
    refine (inv.accounted mem).imp (List.Subset.refl _) (List.subset_append_right _ _)
      (fun ch tag => .current ch tag) (fun mem takes => .taken mem takes) (fun h => .held h)
      fun closing => ?_
    rw [at_close] at closing
    exact .down (List.mem_append_left _ (Option.mem_toList.mpr closing))
  torn _ := inv.torn (by simp [at_close])
  returned _ := inv.torn (by simp [at_close])

/-- A restore that holds nothing may be given up, or begun, at any point. -/
theorem plain (inv : Inv s) (free : ∀ {r}, ¬ s.restore.Holds r) {next : Restore}
    (fresh : next.fresh = none) (inPlace : next.inPlace = none)
    (only : ∀ {ch tag}, next ≠ .consumed ch tag) {down : List Nat} (more : s.down ⊆ down)
    (failed : Bool) : Inv { s with restore := next, down := down, failed := failed } where
  __ := inv
  accounted mem := (inv.accounted mem).restoring rfl rfl rfl rfl (List.Subset.refl _) more
    (absurd · free)
  unused h := by cases fresh.symm.trans h
  only h := absurd h only
  inPlace h := by cases inPlace.symm.trans h

theorem openChannel (inv : Inv s) (begun : s.restore = .begun) :
    Inv { s with restore := .declaring s.opened, opened := s.opened + 1 } where
  __ := inv
  accounted mem := (inv.accounted mem).restoring rfl rfl rfl rfl (List.Subset.refl _)
    (List.Subset.refl _) (by rw [begun]; exact False.elim)
  opened mem := Nat.lt_succ_of_lt (inv.opened mem)
  below at_ch := Nat.lt_succ_of_lt (inv.below at_ch)
  unused h := by
    cases h
    exact ⟨Nat.lt_succ_self _, fun tag mem => Nat.lt_irrefl _ (inv.opened mem)⟩
  only h := by cases h
  inPlace h := by cases h

theorem install (inv : Inv s) {ch : Nat} (declared : s.restore = .declaring ch)
    (live : s.closed = false) (first : s.ch = none) : Inv { s with
      ch := some ch
      loopStop := none
      restore := .installed ch s.consuming } where
  __ := inv
  accounted mem := by
    refine (inv.accounted mem).imp (List.Subset.refl _) (List.Subset.refl _) (fun at_ch _ => ?_)
      (fun mem takes => .taken mem takes) (fun held => ?_) fun h => .closing h
    · cases first.symm.trans at_ch
    · rw [declared] at held
      exact held.elim
  below at_ch := by
    cases at_ch
    exact (inv.unused (by rw [declared]; rfl)).1
  unused h := by
    cases Restore.fresh_installed h
    exact inv.unused (by rw [declared]; rfl)
  only h := absurd h Restore.installed_ne_consumed
  inPlace h at_ch := by
    cases Restore.inPlace_installed h
    cases at_ch
    rfl
  closed h := absurd (live.symm.trans h) Bool.false_ne_true

theorem replace (inv : Inv s) {ch old : Nat} (declared : s.restore = .declaring ch)
    (live : s.closed = false) (before : s.ch = some old) : Inv { s with
      ch := some ch
      loopStop := none
      restore := .swapped ch old s.loopStop s.consuming } where
  __ := inv
  accounted mem := by
    refine (inv.accounted mem).imp (List.Subset.refl _) (List.Subset.refl _) (fun at_ch _ => ?_)
      (fun mem takes => .taken mem takes) (fun held => ?_) fun h => .closing h
    · -- it is on the channel that the restore is about to close
      exact .held (Option.some.inj (at_ch.symm.trans before))
    · rw [declared] at held
      exact held.elim
  below at_ch := by
    cases at_ch
    exact (inv.unused (by rw [declared]; rfl)).1
  unused h := by
    cases h
    exact inv.unused (by rw [declared]; rfl)
  only h := by cases h
  inPlace h at_ch := by
    cases h
    cases at_ch
    rfl
  closed h := absurd (live.symm.trans h) Bool.false_ne_true

theorem signalOld (inv : Inv s) {ch old : Nat} {oldStop : Option Nat} {consuming : Bool}
    (swapped : s.restore = .swapped ch old oldStop consuming) : Inv { s with
      restore := .draining ch old consuming
      signalled := oldStop.toList ++ s.signalled } where
  __ := inv
  accounted mem := (inv.accounted mem).restoring rfl rfl rfl rfl (List.Subset.refl _)
    (List.Subset.refl _) fun held => .held (by rwa [swapped] at held)
  unused h := inv.unused (by rw [swapped]; exact h)
  only h := by cases h
  inPlace h at_ch := inv.inPlace (by rw [swapped]; exact h) at_ch

theorem closeOld (inv : Inv s) {ch old : Nat} {consuming : Bool}
    (draining : s.restore = .draining ch old consuming) : Inv { s with
      restore := .installed ch consuming
      down := old :: s.down } where
  __ := inv
  accounted mem := (inv.accounted mem).restoring rfl rfl rfl rfl (List.Subset.refl _)
    (List.subset_cons_self _ _) fun held => .down (by
      rw [draining] at held
      exact List.mem_cons.mpr (.inl held))
  unused h := by
    cases Restore.fresh_installed h
    exact inv.unused (by rw [draining]; rfl)
  only h := absurd h Restore.installed_ne_consumed
  inPlace h at_ch := by
    cases Restore.inPlace_installed h
    exact inv.inPlace (by rw [draining]; rfl) at_ch

theorem readChannel (inv : Inv s) {ch₀ ch : Nat} (starting : s.restore = .starting ch₀)
    (read : s.ch = some ch) : Inv { s with restore := .consuming ch } where
  __ := inv
  accounted mem := (inv.accounted mem).restoring rfl rfl rfl rfl (List.Subset.refl _)
    (List.Subset.refl _) (by rw [starting]; exact False.elim)
  unused h := by
    cases h
    -- what it reads is the channel it put in place
    obtain rfl := inv.inPlace (by rw [starting]; rfl) read
    exact inv.unused (by rw [starting]; rfl)
  only h := by cases h
  inPlace h at_ch := by
    cases h
    exact Option.some.inj (at_ch.symm.trans read)

theorem consume (inv : Inv s) {ch : Nat} (consuming : s.restore = .consuming ch) : Inv { s with
      restore := .consumed ch s.tags
      tags := s.tags + 1
      registered := (ch, s.tags) :: s.registered } := by
  have new := inv.unused (by rw [consuming]; rfl)
  exact { inv with
    accounted := by
      intro r mem
      obtain rfl | mem := List.mem_cons.mp mem
      · exact .held rfl
      · exact (inv.accounted mem).restoring rfl rfl rfl rfl (List.Subset.refl _)
          (List.Subset.refl _) (by rw [consuming]; exact False.elim)
    opened := by
      intro r mem
      obtain rfl | mem := List.mem_cons.mp mem
      · exact new.1
      · exact inv.opened mem
    unused := fun h => by cases h
    only := by
      rintro _ _ ⟨⟩ tag' mem
      obtain same | mem := List.mem_cons.mp mem
      · exact (Prod.mk.inj same).2
      · exact absurd mem (new.2 tag')
    inPlace := fun h => by cases h }

theorem keep (inv : Inv s) {ch tag : Nat} (consumed : s.restore = .consumed ch tag)
    (wanted : s.consuming = true) (same : s.ch = some ch) : Inv { s with
      tag := some tag
      loopStop := some s.loops
      loops := s.loops + 1
      restore := .idle } where
  __ := inv
  accounted {r} mem := by
    refine (inv.accounted mem).imp (List.Subset.refl _) (List.Subset.refl _) (fun at_ch _ => ?_)
      (fun mem takes => .taken mem takes) (fun held => ?_) fun h => .closing h
    · -- nothing else was registered on this channel
      obtain rfl := Option.some.inj (same.symm.trans at_ch)
      obtain rfl := inv.only consumed mem
      exact .current same rfl
    · rw [consumed] at held
      obtain rfl : r = (ch, tag) := held
      exact .current same rfl
  unused h := by cases h
  only h := by cases h
  inPlace h := by cases h
  stopped h := absurd ((inv.stopped h).1.symm.trans wanted) Bool.false_ne_true

theorem refuse (inv : Inv s) {ch tag : Nat} (consumed : s.restore = .consumed ch tag) : Inv { s with
      loopStop := some s.loops
      loops := s.loops + 1
      restore := .cancelling ch tag } where
  __ := inv
  accounted mem := (inv.accounted mem).restoring rfl rfl rfl rfl (List.Subset.refl _)
    (List.Subset.refl _) fun held => .held (by rwa [consumed] at held)
  unused h := by cases h
  only h := by cases h
  inPlace h := by cases h

theorem cancelNew (inv : Inv s) {ch tag : Nat} (cancelling : s.restore = .cancelling ch tag) :
    Inv { s with restore := .idle, cancelled := s.cancel (some (ch, tag)) } where
  __ := inv
  accounted {r} mem := (inv.accounted mem).restoring rfl rfl rfl rfl
    (fun _ mem => @mem_cancel_of_mem s _ (some (ch, tag)) mem) (List.Subset.refl _) fun held => by
      rw [cancelling] at held
      obtain rfl : r = (ch, tag) := held
      exact (mem_cancel (ch, tag)).imp_right .inl
  unused h := by cases h
  only h := by cases h
  inPlace h := by cases h

theorem step (inv : Inv s) (h : Steps s t) : Inv t := by
  cases h with
  | same => exact inv
  | start => exact { inv with stopped := fun h => absurd h Bool.false_ne_true }
  | startEnds ok =>
    exact { inv with
      stopped := fun h => ⟨by rw [(inv.stopped h).1, Bool.and_false], (inv.stopped h).2⟩ }
  | stop closing => exact inv.stop closing
  | cancelTaken at_i => exact inv.cancelTaken at_i
  | lockAgain closed => exact { inv with returned := fun _ => closed }
  | lock live => exact inv.lock live
  | signalStop at_stop =>
    exact { inv with
      accounted := fun mem => by
        simpa [Accounted, at_stop, Teardown.channel] using inv.accounted mem
      torn := fun _ => inv.torn (by simp [at_stop]) }
  | closeChannel at_close => exact inv.closeChannel at_close
  | lost chs =>
    exact { inv with
      accounted := fun mem => (inv.accounted mem).restoring rfl rfl rfl rfl (List.Subset.refl _)
        (List.subset_append_right _ _) fun h => .held h }
  | skip => exact { inv with }
  | restore idle =>
    exact inv.plain (by rw [idle]; exact id) rfl rfl (by simp) (List.Subset.refl _) false
  | quit early =>
    refine inv.plain ?_ rfl rfl (by simp) (List.Subset.refl _) true
    obtain at_r | at_r | at_r := early <;> rw [at_r] <;> exact id
  | openChannel begun => exact inv.openChannel begun
  | discard declared failed =>
    exact inv.plain (by rw [declared]; exact id) rfl rfl (by simp) (List.subset_cons_self _ _)
      failed
  | install declared live first => exact inv.install declared live first
  | replace declared live before => exact inv.replace declared live before
  | signalOld swapped => exact inv.signalOld swapped
  | closeOld draining => exact inv.closeOld draining
  | readChannel starting read => exact inv.readChannel starting read
  | consume consuming _ => exact inv.consume consuming
  | keep consumed wanted _ same => exact inv.keep consumed wanted same
  | refuse consumed => exact inv.refuse consumed
  | cancelNew cancelling => exact inv.cancelNew cancelling

end Inv

end Accounting

section StopChannels

def Restore.oldStop : Restore → Option Nat
  | .swapped _ _ stop _ => stop
  | _ => none

def Teardown.stop : Teardown → Option Nat
  | .signalling _ stop => stop
  | _ => Option.none

/-- The stop channel that a restore or a close would take: none does once the consumer is closed. -/
def State.takenStop (s : State) : Option Nat :=
  if s.closed then none else s.loopStop

/-- How often a stop channel was closed or is about to be. -/
def uses (s : State) (id : Nat) : Nat :=
  s.signalled.count id + s.takenStop.toList.count id + s.restore.oldStop.toList.count id +
    s.teardown.stop.toList.count id

/-- Every stop channel is in one hand. -/
def OneHand (s : State) : Prop :=
  ∀ id, uses s id ≤ if id < s.loops then 1 else 0

variable {s t : State}

theorem oldStop_installed {ch : Nat} {consuming : Bool} :
    (Restore.installed ch consuming).oldStop = none := by
  cases consuming <;> rfl

theorem OneHand.of_uses_le (one : OneHand s) (same : t.loops = s.loops)
    (le : ∀ id, uses t id ≤ uses s id) : OneHand t := by
  intro id
  rw [same]
  exact Nat.le_trans (le id) (one id)

/-- A new loop has a new stop channel. -/
theorem OneHand.loop (one : OneHand s) (next : t.loops = s.loops + 1)
    (le : ∀ id, uses t id ≤ uses s id + [s.loops].count id) : OneHand t := by
  intro id
  have before := one id
  have after := le id
  rw [List.count_singleton] at after
  rw [next]
  by_cases new : s.loops = id
  · subst new
    simp at before after ⊢
    omega
  · simp [new] at after
    split at before <;> split <;> omega

/-- What does not close a stop channel leaves each in the hand it is in, or drops it. -/
theorem OneHand.restoring (one : OneHand s) {next : Restore} (drops : next.oldStop = none) :
    OneHand { s with restore := next } := by
  refine one.of_uses_le rfl fun id => ?_
  simp [uses, State.takenStop, drops]

theorem OneHand.step (one : OneHand s) (h : Steps s t) : OneHand t := by
  cases h with
  | same => exact one
  | start => exact one
  | startEnds ok => exact one
  | stop closing => exact one
  | cancelTaken at_i => exact one
  | lockAgain closed => exact one
  | lock live =>
    refine one.of_uses_le rfl fun id => ?_
    simp [uses, State.takenStop, Teardown.stop, live]
    omega
  | signalStop at_stop =>
    refine one.of_uses_le rfl fun id => ?_
    simp [uses, State.takenStop, Teardown.stop, at_stop]
    omega
  | closeChannel at_close =>
    refine one.of_uses_le rfl fun id => ?_
    simp [uses, State.takenStop, Teardown.stop, at_close]
  | lost chs => exact one
  | skip => exact one
  | restore idle => exact one.restoring rfl
  | quit early => exact one.restoring rfl
  | openChannel begun => exact one.restoring rfl
  | discard declared failed => exact one.restoring rfl
  | install declared live first =>
    refine one.of_uses_le rfl fun id => ?_
    simp [uses, State.takenStop, oldStop_installed]
    omega
  | replace declared live before =>
    refine one.of_uses_le rfl fun id => ?_
    simp [uses, State.takenStop, Restore.oldStop, declared, live]
  | signalOld swapped =>
    refine one.of_uses_le rfl fun id => ?_
    simp [uses, State.takenStop, Restore.oldStop, swapped]
    omega
  | closeOld draining => exact one.restoring oldStop_installed
  | readChannel starting read => exact one.restoring rfl
  | consume consuming up => exact one.restoring rfl
  | keep consumed wanted live same =>
    refine one.loop rfl fun id => ?_
    simp [uses, State.takenStop, Restore.oldStop, live]
    omega
  | refuse consumed =>
    refine one.loop rfl fun id => ?_
    cases closed : s.closed <;> simp [uses, State.takenStop, Restore.oldStop, closed] <;> omega
  | cancelNew cancelling => exact one.restoring rfl

theorem OneHand.nodup (one : OneHand s) : s.signalled.Nodup := by
  rw [List.nodup_iff_count_le_one]
  intro id
  have := one id
  unfold uses at this
  split at this <;> omega

end StopChannels

section Stopping

/-- No restore, `startConsuming`, `stopConsuming` or `close` is under way. -/
def State.Quiet (s : State) : Prop :=
  s.restore = .idle ∧ s.stops = [] ∧ s.lockers = 0 ∧ (s.teardown = .none ∨ s.teardown = .done)

instance (s : State) : Decidable s.Quiet :=
  inferInstanceAs (Decidable (_ ∧ _ ∧ _ ∧ _))

/-- The broker's consumers are all cancelled, or went with their channels. -/
def State.Released (s : State) : Prop :=
  ∀ r ∈ s.registered, r ∈ s.cancelled ∨ r.1 ∈ s.down

instance (s : State) : Decidable s.Released :=
  List.decidableBAll _ _

theorem inv_of_reachable {s : State} (h : channels.Reachable s) : Inv s ∧ OneHand s :=
  h.invariant (fun s => Inv s ∧ OneHand s)
    (fun _ start => start ▸ ⟨Inv.init, fun _ => Nat.zero_le _⟩)
    fun _ _ _ _ inv next => ⟨inv.1.step (step_cases next), inv.2.step (step_cases next)⟩

/-- **Stopping a consumer is final.** In every state that any interleaving of starts, restores,
recoveries, stops, closes and losses reaches: if a stop or a close has been through its critical
section, no start has begun since, and none of them is under way, then every consumer that the
broker was ever given is cancelled or went with its channel. After a close the consumer has no
channel, and no loop's stop channel was closed twice. -/
theorem stop_final {s : State} (h : channels.Reachable s) :
    (s.stopped = true → s.Quiet → s.Released) ∧ (0 < s.closes → s.ch = none) ∧
      s.signalled.Nodup := by
  obtain ⟨inv, one⟩ := inv_of_reachable h
  refine ⟨?_, fun returned => inv.closed (inv.returned returned), one.nodup⟩
  rintro stopped ⟨idle, none_stopping, -, ended⟩ r mem
  obtain gone | down | ⟨-, tag⟩ | ⟨p, taken, -⟩ | held | closing := inv.accounted mem
  · exact .inl gone
  · exact .inr down
  · cases (inv.stopped stopped).2.symm.trans tag
  · rw [none_stopping] at taken
    cases taken
  · rw [idle] at held
    exact held.elim
  · obtain at_end | at_end := ended <;> rw [at_end] at closing <;> cases closing

/-- A start, up to the answer of the broker that it has the consumer. -/
def registering : List Act := [.start, .restore, .openChannel, .swap, .readChannel, .consume]

/-- The stop comes after the broker registered the consumer and before its tag was recorded, and a
close follows. -/
theorem stop_final_registering : ∃ s, channels.Reachable s ∧ s.stopped = true ∧ s.Quiet ∧
    s.registered = [(0, 0)] ∧ 0 < s.closes ∧ s.Released ∧ s.ch = none ∧ s.signalled = [0] ∧
      s.signalled.Nodup := by
  have run : (channels.run (registering ++ [.stop false, .cancelTaken 0, .record, .cancelNew,
      .stop true, .cancelTaken 0, .lock, .signalStop, .closeChannel]) {}).map (fun s =>
        decide (s.stopped = true ∧ s.Quiet ∧ s.registered = [(0, 0)] ∧ 0 < s.closes ∧
          s.signalled = [0])) = some true := by
    decide +kernel
  obtain ⟨s, run, holds⟩ := Option.map_eq_some_iff.mp run
  obtain ⟨stopped, quiet, registered, returned, signalled⟩ := of_decide_eq_true holds
  have reach := System.Reachable.run (.init rfl) run
  obtain ⟨released, no_channel, once⟩ := stop_final reach
  exact ⟨s, reach, stopped, quiet, registered, returned, released stopped quiet,
    no_channel returned, signalled, once⟩

/-- Of two stops at once the second finds no tag and returns, while the first has still to send the
cancel. -/
theorem second_stop_returns_early : ∃ s, channels.Reachable s ∧ s.completed = true ∧
    s.starts = 0 ∧ s.restore = .idle ∧ ¬ s.Released := by
  have run : (channels.run (registering ++ [.record, .startEnds true, .stop false, .stop false,
      .cancelTaken 1]) {}).map (fun s =>
        decide (s.completed = true ∧ s.starts = 0 ∧ s.restore = .idle ∧ ¬ s.Released)) =
      some true := by
    decide +kernel
  obtain ⟨s, run, holds⟩ := Option.map_eq_some_iff.mp run
  exact ⟨s, System.Reachable.run (.init rfl) run, of_decide_eq_true holds⟩

end Stopping

end Protobus.Consumer.Channel
