import Protobus.Consumer.Channel
import Protobus.Topic.Match

/-!
# The bindings of a listener

Subscriptions, starts, rebuilt channels and reconnections of one event listener, at once. `add`
records its pattern under the listener's lock and binds it later, under the session's restore lock;
a restore has the restore lock throughout, reads the patterns once it has declared its queue, binds
them, and installs the channel after that. The consumer's own fields are those of
`Consumer.Channel`, whose steps are taken here. A broker operation fails only on a channel that is
closed.
-/
namespace Protobus.Lifecycle.Bindings
open Library

structure Config where
  lazy : Bool
  /-- The queue is private: every declaration makes another. -/
  anonymous : Bool

/-- Where the one `Start` is that found the listener not started. -/
inductive Start
  | idle
  | called
  /-- `attach` waits for the session. -/
  | waiting
  /-- `attachOnce` has the restore lock. -/
  | attaching
deriving DecidableEq

/-- The `bind` that has the restore lock. -/
inductive Bind
  | none
  | locked (pattern : Bytes)
  | reading (ch queue : Nat) (pattern : Bytes)
deriving DecidableEq

structure State where
  chan : Consumer.Channel.State := {}
  /-- `c.queue`, by number. -/
  queue : Nat := 0
  patterns : List Bytes := []
  started : Bool := false
  start : Start := .idle
  /-- The session restores the consumer. -/
  enrolled : Bool := false
  /-- The adds that are to call `Start`, and the patterns of those that are to bind. -/
  starters : Nat := 0
  binders : List Bytes := []
  bind : Bind := .none
  /-- The queue that the restore declared, and the keys that it has still to bind. -/
  declared : Option Nat := none
  keys : Option (List Bytes) := none
  queues : Nat := 0
  /-- The bindings at the broker. -/
  bound : List (Nat × Bytes) := []
  subscribed : List Bytes := []
deriving DecidableEq

inductive Act
  /-- The part of `add` under the listener's lock. -/
  | add (pattern : Bytes)
  | addStarts
  | start
  | consumerStart
  | startFails
  | attach
  | attachEnds (retry : Bool)
  | reconnect
  | recover (dead : Nat)
  | openFails
  | openChannel
  | declareQueue
  | readBindings
  | bindKey
  | declareFails
  | swap
  /-- A step of the consumer that has nothing to do with its bindings. -/
  | consumer (a : Consumer.Channel.Act)
  | consumeFails
  | connectionLost (forgets : Bool)
  | bindLock (i : Nat)
  | bindRead
  | bindQueue
  | bindFails
deriving DecidableEq

/-- The steps of a restore after the channel is installed, and the loss of a channel. -/
def later : Consumer.Channel.Act → Bool
  | .signalOld => true
  | .closeOld => true
  | .readChannel => true
  | .consume => true
  | .record => true
  | .cancelNew => true
  | .channelLost _ => true
  | _ => false

namespace State
variable (s : State)

/-- Nobody has the restore lock. -/
def lockFree : Bool :=
  s.chan.restore = .idle && s.bind = .none && s.start ≠ .attaching

/-- A step of the consumer. -/
def consumer (a : Consumer.Channel.Act) : Option State :=
  (s.chan.step a).map fun c => { s with chan := c }

/-- `Start`, up to the call of the consumer's `start`. -/
def callStart : State :=
  if s.started then s else { s with started := true, start := .called }

def startFailed (c : Consumer.Channel.State) : State :=
  { s with chan := c, started := false, start := .idle }

/-- The steps that begin and end a start. -/
def startStep : Act → Option State
  | .start => some s.callStart
  | .addStarts =>
    if s.starters = 0 then none else some { s.callStart with starters := s.starters - 1 }
  | .consumerStart => match s.start with
    | .called => (s.chan.step .start).map fun c =>
        if s.chan.closed then s.startFailed c else { s with chan := c, start := .waiting }
    | _ => none
  | .startFails => match s.start with
    | .waiting => (s.chan.step (.startEnds false)).map s.startFailed
    | _ => none
  | .attach => match s.start with
    | .waiting =>
      if s.lockFree then
        (s.chan.step .restore).map fun c => { s with chan := c, start := .attaching }
      else none
    | _ => none
  | .attachEnds retry => match s.start, s.chan.restore with
    | .attaching, .idle =>
      if s.chan.failed then
        if retry then some { s with start := .waiting }
        else (s.chan.step (.startEnds false)).map s.startFailed
      else (s.chan.step (.startEnds true)).map fun c =>
        { s with chan := c, start := .idle, enrolled := true }
    | _, _ => none
  | _ => none

/-- The steps of a restore. -/
def restoreStep (cfg : Config) : Act → Option State
  | .reconnect => if s.enrolled && s.lockFree then s.consumer .restore else none
  -- a loop runs only after a restore that succeeded
  | .recover dead => if s.enrolled && s.lockFree then s.consumer (.recover dead) else none
  | .openFails => s.consumer .openFails
  | .openChannel =>
    (s.chan.step .openChannel).map fun c => { s with chan := c, declared := none, keys := none }
  | .declareQueue => match s.chan.restore, s.declared, s.keys with
    | .declaring _, none, none => some { s with
        declared := some (if cfg.anonymous then s.queues else 0)
        queues := s.queues + 1 }
    | _, _, _ => none
  | .readBindings => match s.chan.restore, s.declared, s.keys with
    | .declaring _, some _, none => some { s with keys := some s.patterns }
    | _, _, _ => none
  | .bindKey => match s.chan.restore, s.declared, s.keys with
    | .declaring ch, some queue, some (key :: rest) =>
      if ch ∈ s.chan.down then none
      else some { s with bound := (queue, key) :: s.bound, keys := some rest }
    | _, _, _ => none
  | .declareFails => s.consumer .declareFails
  | .swap => match s.declared, s.keys with
    | some queue, some [] => (s.chan.step .swap).map fun c =>
        { s with chan := c, queue := if s.chan.closed then s.queue else queue }
    | _, _ => none
  | .consumer a => if later a then s.consumer a else none
  | .consumeFails => match s.chan.restore with
    | .consuming ch => if ch ∈ s.chan.down then s.consumer .consumeFails else none
    | _ => none
  -- the broker reached next need not have the queue
  | .connectionLost forgets => (s.chan.step .connectionLost).map fun c =>
      { s with chan := c, bound := if forgets then [] else s.bound }
  | _ => none

/-- The steps of an `add`. -/
def addStep (cfg : Config) : Act → Option State
  | .add pattern =>
    let fresh := !s.patterns.contains pattern
    let startNow := cfg.lazy && !s.started
    some { s with
      subscribed := pattern :: s.subscribed
      patterns := if fresh then s.patterns ++ [pattern] else s.patterns
      starters := if startNow then s.starters + 1 else s.starters
      binders := if !startNow && (fresh && s.started) then s.binders ++ [pattern] else s.binders }
  | .bindLock i => match s.binders[i]? with
    | some pattern =>
      if s.lockFree then some { s with binders := s.binders.eraseIdx i, bind := .locked pattern }
      else none
    | none => none
  | .bindRead => match s.bind with
    | .locked pattern => match s.chan.ch with
      | none => some { s with bind := .none }
      | some ch =>
        if ch ∈ s.chan.down then some { s with bind := .none }
        else some { s with bind := .reading ch s.queue pattern }
    | _ => none
  | .bindQueue => match s.bind with
    | .reading ch queue pattern =>
      if ch ∈ s.chan.down then none
      else some { s with bound := (queue, pattern) :: s.bound, bind := .none }
    | _ => none
  | .bindFails => match s.bind with
    | .reading ch _ _ => if ch ∈ s.chan.down then some { s with bind := .none } else none
    | _ => none
  | _ => none

def step (cfg : Config) (a : Act) : Option State :=
  (s.startStep a).or ((s.restoreStep cfg a).or (s.addStep cfg a))

end State

def bindings (cfg : Config) : System State Act where
  init s := s = {}
  step s a := s.step cfg a

section Consumer
open Consumer.Channel (Restore)

variable {c d : Consumer.Channel.State} {a : Consumer.Channel.Act}

/-- The restore has not installed its channel. -/
def Early (r : Restore) : Prop := r = .begun ∨ ∃ ch, r = .declaring ch

theorem not_early_installed {ch : Nat} {consuming : Bool} :
    ¬ Early (.installed ch consuming) := by
  cases consuming <;> simp [Early, Restore.installed]

/-- The consumer has the same channel and its restore is where it was. -/
structure Unmoved (c d : Consumer.Channel.State) : Prop where
  ch : d.ch = c.ch
  down : d.down = c.down
  restore : d.restore = c.restore
  failed : d.failed = c.failed

theorem unmoved_start (h : c.step .start = some d) : Unmoved c d := by
  cases h
  split <;> exact ⟨rfl, rfl, rfl, rfl⟩

theorem unmoved_startEnds {ok : Bool} (h : c.step (.startEnds ok) = some d) : Unmoved c d := by
  simp only [Consumer.Channel.State.step, Option.ite_none_left_eq_some] at h
  cases h.2
  exact ⟨rfl, rfl, rfl, rfl⟩

/-- A restore begins, or there is nothing to restore. -/
structure Begins (c d : Consumer.Channel.State) : Prop where
  ch : d.ch = c.ch
  down : d.down = c.down
  begun : d.restore = .begun ∨ d.restore = .idle
  failed : d.restore = .begun → d.failed = false

theorem begins_restore (h : c.step .restore = some d) : Begins c d := by
  simp only [Consumer.Channel.State.step, Consumer.Channel.State.restoreStep] at h
  split at h <;> cases h
  split
  · exact ⟨rfl, rfl, .inr ‹_›, fun _ => rfl⟩
  · exact ⟨rfl, rfl, .inl rfl, fun _ => rfl⟩

theorem begins_recover {dead : Nat} (h : c.step (.recover dead) = some d) : Begins c d := by
  simp only [Consumer.Channel.State.step, Consumer.Channel.State.restoreStep] at h
  split at h
  · next idle =>
    split at h <;> cases h
    · exact ⟨rfl, rfl, .inr idle, fun begun => by cases idle.symm.trans begun⟩
    · exact ⟨rfl, rfl, .inl rfl, fun _ => rfl⟩
  · cases h

/-- What the later steps of a restore do: an error among them leaves no channel. -/
theorem later_step (passes : later a = true) (h : c.step a = some d) :
    d.ch = c.ch ∧ c.down ⊆ d.down ∧
      (d.restore = c.restore ∧ d.failed = c.failed ∨
        c.restore ≠ .idle ∧ ¬ Early d.restore ∧
          (d.failed = c.failed ∨ d.ch = none ∧ d.restore = .idle)) := by
  cases a <;> simp only [later, Bool.false_eq_true] at passes <;>
    simp only [Consumer.Channel.State.step, Consumer.Channel.State.restoreStep] at h
  case signalOld =>
    split at h <;> cases h
    exact ⟨rfl, List.Subset.refl _, .inr ⟨by simp [*], by simp [Early], .inl rfl⟩⟩
  case closeOld =>
    split at h <;> cases h
    exact ⟨rfl, List.subset_cons_self _ _, .inr ⟨by simp [*], not_early_installed, .inl rfl⟩⟩
  case readChannel =>
    split at h
    · split at h <;> cases h
      · exact ⟨rfl, List.Subset.refl _, .inr ⟨by simp [*], by simp [Early], .inr ⟨‹_›, rfl⟩⟩⟩
      · exact ⟨rfl, List.Subset.refl _, .inr ⟨by simp [*], by simp [Early], .inl rfl⟩⟩
    · cases h
  case consume =>
    split at h
    · split at h <;> cases h
      exact ⟨rfl, List.Subset.refl _, .inr ⟨by simp [*], by simp [Early], .inl rfl⟩⟩
    · cases h
  case record =>
    split at h
    · split at h <;> cases h <;>
        exact ⟨rfl, List.Subset.refl _, .inr ⟨by simp [*], by simp [Early], .inl rfl⟩⟩
    · cases h
  case cancelNew =>
    split at h <;> cases h
    exact ⟨rfl, List.Subset.refl _, .inr ⟨by simp [*], by simp [Early], .inl rfl⟩⟩
  case channelLost ch =>
    cases h
    exact ⟨rfl, List.subset_cons_self _ _, .inl ⟨rfl, rfl⟩⟩

end Consumer

section Invariant

/-- The listener has a channel that is open. -/
def Live (s : State) : Prop := ∃ ch, s.chan.ch = some ch ∧ ch ∉ s.chan.down

/-- An `add` has still to bind the pattern. -/
def Pending (s : State) (p : Bytes) : Prop :=
  p ∈ s.binders ∨ s.bind = .locked p ∨ ∃ ch queue, s.bind = .reading ch queue p

/-- No restore that the start ran has come to a channel. -/
def Unfounded (s : State) : Prop :=
  s.start = .attaching → Early s.chan.restore ∨ s.chan.restore = .idle ∧ s.chan.failed = true

structure Inv (s : State) : Prop where
  chan : Consumer.Channel.Inv s.chan
  subscribed : s.subscribed ⊆ s.patterns
  begun : s.start ≠ .idle → s.started = true
  enrolled : s.enrolled = true → s.started = true ∧ s.start = .idle
  owner : s.chan.restore ≠ .idle → s.enrolled = true ∨ s.start = .attaching
  trying : s.chan.restore ≠ .idle → s.chan.failed = false
  lock : s.bind ≠ .none → s.chan.restore = .idle
  reading {ch queue : Nat} {p : Bytes} : s.bind = .reading ch queue p →
    queue = s.queue ∧ ∀ {x}, s.chan.ch = some x → x = ch
  /-- Until the listener is enrolled, a start that has no channel leaves none. -/
  dark : s.enrolled = false → Unfounded s → ¬ Live s
  covered : Live s → ∀ p ∈ s.patterns, (s.queue, p) ∈ s.bound ∨ Pending s p
  restoring {ch queue : Nat} {keys : List Bytes} : s.chan.restore = .declaring ch →
    ch ∉ s.chan.down → s.declared = some queue → s.keys = some keys →
      ∀ p ∈ s.patterns, p ∈ keys ∨ (queue, p) ∈ s.bound ∨ Pending s p

namespace Inv
variable {cfg : Config} {s t : State} {c : Consumer.Channel.State}

theorem init : Inv {} where
  chan := .init
  subscribed := List.Subset.refl _
  begun h := absurd rfl h
  enrolled h := by cases h
  owner h := absurd rfl h
  trying h := absurd rfl h
  lock h := absurd rfl h
  reading h := by cases h
  dark := by
    rintro - - ⟨ch, h, -⟩
    cases h
  covered _ p mem := by cases mem
  restoring h := by cases h

theorem alone (inv : Inv s) (busy : s.start ≠ .idle) : s.enrolled = false := by
  rw [Bool.eq_false_iff]
  exact fun enrolled => busy (inv.enrolled enrolled).2

theorem quiet (inv : Inv s) (alone : s.enrolled = false) (other : s.start ≠ .attaching) :
    s.chan.restore = .idle := by
  by_contra busy
  obtain enrolled | attaching := inv.owner busy
  · simp [alone] at enrolled
  · exact other attaching

theorem dark_of_ne (inv : Inv s) (alone : s.enrolled = false) (other : s.start ≠ .attaching) :
    ¬ Live s :=
  inv.dark alone fun attaching => absurd attaching other

theorem of_not_started (inv : Inv s) (stopped : s.started ≠ true) :
    s.start = .idle ∧ s.enrolled = false := by
  constructor
  · by_contra busy
    exact stopped (inv.begun busy)
  · rw [Bool.eq_false_iff]
    exact fun enrolled => stopped (inv.enrolled enrolled).1

theorem started_of_live (inv : Inv s) (live : Live s) : s.started = true := by
  by_contra stopped
  obtain ⟨idle, alone⟩ := inv.of_not_started stopped
  exact inv.dark_of_ne alone (by simp [idle]) live

theorem started_of_restore (inv : Inv s) (busy : s.chan.restore ≠ .idle) : s.started = true := by
  obtain enrolled | attaching := inv.owner busy
  · exact (inv.enrolled enrolled).1
  · exact inv.begun (by simp [attaching])

/-- The consumer keeps its channel, and what a restore has still to do does not grow. -/
theorem consumer (inv : Inv s) {a : Consumer.Channel.Act} (h : s.chan.step a = some c)
    (ch : c.ch = s.chan.ch) (down : s.chan.down ⊆ c.down)
    (busy : c.restore ≠ .idle → s.chan.restore ≠ .idle)
    (trying : c.restore ≠ .idle → c.failed = s.chan.failed)
    (early : ∀ {ch}, c.restore = .declaring ch → s.chan.restore = .declaring ch)
    (dark : s.enrolled = false → Unfounded { s with chan := c } → ¬ Live { s with chan := c }) :
    Inv { s with chan := c } where
  __ := inv
  chan := inv.chan.step (Consumer.Channel.step_cases h)
  owner now := inv.owner (busy now)
  trying now := (trying now).trans (inv.trying (busy now))
  lock held := by
    by_contra now
    exact busy now (inv.lock held)
  reading held := ⟨(inv.reading held).1, fun at_ch => (inv.reading held).2 (ch ▸ at_ch)⟩
  dark := dark
  covered := by
    rintro ⟨x, at_ch, up⟩
    exact inv.covered ⟨x, ch ▸ at_ch, fun gone => up (down gone)⟩
  restoring now up := inv.restoring (early now) fun gone => up (down gone)

theorem unmoved (inv : Inv s) {a : Consumer.Channel.Act} (h : s.chan.step a = some c)
    (un : Unmoved s.chan c) : Inv { s with chan := c } := by
  refine inv.consumer h un.ch (by rw [un.down]; exact List.Subset.refl _)
    (by rw [un.restore]; exact id) (fun _ => un.failed) (by rw [un.restore]; exact id) ?_
  rintro alone none ⟨ch, at_ch, up⟩
  refine inv.dark alone ?_ ⟨ch, un.ch ▸ at_ch, un.down ▸ up⟩
  intro attaching
  have := none attaching
  simp only [un.restore, un.failed] at this
  exact this

/-! ### Starts -/

theorem callStart (inv : Inv s) : Inv s.callStart := by
  unfold State.callStart
  split
  · exact inv
  · next stopped =>
    obtain ⟨idle, alone⟩ := inv.of_not_started stopped
    have other : s.start ≠ .attaching := by simp [idle]
    exact { inv with
      begun := fun _ => rfl
      enrolled := fun enrolled => by simp [alone] at enrolled
      owner := fun busy => absurd (inv.quiet alone other) busy
      dark := fun _ _ => inv.dark_of_ne alone other }

/-- A start that fails had no channel. -/
theorem startFailed (inv : Inv s) (alone : s.enrolled = false) (quiet : s.chan.restore = .idle)
    (dark : ¬ Live s) : Inv { s with started := false, start := .idle } where
  __ := inv
  begun h := absurd rfl h
  enrolled enrolled := by simp [alone] at enrolled
  owner busy := absurd quiet busy
  dark _ _ := dark

theorem startFails (inv : Inv s) (at_start : s.start ≠ .idle) (other : s.start ≠ .attaching)
    {a : Consumer.Channel.Act} (h : s.chan.step a = some c) (un : Unmoved s.chan c) :
    Inv (s.startFailed c) := by
  have alone := inv.alone at_start
  have moved := inv.unmoved h un
  exact moved.startFailed alone (moved.quiet alone other) (moved.dark_of_ne alone other)

theorem waiting (inv : Inv s) (at_start : s.start ≠ .idle) (quiet : s.chan.restore = .idle)
    (dark : ¬ Live s) : Inv { s with start := .waiting } where
  __ := inv
  begun _ := inv.begun at_start
  enrolled enrolled := by simp [inv.alone at_start] at enrolled
  owner busy := absurd quiet busy
  dark _ _ := dark

/-- A restore begins, with the restore lock. -/
theorem begins (inv : Inv s) {a : Consumer.Channel.Act} (h : s.chan.step a = some c)
    (new : Begins s.chan c) (free : s.lockFree = true) {start : Start}
    (begun : start ≠ .idle → s.started = true) (enrolled : s.enrolled = true → start = .idle)
    (owner : s.enrolled = true ∨ start = .attaching) (dark : s.enrolled = false → ¬ Live s) :
    Inv { s with chan := c, start := start } := by
  have unlocked : s.bind = .none := by
    simp only [State.lockFree, Bool.and_eq_true, decide_eq_true_eq] at free
    exact free.1.2
  have same : Live { s with chan := c, start := start } → Live s := by
    rintro ⟨ch, at_ch, up⟩
    exact ⟨ch, new.ch ▸ at_ch, new.down ▸ up⟩
  exact { inv with
    chan := inv.chan.step (Consumer.Channel.step_cases h)
    begun := begun
    enrolled := fun now => ⟨(inv.enrolled now).1, enrolled now⟩
    owner := fun _ => owner
    trying := fun busy => new.failed (new.begun.resolve_right busy)
    lock := fun held => absurd unlocked held
    reading := fun held => by cases unlocked.symm.trans held
    dark := fun alone _ live => dark alone (same live)
    covered := fun live => inv.covered (same live)
    restoring := by
      intro ch queue keys declaring
      obtain at_r | at_r := new.begun <;> cases at_r.symm.trans declaring }

/-- An attach whose restore failed leaves no open channel. -/
theorem dark_of_failed (inv : Inv s) (attaching : s.start = .attaching)
    (quiet : s.chan.restore = .idle) (failed : s.chan.failed = true) : ¬ Live s :=
  inv.dark (inv.alone (by simp [attaching])) fun _ => .inr ⟨quiet, failed⟩

theorem attachFails (inv : Inv s) (attaching : s.start = .attaching)
    (quiet : s.chan.restore = .idle) (failed : s.chan.failed = true)
    (h : s.chan.step (.startEnds false) = some c) : Inv (s.startFailed c) := by
  have un := unmoved_startEnds h
  have moved := inv.unmoved h un
  have still : c.restore = .idle := un.restore.trans quiet
  exact moved.startFailed (inv.alone (by simp [attaching])) still
    (moved.dark_of_failed attaching still (un.failed.trans failed))

theorem attached (inv : Inv s) (attaching : s.start = .attaching)
    (h : s.chan.step (.startEnds true) = some c) :
    Inv { s with chan := c, start := .idle, enrolled := true } where
  __ := inv.unmoved h (unmoved_startEnds h)
  begun h := absurd rfl h
  enrolled _ := ⟨inv.begun (by simp [attaching]), rfl⟩
  owner _ := .inl rfl
  dark h := by cases h

theorem startStep {a : Act} (inv : Inv s) (h : s.startStep a = some t) : Inv t := by
  cases a <;> simp only [State.startStep, reduceCtorEq] at h
  case start =>
    cases h
    exact inv.callStart
  case addStarts =>
    simp only [Option.ite_none_left_eq_some] at h
    cases h.2
    exact { inv.callStart with }
  case consumerStart =>
    split at h
    · next called =>
      obtain ⟨c, moves, rfl⟩ := Option.map_eq_some_iff.mp h
      have un := unmoved_start moves
      have at_start : s.start ≠ .idle := by simp [called]
      have other : s.start ≠ .attaching := by simp [called]
      split
      · exact inv.startFails at_start other moves un
      · have moved := inv.unmoved moves un
        have alone := inv.alone at_start
        exact moved.waiting at_start (moved.quiet alone other) (moved.dark_of_ne alone other)
    · cases h
  case startFails =>
    split at h
    · next waits =>
      obtain ⟨c, moves, rfl⟩ := Option.map_eq_some_iff.mp h
      exact inv.startFails (by simp [waits]) (by simp [waits]) moves (unmoved_startEnds moves)
    · cases h
  case attach =>
    split at h
    · next waits =>
      split at h
      · next free =>
        obtain ⟨c, moves, rfl⟩ := Option.map_eq_some_iff.mp h
        have at_start : s.start ≠ .idle := by simp [waits]
        have alone := inv.alone at_start
        exact inv.begins moves (begins_restore moves) free (fun _ => inv.begun at_start)
          (fun enrolled => by simp [alone] at enrolled) (.inr rfl)
          fun _ => inv.dark_of_ne alone (by simp [waits])
      · cases h
    · cases h
  case attachEnds retry =>
    split at h
    · next attaching quiet =>
      split at h
      · next failed =>
        split at h
        · cases h
          have at_start : s.start ≠ .idle := by simp [attaching]
          exact inv.waiting at_start quiet (inv.dark_of_failed attaching quiet failed)
        · obtain ⟨c, moves, rfl⟩ := Option.map_eq_some_iff.mp h
          exact inv.attachFails attaching quiet failed moves
      · obtain ⟨c, moves, rfl⟩ := Option.map_eq_some_iff.mp h
        exact inv.attached attaching moves
    · cases h

/-! ### Restores -/

theorem later (inv : Inv s) {a : Consumer.Channel.Act} (passes : Bindings.later a = true)
    (h : s.chan.step a = some c) : Inv { s with chan := c } := by
  obtain ⟨ch, down, ⟨restore, failed⟩ | ⟨busy, late, failed⟩⟩ := later_step passes h
  · refine inv.consumer h ch down (by rw [restore]; exact id) (fun _ => failed)
      (by rw [restore]; exact id) ?_
    rintro alone none ⟨x, at_ch, up⟩
    refine inv.dark alone ?_ ⟨x, ch ▸ at_ch, fun gone => up (down gone)⟩
    intro attaching
    have := none attaching
    simp only [restore, failed] at this
    exact this
  · refine inv.consumer h ch down (fun _ => busy) (fun now => ?_) (fun declaring => ?_) ?_
    · exact failed.resolve_right fun left => now left.2
    · exact absurd (.inr ⟨_, declaring⟩) late
    · rintro alone none ⟨x, at_ch, -⟩
      have attaching := (inv.owner busy).resolve_left (by simp [alone])
      obtain ⟨-, error⟩ := (none attaching).resolve_left late
      obtain same | ⟨no_channel, -⟩ := failed
      · simp [same.trans (inv.trying busy)] at error
      · cases no_channel.symm.trans at_ch

theorem openFails (inv : Inv s) (h : s.chan.step .openFails = some c) :
    Inv { s with chan := c } := by
  have moves := h
  simp only [Consumer.Channel.State.step, Consumer.Channel.State.restoreStep] at h
  split at h <;> cases h
  refine inv.consumer moves rfl (List.Subset.refl _) (absurd rfl) (absurd rfl) (by simp) ?_
  intro alone _
  exact inv.dark alone fun _ => .inl (.inl ‹_›)

theorem declareFails (inv : Inv s) (h : s.chan.step .declareFails = some c) :
    Inv { s with chan := c } := by
  have moves := h
  simp only [Consumer.Channel.State.step, Consumer.Channel.State.restoreStep] at h
  split at h <;> cases h
  next ch declared =>
  refine inv.consumer moves rfl (List.subset_cons_self _ _) (absurd rfl) (absurd rfl) (by simp) ?_
  rintro alone - ⟨x, at_ch, up⟩
  exact inv.dark alone (fun _ => .inl (.inr ⟨ch, declared⟩))
    ⟨x, at_ch, fun gone => up (List.mem_cons_of_mem _ gone)⟩

theorem consumeFails (inv : Inv s) {ch : Nat} (consuming : s.chan.restore = .consuming ch)
    (down : ch ∈ s.chan.down) (h : s.chan.step .consumeFails = some c) :
    Inv { s with chan := c } := by
  have moves := h
  simp only [Consumer.Channel.State.step, Consumer.Channel.State.restoreStep, consuming] at h
  cases h
  refine inv.consumer moves rfl (List.Subset.refl _) (absurd rfl) (absurd rfl) (by simp) ?_
  rintro - - ⟨x, at_ch, up⟩
  obtain rfl := inv.chan.inPlace (by rw [consuming]; rfl) at_ch
  exact up down

theorem openChannel (inv : Inv s) (h : s.chan.step .openChannel = some c) :
    Inv { s with chan := c, declared := none, keys := none } := by
  have chan := inv.chan.step (Consumer.Channel.step_cases h)
  simp only [Consumer.Channel.State.step, Consumer.Channel.State.restoreStep] at h
  split at h <;> cases h
  next begun =>
  have busy : s.chan.restore ≠ .idle := by simp [begun]
  exact { inv with
    chan := chan
    owner := fun _ => inv.owner busy
    trying := fun _ => inv.trying busy
    lock := fun held => absurd (inv.lock held) busy
    dark := fun alone _ => inv.dark alone fun _ => .inl (.inl begun)
    restoring := fun _ _ h => by cases h }

theorem bindKey (inv : Inv s) {queue : Nat} {key : Bytes} {rest : List Bytes}
    (declared : s.declared = some queue) (keys : s.keys = some (key :: rest)) :
    Inv { s with bound := (queue, key) :: s.bound, keys := some rest } where
  __ := inv
  covered live p mem := (inv.covered live p mem).imp_left (List.mem_cons_of_mem _)
  restoring declaring up at_queue at_keys p mem := by
    cases declared.symm.trans at_queue
    cases at_keys
    obtain left | bound | pending := inv.restoring declaring up declared keys p mem
    · obtain rfl | left := List.mem_cons.mp left
      · exact .inr (.inl List.mem_cons_self)
      · exact .inl left
    · exact .inr (.inl (List.mem_cons_of_mem _ bound))
    · exact .inr (.inr pending)

/-- The new channel's queue is bound to all the patterns, but for those whose bind waits for the
lock. -/
theorem installed (inv : Inv s) {ch queue : Nat} (declaring : s.chan.restore = .declaring ch)
    (declared : s.declared = some queue) (keys : s.keys = some [])
    (chan : Consumer.Channel.Inv c) (at_ch : c.ch = some ch) (down : c.down = s.chan.down)
    (failed : c.failed = s.chan.failed) (late : ¬ Early c.restore) :
    Inv { s with chan := c, queue := queue } := by
  have busy : s.chan.restore ≠ .idle := by simp [declaring]
  exact { inv with
    chan := chan
    owner := fun _ => inv.owner busy
    trying := fun _ => failed.trans (inv.trying busy)
    lock := fun held => absurd (inv.lock held) busy
    reading := fun held => absurd (inv.lock fun free => by cases free.symm.trans held) busy
    dark := by
      intro alone none
      have attaching := (inv.owner busy).resolve_left (Bool.eq_false_iff.mp alone)
      obtain ⟨-, error⟩ := (none attaching).resolve_left late
      simp [failed.trans (inv.trying busy)] at error
    covered := by
      rintro ⟨x, at_x, up⟩ p mem
      cases at_ch.symm.trans at_x
      rw [down] at up
      exact (inv.restoring declaring up declared keys p mem).resolve_left List.not_mem_nil
    restoring := fun now => absurd (.inr ⟨_, now⟩) late }

theorem swap (inv : Inv s) {queue : Nat} (declared : s.declared = some queue)
    (keys : s.keys = some []) (h : s.chan.step .swap = some c) :
    Inv { s with chan := c, queue := if s.chan.closed then s.queue else queue } := by
  have moves := h
  have chan := inv.chan.step (Consumer.Channel.step_cases h)
  simp only [Consumer.Channel.State.step, Consumer.Channel.State.restoreStep] at h
  split at h
  · next ch declaring =>
    split at h
    · next closed =>
      cases h
      rw [if_pos closed]
      refine inv.consumer moves rfl (List.subset_cons_self _ _) (absurd rfl) (absurd rfl)
        (by simp) ?_
      rintro - - ⟨x, at_x, -⟩
      cases (inv.chan.closed closed).symm.trans at_x
    · next live =>
      rw [if_neg live]
      split at h <;> cases h
      · exact inv.installed declaring declared keys chan rfl rfl rfl not_early_installed
      · exact inv.installed declaring declared keys chan rfl rfl rfl (by simp [Early])
  · cases h

theorem connectionLost (inv : Inv s) {bound : List (Nat × Bytes)}
    (h : s.chan.step .connectionLost = some c) : Inv { s with chan := c, bound := bound } := by
  have chan := inv.chan.step (Consumer.Channel.step_cases h)
  cases h
  have dark : ¬ Live { s with
      chan := { s.chan with down := List.range s.chan.opened ++ s.chan.down } } := by
    rintro ⟨ch, at_ch, up⟩
    exact up (List.mem_append_left _ (List.mem_range.mpr (inv.chan.below at_ch)))
  exact { inv with
    chan := chan
    dark := fun _ _ => dark
    covered := fun live => absurd live dark
    restoring := fun declaring up => by
      have opened := (inv.chan.unused (by rw [declaring]; rfl)).1
      exact absurd (List.mem_append_left _ (List.mem_range.mpr opened)) up }

theorem restoreStep {a : Act} (inv : Inv s) (h : s.restoreStep cfg a = some t) : Inv t := by
  cases a <;> simp only [State.restoreStep, State.consumer, reduceCtorEq] at h
  case reconnect =>
    simp only [Option.ite_none_right_eq_some, Bool.and_eq_true] at h
    obtain ⟨⟨enrolled, free⟩, h⟩ := h
    obtain ⟨c, moves, rfl⟩ := Option.map_eq_some_iff.mp h
    exact inv.begins moves (begins_restore moves) free inv.begun
      (fun _ => (inv.enrolled enrolled).2) (.inl enrolled) fun alone => by simp [alone] at enrolled
  case recover dead =>
    simp only [Option.ite_none_right_eq_some, Bool.and_eq_true] at h
    obtain ⟨⟨enrolled, free⟩, h⟩ := h
    obtain ⟨c, moves, rfl⟩ := Option.map_eq_some_iff.mp h
    exact inv.begins moves (begins_recover moves) free inv.begun
      (fun _ => (inv.enrolled enrolled).2) (.inl enrolled) fun alone => by simp [alone] at enrolled
  case openFails =>
    obtain ⟨c, moves, rfl⟩ := Option.map_eq_some_iff.mp h
    exact inv.openFails moves
  case openChannel =>
    obtain ⟨c, moves, rfl⟩ := Option.map_eq_some_iff.mp h
    exact inv.openChannel moves
  case declareQueue =>
    split at h <;> cases h
    next unread => exact { inv with restoring := fun _ _ _ keys => by cases unread.symm.trans keys }
  case readBindings =>
    split at h <;> cases h
    exact { inv with restoring := fun _ _ _ keys p mem => .inl (by cases keys; exact mem) }
  case bindKey =>
    split at h
    · split at h <;> cases h
      exact inv.bindKey ‹_› ‹_›
    · cases h
  case declareFails =>
    obtain ⟨c, moves, rfl⟩ := Option.map_eq_some_iff.mp h
    exact inv.declareFails moves
  case swap =>
    split at h
    · obtain ⟨c, moves, rfl⟩ := Option.map_eq_some_iff.mp h
      exact inv.swap ‹_› ‹_› moves
    · cases h
  case consumer a =>
    simp only [Option.ite_none_right_eq_some] at h
    obtain ⟨passes, h⟩ := h
    obtain ⟨c, moves, rfl⟩ := Option.map_eq_some_iff.mp h
    exact inv.later passes moves
  case consumeFails =>
    split at h
    · next ch consuming =>
      simp only [Option.ite_none_right_eq_some] at h
      obtain ⟨down, h⟩ := h
      obtain ⟨c, moves, rfl⟩ := Option.map_eq_some_iff.mp h
      exact inv.consumeFails consuming down moves
    · cases h
  case connectionLost forgets =>
    obtain ⟨c, moves, rfl⟩ := Option.map_eq_some_iff.mp h
    exact inv.connectionLost moves

/-! ### Adds -/

theorem add (inv : Inv s) {pattern : Bytes} {starters : Nat} {startNow : Bool}
    (waits : s.started = true → startNow = false) : Inv { s with
      subscribed := pattern :: s.subscribed
      patterns := if !s.patterns.contains pattern then s.patterns ++ [pattern] else s.patterns
      starters := starters
      binders := if !startNow && (!s.patterns.contains pattern && s.started) then
        s.binders ++ [pattern] else s.binders } := by
  cases known : s.patterns.contains pattern with
  | true =>
    have mem : pattern ∈ s.patterns := by simpa using known
    simp only [Bool.not_true, Bool.false_eq_true, if_false, Bool.false_and, Bool.and_false]
    exact { inv with subscribed := List.cons_subset.mpr ⟨mem, inv.subscribed⟩ }
  | false =>
    -- a channel that is open, or a restore, means that the listener is started
    have pending (on : s.started = true) : pattern ∈ (if !startNow && (!false && s.started) then
        s.binders ++ [pattern] else s.binders) := by
      simp [on, waits on]
    have more : s.binders ⊆ (if !startNow && (!false && s.started) then
        s.binders ++ [pattern] else s.binders) := by
      split
      · exact List.subset_append_left _ _
      · exact List.Subset.refl _
    simp only [Bool.not_false, if_true]
    exact { inv with
      subscribed := List.cons_subset.mpr
        ⟨by simp, fun p mem => List.mem_append_left _ (inv.subscribed mem)⟩
      covered := fun live p mem => by
        obtain mem | new := List.mem_append.mp mem
        · exact (inv.covered live p mem).imp_right fun h => h.imp_left (more ·)
        · obtain rfl := List.mem_singleton.mp new
          exact .inr (.inl (pending (inv.started_of_live live)))
      restoring := fun declaring up declared keys p mem => by
        obtain mem | new := List.mem_append.mp mem
        · exact (inv.restoring declaring up declared keys p mem).imp_right fun h =>
            h.imp_right fun h => h.imp_left (more ·)
        · obtain rfl := List.mem_singleton.mp new
          have busy : s.chan.restore ≠ .idle := fun idle => by cases idle.symm.trans declaring
          exact .inr (.inr (.inl (pending (inv.started_of_restore busy)))) }

/-- What an `add` is about to bind stays so while it takes the lock. -/
theorem bindLock (inv : Inv s) {i : Nat} {pattern : Bytes}
    (at_i : s.binders[i]? = some pattern) (free : s.lockFree = true) :
    Inv { s with binders := s.binders.eraseIdx i, bind := .locked pattern } := by
  simp only [State.lockFree, Bool.and_eq_true, decide_eq_true_eq] at free
  have still {p : Bytes} (pending : Pending s p) :
      Pending { s with binders := s.binders.eraseIdx i, bind := .locked pattern } p := by
    obtain mem | held | ⟨ch, queue, held⟩ := pending
    · rcases Library.mem_eraseIdx_or at_i mem with rfl | kept
      · exact .inr (.inl rfl)
      · exact .inl kept
    · cases free.1.2.symm.trans held
    · cases free.1.2.symm.trans held
  exact { inv with
    lock := fun _ => free.1.1
    reading := fun h => by cases h
    covered := fun live p mem => (inv.covered live p mem).imp_right still
    restoring := fun declaring up declared keys p mem =>
      (inv.restoring declaring up declared keys p mem).imp_right fun h => h.imp_right still }

/-- A bind that finds no open channel leaves its pattern to the next restore. -/
theorem bindSkips (inv : Inv s) (held : s.bind ≠ .none) (dark : ¬ Live s) :
    Inv { s with bind := .none } where
  __ := inv
  lock h := absurd rfl h
  reading h := by cases h
  covered live := absurd live dark
  restoring declaring := by cases (inv.lock held).symm.trans declaring

theorem bindRead (inv : Inv s) {ch : Nat} {pattern : Bytes} (held : s.bind = .locked pattern)
    (at_ch : s.chan.ch = some ch) : Inv { s with bind := .reading ch s.queue pattern } := by
  have idle : s.chan.restore = .idle := inv.lock (by simp [held])
  exact { inv with
    lock := fun _ => idle
    reading := fun h => by
      cases h
      exact ⟨rfl, fun at_x => Option.some.inj (at_x.symm.trans at_ch)⟩
    covered := fun live p mem => (inv.covered live p mem).imp_right fun pending => by
      obtain mem | same | ⟨ch, queue, same⟩ := pending
      · exact .inl mem
      · cases held.symm.trans same
        exact .inr (.inr ⟨ch, s.queue, rfl⟩)
      · cases held.symm.trans same
    restoring := fun declaring => by cases idle.symm.trans declaring }

theorem bindQueue (inv : Inv s) {ch queue : Nat} {pattern : Bytes}
    (held : s.bind = .reading ch queue pattern) :
    Inv { s with bound := (queue, pattern) :: s.bound, bind := .none } := by
  have idle : s.chan.restore = .idle := inv.lock (by simp [held])
  obtain rfl := (inv.reading held).1
  exact { inv with
    lock := fun h => absurd rfl h
    reading := fun h => by cases h
    covered := fun live p mem => by
      obtain bound | mem | same | ⟨ch, queue, same⟩ := inv.covered live p mem
      · exact .inl (List.mem_cons_of_mem _ bound)
      · exact .inr (.inl mem)
      · cases held.symm.trans same
      · cases held.symm.trans same
        exact .inl List.mem_cons_self
    restoring := fun declaring => by cases idle.symm.trans declaring }

theorem addStep {a : Act} (inv : Inv s) (h : s.addStep cfg a = some t) : Inv t := by
  cases a <;> simp only [State.addStep, reduceCtorEq] at h
  case add pattern =>
    cases h
    exact inv.add fun on => by simp [on]
  case bindLock i =>
    split at h
    · split at h <;> cases h
      exact inv.bindLock ‹_› ‹_›
    · cases h
  case bindRead =>
    split at h
    · next pattern held =>
      have busy : s.bind ≠ .none := by simp [held]
      split at h
      · next no_channel =>
        cases h
        refine inv.bindSkips busy ?_
        rintro ⟨ch, at_ch, -⟩
        cases no_channel.symm.trans at_ch
      · next ch at_ch =>
        split at h <;> cases h
        · next down =>
          refine inv.bindSkips busy ?_
          rintro ⟨x, at_x, up⟩
          cases at_ch.symm.trans at_x
          exact up down
        · exact inv.bindRead held at_ch
    · cases h
  case bindQueue =>
    split at h
    · split at h <;> cases h
      exact inv.bindQueue ‹_›
    · cases h
  case bindFails =>
    split at h
    · next ch queue pattern held =>
      split at h <;> cases h
      next down =>
      refine inv.bindSkips (by simp [held]) ?_
      rintro ⟨x, at_x, up⟩
      obtain rfl := (inv.reading held).2 at_x
      exact up down
    · cases h

theorem step {a : Act} (inv : Inv s) (h : s.step cfg a = some t) : Inv t := by
  simp only [State.step, Option.or_eq_some_iff] at h
  obtain h | ⟨-, h | ⟨-, h⟩⟩ := h
  · exact inv.startStep h
  · exact inv.restoreStep h
  · exact inv.addStep h

end Inv
end Invariant

/-- Nothing is under way that concerns the bindings: no add has still to bind, and nobody has the
restore lock. -/
def State.Settled (s : State) : Prop :=
  s.binders = [] ∧ s.bind = .none ∧ s.chan.restore = .idle

instance (s : State) : Decidable s.Settled :=
  inferInstanceAs (Decidable (_ ∧ _ ∧ _))

/-- **No binding is missed.** In every state that subscriptions, starts, rebuilt channels and
reconnections reach, in any order and at once: if the listener's channel is open and neither an add,
a bind nor a restore is under way, its queue is bound to every pattern ever subscribed. -/
theorem no_binding_missed (cfg : Config) {s : State} (h : (bindings cfg).Reachable s) {ch : Nat}
    (at_ch : s.chan.ch = some ch) (up : ch ∉ s.chan.down) (settled : s.Settled) :
    ∀ p ∈ s.subscribed, (s.queue, p) ∈ s.bound := by
  have inv : Inv s := h.invariant _ (fun _ start => start ▸ Inv.init) fun _ _ _ _ inv => inv.step
  obtain ⟨no_adds, no_bind, -⟩ := settled
  intro p mem
  obtain bound | pending | held | ⟨_, _, held⟩ :=
    inv.covered ⟨ch, at_ch, up⟩ p (inv.subscribed mem)
  · exact bound
  · simp [no_adds] at pending
  · cases no_bind.symm.trans held
  · cases no_bind.symm.trans held

/-- A lazy listener on a private queue: the second subscription is recorded after the restore has
read the patterns and its bind dies with the connection; the third comes while the session
reconnects, and its bind waits for that. -/
theorem no_binding_missed_reconnected : ∃ s, (bindings ⟨true, true⟩).Reachable s ∧
    s.started = true ∧ s.chan.ch = some 1 ∧ 1 ∉ s.chan.down ∧ s.Settled ∧
      s.subscribed = [[3], [2], [1]] ∧ ∀ p ∈ s.subscribed, (s.queue, p) ∈ s.bound := by
  have run : ((bindings ⟨true, true⟩).run [
      .add [1], .addStarts, .consumerStart, .attach, .openChannel, .declareQueue, .readBindings,
      .add [2], .bindKey, .swap, .consumer .readChannel, .consumer .consume, .consumer .record,
      .attachEnds false, .bindLock 0, .bindRead, .connectionLost true, .bindFails,
      .reconnect, .openChannel, .add [3], .declareQueue, .readBindings,
      .bindKey, .bindKey, .bindKey, .swap, .consumer .signalOld, .consumer .closeOld,
      .consumer .readChannel, .consumer .consume, .consumer .record, .bindLock 0, .bindRead,
      .bindQueue] {}).map (fun s => decide
        (s.started = true ∧ s.chan.ch = some 1 ∧ 1 ∉ s.chan.down ∧ s.Settled ∧
          s.subscribed = [[3], [2], [1]])) = some true := by
    decide +kernel
  obtain ⟨s, run, holds⟩ := Option.map_eq_some_iff.mp run
  obtain ⟨started, at_ch, up, settled, subscribed⟩ := of_decide_eq_true holds
  have reach := System.Reachable.run (.init rfl) run
  exact ⟨s, reach, started, at_ch, up, settled, subscribed,
    no_binding_missed _ reach at_ch up settled⟩

end Protobus.Lifecycle.Bindings
