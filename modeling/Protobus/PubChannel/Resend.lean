import Protobus.PubChannel.Outcome
import Protobus.Library.Table
import Mathlib.Data.List.Nodup

/-!
# Publishing again on another channel

`dispatcher.call`, `publishStream` and `eventPublisher.publish` are loops: they look for the
channel in use, publish on it, and look again when the publish reports `errChannelGone`. Meanwhile
channels close, new ones are installed, and everybody else publishes on them too. A publication that
came back with `errChannelGone` was not written and never will be, so that over all its attempts, on
all channels, a message is written at most once.
-/
namespace Protobus.PubChannel.Resend
open Library Table

inductive Loop
  | call
  | stream
  | event
deriving DecidableEq

/-- Who owns a channel: the field `pub` of the dispatcher or of the event publisher. -/
inductive Owner
  | dispatcher
  | events
deriving DecidableEq

structure Config where
  channel : PubChannel.Config
  busExchange : Bytes
  eventsExchange : Bytes

def Loop.owner : Loop → Owner
  | call | stream => .dispatcher
  | event => .events

def Loop.exchange (cfg : Config) : Loop → Bytes
  | call | stream => cfg.busExchange
  | event => cfg.eventsExchange

/-- A request that no service is bound to fails; an event without a subscriber does not. -/
def Loop.mandatory : Loop → Bool
  | call | stream => true
  | event => false

/-- Where a loop is. `refused` is an error of `whenReady` or of a repair, or `ErrClosed`. `ended`
has the last attempt and what its `publish` returned. -/
inductive Stage
  | looking
  | found (c : Nat)
  | publishing (c i : Nat)
  | refused
  | ended (c i : Nat) (r : Option Err)
deriving DecidableEq

/-- The attempt in hand: a channel and the number of the call there. -/
def Stage.attempt : Stage → Option (Nat × Nat)
  | publishing c i | ended c i _ => some (c, i)
  | _ => none

/-- One run of a loop. `gone` is history: the attempts that came back with `errChannelGone`. -/
structure Task where
  loop : Loop
  key : Bytes
  messageId : Bytes
  stage : Stage := .looking
  gone : List (Nat × Nat) := []

def Task.attempts (task : Task) : List (Nat × Nat) := task.gone ++ task.stage.attempt.toList

/-- Channels are known by the order in which they were opened. -/
structure State where
  chans : List PubChannel.State := []
  pub : Owner → Option Nat := fun _ => none
  closed : Owner → Bool := fun _ => false
  replyQueue : Bool := false
  tasks : List Task := []

/-- The channel that is handed out. The dispatcher has none without a reply queue. -/
def State.usable (s : State) (o : Owner) : Option Nat :=
  (s.pub o).filter fun c => (s.chans[c]?).any (fun chan => !chan.closed) &&
    (o = .events || s.replyQueue)

/-- What a call of `publish` returned. -/
def State.resultOf (s : State) (c i : Nat) : Option (Option Err) :=
  (s.chans[c]?).bind fun chan => (chan.calls i).pc.result

inductive TaskAct
  | look
  | refuse
  | publish (uuid : Bytes)
  | result

inductive Act
  /-- A step of a channel, its broker, or another call on it. -/
  | channel (c : Nat) (a : Action)
  /-- `restoreTopology` or a repair. The channel before it closes like any other. -/
  | install (o : Owner)
  /-- `connectionLost` of the dispatcher. -/
  | forget
  | close (o : Owner)
  | start (loop : Loop) (key messageId : Bytes)
  | task (n : Nat) (a : TaskAct)

section
variable (cfg : Config) (s : State)

/-- One pass of the search. If there is no channel to use, the loop repairs and looks again. -/
def Task.look (task : Task) : Task :=
  if s.closed task.loop.owner then { task with stage := .refused }
  else match s.usable task.loop.owner with
    | some c => { task with stage := .found c }
    | none => task

/-- The call of `publish` on a channel. -/
def Task.request (task : Task) (uuid : Bytes) : Action :=
  .env (.call (task.loop.exchange cfg) task.key task.messageId uuid task.loop.mandatory)

/-- The loop goes on after `errChannelGone`. -/
def Task.resume (task : Task) (c i : Nat) (r : Option Err) : Task :=
  if r = some .channelGone then { task with stage := .looking, gone := task.gone ++ [(c, i)] }
  else { task with stage := .ended c i r }

def State.setTask (n : Nat) (task : Task) : State := { s with tasks := s.tasks.set n task }

def State.setChan (c : Nat) (chan : PubChannel.State) : State :=
  { s with chans := s.chans.set c chan }

def taskStep (n : Nat) (task : Task) : TaskAct → Option State
  | .look => match task.stage with
    | .looking => some (s.setTask n (task.look s))
    | _ => none
  | .refuse => match task.stage with
    | .looking => some (s.setTask n { task with stage := .refused })
    | _ => none
  | .publish uuid => match task.stage with
    | .found c => (s.chans[c]?).map fun chan =>
        (s.setChan c (next cfg.channel chan (task.request cfg uuid))).setTask n
          { task with stage := .publishing c chan.started }
    | _ => none
  | .result => match task.stage with
    | .publishing c i => (s.resultOf c i).map fun r => s.setTask n (task.resume c i r)
    | _ => none

def step : Act → Option State
  | .channel c a => (s.chans[c]?).bind fun chan =>
      ((PubChannel.system cfg.channel).step chan a).map (s.setChan c)
  | .install o => some { s with
      chans := s.chans ++ [.start]
      pub := Function.update s.pub o (some s.chans.length)
      replyQueue := s.replyQueue || o = .dispatcher }
  | .forget => some { s with pub := Function.update s.pub .dispatcher none, replyQueue := false }
  | .close o => some { s with
      pub := Function.update s.pub o none
      closed := Function.update s.closed o true
      replyQueue := s.replyQueue && o ≠ .dispatcher }
  | .start loop key messageId => some { s with tasks := s.tasks ++ [{ loop, key, messageId }] }
  | .task n a => (s.tasks[n]?).bind fun task => taskStep cfg s n task a

end

def system (cfg : Config) : System State Act where
  init s := s = {}
  step := step cfg

variable {cfg : Config} {s t : State} {n c i : Nat} {task : Task} {chan chan' : PubChannel.State}

/-! ## Attempts that came back -/

/-- A call that has returned keeps its result. -/
def State.Keeps (s t : State) : Prop := ∀ c i r, s.resultOf c i = some r → t.resultOf c i = some r

structure Task.Fine (s : State) (task : Task) : Prop where
  gone : ∀ p ∈ task.gone, s.resultOf p.1 p.2 = some (some .channelGone)
  ended : ∀ c i r, task.stage = .ended c i r →
    r ≠ some .channelGone ∧ s.resultOf c i = some r

theorem Task.Fine.keeps (fine : task.Fine s) (keeps : s.Keeps t) : task.Fine t where
  gone p mem := keeps _ _ _ (fine.gone p mem)
  ended c i r at_end := ⟨(fine.ended c i r at_end).1, keeps _ _ _ (fine.ended c i r at_end).2⟩

def Sound (cfg : Config) (s : State) : Prop :=
  Rows (fun _ chan => (PubChannel.system cfg.channel).Reachable chan) s.chans

theorem Sound.setChan (sound : Sound cfg s) (at_c : s.chans[c]? = some chan) {a : Action}
    (hstep : (PubChannel.system cfg.channel).step chan a = some chan') :
    Sound cfg (s.setChan c chan') ∧ s.Keeps (s.setChan c chan') := by
  have reach := sound c chan at_c
  refine ⟨sound.set (reach.step hstep), fun d i r returned => ?_⟩
  by_cases same : c = d
  · subst same
    obtain ⟨en, rfl⟩ := step_iff.mp hstep
    simp only [State.resultOf, at_c, Option.bind_some] at returned
    simp only [State.resultOf, State.setChan, getElem?_set_self_of_some at_c, Option.bind_some]
    rw [pc_next_of_result (shape_tags_of_reachable reach).1 en returned]
    exact returned
  · simpa only [State.resultOf, State.setChan, getElem?_set_of_ne same] using returned

structure Ok (cfg : Config) (s : State) : Prop where
  sound : Sound cfg s
  tasks : ∀ task ∈ s.tasks, task.Fine s

/-- What a step makes of a state: results stay, and the invariant holds again. -/
def Leads (cfg : Config) (s t : State) : Prop := Ok cfg t ∧ s.Keeps t

theorem Ok.change (ok : Ok cfg s) (sound : Sound cfg t) (keeps : s.Keeps t)
    (tasks : ∀ task ∈ t.tasks, task ∈ s.tasks ∨ task.Fine t) : Leads cfg s t := by
  refine ⟨⟨sound, fun task mem => ?_⟩, keeps⟩
  obtain old | fine := tasks task mem
  · exact (ok.tasks task old).keeps keeps
  · exact fine

theorem Ok.setTask (ok : Ok cfg s) (fine : task.Fine s) : Leads cfg s (s.setTask n task) := by
  have keeps : s.Keeps (s.setTask n task) := fun _ _ _ => id
  refine ok.change ok.sound keeps fun task' mem => ?_
  obtain old | rfl := List.mem_or_eq_of_mem_set mem
  · exact .inl old
  · exact .inr (fine.keeps keeps)

/-- A stage before the end of a loop says nothing about results. -/
theorem Task.Fine.stage (fine : task.Fine s) {stage : Stage}
    (early : ∀ c i r, stage ≠ .ended c i r) : { task with stage := stage }.Fine s :=
  ⟨fine.gone, fun c i r at_end => absurd at_end (early c i r)⟩

theorem Task.Fine.resume (fine : task.Fine s) {r : Option Err}
    (returned : s.resultOf c i = some r) : (task.resume c i r).Fine s := by
  unfold Task.resume
  split
  · next gone =>
    subst gone
    refine ⟨fun p mem => ?_, by simp⟩
    obtain old | rfl := (List.mem_append.mp mem).imp id List.mem_singleton.mp
    · exact fine.gone p old
    · exact returned
  · next other =>
    refine ⟨fine.gone, ?_⟩
    rintro _ _ _ ⟨⟩
    exact ⟨other, returned⟩

theorem Ok.taskStep (ok : Ok cfg s) (fine : task.Fine s) {a : TaskAct}
    (hstep : taskStep cfg s n task a = some t) : Leads cfg s t := by
  cases a with
  | look =>
    simp only [Resend.taskStep] at hstep
    split at hstep
    · cases hstep
      apply ok.setTask
      unfold Task.look
      split
      · exact fine.stage (by simp)
      · split
        · exact fine.stage (by simp)
        · exact fine
    · cases hstep
  | refuse =>
    simp only [Resend.taskStep] at hstep
    split at hstep
    · cases hstep
      exact ok.setTask (fine.stage (by simp))
    · cases hstep
  | publish uuid =>
    simp only [Resend.taskStep] at hstep
    split at hstep
    · next c found =>
      obtain ⟨chan, at_c, rfl⟩ := Option.map_eq_some_iff.mp hstep
      have called : (PubChannel.system cfg.channel).step chan (task.request cfg uuid) =
          some (next cfg.channel chan (task.request cfg uuid)) := rfl
      obtain ⟨sound, keeps⟩ := ok.sound.setChan at_c called
      obtain ⟨ok', -⟩ := ok.change sound keeps fun _ => .inl
      exact ⟨(ok'.setTask ((fine.keeps keeps).stage (by simp))).1, keeps⟩
    · cases hstep
  | result =>
    simp only [Resend.taskStep] at hstep
    split at hstep
    · next c i publishing =>
      obtain ⟨r, returned, rfl⟩ := Option.map_eq_some_iff.mp hstep
      exact ok.setTask (fine.resume returned)
    · cases hstep

theorem Ok.step (ok : Ok cfg s) {a : Act} (hstep : step cfg s a = some t) : Leads cfg s t := by
  cases a with
  | channel c a =>
    obtain ⟨chan, at_c, hstep⟩ := Option.bind_eq_some_iff.mp hstep
    obtain ⟨chan', moved, rfl⟩ := Option.map_eq_some_iff.mp hstep
    obtain ⟨sound, keeps⟩ := ok.sound.setChan at_c moved
    exact ok.change sound keeps fun _ => .inl
  | install o =>
    cases hstep
    refine ok.change (ok.sound.concat (.init rfl)) (fun c i r returned => ?_) fun _ => .inl
    obtain ⟨chan, at_c, returned⟩ := Option.bind_eq_some_iff.mp returned
    exact Option.bind_eq_some_iff.mpr ⟨chan, getElem?_concat_of_some at_c, returned⟩
  | forget | close =>
    cases hstep
    exact ok.change ok.sound (fun _ _ _ => id) fun _ => .inl
  | start loop key messageId =>
    cases hstep
    refine ok.change ok.sound (fun _ _ _ => id) fun task mem => ?_
    refine (List.mem_append.mp mem).imp id fun new => ?_
    cases List.mem_singleton.mp new
    exact ⟨by simp, by simp⟩
  | task n a =>
    obtain ⟨task, at_n, hstep⟩ := Option.bind_eq_some_iff.mp hstep
    exact ok.taskStep (ok.tasks task (List.mem_of_getElem? at_n)) hstep

theorem ok_of_reachable (reach : (system cfg).Reachable s) : Ok cfg s := by
  refine reach.invariant (Ok cfg) ?_ fun s a t _ ok hstep => (ok.step hstep).1
  rintro s rfl
  exact ⟨Rows.nil, by simp⟩

/-! ## What was written -/

/-- The writer writes a publication once. -/
theorem transmitted_once {cfg : PubChannel.Config}
    (reach : (PubChannel.system cfg).Reachable chan) : (chan.transmitted.map Prod.snd).Nodup := by
  refine reach.invariant (fun chan => (chan.transmitted.map Prod.snd).Nodup) ?_ ?_
  · rintro _ rfl
    simp [PubChannel.State.start]
  · rintro chan a _ before once hstep
    obtain ⟨en, rfl⟩ := step_iff.mp hstep
    have unsent := (shape_tags_of_reachable before).2.unsent
    cases a with
    | writer i a =>
      cases a with
      | transmit tag =>
        simp only [enabled, Bool.and_eq_true, decide_eq_true_eq] at en
        simp only [next, writerNext, List.map_append, List.map_singleton]
        rw [List.nodup_append_comm]
        refine List.nodup_cons.mpr ⟨fun there => ?_, once⟩
        obtain ⟨⟨t, j⟩, sent, rfl⟩ := List.mem_map.mp there
        exact unsent j _ t en.1 sent
      | _ => exact once
    | loop a =>
      obtain ⟨_, _, _, _, _, _, _, _, _, eq⟩ := loopNext_frame chan a
      simp only [next, eq]
      exact once
    | env a => cases a <;> exact once
    | _ => exact once

/-- The channel and the tag of each time that an attempt was written. -/
def State.sendsOf (s : State) (p : Nat × Nat) : List (Nat × Nat) :=
  (s.chans[p.1]?).elim [] fun chan =>
    (chan.transmitted.filter fun e => e.2 = p.2).map fun e => (p.1, e.1)

/-- How the message of a loop was written, over all its attempts. -/
def State.sends (s : State) (task : Task) : List (Nat × Nat) := task.attempts.flatMap s.sendsOf

theorem Ok.length_sendsOf_le (ok : Ok cfg s) (p : Nat × Nat) : (s.sendsOf p).length ≤ 1 := by
  unfold State.sendsOf
  cases at_c : s.chans[p.1]? with
  | none => simp
  | some chan =>
    have once := List.nodup_iff_count_le_one.mp (transmitted_once (ok.sound _ _ at_c)) p.2
    rw [List.count_eq_countP, List.countP_map, List.countP_eq_length_filter] at once
    simpa [Function.comp_def, beq_eq_decide] using once

/-- A definite error means that the attempt was not written. -/
theorem Ok.sendsOf_eq_nil (ok : Ok cfg s) {p : Nat × Nat} {e : Err}
    (returned : s.resultOf p.1 p.2 = some (some e)) (definite : e.definite = true) :
    s.sendsOf p = [] := by
  obtain ⟨chan, at_c, returned⟩ := Option.bind_eq_some_iff.mp returned
  have unsent := not_transmitted_of_definite (ok.sound _ _ at_c) returned definite
  simp only [State.sendsOf, at_c, Option.elim_some, List.map_eq_nil_iff, List.filter_eq_nil_iff]
  rintro ⟨t, j⟩ sent same
  obtain rfl : j = p.2 := by simpa using same
  exact unsent t sent

/-- Only the attempt in hand can have been written. -/
theorem Ok.sends_eq (ok : Ok cfg s) (fine : task.Fine s) :
    s.sends task = task.stage.attempt.toList.flatMap s.sendsOf := by
  have earlier : task.gone.flatMap s.sendsOf = [] := by
    rw [List.flatMap_eq_nil_iff]
    exact fun p mem => ok.sendsOf_eq_nil (fine.gone p mem) rfl
  rw [State.sends, Task.attempts, List.flatMap_append, earlier, List.nil_append]

theorem Ok.run {as : List Act} (ok : Ok cfg s) (fine : task.Fine s)
    (ran : (system cfg).run as s = some t) : Ok cfg t ∧ task.Fine t := by
  refine System.run_keeps (P := fun s => Ok cfg s ∧ task.Fine s) ?_ ⟨ok, fine⟩ ran
  rintro s a t ⟨ok, fine⟩ hstep
  obtain ⟨ok', keeps⟩ := ok.step hstep
  exact ⟨ok', fine.keeps keeps⟩

/-- What a loop knows of its message, whatever closes, is replaced or is published meanwhile.
(1) It was written at most once, over all attempts on all channels. (2) When the loop ends with
`nil` it was written, once, and the broker acked it. (3) Where the loop looks for a channel, was
refused one or ended with an error that is not a `PublishError`, none of its attempts was written or
ever will be. (4) `errChannelGone` is not an end. -/
theorem sent_at_most_once (reach : (system cfg).Reachable s) (at_n : s.tasks[n]? = some task) :
    (s.sends task).length ≤ 1 ∧
    (∀ c i, task.stage = .ended c i none → ∃ tag chan, s.sends task = [(c, tag)] ∧
      s.chans[c]? = some chan ∧ Answered chan i true) ∧
    ((task.stage.attempt = none ∨ ∃ c i e, task.stage = .ended c i (some e) ∧ e.definite = true) →
      ∀ as t, (system cfg).run as s = some t → t.sends task = []) ∧
    ∀ c i, task.stage ≠ .ended c i (some .channelGone) := by
  have ok := ok_of_reachable reach
  have fine := ok.tasks task (List.mem_of_getElem? at_n)
  have most : (s.sends task).length ≤ 1 := by
    rw [ok.sends_eq fine]
    cases task.stage.attempt with
    | none => simp
    | some p => simpa using ok.length_sendsOf_le p
  refine ⟨most, ?_, ?_, ?_⟩
  · intro c i at_end
    obtain ⟨chan, at_c, returned⟩ := Option.bind_eq_some_iff.mp (fine.ended c i none at_end).2
    obtain ⟨-, ack, answered, isAck⟩ :=
      answered_of_verdict (ok.sound c chan at_c) returned (by simp) (by simp)
    cases isAck rfl
    obtain ⟨tag, sent, acked⟩ := answered
    have there : (c, tag) ∈ s.sends task := by
      rw [ok.sends_eq fine, at_end]
      simp only [Stage.attempt, Option.toList_some, List.flatMap_singleton, State.sendsOf, at_c,
        Option.elim_some, List.mem_map, List.mem_filter]
      exact ⟨(tag, i), ⟨sent, by simp⟩, rfl⟩
    refine ⟨tag, chan, ?_, at_c, tag, sent, acked⟩
    have least := List.length_pos_of_mem there
    obtain ⟨p, one⟩ := List.length_eq_one_iff.mp (by omega : (s.sends task).length = 1)
    rw [one, List.mem_singleton] at there
    rw [one, there]
  · intro unsent as t ran
    obtain ⟨ok', fine'⟩ := ok.run fine ran
    rw [ok'.sends_eq fine']
    obtain none | ⟨c, i, e, at_end, definite⟩ := unsent
    · simp [none]
    · simp only [at_end, Stage.attempt, Option.toList_some, List.flatMap_singleton]
      exact ok'.sendsOf_eq_nil (fine'.ended c i _ at_end).2 definite
  · intro c i at_end
    exact (fine.ended c i _ at_end).1 rfl

/-- A channel that closes before the event gets a slot. -/
def closing (c : Nat) : List Act :=
  [.channel c (.caller 0 .enter), .channel c (.env (.closeTransport none)),
    .channel c (.loop (.seeClose none)), .channel c (.loop (.endDrain (lit "channel closed"))),
    .channel c (.loop (.closeDone [])), .channel c (.caller 0 (.refuse .closed))]

/-- A channel on which the event is written and acked. -/
def acking (c : Nat) : List Act :=
  [.caller 0 .enter, .caller 0 .takeSlot, .handOff 0, .writer 0 .checkCtx, .writer 0 .checkClosed,
    .writer 0 .register, .writer 0 (.commit 1), .writer 0 (.transmit 1), .caller 0 .seeCommit,
    .env (.brokerConfirm ⟨1, true⟩), .env (.read ⟨1, true⟩), .loop (.takeConfirm ⟨1, true⟩),
    .loop (.settle 0 none), .loop (.release 0 none), .caller 0 (.seeDone ⟨none, none⟩)].map
      (.channel c)

/-- An event whose first channel closes under it goes out on the second. -/
theorem sent_at_most_once_second : ∃ s task, (system ⟨⟨1, []⟩, [1], [2]⟩).Reachable s ∧
    s.tasks[0]? = some task ∧ task.gone = [(0, 0)] ∧ ∃ tag, s.sends task = [(1, tag)] := by
  have reach : (system ⟨⟨1, []⟩, [1], [2]⟩).Reachable _ := .run (.init rfl)
    (rfl : (system ⟨⟨1, []⟩, [1], [2]⟩).run
      ([.install .events, .start .event [3] [], .task 0 .look, .task 0 (.publish [4])] ++
        closing 0 ++ [.task 0 .result, .install .events, .task 0 .look, .task 0 (.publish [5])] ++
        acking 1 ++ [.task 0 .result]) {} = some _)
  obtain ⟨tag, -, sends, -⟩ := (sent_at_most_once reach (n := 0) rfl).2.1 1 0 rfl
  exact ⟨_, _, reach, rfl, rfl, tag, sends⟩

end Protobus.PubChannel.Resend
