import Protobus.Session.Finish
import Mathlib.Data.List.Basic

/-!
# The history of a connection

What the observer is told, in the order in which it is told. Only the supervisor announces
anything, so the history follows its position; beside the announcements it keeps the attempts that
failed, which nobody is told of.
-/
namespace Protobus.Session
open Library

inductive Event
  | disconnected
  | reconnecting (attempt : Nat)
  | reconnected (attempt : Nat)
  | gaveUp (attempts : Nat)
deriving DecidableEq

inductive Entry
  | announced (e : Event)
  | failed (attempt : Nat)
deriving DecidableEq

def Entry.event? : Entry → Option Event
  | .announced e => some e
  | .failed _ => none

def events (log : List Entry) : List Event := log.filterMap Entry.event?

/-- What a step of the supervisor adds to the history. An attempt fails in the dial, in a
restorer, or when the socket has died by the end. -/
def State.emitted (cfg : Setting) (s : State) : SupAction → List Entry
  | .tell => [.announced .disconnected]
  | .schedule => match s.supervisor with
    | .waiting n =>
      if 0 < cfg.maxRetries && cfg.maxRetries < n then [] else [.announced (.reconnecting n)]
    | _ => []
  | .dial dialed => match s.supervisor with
    | .dialing n => if dialed then [] else [.failed n]
    | _ => []
  | .restore ok => match s.supervisor with
    | .restoring n _ _ => if s.cancelled || !ok then [.failed n] else []
    | _ => []
  | .socketDied => match s.supervisor with
    | .announcing n _ => [.failed n]
    | _ => []
  | .announce => match s.supervisor with
    | .announcing n _ => [.announced (.reconnected n)]
    | _ => []
  | .giveUp => match s.supervisor with
    | .givingUp n => [.announced (.gaveUp n)]
    | _ => []
  | _ => []

/-- The session with its history. -/
def observed (cfg : Setting) : System (State × List Entry) Action where
  init x := x = ({}, [])
  step x a := (x.1.step cfg a).map fun t => match a with
    | .supervisor a => (t, x.2 ++ x.1.emitted cfg a)
    | _ => (t, x.2)

/-! ## Cycles -/

/-- No more attempts than `MaxRetries`, where that is set. -/
def Within (max k : Nat) : Prop := 0 < max → k ≤ max

/-- A lost connection and `k` attempts. -/
def attempts (k : Nat) : List Event := .disconnected :: (List.range' 1 k).map .reconnecting

def cycle (k : Nat) : List Event := attempts k ++ [.reconnected k]

/-- A lost connection and `k` attempts that all failed. -/
def failures (k : Nat) : List Entry :=
  .announced .disconnected ::
    (List.range' 1 k).flatMap fun i => [.announced (.reconnecting i), .failed i]

/-- A lost connection and an attempt that succeeds after `k` others. -/
def recovery (k : Nat) : List Entry :=
  failures k ++ [.announced (.reconnecting (k + 1)), .announced (.reconnected (k + 1))]

theorem failures_succ (k : Nat) :
    failures (k + 1) = failures k ++ [.announced (.reconnecting (k + 1)), .failed (k + 1)] := by
  simp [failures, List.range'_1_concat, Nat.add_comm]

theorem events_append (l m : List Entry) : events (l ++ m) = events l ++ events m :=
  List.filterMap_append

theorem events_failures (k : Nat) : events (failures k) = attempts k := by
  induction k with
  | zero => rfl
  | succ k ih =>
    rw [failures_succ, events_append, ih]
    simp [attempts, events, Entry.event?, List.range'_1_concat, Nat.add_comm]

theorem events_recovery (k : Nat) : events (recovery k) = cycle (k + 1) := by
  rw [recovery, events_append, events_failures]
  simp [cycle, attempts, events, Entry.event?, List.range'_1_concat, Nat.add_comm]

/-! ## The supervisor and its history -/

/-- An unfinished cycle, or none. -/
def Unfinished (max : Nat) (rest : List Entry) : Prop :=
  rest = [] ∨ (∃ k, Within max k ∧ rest = failures k) ∨
    ∃ k, Within max (k + 1) ∧ rest = failures k ++ [.announced (.reconnecting (k + 1))]

/-- What the history has since the last complete cycle. -/
def Supervisor.Since (max : Nat) : Supervisor → List Entry → Prop
  | .waiting n, rest => ∃ k, n = k + 1 ∧ Within max k ∧ rest = failures k
  | .failed n, rest => Within max n ∧ rest = failures n
  | .dialing n, rest | .installed n _, rest | .restoring n _ _, rest | .restored n _, rest
  | .announcing n _, rest =>
    ∃ k, n = k + 1 ∧ Within max n ∧ rest = failures k ++ [.announced (.reconnecting n)]
  | .givingUp n, rest => 0 < max ∧ n = max ∧ rest = failures n
  | .gaveUp, rest => 0 < max ∧ rest = failures max ++ [.announced (.gaveUp max)]
  | .exited, rest => Unfinished max rest
  | _, rest => rest = []

def History (max : Nat) (p : Supervisor) (log : List Entry) : Prop :=
  ∃ (done : List Nat) (rest : List Entry), log = done.flatMap recovery ++ rest ∧
    (∀ k ∈ done, Within max (k + 1)) ∧ p.Since max rest

variable {cfg : Setting} {s t : State} {max : Nat} {p q : Supervisor} {log : List Entry}

theorem History.move (h : History max p log) {es : List Entry}
    (next : ∀ rest, p.Since max rest → q.Since max (rest ++ es)) :
    History max q (log ++ es) := by
  obtain ⟨done, rest, rfl, within, since⟩ := h
  exact ⟨done, rest ++ es, List.append_assoc .., within, next rest since⟩

/-- The supervisor moves on without a word. -/
theorem History.goto (h : History max p log)
    (next : ∀ rest, p.Since max rest → q.Since max rest) : History max q (log ++ []) :=
  h.move fun rest since => by rw [List.append_nil]; exact next rest since

/-- A cycle is complete. -/
theorem History.complete {n conn : Nat} (h : History max (.announcing n conn) log) :
    History max .watching (log ++ [.announced (.reconnected n)]) := by
  obtain ⟨done, rest, rfl, within, k, rfl, fits, rfl⟩ := h
  refine ⟨done ++ [k], [], by simp [recovery], ?_, rfl⟩
  simpa [or_imp, forall_and] using ⟨within, fits⟩

/-- Wherever the supervisor stops, unless it has given up. -/
theorem unfinished_of_since {rest : List Entry} (going : p ≠ .gaveUp)
    (since : p.Since max rest) : Unfinished max rest := by
  cases p with
  | off | connected | watching | losing | lost => exact .inl since
  | waiting n =>
    obtain ⟨k, -, within, rfl⟩ := since
    exact .inr (.inl ⟨k, within, rfl⟩)
  | dialing n | installed n conn | restoring n conn left | restored n conn | announcing n conn =>
    obtain ⟨k, rfl, within, rfl⟩ := since
    exact .inr (.inr ⟨k, within, rfl⟩)
  | failed n => exact .inr (.inl ⟨n, since⟩)
  | givingUp n =>
    obtain ⟨-, rfl, rfl⟩ := since
    exact .inr (.inl ⟨n, fun _ => Nat.le_refl n, rfl⟩)
  | gaveUp => exact absurd rfl going
  | exited => exact since

theorem History.supStep {a : SupAction} (h : History cfg.maxRetries s.supervisor log)
    (next : s.supStep cfg a = some t) :
    History cfg.maxRetries t.supervisor (log ++ s.emitted cfg a) := by
  cases a with
  | connect dialed =>
    simp only [State.supStep] at next
    split at next
    · next phase =>
      rw [phase] at h
      split at next
      · cases next
        exact h.goto fun _ => unfinished_of_since (by simp)
      · cases next
        exact h.goto fun _ => id
    · cases next
  | announce =>
    simp only [State.supStep] at next
    split at next
    · next phase =>
      cases next
      rw [phase] at h
      simp only [State.emitted, phase]
      exact h.goto fun _ => id
    · next phase =>
      cases next
      rw [phase] at h
      simp only [State.emitted, phase]
      exact h.complete
    · cases next
  | drop =>
    simp only [State.supStep] at next
    split at next
    · next phase =>
      cases next
      rw [phase] at h
      refine h.goto fun rest since => ?_
      split
      · exact unfinished_of_since (by simp) since
      · exact since
    · cases next
  | stop =>
    simp only [State.supStep] at next
    split at next
    · next phase =>
      obtain ⟨-, ⟨⟩⟩ := Option.ite_none_right_eq_some.mp next
      rw [phase] at h
      exact h.goto fun _ => unfinished_of_since (by simp)
    · next phase =>
      obtain ⟨-, ⟨⟩⟩ := Option.ite_none_right_eq_some.mp next
      rw [phase] at h
      exact h.goto fun _ => unfinished_of_since (by simp)
    · cases next
  | markNotReady | unlock =>
    simp only [State.supStep] at next
    split at next
    · next phase =>
      cases next
      rw [phase] at h
      exact h.goto fun _ => id
    · cases next
  | tell =>
    simp only [State.supStep] at next
    split at next
    · next phase =>
      cases next
      rw [phase] at h
      refine h.move ?_
      rintro _ rfl
      exact ⟨0, rfl, fun _ => Nat.zero_le _, rfl⟩
    · cases next
  | schedule =>
    simp only [State.supStep] at next
    split at next
    · next n phase =>
      cases next
      rw [phase] at h
      simp only [State.emitted, phase]
      split
      · next spent =>
        simp only [Bool.and_eq_true, decide_eq_true_eq] at spent
        refine h.goto ?_
        rintro _ ⟨k, rfl, within, rfl⟩
        have last : k = cfg.maxRetries := by have := within spent.1; omega
        exact ⟨spent.1, last, rfl⟩
      · next more =>
        simp only [Bool.and_eq_true, decide_eq_true_eq, not_and, Nat.not_lt] at more
        refine h.move ?_
        rintro _ ⟨k, rfl, -, rfl⟩
        exact ⟨k, rfl, more, rfl⟩
    · cases next
  | dial dialed =>
    simp only [State.supStep] at next
    split at next
    · next n phase =>
      rw [phase] at h
      cases dialed with
      | true =>
        cases next
        simp only [State.emitted, phase]
        exact h.goto fun _ => id
      | false =>
        cases next
        simp only [State.emitted, phase]
        refine h.move ?_
        rintro _ ⟨k, rfl, within, rfl⟩
        exact ⟨k + 1, rfl, within, by simp [failures_succ]⟩
    · cases next
  | lock =>
    simp only [State.supStep] at next
    split at next
    · next phase =>
      obtain ⟨-, ⟨⟩⟩ := Option.ite_none_right_eq_some.mp next
      rw [phase] at h
      exact h.goto fun _ => id
    · cases next
  | restore ok =>
    simp only [State.supStep] at next
    split at next
    · next n conn r left phase =>
      rw [phase] at h
      simp only [State.emitted, phase]
      split at next
      · next bad =>
        cases next
        rw [if_pos bad]
        refine h.move ?_
        rintro _ ⟨k, rfl, within, rfl⟩
        exact ⟨within, by simp [failures_succ]⟩
      · next good =>
        cases next
        rw [if_neg good]
        exact h.goto fun _ => id
    · cases next
  | retry =>
    simp only [State.supStep] at next
    split at next
    · next n phase =>
      cases next
      rw [phase] at h
      refine h.goto fun rest since => ?_
      split
      · exact unfinished_of_since (by simp) since
      · exact ⟨n, rfl, since⟩
    · cases next
  | checkContext =>
    simp only [State.supStep] at next
    split at next
    · next n conn phase =>
      cases next
      rw [phase] at h
      refine h.goto fun rest since => ?_
      split
      · exact unfinished_of_since (by simp) since
      · exact since
    · cases next
  | socketDied =>
    simp only [State.supStep] at next
    split at next
    · next n conn phase =>
      cases next
      rw [phase] at h
      simp only [State.emitted, phase]
      refine h.move ?_
      rintro _ ⟨k, rfl, within, rfl⟩
      exact ⟨k + 1, rfl, within, by simp [failures_succ]⟩
    · cases next
  | finish =>
    simp only [State.supStep] at next
    split at next
    · next n phase =>
      obtain ⟨-, rfl⟩ := finish_eq_some.mp next
      exact h.goto fun _ => id
    · cases next
  | giveUp =>
    simp only [State.supStep] at next
    split at next
    · next n phase =>
      obtain ⟨-, ⟨⟩⟩ := Option.ite_none_right_eq_some.mp next
      rw [phase] at h
      simp only [State.emitted, phase]
      refine h.move ?_
      rintro _ ⟨limited, rfl, rfl⟩
      exact ⟨limited, rfl⟩
    · cases next

/-- Only the supervisor moves its position. -/
theorem supervisor_step {a : Action} (other : ∀ b, a ≠ .supervisor b)
    (next : s.step cfg a = some t) : t.supervisor = s.supervisor := by
  cases a with
  | supervisor b => exact absurd rfl (other b)
  | job i a => cases jobStep_of_step next <;> rfl
  | closer i a => cases closeStep_of_step next <;> rfl
  | waiter i a =>
    obtain ⟨p, rfl, -⟩ := waitStep_of_step next
    rfl
  | closeDone =>
    simp only [State.step, Option.ite_none_right_eq_some, Option.some.injEq] at next
    obtain ⟨-, rfl⟩ := next
    rfl
  | closeBus =>
    cases next
    rfl

/-- What a step does to the session and to its history. -/
theorem observed_step {x y : State × List Entry} {a : Action}
    (next : (observed cfg).step x a = some y) :
    x.1.step cfg a = some y.1 ∧
      ((∃ b, a = .supervisor b ∧ y.2 = x.2 ++ x.1.emitted cfg b) ∨
        (∀ b, a ≠ .supervisor b) ∧ y.2 = x.2) := by
  obtain ⟨t, step, rfl⟩ := Option.map_eq_some_iff.mp next
  cases a with
  | supervisor b => exact ⟨step, .inl ⟨b, rfl, rfl⟩⟩
  | _ => exact ⟨step, .inr ⟨by simp, rfl⟩⟩

theorem reachable_of_observed {x : State × List Entry} (reach : (observed cfg).Reachable x) :
    (sessions cfg).Reachable x.1 := by
  induction reach with
  | init start =>
    obtain rfl := start
    exact .init rfl
  | step _ next ih => exact ih.step (observed_step next).1

theorem history_of_reachable {x : State × List Entry} (reach : (observed cfg).Reachable x) :
    History cfg.maxRetries x.1.supervisor x.2 := by
  apply reach.invariant (fun x => History cfg.maxRetries x.1.supervisor x.2)
  · rintro x rfl
    exact ⟨[], [], rfl, by simp, rfl⟩
  · intro x a y _ h next
    obtain ⟨step, ⟨b, rfl, log⟩ | ⟨other, log⟩⟩ := observed_step next
    · rw [log]
      exact h.supStep step
    · rw [log, supervisor_step other step]
      exact h

/-! ## Giving up -/

/-- No step is left to a supervisor that gave up. -/
theorem supStep_gaveUp (gaveUp : s.supervisor = .gaveUp) (a : SupAction) :
    s.supStep cfg a = none := by
  cases a <;> simp [State.supStep, gaveUp]

theorem gaveUp_stays {x y : State × List Entry} {as : List Action}
    (gaveUp : x.1.supervisor = .gaveUp) (ran : (observed cfg).run as x = some y) :
    y.1.supervisor = .gaveUp ∧ y.2 = x.2 := by
  refine System.run_keeps (P := fun y => y.1.supervisor = .gaveUp ∧ y.2 = x.2) ?_ ⟨gaveUp, rfl⟩ ran
  rintro y a z ⟨gaveUp, log⟩ next
  obtain ⟨step, ⟨b, rfl, -⟩ | ⟨other, same⟩⟩ := observed_step next
  · cases (supStep_gaveUp gaveUp b).symm.trans step
  · exact ⟨(supervisor_step other step).trans gaveUp, same.trans log⟩

theorem gaveUp_not_mem_attempts (n k : Nat) : .gaveUp n ∉ attempts k := by
  simp [attempts]

theorem gaveUp_not_mem_cycles (n : Nat) (done : List Nat) : .gaveUp n ∉ done.flatMap cycle := by
  simp [cycle, gaveUp_not_mem_attempts]

/-- The events of a history, cycle by cycle. -/
theorem events_history (done : List Nat) (rest : List Entry) :
    events (done.flatMap recovery ++ rest) = (done.map (· + 1)).flatMap cycle ++ events rest := by
  rw [events_append, List.flatMap_map]
  congr 1
  induction done with
  | nil => rfl
  | cons k done ih => rw [List.flatMap_cons, events_append, ih, events_recovery, List.flatMap_cons]

/-- An unfinished cycle as the observer sees it. -/
theorem events_unfinished {rest : List Entry} (h : Unfinished max rest) :
    events rest = [] ∨ ∃ k, Within max k ∧ events rest = attempts k := by
  rcases h with rfl | ⟨k, within, rfl⟩ | ⟨k, within, rfl⟩
  · exact .inl rfl
  · exact .inr ⟨k, within, events_failures k⟩
  · refine .inr ⟨k + 1, within, ?_⟩
    rw [events_append, events_failures]
    simp [attempts, events, Entry.event?, List.range'_1_concat, Nat.add_comm]

/-- Every history is a sequence of complete cycles and at most one unfinished one; giving up is the
last event, after as many failed attempts as are allowed, and the session is not ready again. -/
theorem history_well_formed (cfg : Setting) {s : State} {log : List Entry}
    (reach : (observed cfg).Reachable (s, log)) :
    (∃ (done : List Nat) (rest : List Event), events log = done.flatMap cycle ++ rest ∧
      (∀ k ∈ done, 1 ≤ k ∧ Within cfg.maxRetries k) ∧
      (rest = [] ∨ ∃ k, Within cfg.maxRetries k ∧ (rest = attempts k ∨
        rest = attempts k ++ [.gaveUp cfg.maxRetries] ∧ 0 < cfg.maxRetries ∧ k = cfg.maxRetries ∧
          ∃ before, log = before ++ failures k ++ [.announced (.gaveUp k)]))) ∧
    ∀ n, .gaveUp n ∈ events log →
      (events log).getLast? = some (.gaveUp n) ∧ (events log).count (.gaveUp n) = 1 ∧
      ∀ as t log', (observed cfg).run as (s, log) = some (t, log') →
        log' = log ∧ t.isReady = false ∧ t.current = false := by
  obtain ⟨done, rest, rfl, within, since⟩ := history_of_reachable reach
  have complete : ∀ k ∈ done.map (· + 1), 1 ≤ k ∧ Within cfg.maxRetries k := by
    intro k mem
    obtain ⟨j, earlier, rfl⟩ := List.mem_map.mp mem
    exact ⟨Nat.succ_pos j, within j earlier⟩
  by_cases gaveUp : s.supervisor = .gaveUp
  · rw [gaveUp] at since
    obtain ⟨limited, rfl⟩ := since
    have told : events (done.flatMap recovery ++
        (failures cfg.maxRetries ++ [.announced (.gaveUp cfg.maxRetries)])) =
        (done.map (· + 1)).flatMap cycle ++
          (attempts cfg.maxRetries ++ [.gaveUp cfg.maxRetries]) := by
      rw [events_history, events_append, events_failures]
      rfl
    refine ⟨⟨done.map (· + 1), _, told, complete, .inr ⟨cfg.maxRetries, fun _ => Nat.le_refl _,
      .inr ⟨rfl, limited, rfl, done.flatMap recovery, (List.append_assoc ..).symm⟩⟩⟩, ?_⟩
    intro n mem
    rw [told] at mem ⊢
    obtain rfl : n = cfg.maxRetries := by
      rcases List.mem_append.mp mem with mem | mem
      · exact absurd mem (gaveUp_not_mem_cycles n _)
      · simpa [gaveUp_not_mem_attempts] using mem
    refine ⟨by simp, ?_, fun as t log' ran => ?_⟩
    · rw [List.count_append, List.count_append,
        List.count_eq_zero_of_not_mem (gaveUp_not_mem_cycles _ _),
        List.count_eq_zero_of_not_mem (gaveUp_not_mem_attempts _ _)]
      simp
    · obtain ⟨phase, same⟩ := gaveUp_stays gaveUp ran
      have restored := restored_of_reachable (reachable_of_observed (reach.run ran))
      have off : t.isReady = false :=
        restored.not_ready (by rw [phase]; simp)
      exact ⟨same, off, by simp [State.current, off]⟩
  · have unfinished := events_unfinished (unfinished_of_since gaveUp since)
    refine ⟨⟨done.map (· + 1), events rest, events_history done rest, complete, ?_⟩,
      fun n mem => ?_⟩
    · rcases unfinished with quiet | ⟨k, within, eq⟩
      · exact .inl quiet
      · exact .inr ⟨k, within, .inl eq⟩
    · rw [events_history] at mem
      rcases List.mem_append.mp mem with mem | mem
      · exact absurd mem (gaveUp_not_mem_cycles n _)
      · rcases unfinished with eq | ⟨k, -, eq⟩ <;> rw [eq] at mem
        · cases mem
        · exact absurd mem (gaveUp_not_mem_attempts n k)

/-- The only attempt allowed fails. -/
theorem history_well_formed_gaveUp : ∃ x : State × List Entry,
    (observed ⟨id, fun _ => false, 1⟩).Reachable x ∧
      events x.2 = [.disconnected, .reconnecting 1, .gaveUp 1] ∧ x.1.current = false := by
  have ran : ((observed ⟨id, fun _ => false, 1⟩).run
      [.supervisor (.connect true), .supervisor .announce, .supervisor .drop,
        .supervisor .markNotReady, .supervisor .tell, .supervisor .schedule,
        .supervisor (.dial false), .supervisor .schedule, .supervisor .finish, .closeDone,
        .supervisor .giveUp] ({}, [])).map (fun x => events x.2) =
        some [.disconnected, .reconnecting 1, .gaveUp 1] := by
    decide +kernel
  obtain ⟨⟨s, log⟩, run, told⟩ := Option.map_eq_some_iff.mp ran
  have reach : (observed ⟨id, fun _ => false, 1⟩).Reachable (s, log) :=
    System.Reachable.run (.init rfl) run
  have ended := (history_well_formed _ reach).2 1 (by rw [told]; decide)
  exact ⟨(s, log), reach, told, (ended.2.2 [] s log rfl).2.2⟩

end Protobus.Session
