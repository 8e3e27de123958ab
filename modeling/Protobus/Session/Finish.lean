import Protobus.Session.Readiness

/-!
# The end of a session

`close` clears the flag and leaves the channel `ready` closed, so the two are out of step from
then on. This is harmless because `finish` has returned by that time: nobody marks the session
ready again, and a caller of `whenReady` asks `doneCh` first.
-/
namespace Protobus.Session
open Library

variable {cfg : Setting} {s t : State}

/-! ## The steps of `close` and `whenReady` -/

/-- The call of `finish` in it has returned. -/
def Closer.past : Closer → Bool
  | .finished | .cancelled | .closed => true
  | _ => false

inductive CloseStep (s : State) (i : Nat) : State → Prop
  | move {p : Closer} : (p.past = true → s.once = .done) → CloseStep s i (s.setCloser i p)
  | finish {err : Err} : s.once = .fresh →
      CloseStep s i { s with once := .running, doneErr := some err }
  | cancel : s.closers i = .finished →
      CloseStep s i { s.setCloser i .cancelled with cancelled := true }
  | unready : s.closers i = .cancelled →
      CloseStep s i { s.setCloser i .closed with isReady := false }

theorem closeStep_of_step {i : Nat} {a : CloseAction} (h : s.closeStep i a = some t) :
    CloseStep s i t := by
  cases a with
  | call =>
    simp only [State.closeStep] at h
    split at h
    · cases h
      exact .move (by simp [Closer.past])
    · cases h
  | finish =>
    simp only [State.closeStep] at h
    split at h
    · obtain ⟨first, rfl⟩ := finish_eq_some.mp h
      exact .finish first
    · cases h
  | resume =>
    simp only [State.closeStep] at h
    split at h
    · simp only [Option.ite_none_right_eq_some, Option.some.injEq] at h
      obtain ⟨done, rfl⟩ := h
      exact .move fun _ => done
    · cases h
  | cancel =>
    simp only [State.closeStep] at h
    split at h
    · next pc =>
      cases h
      exact .cancel pc
    · cases h
  | unready =>
    simp only [State.closeStep] at h
    split at h
    · next pc =>
      cases h
      exact .unready pc
    · cases h

/-- The call has not got past the first look at `doneCh`, or it fails. -/
def Waiter.barred : Waiter → Bool
  | .idle | .took _ | .failing | .returned (some _) => true
  | _ => false

/-- A call of `whenReady` changes nothing but itself. Once `doneCh` is closed, one that is
barred stays so. -/
theorem waitStep_of_step {i : Nat} {a : WaitAction} (h : s.waitStep i a = some t) :
    ∃ p, t = s.setWaiter i p ∧ (s.once = .done → s.doneErr ≠ none →
      (s.waiters i).barred = true → p.barred = true) := by
  cases a with
  | take =>
    simp only [State.waitStep] at h
    split at h
    · cases h
      exact ⟨_, rfl, fun _ _ _ => rfl⟩
    · cases h
  | checkDone =>
    simp only [State.waitStep] at h
    split at h
    · cases h
      exact ⟨_, rfl, fun done _ _ => by simp [State.doneClosed, done, Waiter.barred]⟩
    · cases h
  | checkReady | recheck | giveUp err =>
    simp only [State.waitStep] at h
    split at h
    · next pc =>
      cases h
      exact ⟨_, rfl, fun _ _ barred => by simp [pc, Waiter.barred] at barred⟩
    · cases h
  | wake | interrupt =>
    simp only [State.waitStep] at h
    split at h
    · next pc =>
      simp only [Option.ite_none_right_eq_some, Option.some.injEq] at h
      obtain ⟨_, rfl⟩ := h
      exact ⟨_, rfl, fun _ _ barred => by simp [pc, Waiter.barred] at barred⟩
    · cases h
  | fail =>
    simp only [State.waitStep] at h
    split at h
    · cases h
      refine ⟨_, rfl, fun _ failed _ => ?_⟩
      obtain ⟨err, failed⟩ := Option.ne_none_iff_exists'.mp failed
      rw [failed]
      rfl
    · cases h

/-! ## The flag and the channel -/

structure Announced (s : State) : Prop where
  unfinished : s.once = .fresh ↔ s.doneErr = none
  closers : ∀ i, (s.closers i).past = true → s.once = .done
  gaveUp : s.supervisor = .gaveUp → s.once = .done
  closes : ∀ c, s.closes c ≤ 1
  later : ∀ c, s.ready < c → s.closes c = 0
  current : s.doneErr = none → s.closes s.ready = if s.isReady then 1 else 0

namespace Announced
variable (h : Announced s)
include h

theorem markReady : Announced s.markReady := by
  unfold State.markReady
  split
  · exact h
  · next unready =>
    simp only [Bool.or_eq_true, not_or, Bool.not_eq_true, Option.isSome_eq_false_iff,
      Option.isNone_iff_eq_none] at unready
    obtain ⟨running, unready⟩ := unready
    have shut : s.closes s.ready = 0 := by simpa [unready] using h.current running
    refine { h with closes := ?_, later := ?_, current := ?_ }
    · intro c
      change Function.update s.closes s.ready _ c ≤ 1
      rw [Function.update_apply]
      split
      · omega
      · exact h.closes c
    · intro c lt
      change Function.update s.closes s.ready _ c = 0
      change s.ready < c at lt
      rw [Function.update_of_ne (by omega)]
      exact h.later c lt
    · intro _
      change Function.update s.closes s.ready _ s.ready = 1
      rw [Function.update_self, shut]

theorem markNotReady : Announced s.markNotReady := by
  unfold State.markNotReady
  split
  · refine { h with later := ?_, current := ?_ }
    · intro c lt
      exact h.later c (Nat.lt_of_succ_lt lt)
    · intro _
      exact h.later _ (Nat.lt_succ_self _)
  · exact h

/-- The supervisor moves on. -/
theorem goto {p : Supervisor} (done : p = .gaveUp → s.once = .done) :
    Announced { s with supervisor := p } :=
  { h with gaveUp := done }

theorem finish {err : Err} (first : s.once = .fresh) :
    Announced { s with once := .running, doneErr := some err } := by
  refine { h with unfinished := by simp, closers := ?_, gaveUp := ?_, current := by simp }
  · intro i finished
    simp [h.closers i finished] at first
  · intro phase
    simp [h.gaveUp phase] at first

theorem supStep (next : SupStep cfg s t) : Announced t := by
  cases next with
  | announce => exact h.markReady.goto (by simp)
  | leave _ to' =>
    refine h.goto fun eq => ?_
    rcases to' with rfl | rfl <;> cases eq
  | lost => exact h.markNotReady.goto (by simp)
  | goto _ _ done => exact h.goto done
  | finish first => exact h.finish first
  | connect | dial | lock | restore | failed | unlock | checked =>
    exact { h with gaveUp := by simp }

theorem jobStep {i : Nat} (next : JobStep cfg s i t) : Announced t := by
  cases next <;> exact { h with }

theorem setCloser {i : Nat} {p : Closer} (done : p.past = true → s.once = .done) :
    Announced (s.setCloser i p) := by
  refine { h with closers := ?_ }
  intro j finished
  change (Function.update s.closers i p j).past = true at finished
  rw [Function.update_apply] at finished
  split at finished
  · exact done finished
  · exact h.closers j finished

theorem closeStep {i : Nat} (next : CloseStep s i t) : Announced t := by
  cases next with
  | move done => exact h.setCloser done
  | finish first => exact h.finish first
  | cancel pc =>
    have done := h.closers i (by rw [pc]; rfl)
    exact { h.setCloser (i := i) (p := .cancelled) fun _ => done with }
  | unready pc =>
    have done := h.closers i (by rw [pc]; rfl)
    refine { h.setCloser (i := i) (p := .closed) fun _ => done with current := ?_ }
    intro running
    rw [h.unfinished.mpr running] at done
    cases done

theorem closeDone (first : s.once = .running) : Announced { s with once := .done } := by
  have finished : s.doneErr ≠ none := by
    intro none
    rw [h.unfinished.mpr none] at first
    cases first
  exact { h with
    unfinished := by simp [finished]
    closers := fun _ _ => rfl
    gaveUp := fun _ => rfl }

end Announced

/-! ## Runs -/

theorem Restored.closeStep {i : Nat} (h : Restored cfg s) (next : CloseStep s i t) :
    Restored cfg t := by
  cases next with
  | unready => exact { h.unready s.ready with }
  | move | finish | cancel => exact { h with }

theorem restored_of_reachable (reach : (sessions cfg).Reachable s) : Restored cfg s := by
  apply reach.invariant (Restored cfg)
  · rintro s rfl
    constructor <;> simp [Job.active, Job.conn, Supervisor.conn, State.Settled, Supervisor.settled]
  · intro s a t _ h next
    cases a with
    | supervisor a => exact h.supStep (supStep_of_step next)
    | job i a => exact h.jobStep (jobStep_of_step next)
    | closer i a => exact h.closeStep (closeStep_of_step next)
    | waiter i a =>
      obtain ⟨p, rfl, -⟩ := waitStep_of_step next
      exact { h with }
    | closeDone =>
      simp only [sessions, State.step, Option.ite_none_right_eq_some, Option.some.injEq] at next
      obtain ⟨_, rfl⟩ := next
      exact { h with }
    | closeBus =>
      cases next
      exact { h with }

theorem announced_of_reachable (reach : (sessions cfg).Reachable s) : Announced s := by
  apply reach.invariant Announced
  · rintro s rfl
    constructor <;> simp [Closer.past]
  · intro s a t _ h next
    cases a with
    | supervisor a => exact h.supStep (supStep_of_step next)
    | job i a => exact h.jobStep (jobStep_of_step next)
    | closer i a => exact h.closeStep (closeStep_of_step next)
    | waiter i a =>
      obtain ⟨p, rfl, -⟩ := waitStep_of_step next
      exact { h with }
    | closeDone =>
      simp only [sessions, State.step, Option.ite_none_right_eq_some, Option.some.injEq] at next
      obtain ⟨running, rfl⟩ := next
      exact h.closeDone running
    | closeBus =>
      cases next
      exact { h with }

/-- The session is finished, and the given calls of `whenReady` started after that. -/
structure Finished (err : Err) (late : Nat → Prop) (s : State) : Prop where
  once : s.once = .done
  err : s.doneErr = some err
  late : ∀ i, late i → (s.waiters i).barred = true

namespace Finished
variable {err : Err} {late : Nat → Prop} (h : Finished err late s)
include h

theorem supStep (next : SupStep cfg s t) : Finished err late t := by
  cases next with
  | announce =>
    unfold State.markReady
    split <;> exact { h with }
  | lost =>
    unfold State.markNotReady
    split <;> exact { h with }
  | finish first => exact absurd first (by simp [h.once])
  | connect | leave | goto | dial | lock | restore | failed | unlock | checked =>
    exact { h with }

theorem step {a : Action} (next : (sessions cfg).step s a = some t) : Finished err late t := by
  cases a with
  | supervisor a => exact h.supStep (supStep_of_step next)
  | job i a => cases jobStep_of_step next <;> exact { h with }
  | closer i a =>
    cases closeStep_of_step next with
    | finish first => exact absurd first (by simp [h.once])
    | move | cancel | unready => exact { h with }
  | waiter i a =>
    obtain ⟨p, rfl, barred⟩ := waitStep_of_step next
    refine { h with late := ?_ }
    intro j later
    change (Function.update s.waiters i p j).barred = true
    rw [Function.update_apply]
    split
    · next eq =>
      subst eq
      exact barred h.once (by simp [h.err]) (h.late j later)
    · exact h.late j later
  | closeDone =>
    simp only [sessions, State.step, Option.ite_none_right_eq_some, Option.some.injEq] at next
    simp [h.once] at next
  | closeBus =>
    cases next
    exact { h with }

end Finished

/-- In every run, the components of a session that reports ready were last restored on its
connection, and no channel `ready` is closed twice. Once a call of `finish` has returned, the
session never reports ready again, its error stays, and a call of `whenReady` that starts from
then on fails if it returns. -/
theorem ready_restored (cfg : Setting) {s : State} (reach : (sessions cfg).Reachable s) :
    (s.current = true → ∀ r ∈ s.comps, s.last (cfg.component r) = some s.gen) ∧
    (∀ ch, s.closes ch ≤ 1) ∧
    ((s.supervisor = .gaveUp ∨ ∃ i, (s.closers i).past = true) →
      ∀ as t, (sessions cfg).run as s = some t →
        t.current = false ∧ t.doneErr ≠ none ∧ t.doneErr = s.doneErr ∧
        ∀ i, s.waiters i = .idle → t.waiters i ≠ .returned none) := by
  have restored := restored_of_reachable reach
  have announced := announced_of_reachable reach
  refine ⟨?_, announced.closes, ?_⟩
  · intro current
    exact restored.settled (.inl (Bool.and_eq_true_iff.mp current).1)
  · intro returned as t run
    have once : s.once = .done := by
      rcases returned with phase | ⟨i, past⟩
      · exact announced.gaveUp phase
      · exact announced.closers i past
    have failed : s.doneErr ≠ none := by
      intro none
      rw [announced.unfinished.mpr none] at once
      cases once
    obtain ⟨err, failed⟩ := Option.ne_none_iff_exists'.mp failed
    have start : Finished err (fun i => s.waiters i = .idle) s :=
      ⟨once, failed, fun i idle => by rw [idle]; rfl⟩
    have finished : Finished err (fun i => s.waiters i = .idle) t :=
      System.run_keeps (P := Finished err fun i => s.waiters i = .idle)
        (fun _ _ _ h next => h.step next) start run
    refine ⟨by simp [State.current, finished.err], by simp [finished.err],
      finished.err.trans failed.symm, ?_⟩
    intro i idle returned
    have barred := finished.late i idle
    rw [returned] at barred
    cases barred

/-- The connection is lost while a component is attached; it is attached on the dead connection
and restored on the next one. -/
theorem ready_restored_reconnected :
    ∃ s : State, (sessions ⟨id, fun _ => false, 0⟩).Reachable s ∧ s.current = true ∧
      s.comps = [0] ∧ s.last 0 = some 2 := by
  have ran : ((sessions ⟨id, fun _ => false, 0⟩).run
      [.supervisor (.connect true), .supervisor .announce, .job 0 .lock, .job 0 .checkBus,
        .job 0 .look, .supervisor .drop, .supervisor .markNotReady, .supervisor .tell,
        .supervisor .schedule, .supervisor (.dial true), .job 0 (.complete true false),
        .job 0 .register, .job 0 .settle, .supervisor .lock, .supervisor (.restore true),
        .supervisor .unlock, .supervisor .checkContext, .supervisor .announce] {}).map
        (fun s => decide (s.current = true ∧ s.comps = [0] ∧ s.gen = 2)) = some true := by
    decide +kernel
  obtain ⟨s, run, eq⟩ := Option.map_eq_some_iff.mp ran
  obtain ⟨current, comps, gen⟩ := of_decide_eq_true eq
  have reach : (sessions ⟨id, fun _ => false, 0⟩).Reachable s :=
    System.Reachable.run (.init rfl) run
  have last := (ready_restored _ reach).1 current 0 (by simp [comps])
  exact ⟨s, reach, current, comps, gen ▸ last⟩

end Protobus.Session
