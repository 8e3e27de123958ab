/-!
# Transition systems

A system takes labelled partial steps. `Reachable` collects the states of all runs, and a
property that holds at the start and survives every step holds in all of them. A run whose
steps all meet a condition is a run of the restricted system.
-/
namespace Protobus.Library

structure System (σ α : Type) where
  init : σ → Prop
  step : σ → α → Option σ

namespace System
variable {σ α : Type} {S : System σ α}

inductive Reachable (S : System σ α) : σ → Prop
  | init {s : σ} : S.init s → Reachable S s
  | step {s t : σ} {a : α} : Reachable S s → S.step s a = some t → Reachable S t

/-- The invariant rule. The step may use that its source is reachable. -/
theorem Reachable.invariant {s : σ} (reach : S.Reachable s) (P : σ → Prop)
    (start : ∀ s, S.init s → P s)
    (keep : ∀ s a t, S.Reachable s → P s → S.step s a = some t → P t) : P s := by
  induction reach with
  | init hs => exact start _ hs
  | step before hstep ih => exact keep _ _ _ before ih hstep

/-- Execute a list of steps, all of which must be possible. -/
def run (S : System σ α) : List α → σ → Option σ
  | [], s => some s
  | a :: as, s => match S.step s a with
    | none => none
    | some t => run S as t

/-- What every step keeps, a run keeps. -/
theorem run_keeps {P : σ → Prop} (keep : ∀ s a t, P s → S.step s a = some t → P t) {s t : σ}
    {as : List α} (hs : P s) (hrun : S.run as s = some t) : P t := by
  induction as generalizing s with
  | nil =>
    cases hrun
    exact hs
  | cons a as ih =>
    rw [System.run] at hrun
    cases hstep : S.step s a with
    | none => simp [hstep] at hrun
    | some u =>
      rw [hstep] at hrun
      exact ih (keep s a u hs hstep) hrun

theorem Reachable.run {s t : σ} {as : List α} (reach : S.Reachable s)
    (hrun : S.run as s = some t) : S.Reachable t :=
  run_keeps (fun _ _ _ before hstep => before.step hstep) reach hrun

/-- Only the steps that meet a condition on the state before them. -/
def restrict (S : System σ α) (ok : σ → α → Bool) : System σ α where
  init := S.init
  step s a := if ok s a then S.step s a else none

theorem restrict_step {ok : σ → α → Bool} {s t : σ} {a : α} :
    (S.restrict ok).step s a = some t ↔ ok s a = true ∧ S.step s a = some t := by
  simp [restrict]

theorem Reachable.of_restrict {ok : σ → α → Bool} {s : σ}
    (reach : (S.restrict ok).Reachable s) : S.Reachable s := by
  induction reach with
  | init hs => exact .init hs
  | step _ hstep ih => exact ih.step (restrict_step.mp hstep).2

end System

/-- Where a state lists its threads or its messages and a step takes one of them out, the others
stay. -/
theorem mem_eraseIdx_or {α : Type} {xs : List α} {i : Nat} {x y : α} (at_i : xs[i]? = some x)
    (mem : y ∈ xs) : y = x ∨ y ∈ xs.eraseIdx i := by
  obtain ⟨j, at_j⟩ := List.mem_iff_getElem?.mp mem
  by_cases same : j = i
  · subst same
    exact .inl (Option.some.inj (at_j.symm.trans at_i))
  · exact .inr (List.mem_eraseIdx_iff_getElem?.mpr ⟨j, same, at_j⟩)

end Protobus.Library
