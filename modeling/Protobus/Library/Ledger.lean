import Mathlib.Algebra.BigOperators.Group.List.Basic
import Mathlib.Algebra.Order.BigOperators.Group.List
import Mathlib.Algebra.Order.Ring.Int

/-!
# Ledgers

Several accounts, each with a weight, and their total. One account is changed at a time, and the
total changes by what that account does.
-/
namespace Protobus.Library.Ledger

variable {α : Type} {w : α → Int} {xs : List α} {i : Nat} {x : α}

def total (w : α → Int) (xs : List α) : Int := (xs.map w).sum

@[simp] theorem total_concat (x : α) : total w (xs ++ [x]) = total w xs + w x := by
  simp [total]

theorem total_set (found : xs[i]? = some x) (y : α) :
    total w (xs.set i y) = total w xs + (w y - w x) := by
  obtain ⟨lt, rfl⟩ := List.getElem?_eq_some_iff.mp found
  rw [total, List.map_set, List.sum_set', dif_pos (by simpa using lt), List.getElem_map]
  rw [total]
  omega

/-- What holds of every account still does when one is changed to one it holds of. -/
theorem forall_mem_set {P : α → Prop} {y : α} (each : ∀ x ∈ xs, P x) (new : P y) :
    ∀ x ∈ xs.set i y, P x := by
  intro x mem
  rcases List.mem_or_eq_of_mem_set mem with mem | rfl
  · exact each x mem
  · exact new

theorem le_total (nonneg : ∀ x ∈ xs, 0 ≤ w x) (mem : x ∈ xs) : w x ≤ total w xs := by
  apply List.single_le_sum
  · intro n mem
    obtain ⟨x, held, rfl⟩ := List.mem_map.mp mem
    exact nonneg x held
  · exact List.mem_map_of_mem mem

theorem total_nonneg (nonneg : ∀ x ∈ xs, 0 ≤ w x) : 0 ≤ total w xs := by
  apply List.sum_nonneg
  intro n mem
  obtain ⟨x, held, rfl⟩ := List.mem_map.mp mem
  exact nonneg x held

theorem total_le_total {v : α → Int} (le : ∀ x ∈ xs, w x ≤ v x) : total w xs ≤ total v xs :=
  List.sum_le_sum le

theorem total_congr {v : α → Int} (eq : ∀ x ∈ xs, w x = v x) : total w xs = total v xs := by
  rw [total, total, List.map_congr_left eq]

theorem total_eq_zero (zero : ∀ x ∈ xs, w x = 0) : total w xs = 0 := by
  rw [total_congr zero]
  simp [total]

/-- Accounts of weight 1 are counted. -/
theorem total_ite (p : α → Bool) : total (fun x => if p x then 1 else 0) xs = xs.countP p := by
  induction xs with
  | nil => rfl
  | cons x xs ih =>
    rw [total, List.map_cons, List.sum_cons, List.countP_cons, ← total, ih]
    cases p x <;> simp [Int.add_comm]

theorem total_map {β : Type} (g : β → α) (ys : List β) :
    total w (ys.map g) = total (fun y => w (g y)) ys := by
  rw [total, List.map_map]
  rfl

/-- What each account lists, listed together. -/
theorem length_flatMap_zipIdx {β : Type} {f : α × Nat → List β}
    (same : ∀ p, ((f p).length : Int) = w p.1) (xs : List α) (n : Nat) :
    (((xs.zipIdx n).flatMap f).length : Int) = total w xs := by
  induction xs generalizing n with
  | nil => rfl
  | cons x xs ih =>
    rw [List.zipIdx_cons, List.flatMap_cons, List.length_append, Int.natCast_add, ih, same]
    simp [total]

end Protobus.Library.Ledger
