import Mathlib.Data.List.Perm.Basic

/-!
# Tables

Rows are numbered as they are added and changed in place, and none is ever taken out, so that a
row's number is its identity. `Rows` is a property of every row, and each update has its rule.
-/
namespace Protobus.Library.Table

variable {α β : Type} {P Q : Nat → α → Prop} {xs : List α} {i j : Nat} {x y : α} {f : α → α}

def Rows (P : Nat → α → Prop) (xs : List α) : Prop := ∀ i x, xs[i]? = some x → P i x

theorem Rows.imp (rows : Rows P xs) (weaker : ∀ i x, xs[i]? = some x → P i x → Q i x) : Rows Q xs :=
  fun i x found => weaker i x found (rows i x found)

theorem Rows.nil : Rows P [] := by
  intro i x found
  simp at found

theorem Rows.set (rows : Rows P xs) (new : P i y) : Rows P (xs.set i y) := by
  intro j x found
  rw [List.getElem?_set] at found
  split at found
  · next same =>
    split at found
    · cases found
      exact same ▸ new
    · cases found
  · exact rows j x found

theorem Rows.concat (rows : Rows P xs) (new : P xs.length y) : Rows P (xs ++ [y]) := by
  intro j x found
  obtain old | ⟨rfl, rfl⟩ : xs[j]? = some x ∨ j = xs.length ∧ y = x := by
    grind
  · exact rows j x old
  · exact new

theorem getElem?_concat_of_some (found : xs[i]? = some x) : (xs ++ [y])[i]? = some x := by
  grind

theorem getElem?_set_of_ne (apart : i ≠ j) : (xs.set i y)[j]? = xs[j]? := by
  simp [apart]

theorem getElem?_set_self_of_some (found : xs[i]? = some x) : (xs.set i y)[i]? = some y := by
  grind

theorem getElem?_set_cases (found : (xs.set i y)[j]? = some x) :
    i = j ∧ y = x ∨ i ≠ j ∧ xs[j]? = some x := by
  grind

/-- A row that keeps what is read of it. -/
theorem map_set_of_eq {g : α → β} (found : xs[i]? = some x) (same : g y = g x) :
    (xs.set i y).map g = xs.map g := by
  rw [List.map_set, same]
  apply List.ext_getElem?
  grind

theorem exists_mem_set {g : α → β} {z : α} (found : xs[i]? = some x) (same : g y = g x)
    (mem : z ∈ xs) : ∃ z' ∈ xs.set i y, g z' = g z := by
  have read : g z ∈ (xs.set i y).map g := by
    rw [map_set_of_eq found same]
    exact List.mem_map_of_mem mem
  exact List.mem_map.mp read

theorem getElem?_modify_some (found : (xs.modify i f)[j]? = some y) :
    ∃ x, xs[j]? = some x ∧ y = if i = j then f x else x := by
  grind

theorem modify_eq_set (found : xs[i]? = some x) : xs.modify i f = xs.set i (f x) := by
  apply List.ext_getElem?
  intro j
  grind

theorem map_modify {g : α → β} {f' : β → β} (comm : ∀ x, g (f x) = f' (g x)) :
    (xs.modify i f).map g = (xs.map g).modify i f' := by
  apply List.ext_getElem?
  intro j
  grind

theorem map_modify_of_eq {g : α → β} (same : ∀ x, g (f x) = g x) :
    (xs.modify i f).map g = xs.map g := by
  have comm : ∀ x, g (f x) = id (g x) := same
  rw [map_modify comm, List.modify_id]

theorem cons_eraseIdx_perm (found : xs[i]? = some x) : (x :: xs.eraseIdx i).Perm xs := by
  obtain ⟨lt, rfl⟩ := List.getElem?_eq_some_iff.mp found
  exact List.getElem_cons_eraseIdx_perm lt

theorem mem_of_lookup {κ : Type} [BEq κ] [LawfulBEq κ] {rows : List (κ × α)} {key : κ}
    (found : rows.lookup key = some x) : (key, x) ∈ rows := by
  obtain ⟨front, back, rfl, -⟩ := List.lookup_eq_some_iff.mp found
  simp

end Protobus.Library.Table
