import Mathlib.Data.List.Induction
import Mathlib.Data.List.Pairwise
import Mathlib.Data.List.Sort

/-!
# Keeping first occurrences

`List.eraseDups` keeps the first occurrence of every element. These lemmas relate it to
the loop that appends an element unless it is already there, and to sorting by a key that
identifies the elements: after sorting, first occurrences are the elements in key order.
-/
namespace Protobus.Library

variable {α β : Type*} [BEq α] [LawfulBEq α] [BEq β] [LawfulBEq β]

theorem eraseDups_concat (l : List α) (a : α) :
    (l ++ [a]).eraseDups = if a ∈ l then l.eraseDups else l.eraseDups ++ [a] := by
  rw [List.eraseDups_append]
  by_cases h : a ∈ l <;> simp [List.removeAll, h, List.eraseDups_cons]

/-- The append-unless-present loop, started behind an arbitrary prefix that it must not
look at. -/
theorem foldl_append_unless_mem (pre l : List α) :
    l.foldl (fun acc a => if (acc.drop pre.length).contains a then acc else acc ++ [a]) pre =
      pre ++ l.eraseDups := by
  induction l using List.reverseRecOn with
  | nil => simp
  | append_singleton l a ih =>
    rw [List.foldl_append, ih, eraseDups_concat]
    by_cases h : a ∈ l <;> simp [List.mem_eraseDups, h]

theorem eraseDups_of_nodup {l : List α} (once : l.Nodup) : l.eraseDups = l := by
  induction l using List.reverseRecOn with
  | nil => rfl
  | append_singleton l a ih =>
    obtain ⟨front, -, apart⟩ := List.nodup_append.mp once
    have fresh : a ∉ l := fun mem => apart a mem a (List.mem_singleton.mpr rfl) rfl
    rw [eraseDups_concat, if_neg fresh, ih front]

theorem nodup_eraseDups (l : List α) : l.eraseDups.Nodup := by
  induction l using List.reverseRecOn with
  | nil => simp
  | append_singleton l a ih =>
    rw [eraseDups_concat]
    by_cases h : a ∈ l
    · simpa [h] using ih
    · simp only [h, ↓reduceIte]
      exact List.nodup_append.mpr ⟨ih, by simp, by
        intro x hx y hy
        rw [List.mem_singleton.mp hy]
        rintro rfl
        exact h (List.mem_eraseDups.mp hx)⟩

theorem eraseDups_sublist (l : List α) : l.eraseDups.Sublist l := by
  induction l using List.reverseRecOn with
  | nil => simp
  | append_singleton l a ih =>
    rw [eraseDups_concat]
    split_ifs
    · exact ih.trans (List.sublist_append_left l [a])
    · exact ih.append_right [a]

/-- Dropping repetitions before a projection does not change which projected value comes
first. -/
theorem eraseDups_map_eraseDups (f : α → β) (l : List α) :
    (l.eraseDups.map f).eraseDups = (l.map f).eraseDups := by
  induction l using List.reverseRecOn with
  | nil => simp
  | append_singleton l a ih =>
    rw [eraseDups_concat, List.map_append, List.map_singleton, eraseDups_concat]
    by_cases h : a ∈ l
    · have hf : f a ∈ l.map f := List.mem_map_of_mem h
      simpa [h, hf] using ih
    · have mem : f a ∈ l.eraseDups.map f ↔ f a ∈ l.map f := by
        simp only [List.mem_map, List.mem_eraseDups]
      rw [if_neg h, List.map_append, List.map_singleton, eraseDups_concat, ih]
      simp only [mem]

/-- Two lists with the same elements, the first sorted by a key and the second strictly
sorted by it, agree once repetitions are dropped. -/
theorem eraseDups_eq_of_sorted (key : α → ℕ) {l m : List α}
    (hl : l.Pairwise (fun a b => key a ≤ key b)) (hm : m.Pairwise (fun a b => key a < key b))
    (mem : ∀ a, a ∈ l ↔ a ∈ m) : l.eraseDups = m := by
  have nodup : m.Nodup := hm.imp (fun {a b} h => by rintro rfl; omega)
  have perm : l.eraseDups.Perm m :=
    (List.perm_ext_iff_of_nodup (nodup_eraseDups l) nodup).mpr
      (fun a => List.mem_eraseDups.trans (mem a))
  have inj : ∀ a ∈ m, ∀ b ∈ m, a ≠ b → key a ≠ key b := by
    have symm : Std.Symm (fun a b => key a ≠ key b) := ⟨fun _ _ h => h.symm⟩
    intro a ha b hb hab
    exact (hm.imp (fun h => h.ne)).forall ha hb hab
  have sorted : l.eraseDups.Pairwise (fun a b => key a ≤ key b) :=
    hl.sublist (eraseDups_sublist l)
  refine List.Perm.eq_of_pairwise ?_ sorted (hm.imp (fun h => h.le)) perm
  intro a b ha hb hab hba
  by_contra ne
  have ha' : a ∈ m := (mem a).mp (List.mem_eraseDups.mp ha)
  exact inj a ha' b hb ne (le_antisymm hab hba)

end Protobus.Library
