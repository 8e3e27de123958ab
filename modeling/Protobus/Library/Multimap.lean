import Mathlib.Data.List.AList
import Mathlib.Data.Finset.Basic

/-!
# Multimaps

A map from keys to sets, which has a key only while its set has an element: the key comes with the
first element and goes with the last.
-/
namespace Protobus.Library

structure Multimap (κ α : Type) [DecidableEq κ] where
  sets : AList fun _ : κ => Finset α
  nonempty : ∀ k, ∀ set ∈ sets.lookup k, set ≠ ∅

namespace Multimap
variable {κ α : Type} [DecidableEq κ]

def get (r : Multimap κ α) (k : κ) : Finset α := (r.sets.lookup k).getD ∅

/-- How many keys there are. -/
def size (r : Multimap κ α) : Nat := r.sets.entries.length

def empty : Multimap κ α := ⟨∅, by simp⟩

/-- No key is left when nothing is left under any. -/
theorem size_eq_zero {r : Multimap κ α} (h : ∀ k, r.get k = ∅) : r.size = 0 := by
  rw [size, List.length_eq_zero_iff]
  cases eq : r.sets.entries with
  | nil => rfl
  | cons e es =>
    have found : e.2 ∈ r.sets.lookup e.1 := by
      rw [AList.mem_lookup_iff, eq]
      exact List.mem_cons_self
    have all : r.get e.1 = e.2 := by rw [get, Option.mem_def.mp found, Option.getD_some]
    exact absurd (all.symm.trans (h e.1)) (r.nonempty e.1 e.2 found)

variable [DecidableEq α]

def add (r : Multimap κ α) (k : κ) (a : α) : Multimap κ α where
  sets := r.sets.insert k (insert a (r.get k))
  nonempty j set mem := by
    by_cases same : j = k
    · subst same
      rw [AList.lookup_insert] at mem
      cases mem
      exact Finset.insert_ne_empty a (r.get j)
    · rw [AList.lookup_insert_ne same] at mem
      exact r.nonempty j set mem

def remove (r : Multimap κ α) (k : κ) (a : α) : Multimap κ α :=
  if last : (r.get k).erase a = ∅ then
    { sets := r.sets.erase k
      nonempty := fun j set mem => by
        by_cases same : j = k
        · subst same
          rw [AList.lookup_erase] at mem
          cases mem
        · rw [AList.lookup_erase_ne same] at mem
          exact r.nonempty j set mem }
  else
    { sets := r.sets.insert k ((r.get k).erase a)
      nonempty := fun j set mem => by
        by_cases same : j = k
        · subst same
          rw [AList.lookup_insert] at mem
          cases mem
          exact last
        · rw [AList.lookup_insert_ne same] at mem
          exact r.nonempty j set mem }

theorem get_add (r : Multimap κ α) (k j : κ) (a : α) :
    (r.add k a).get j = if j = k then insert a (r.get k) else r.get j := by
  split
  · next same => rw [same, get, add, AList.lookup_insert, Option.getD_some]
  · next other => rw [get, add, AList.lookup_insert_ne other, get]

theorem get_remove (r : Multimap κ α) (k j : κ) (a : α) :
    (r.remove k a).get j = if j = k then (r.get k).erase a else r.get j := by
  unfold remove
  split
  · next last =>
    split
    · next same => rw [same, get, AList.lookup_erase, Option.getD_none, last]
    · next other => rw [get, AList.lookup_erase_ne other, get]
  · split
    · next same => rw [same, get, AList.lookup_insert, Option.getD_some]
    · next other => rw [get, AList.lookup_insert_ne other, get]

end Multimap
end Protobus.Library
