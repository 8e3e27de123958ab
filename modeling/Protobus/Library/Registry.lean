import Mathlib.Data.List.Nodup

/-!
# Registries

Values are entered under fresh numbers and removed by number. A value may be entered several times;
its number tells the entries apart. The two fields that are proofs say that numbers are not used
again.
-/
namespace Protobus.Library

structure Registry (α : Type) where
  entries : List (Nat × α)
  fresh : Nat
  below : ∀ e ∈ entries, e.1 < fresh
  once : (entries.map Prod.fst).Nodup

namespace Registry
variable {α : Type}

def empty : Registry α := ⟨[], 0, by simp, by simp⟩

/-- The registry with one more entry, whose number is `r.fresh`. -/
def register (r : Registry α) (a : α) : Registry α where
  entries := r.entries ++ [(r.fresh, a)]
  fresh := r.fresh + 1
  below e mem := by
    rcases List.mem_append.mp mem with mem | mem
    · exact Nat.lt_succ_of_lt (r.below e mem)
    · rw [List.mem_singleton.mp mem]
      exact Nat.lt_succ_self _
  once := by
    rw [List.map_append, List.nodup_append]
    refine ⟨r.once, by simp, ?_⟩
    intro i old j new eq
    obtain ⟨e, mem, rfl⟩ := List.mem_map.mp old
    have lt := r.below e mem
    rw [List.map_singleton, List.mem_singleton] at new
    omega

def unregister (r : Registry α) (id : Nat) : Registry α where
  entries := r.entries.eraseP (·.1 = id)
  fresh := r.fresh
  below e mem := r.below e (List.mem_of_mem_eraseP mem)
  once := r.once.sublist (List.eraseP_sublist.map Prod.fst)

theorem mem_register_self (r : Registry α) (a : α) : (r.fresh, a) ∈ (r.register a).entries :=
  List.mem_append_right _ List.mem_cons_self

theorem mem_register {r : Registry α} {id : Nat} {a : α} (mem : (id, a) ∈ r.entries) (b : α) :
    (id, a) ∈ (r.register b).entries :=
  List.mem_append_left _ mem

/-- An entry stays when another is removed. -/
theorem mem_unregister {r : Registry α} {id id' : Nat} {a : α} (mem : (id', a) ∈ r.entries)
    (other : id' ≠ id) : (id', a) ∈ (r.unregister id).entries :=
  (List.mem_eraseP_of_neg (by simpa using other)).mpr mem

/-- A number has one value. -/
theorem eq_of_mem {r : Registry α} {id : Nat} {a b : α} (left : (id, a) ∈ r.entries)
    (right : (id, b) ∈ r.entries) : a = b :=
  congrArg Prod.snd (List.inj_on_of_nodup_map r.once left right rfl)

variable [DecidableEq α]

def count (r : Registry α) (a : α) : Nat := r.entries.countP (·.2 = a)

@[simp] theorem count_empty (a : α) : (empty : Registry α).count a = 0 := rfl

theorem count_register (r : Registry α) (a b : α) :
    (r.register a).count b = r.count b + if a = b then 1 else 0 := by
  simp [count, register, List.countP_append, List.countP_cons]

/-- Removing an entry takes one from the count of its value. -/
theorem count_unregister {r : Registry α} {id : Nat} {a : α} (mem : (id, a) ∈ r.entries) (b : α) :
    (r.unregister id).count b + (if a = b then 1 else 0) = r.count b := by
  obtain ⟨e, front, rest, -, hit, split, erased⟩ :=
    List.exists_of_eraseP (p := fun e => decide (e.1 = id)) mem (by simp)
  have same : e = (id, a) := by
    have held : e ∈ r.entries := by simp [split]
    exact List.inj_on_of_nodup_map r.once held mem (of_decide_eq_true hit)
  change (r.entries.eraseP (fun e => decide (e.1 = id))).countP _ + _ = r.entries.countP _
  rw [erased, split, same]
  simp only [List.countP_append, List.countP_cons, decide_eq_true_eq]
  omega

end Registry
end Protobus.Library
