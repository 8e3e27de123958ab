import Protobus.Library.Bytes
import Mathlib.Data.Nat.Digits.Defs

/-!
# Numerals

A number written as digits, the most significant first. `numeral` says what such a text denotes;
programs read it with a loop that multiplies and adds.
-/
namespace Protobus.Library

/-- The digit that a byte stands for in a base up to 36. Upper and lower case are alike. -/
def digitOf (base : Nat) (b : UInt8) : Option Nat :=
  (if 48 ≤ b && b ≤ 57 then some (b.toNat - 48)
    else if 97 ≤ b && b ≤ 122 then some (b.toNat - 87)
    else if 65 ≤ b && b ≤ 90 then some (b.toNat - 55)
    else none).filter (· < base)

def numeral (base : Nat) (s : Bytes) : Option Nat :=
  if s = [] then none
  else (s.mapM (digitOf base)).map fun ds => Nat.ofDigits base ds.reverse

@[simp] theorem numeral_nil (base : Nat) : numeral base [] = none := rfl

theorem numeral_cons (base : Nat) (b : UInt8) (s : Bytes) :
    numeral base (b :: s) =
      ((b :: s).mapM (digitOf base)).map fun ds => Nat.ofDigits base ds.reverse := by
  simp [numeral]

/-- The loop over the digits. -/
theorem foldl_digits {base : Nat} {f : Option Nat → UInt8 → Option Nat}
    (step : ∀ n b, f (some n) b = (digitOf base b).map (base * n + ·))
    (stuck : ∀ b, f none b = none) (s : Bytes) (n : Nat) :
    s.foldl f (some n) =
      (s.mapM (digitOf base)).map fun ds => Nat.ofDigits base (ds.reverse ++ [n]) := by
  induction s generalizing n with
  | nil => simp
  | cons b s ih =>
    rw [List.foldl_cons, step, List.mapM_cons]
    cases digitOf base b with
    | none =>
      have stays : s.foldl f none = none := by
        clear ih
        induction s with
        | nil => rfl
        | cons b s ih => rw [List.foldl_cons, stuck, ih]
      simpa using stays
    | some d =>
      rw [Option.map_some, ih]
      cases s.mapM (digitOf base) with
      | none => rfl
      | some ds =>
        change some (Nat.ofDigits base (ds.reverse ++ [base * n + d])) =
          some (Nat.ofDigits base ((d :: ds).reverse ++ [n]))
        rw [List.reverse_cons, List.append_assoc, List.singleton_append, Nat.ofDigits_append,
          Nat.ofDigits_append]
        simp [Nat.ofDigits_cons, Nat.add_comm]

theorem isSome_mapM {f : UInt8 → Option Nat} {s : Bytes} :
    (s.mapM f).isSome = true ↔ ∀ b ∈ s, (f b).isSome = true := by
  induction s with
  | nil => simp
  | cons b s ih =>
    rw [List.mapM_cons, List.forall_mem_cons, ← ih]
    cases f b with
    | none => simp
    | some d => cases s.mapM f <;> simp

/-- The numerals are the non-empty sequences of digits. -/
theorem isSome_numeral {base : Nat} {s : Bytes} :
    (numeral base s).isSome = true ↔ s ≠ [] ∧ ∀ b ∈ s, (digitOf base b).isSome = true := by
  rw [numeral, ← isSome_mapM]
  split <;> simp_all

end Protobus.Library
