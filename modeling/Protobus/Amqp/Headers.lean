import Protobus.Library.Bytes
import Mathlib.Algebra.Order.Ring.Int

/-!
# AMQP headers

A header table is loosely typed and filled by the publisher: peers encode an integer in
whatever width suits its value, and some send it as a text. The readers accept all of them
and treat what they cannot read as absent.
-/
namespace Protobus.Amqp
open Library

/-- A floating-point number, by its value. -/
inductive Floating
  | nan
  | inf (negative : Bool)
  | finite (q : Rat)

/-- A header value. `other` stands for the types no reader looks at. -/
inductive Value
  | nil
  | bool (b : Bool)
  | int (n : Int64)
  | int8 (n : Int8)
  | int16 (n : Int16)
  | int32 (n : Int32)
  | int64 (n : Int64)
  | uint8 (n : UInt8)
  | uint16 (n : UInt16)
  | uint32 (n : UInt32)
  | uint64 (n : UInt64)
  | float32 (f : Floating)
  | float64 (f : Floating)
  | string (s : Bytes)
  | bytes (s : Bytes)
  | other

abbrev Table := Bytes → Option Value

def Table.empty : Table := fun _ => none

def Table.set (h : Table) (k : Bytes) (v : Value) : Table := Function.update h k (some v)

def Table.delete (h : Table) (k : Bytes) : Table := Function.update h k none

@[simp] theorem Table.set_apply (h : Table) (k j : Bytes) (v : Value) :
    h.set k v j = if j = k then some v else h j := Function.update_apply ..

@[simp] theorem Table.delete_apply (h : Table) (k j : Bytes) :
    h.delete k j = if j = k then none else h j := Function.update_apply ..

/-! ## Numbers as texts -/

/-- A non-empty sequence of decimal digits. -/
def parseDigits : Bytes → Option Nat
  | [] => none
  | s => s.foldl (fun (n : Option Nat) (b : UInt8) => match n with
    | some n => if 48 ≤ b && b ≤ 57 then some (10 * n + (b.toNat - 48)) else none
    | none => none) (some 0)

/-- `strconv.ParseInt(s, 10, 64)`, without the reason of a failure. -/
def parseInt (s : Bytes) : Option Int :=
  match s with
  | 45 :: s => (parseDigits s).bind fun n => if n ≤ 2 ^ 63 then some (-n) else none
  | 43 :: s => (parseDigits s).bind fun n => if n < 2 ^ 63 then some n else none
  | s => (parseDigits s).bind fun n => if n < 2 ^ 63 then some n else none

/-! ## Readers -/

section
-- what `int64(f)` gives for `f = 2^63`, which Go leaves to the platform
variable (wide : Int)

/-- The upper bound is the constant `MaxInt64` as a `float64`, which is `2^63`. -/
def floatInt : Floating → Option Int
  | .finite q =>
    if q.den ≠ 1 || q.num < -2 ^ 63 || q.num > 2 ^ 63 then none
    else if q.num = 2 ^ 63 then some wide
    else some q.num
  | _ => none

def headerInt : Value → Option Int
  | .int n | .int64 n => some n.toInt
  | .int8 n => some n.toInt
  | .int16 n => some n.toInt
  | .int32 n => some n.toInt
  | .uint8 n => some n.toNat
  | .uint16 n => some n.toNat
  | .uint32 n => some n.toNat
  | .uint64 n => if n.toNat ≥ 2 ^ 63 then none else some n.toNat
  | .float32 f | .float64 f => floatInt wide f
  | .string s | .bytes s => parseInt (trimSpace s)
  | _ => none

def intHeader (n : Int) : Value :=
  if -2 ^ 31 ≤ n ∧ n ≤ 2 ^ 31 - 1 then .int32 (Int32.ofInt n) else .int64 (Int64.ofInt n)

def headerRetryCount := lit "x-retry-count"
def headerOriginalKey := lit "x-original-routing-key"
def headerOriginalQueue := lit "x-original-queue"
def headerFirstFailure := lit "x-first-failure-time"
def headerDeadLetterTime := lit "x-dlq-time"
def headerLastError := lit "x-last-error"
def headerFinal := lit "x-protobus-final"
def headerSeq := lit "x-protobus-seq"

/-- `strings.EqualFold` against a text of lower-case ASCII letters that no other rune folds
to. -/
def equalFold (s lower : Bytes) : Bool :=
  s.map (fun b => if 65 ≤ b && b ≤ 90 then b + 32 else b) = lower

def streamFinal (h : Table) : Bool :=
  match (h headerFinal).getD .nil with
  | .nil => false
  | .bool b => b
  | .string s | .bytes s => equalFold s (lit "true") || s = lit "1"
  | v => (headerInt wide v).any (· ≠ 0)

def streamSeq (h : Table) : Option Int :=
  match h headerSeq with
  | none => none
  | some v => (headerInt wide v).filter (0 ≤ ·)

/-- A count of type `int`, read from any header. -/
def retryCount (h : Table) : Nat :=
  match headerInt wide ((h headerRetryCount).getD .nil) with
  | none => 0
  | some n => if n < 0 then 0 else if n > 2 ^ 31 - 1 then 2 ^ 31 - 1 else n.toNat

theorem headerInt_intHeader {n : Int} (lo : -2 ^ 63 ≤ n) (hi : n < 2 ^ 63) :
    headerInt wide (intHeader n) = some n := by
  unfold intHeader
  split
  · next narrow =>
    simp only [headerInt, Option.some.injEq]
    exact Int32.toInt_ofInt_of_le narrow.1 (by omega)
  · simp only [headerInt, Option.some.injEq]
    exact Int64.toInt_ofInt_of_le lo hi

theorem retryCount_le (h : Table) : retryCount wide h ≤ 2 ^ 31 - 1 := by
  unfold retryCount
  split <;> grind

/-- What the next hop reads is what this one wrote. -/
theorem retryCount_of_get {n : Nat} (le : n ≤ 2 ^ 31 - 1) {h : Table}
    (written : h headerRetryCount = some (intHeader n)) : retryCount wide h = n := by
  simp only [retryCount, written, Option.getD_some]
  rw [headerInt_intHeader wide (by omega) (by omega)]
  grind

theorem streamSeq_of_get {n : Int} (lo : 0 ≤ n) (hi : n < 2 ^ 63) {h : Table}
    (written : h headerSeq = some (intHeader n)) : streamSeq wide h = some n := by
  simp only [streamSeq, written]
  rw [headerInt_intHeader wide (by omega) hi]
  simp [lo]

end

example : headerInt 0 (.string (lit " -12\n")) = some (-12) := by decide
example : retryCount 0 (Table.empty.set headerRetryCount (.float64 (.finite 3))) = 3 := by decide

end Protobus.Amqp
