import Protobus.Library.Numeral
import Mathlib.Data.Nat.Digits.Lemmas

/-!
# The bigint type

A bigint travels as at most 32 bytes, big-endian. `setString`, `setBytes` and `fillBytes` stand for
the functions of those names in `math/big`, as they are documented.
-/
namespace Protobus.Pbtypes
open Library

def bigintBytes : Nat := 32

def bigintMax : Int := 2 ^ (8 * bigintBytes) - 1

/-- The errors of this package, with what their texts quote. All but `notInteger` wrap
`ErrBigintRange`. -/
inductive Error
  | nilValue
  | negative (v : Int)
  | exceeds (v : Int)
  | notInteger (s : Bytes)
  | wide (length : Nat)
deriving DecidableEq

/-- The message; `value` is its only field. -/
structure Bigint where
  value : Bytes
deriving DecidableEq

/-! ## math/big -/

/-- A whole text of digits of the base, after at most one sign. -/
def setString (s : Bytes) (base : Nat) : Option Int :=
  match s with
  | 45 :: s => (numeral base s).map fun n => -(n : Int)
  | 43 :: s => (numeral base s).map Int.ofNat
  | s => (numeral base s).map Int.ofNat

def setBytes (b : Bytes) : Nat := Nat.ofDigits 256 (b.reverse.map UInt8.toNat)

/-- The bytes of a number below `256 ^ length`. -/
def fillBytes (length n : Nat) : Bytes := ((Nat.digitsAppend 256 length n).map UInt8.ofNat).reverse

/-! ## Conversions -/

/-- A pointer to a big integer may be nil. -/
def newBigint (v : Option Int) : Except Error Bigint :=
  match v with
  | none => .error .nilValue
  | some v =>
    if v < 0 then .error (.negative v)
    else if bigintMax < v then .error (.exceeds v)
    else .ok ⟨fillBytes bigintBytes v.toNat⟩

def hasPrefix0x (s : Bytes) : Bool :=
  2 < s.length && ((lit "0x").isPrefixOf s || (lit "0X").isPrefixOf s)

/-- What the loop of `ParseBigint` lets pass. It goes over runes, and one that does not fit into
a byte is none of these. -/
def allowed (base : Nat) (r : UInt8) : Bool :=
  (48 ≤ r && r ≤ 57) || (base == 16 && ((97 ≤ r && r ≤ 102) || (65 ≤ r && r ≤ 70)))

/-- `ParseBigint` of `s` from its loop on. -/
def readDigits (s digits : Bytes) (base : Nat) : Except Error Bigint :=
  if digits.all (allowed base) then
    match setString digits base with
    | none => .error (.notInteger s)
    | some v => newBigint (some v)
  else .error (.notInteger s)

def parseBigint (s : Bytes) : Except Error Bigint :=
  if hasPrefix0x s then readDigits s (s.drop 2) 16 else readDigits s s 10

/-- A nil message is read as one without a value. -/
def bigInt (x : Option Bigint) : Except Error Int :=
  let b := (x.map Bigint.value).getD []
  if bigintBytes < b.length then .error (.wide b.length) else .ok (setBytes b)

/-! ## Bytes -/

theorem lt_of_mem_toNat {b : Bytes} {d : Nat} (mem : d ∈ b.map UInt8.toNat) : d < 256 := by
  obtain ⟨c, -, rfl⟩ := List.mem_map.mp mem
  exact c.toNat_lt

theorem setBytes_lt (b : Bytes) : setBytes b < 256 ^ b.length := by
  have := Nat.ofDigits_lt_base_pow_length (by decide : 1 < 256)
    (fun d => lt_of_mem_toNat (b := b.reverse) (d := d))
  simpa [setBytes] using this

theorem length_fillBytes {length n : Nat} (lt : n < 256 ^ length) :
    (fillBytes length n).length = length := by
  rw [fillBytes, List.length_reverse, List.length_map, Nat.length_digitsAppend (by decide) _ lt]

theorem setBytes_fillBytes (length n : Nat) : setBytes (fillBytes length n) = n := by
  have digits : ((Nat.digitsAppend 256 length n).map UInt8.ofNat).map UInt8.toNat =
      Nat.digitsAppend 256 length n := by
    rw [List.map_map]
    refine (List.map_congr_left fun d mem => ?_).trans (List.map_id _)
    exact UInt8.toNat_ofNat_of_lt' (Nat.lt_of_mem_digitsAppend (by decide) _ d mem)
  rw [setBytes, fillBytes, List.reverse_reverse, digits, Nat.digitsAppend,
    Nat.ofDigits_append_replicate_zero, Nat.ofDigits_digits]

theorem fillBytes_setBytes {b : Bytes} {length : Nat} (le : b.length ≤ length) :
    fillBytes length (setBytes b) = List.replicate (length - b.length) 0 ++ b := by
  -- the digits of the padded bytes are the only ones of this length
  have padded : Nat.digitsAppend 256 length (setBytes b) =
      b.reverse.map UInt8.toNat ++ List.replicate (length - b.length) 0 := by
    have same : setBytes b = Nat.ofDigits 256
        (b.reverse.map UInt8.toNat ++ List.replicate (length - b.length) 0) := by
      rw [Nat.ofDigits_append_replicate_zero, setBytes]
    rw [same]
    refine (Nat.setInvOn_digitsAppend_ofDigits (by decide) length).1 ⟨?_, fun d mem => ?_⟩
    · simp [le]
    · rcases List.mem_append.mp mem with mem | mem
      · exact lt_of_mem_toNat mem
      · rw [List.eq_of_mem_replicate mem]
        decide
  have bytes : b.map (UInt8.ofNat ∘ UInt8.toNat) = b :=
    (List.map_congr_left fun c _ => UInt8.ofNat_toNat).trans (List.map_id b)
  rw [fillBytes, padded]
  simp [List.map_reverse, bytes]

/-! ## Numbers -/

theorem newBigint_some (v : Int) : newBigint (some v) =
    if v < 0 then .error (.negative v)
    else if bigintMax < v then .error (.exceeds v)
    else .ok ⟨fillBytes bigintBytes v.toNat⟩ := rfl

/-- The encoder accepts the numbers in range, and the decoder gives them back. -/
theorem newBigint_ok {n : Nat} (lt : n < 2 ^ 256) :
    ∃ x : Bigint, newBigint (some n) = .ok x ∧ x.value.length = bigintBytes ∧
      bigInt (some x) = .ok n := by
  have fits : n < 256 ^ bigintBytes := lt
  refine ⟨⟨fillBytes bigintBytes n⟩, ?_, length_fillBytes fits, ?_⟩
  · rw [newBigint_some, if_neg (by omega), if_neg (by unfold bigintMax bigintBytes; omega)]
    rfl
  · simp [bigInt, length_fillBytes fits, setBytes_fillBytes]

theorem newBigint_range {v : Int} {x : Bigint} (h : newBigint (some v) = .ok x) :
    0 ≤ v ∧ v < 2 ^ 256 := by
  rw [newBigint_some] at h
  split at h
  · cases h
  · next nonneg =>
    split at h
    · cases h
    · next small =>
      unfold bigintMax bigintBytes at small
      omega

/-! ## Texts -/

/-- The texts for a number: decimal digits, or `0x` and hexadecimal digits. -/
inductive Spelling : Bytes → Nat → Prop
  | decimal {s : Bytes} {n : Nat} : numeral 10 s = some n → Spelling s n
  | hex {x : UInt8} {s : Bytes} {n : Nat} : x = 120 ∨ x = 88 → numeral 16 s = some n →
      Spelling (48 :: x :: s) n

theorem allowed_eq {base : Nat} (h : base = 10 ∨ base = 16) (r : UInt8) :
    allowed base r = (digitOf base r).isSome := by
  rw [Bool.eq_iff_iff]
  simp only [allowed, digitOf, Bool.or_eq_true, Bool.and_eq_true, decide_eq_true_eq, beq_iff_eq,
    UInt8.le_iff_toNat_le, UInt8.reduceToNat, Option.isSome_filter]
  split
  · next digit => simp; omega
  · next notDigit =>
    split
    · next lower => simp; omega
    · next notLower =>
      split
      · next upper => simp; omega
      · next notUpper => simp; omega

theorem setString_digits {base : Nat} (h : base = 10 ∨ base = 16) {s : Bytes}
    (digits : s.all (allowed base) = true) :
    setString s base = (numeral base s).map Int.ofNat := by
  have unsigned {c : UInt8} (sign : allowed base c = false) {t : Bytes} : s ≠ c :: t := by
    rintro rfl
    simp [sign] at digits
  unfold setString
  split
  · exact absurd rfl (unsigned (by rcases h with rfl | rfl <;> decide))
  · exact absurd rfl (unsigned (by rcases h with rfl | rfl <;> decide))
  · rfl

/-- The loop and `SetString` together accept the numerals. -/
theorem readDigits_eq {base : Nat} (h : base = 10 ∨ base = 16) (s digits : Bytes) :
    readDigits s digits base =
      (numeral base digits).elim (.error (.notInteger s)) fun n => newBigint (some n) := by
  unfold readDigits
  split
  · next all =>
    rw [setString_digits h all]
    cases numeral base digits <;> rfl
  · next other =>
    have none_denoted : numeral base digits = none := by
      rw [← Option.not_isSome_iff_eq_none, isSome_numeral]
      rintro ⟨-, all⟩
      exact other (List.all_eq_true.mpr fun b mem => (allowed_eq h b).trans (all b mem))
    rw [none_denoted]
    rfl

/-- The text is hexadecimal, or has no prefix. -/
theorem hasPrefix0x_iff {s : Bytes} :
    hasPrefix0x s = true ↔ ∃ x t, (x = 120 ∨ x = 88) ∧ t ≠ [] ∧ s = 48 :: x :: t := by
  have lower : lit "0x" = [48, 120] := by decide
  have upper : lit "0X" = [48, 88] := by decide
  rw [hasPrefix0x, lower, upper]
  constructor
  · intro h
    simp only [Bool.and_eq_true, Bool.or_eq_true, decide_eq_true_eq,
      List.isPrefixOf_iff_prefix] at h
    obtain ⟨long, ⟨t, rfl⟩ | ⟨t, rfl⟩⟩ := h
    · exact ⟨120, t, .inl rfl, by rintro rfl; simp at long, rfl⟩
    · exact ⟨88, t, .inr rfl, by rintro rfl; simp at long, rfl⟩
  · rintro ⟨x, t, rfl | rfl, ne, rfl⟩ <;> simp [List.length_pos_iff.mpr ne]

theorem parseBigint_eq (s : Bytes) : parseBigint s =
    if hasPrefix0x s then
      (numeral 16 (s.drop 2)).elim (.error (.notInteger s)) fun n => newBigint (some n)
    else (numeral 10 s).elim (.error (.notInteger s)) fun n => newBigint (some n) := by
  rw [parseBigint, readDigits_eq (.inr rfl), readDigits_eq (.inl rfl)]

/-- A text that denotes a number is passed to the encoder. -/
theorem parseBigint_of_spelling {s : Bytes} {n : Nat} (h : Spelling s n) :
    parseBigint s = newBigint (some n) := by
  rw [parseBigint_eq]
  cases h with
  | decimal digits =>
    rw [if_neg, digits]
    · rfl
    · rw [hasPrefix0x_iff]
      rintro ⟨x, t, hex, -, rfl⟩
      have := (isSome_numeral.mp (Option.isSome_of_eq_some digits)).2 x (by simp)
      rcases hex with rfl | rfl <;> simp [digitOf] at this
  | hex x digits =>
    have := (isSome_numeral.mp (Option.isSome_of_eq_some digits)).1
    rw [if_pos (hasPrefix0x_iff.mpr ⟨_, _, x, this, rfl⟩), List.drop_succ_cons, List.drop_succ_cons,
      List.drop_zero, digits]
    rfl

/-- Only texts that denote a number are accepted. -/
theorem spelling_of_parseBigint {s : Bytes} {x : Bigint} (h : parseBigint s = .ok x) :
    ∃ n, Spelling s n := by
  rw [parseBigint_eq] at h
  split at h
  · next isHex =>
    obtain ⟨c, t, hex, -, rfl⟩ := hasPrefix0x_iff.mp isHex
    rw [List.drop_succ_cons, List.drop_succ_cons, List.drop_zero] at h
    cases digits : numeral 16 t with
    | none => rw [digits] at h; cases h
    | some n => exact ⟨n, .hex hex digits⟩
  · cases digits : numeral 10 s with
    | none => rw [digits] at h; cases h
    | some n => exact ⟨n, .decimal digits⟩

/-- Texts, numbers and bytes agree, over the whole range. -/
theorem bigint_agrees :
    (∀ s, (∃ x, parseBigint s = .ok x) ↔ ∃ n < 2 ^ 256, Spelling s n) ∧
    (∀ s n x, Spelling s n → parseBigint s = .ok x → bigInt (some x) = .ok n) ∧
    (∀ v : Int, (∃ x, newBigint (some v) = .ok x) ↔ 0 ≤ v ∧ v < 2 ^ 256) ∧
    (∀ v x, newBigint (some v) = .ok x →
      x.value.length = 32 ∧ bigInt (some x) = .ok v) ∧
    (∀ b : Bytes, b.length ≤ 32 → ∃ v, bigInt (some ⟨b⟩) = .ok v ∧
      newBigint (some v) = .ok ⟨List.replicate (32 - b.length) 0 ++ b⟩) ∧
    ∀ b : Bytes, 32 < b.length → bigInt (some ⟨b⟩) = .error (.wide b.length) := by
  have decoded {n : Nat} {x : Bigint} (h : newBigint (some n) = .ok x) :
      x.value.length = 32 ∧ bigInt (some x) = .ok n := by
    obtain ⟨x', ok, length, value⟩ := newBigint_ok (n := n) (by have := newBigint_range h; omega)
    cases ok.symm.trans h
    exact ⟨length, value⟩
  refine ⟨fun s => ⟨fun ⟨x, ok⟩ => ?_, fun ⟨n, lt, spelling⟩ => ?_⟩, fun s n x spelling ok => ?_,
    fun v => ⟨fun ⟨x, ok⟩ => newBigint_range ok, fun ⟨nonneg, lt⟩ => ?_⟩, fun v x ok => ?_,
    fun b le => ?_, fun b long => ?_⟩
  · obtain ⟨n, spelling⟩ := spelling_of_parseBigint ok
    rw [parseBigint_of_spelling spelling] at ok
    exact ⟨n, by have := newBigint_range ok; omega, spelling⟩
  · obtain ⟨x, ok, -⟩ := newBigint_ok lt
    exact ⟨x, (parseBigint_of_spelling spelling).trans ok⟩
  · exact (decoded ((parseBigint_of_spelling spelling).symm.trans ok)).2
  · obtain ⟨n, rfl⟩ := Int.eq_ofNat_of_zero_le nonneg
    obtain ⟨x, ok, -⟩ := newBigint_ok (n := n) (by omega)
    exact ⟨x, ok⟩
  · obtain ⟨n, rfl⟩ := Int.eq_ofNat_of_zero_le (newBigint_range ok).1
    exact decoded ok
  · have lt : setBytes b < 2 ^ 256 :=
      (setBytes_lt b).trans_le (Nat.pow_le_pow_right (by decide) le)
    refine ⟨setBytes b, by simp [bigInt, bigintBytes, Nat.not_lt.mpr le], ?_⟩
    rw [newBigint_some, if_neg (by omega), if_neg (by unfold bigintMax bigintBytes; omega),
      Int.toNat_natCast, bigintBytes, fillBytes_setBytes le]
  · simp [bigInt, bigintBytes, long]

theorem bigint_agrees_hex : ∃ x, parseBigint (lit "0x2A") = .ok x ∧ bigInt (some x) = .ok 42 := by
  have spelling : Spelling (lit "0x2A") 42 := .hex (.inl rfl) (by decide)
  obtain ⟨x, ok⟩ := (bigint_agrees.1 (lit "0x2A")).mpr ⟨42, by decide, spelling⟩
  exact ⟨x, ok, bigint_agrees.2.1 _ _ x spelling ok⟩

end Protobus.Pbtypes
