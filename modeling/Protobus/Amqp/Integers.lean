import Protobus.Amqp.Headers
import Protobus.Library.Numeral
import Mathlib.Data.Rat.Lemmas

/-!
# Integers in headers

`Denotes` says which integer a header value stands for, whatever its encoding. `headerInt` gives
that integer when it fits into an `int64`, and nothing otherwise, except at one value: the upper
bound for floating-point numbers is itself rounded, to a number that no `int64` has.
-/
namespace Protobus.Amqp
open Library

/-- Decimal text: at least one digit, after at most one sign. -/
inductive Decimal : Bytes → Int → Prop
  | plain {s : Bytes} {n : Nat} : numeral 10 s = some n → Decimal s n
  | plus {s : Bytes} {n : Nat} : numeral 10 s = some n → Decimal (43 :: s) n
  | minus {s : Bytes} {n : Nat} : numeral 10 s = some n → Decimal (45 :: s) (-n)

/-- A text of white space. -/
def Blank (s : Bytes) : Prop := ∃ ps : List Bytes, (∀ p ∈ ps, p ∈ spaceRunes) ∧ ps.flatten = s

def Denotes : Value → Int → Prop
  | .int k, n | .int64 k, n => k.toInt = n
  | .int8 k, n => k.toInt = n
  | .int16 k, n => k.toInt = n
  | .int32 k, n => k.toInt = n
  | .uint8 k, n => k.toNat = n
  | .uint16 k, n => k.toNat = n
  | .uint32 k, n => k.toNat = n
  | .uint64 k, n => k.toNat = n
  | .float32 (.finite q), n | .float64 (.finite q), n => q = n
  | .string s, n | .bytes s, n =>
    ∃ a t b, s = a ++ t ++ b ∧ Blank a ∧ Blank b ∧ Decimal t n
  | _, _ => False

/-- The integers of an `int64`. -/
def Fits (n : Int) : Prop := -2 ^ 63 ≤ n ∧ n < 2 ^ 63

/-- The constant `MaxInt64` as a floating-point number. -/
def Value.isBound : Value → Bool
  | .float32 (.finite q) | .float64 (.finite q) => q = 2 ^ 63
  | _ => false

/-! ## White space -/

section
variable {ps l : List Bytes} {s t : Bytes}

theorem stripWhile_eq (l : List Bytes) (fuel : Nat) (s : Bytes) :
    ∃ ps : List Bytes, (∀ p ∈ ps, p ∈ l) ∧ ps.flatten ++ stripWhile l fuel s = s := by
  induction fuel generalizing s with
  | zero => exact ⟨[], by simp, rfl⟩
  | succ fuel ih =>
    rw [stripWhile]
    split
    · next p found =>
      obtain ⟨ps, mem, eq⟩ := ih (s.drop p.length)
      have isPrefix : p <+: s := by simpa using List.find?_some found
      refine ⟨p :: ps, List.forall_mem_cons.mpr ⟨List.mem_of_find?_eq_some found, mem⟩, ?_⟩
      rw [List.flatten_cons, List.append_assoc, eq]
      exact List.prefix_iff_eq_append.mp isPrefix
    · exact ⟨[], by simp, rfl⟩

/-- No element begins another, and none is empty. -/
def PrefixFree (l : List Bytes) : Prop := ∀ p ∈ l, ∀ q ∈ l, p <+: q → p = q

theorem stripWhile_flatten (free : PrefixFree l) (mem : ∀ p ∈ ps, p ∈ l)
    (stops : ∀ p ∈ l, ¬ p <+: t) {fuel : Nat} (enough : ps.length ≤ fuel) :
    stripWhile l fuel (ps.flatten ++ t) = t := by
  induction ps generalizing fuel with
  | nil =>
    cases fuel with
    | zero => rfl
    | succ fuel =>
      have none_begins : l.find? (·.isPrefixOf t) = none := by
        simpa [List.find?_eq_none, List.isPrefixOf_iff_prefix] using stops
      simp [stripWhile, none_begins]
  | cons p ps ih =>
    cases fuel with
    | zero => simp at enough
    | succ fuel =>
      obtain ⟨own, rest⟩ := List.forall_mem_cons.mp mem
      rw [List.flatten_cons, List.append_assoc]
      have begins : p <+: p ++ (ps.flatten ++ t) := List.prefix_append ..
      have found : l.find? (·.isPrefixOf (p ++ (ps.flatten ++ t))) = some p := by
        cases eq : l.find? (·.isPrefixOf (p ++ (ps.flatten ++ t))) with
        | none =>
          exact absurd (List.isPrefixOf_iff_prefix.mpr begins) (List.find?_eq_none.mp eq p own)
        | some q =>
          have begins' : q <+: p ++ (ps.flatten ++ t) := by simpa using List.find?_some eq
          have mem' := List.mem_of_find?_eq_some eq
          rcases List.prefix_or_prefix_of_prefix begins begins' with le | le
          · rw [free p own q mem' le]
          · rw [free q mem' p own le]
      simp only [stripWhile, found, List.drop_left]
      exact ih rest (Nat.le_of_succ_le_succ enough)

theorem spaceRunes_free : PrefixFree spaceRunes := by
  unfold PrefixFree
  decide

theorem spaceRunes_reverse_free : PrefixFree (spaceRunes.map List.reverse) := by
  unfold PrefixFree
  decide

/-- Bytes of a decimal text. -/
def inDecimal (b : UInt8) : Bool := b = 43 || b = 45 || (48 ≤ b && b ≤ 57)

theorem not_prefix_of_head {l : List Bytes}
    (heads : ∀ p ∈ l, p.head?.any (!inDecimal ·) = true) {b : UInt8} (h : inDecimal b = true)
    (t : Bytes) : ∀ p ∈ l, ¬ p <+: b :: t := by
  intro p mem begins
  have head := heads p mem
  cases p with
  | nil => simp at head
  | cons c p =>
    obtain ⟨rfl, -⟩ := List.cons_prefix_cons.mp begins
    simp [h] at head

end

theorem length_le_flatten {l ps : List Bytes} (nonempty : ∀ p ∈ l, p ≠ [])
    (mem : ∀ p ∈ ps, p ∈ l) : ps.length ≤ ps.flatten.length := by
  induction ps with
  | nil => exact Nat.le_refl _
  | cons p ps ih =>
    obtain ⟨own, rest⟩ := List.forall_mem_cons.mp mem
    have := List.length_pos_iff.mpr (nonempty p own)
    have := ih rest
    simp only [List.length_cons, List.flatten_cons, List.length_append]
    omega

/-- `TrimSpace` takes away what surrounds a decimal text. -/
theorem trimSpace_decimal {a t b : Bytes} (before : Blank a) (after : Blank b) (ne : t ≠ [])
    (decimal : ∀ c ∈ t, inDecimal c = true) : trimSpace (a ++ t ++ b) = t := by
  obtain ⟨ps, psMem, rfl⟩ := before
  obtain ⟨qs, qsMem, rfl⟩ := after
  have front : stripWhile spaceRunes (ps.flatten ++ t ++ qs.flatten).length
      (ps.flatten ++ t ++ qs.flatten) = t ++ qs.flatten := by
    rw [List.append_assoc]
    refine stripWhile_flatten spaceRunes_free psMem ?_ ?_
    · cases t with
      | nil => exact absurd rfl ne
      | cons c t => exact not_prefix_of_head (by decide) (decimal c (by simp)) _
    · have := length_le_flatten (by decide) psMem
      rw [List.length_append]
      omega
  have back : stripWhile (spaceRunes.map List.reverse) (t ++ qs.flatten).length
      (t ++ qs.flatten).reverse = t.reverse := by
    rw [List.reverse_append, List.reverse_flatten]
    refine stripWhile_flatten spaceRunes_reverse_free (fun p mem => ?_) ?_ ?_
    · rw [List.mem_reverse, List.mem_map] at mem
      obtain ⟨q, mem, rfl⟩ := mem
      exact List.mem_map_of_mem (qsMem q mem)
    · cases eq : t.reverse with
      | nil => exact absurd (List.reverse_eq_nil_iff.mp eq) ne
      | cons c r =>
        have last : c ∈ t := by rw [← List.mem_reverse, eq]; exact List.mem_cons_self
        exact not_prefix_of_head (by decide) (decimal c last) _
    · have := length_le_flatten (by decide) qsMem
      rw [List.length_reverse, List.length_map, List.length_append]
      omega
  simp only [trimSpace, front, back, List.reverse_reverse]

/-- What `TrimSpace` takes away is white space. -/
theorem blank_trimSpace (s : Bytes) : ∃ a b, s = a ++ trimSpace s ++ b ∧ Blank a ∧ Blank b := by
  obtain ⟨ps, psMem, front⟩ := stripWhile_eq spaceRunes s.length s
  obtain ⟨qs, qsMem, back⟩ := stripWhile_eq (spaceRunes.map List.reverse)
    (stripWhile spaceRunes s.length s).length (stripWhile spaceRunes s.length s).reverse
  refine ⟨ps.flatten, qs.flatten.reverse, ?_, ⟨ps, psMem, rfl⟩,
    (qs.map List.reverse).reverse, fun p mem => ?_, ?_⟩
  · have middle := congrArg List.reverse back
    rw [List.reverse_append, List.reverse_reverse] at middle
    rw [trimSpace, List.append_assoc, middle, front]
  · rw [List.mem_reverse, List.mem_map] at mem
    obtain ⟨q, mem, rfl⟩ := mem
    obtain ⟨p, inSpaces, rfl⟩ := List.mem_map.mp (qsMem q mem)
    rwa [List.reverse_reverse]
  · rw [List.reverse_flatten]

/-! ## Decimal text -/

theorem digitOf_ten (b : UInt8) :
    digitOf 10 b = if 48 ≤ b && b ≤ 57 then some (b.toNat - 48) else none := by
  simp only [digitOf, Bool.and_eq_true, decide_eq_true_eq, UInt8.le_iff_toNat_le, UInt8.reduceToNat]
  split
  · next digit => simp only [Option.filter_some, decide_eq_true_eq]; rw [if_pos (by omega)]
  · split
    · next letter => simp only [Option.filter_some, decide_eq_true_eq]; rw [if_neg (by omega)]
    · split
      · next letter => simp only [Option.filter_some, decide_eq_true_eq]; rw [if_neg (by omega)]
      · rfl

theorem parseDigits_eq (s : Bytes) : parseDigits s = numeral 10 s := by
  cases s with
  | nil => rfl
  | cons b s =>
    rw [numeral_cons, parseDigits.eq_2 _ (by simp), @foldl_digits 10]
    · simp [Nat.ofDigits_append]
    · intro n b
      rw [digitOf_ten]
      dsimp only
      split <;> rfl
    · exact fun _ => rfl

/-- A numeral has no sign. -/
theorem sign_not_numeral {c : UInt8} (sign : c = 43 ∨ c = 45) (s : Bytes) :
    numeral 10 (c :: s) = none := by
  rw [← Option.not_isSome_iff_eq_none, isSome_numeral]
  rintro ⟨-, digits⟩
  have := digits c List.mem_cons_self
  rcases sign with rfl | rfl <;> simp [digitOf_ten] at this

theorem parseInt_minus (s : Bytes) : parseInt (45 :: s) =
    (numeral 10 s).bind fun n => if n ≤ 2 ^ 63 then some (-(n : Int)) else none := by
  rw [parseInt, parseDigits_eq]

theorem parseInt_plus (s : Bytes) : parseInt (43 :: s) =
    (numeral 10 s).bind fun n => if n < 2 ^ 63 then some (n : Int) else none := by
  rw [parseInt, parseDigits_eq]

theorem parseInt_plain {s : Bytes} (unsigned : s.head? ≠ some 45 ∧ s.head? ≠ some 43) :
    parseInt s = (numeral 10 s).bind fun n => if n < 2 ^ 63 then some (n : Int) else none := by
  unfold parseInt
  split
  · exact absurd rfl unsigned.1
  · exact absurd rfl unsigned.2
  · rw [parseDigits_eq]

theorem parseInt_eq_some {s : Bytes} {n : Int} : parseInt s = some n ↔ Decimal s n ∧ Fits n := by
  constructor
  · intro h
    by_cases minus : s.head? = some 45
    · obtain ⟨t, rfl⟩ := List.head?_eq_some_iff.mp minus
      rw [parseInt_minus, Option.bind_eq_some_iff] at h
      obtain ⟨m, digits, eq⟩ := h
      obtain ⟨le, ⟨⟩⟩ := Option.ite_none_right_eq_some.mp eq
      exact ⟨.minus digits, by unfold Fits; omega⟩
    · by_cases plus : s.head? = some 43
      · obtain ⟨t, rfl⟩ := List.head?_eq_some_iff.mp plus
        rw [parseInt_plus, Option.bind_eq_some_iff] at h
        obtain ⟨m, digits, eq⟩ := h
        obtain ⟨lt, ⟨⟩⟩ := Option.ite_none_right_eq_some.mp eq
        exact ⟨.plus digits, by unfold Fits; omega⟩
      · rw [parseInt_plain ⟨minus, plus⟩, Option.bind_eq_some_iff] at h
        obtain ⟨m, digits, eq⟩ := h
        obtain ⟨lt, ⟨⟩⟩ := Option.ite_none_right_eq_some.mp eq
        exact ⟨.plain digits, by unfold Fits; omega⟩
  · rintro ⟨decimal, lo, hi⟩
    cases decimal with
    | plain digits =>
      have unsigned (c : UInt8) (sign : c = 43 ∨ c = 45) : s.head? ≠ some c := by
        intro head
        obtain ⟨t, rfl⟩ := List.head?_eq_some_iff.mp head
        cases (sign_not_numeral sign t).symm.trans digits
      rw [parseInt_plain ⟨unsigned 45 (.inr rfl), unsigned 43 (.inl rfl)⟩, digits,
        Option.bind_some, if_pos (by omega)]
    | plus digits => rw [parseInt_plus, digits, Option.bind_some, if_pos (by omega)]
    | minus digits => rw [parseInt_minus, digits, Option.bind_some, if_pos (by omega)]

theorem Decimal.bytes {s : Bytes} {n : Int} (h : Decimal s n) :
    s ≠ [] ∧ ∀ c ∈ s, inDecimal c = true := by
  have digits {s : Bytes} {n : Nat} (h : numeral 10 s = some n) :
      s ≠ [] ∧ ∀ c ∈ s, inDecimal c = true := by
    obtain ⟨ne, all⟩ := isSome_numeral.mp (Option.isSome_of_eq_some h)
    refine ⟨ne, fun c mem => ?_⟩
    have := all c mem
    rw [digitOf_ten] at this
    split at this
    · next digit => simp [inDecimal, digit]
    · cases this
  cases h with
  | plain h => exact digits h
  | plus h | minus h =>
    exact ⟨by simp, List.forall_mem_cons.mpr ⟨by decide, (digits h).2⟩⟩

theorem Decimal.unique {s : Bytes} {m n : Int} (left : Decimal s m) (right : Decimal s n) :
    m = n := by
  have plain_signed {c : UInt8} (sign : c = 43 ∨ c = 45) {s : Bytes} {k : Nat}
      (h : numeral 10 (c :: s) = some k) : False := by
    cases (sign_not_numeral sign s).symm.trans h
  cases left with
  | plain h =>
    cases right with
    | plain h' => rw [Option.some_inj.mp (h.symm.trans h')]
    | plus | minus => exact (plain_signed (by simp) h).elim
  | plus h =>
    cases right with
    | plain h' => exact (plain_signed (.inl rfl) h').elim
    | plus h' => rw [Option.some_inj.mp (h.symm.trans h')]
  | minus h =>
    cases right with
    | plain h' => exact (plain_signed (.inr rfl) h').elim
    | minus h' => rw [Option.some_inj.mp (h.symm.trans h')]

/-- A text is read to `n` if it is a decimal text for `n` in white space. -/
theorem parseInt_trimSpace {s : Bytes} {n : Int} : parseInt (trimSpace s) = some n ↔
    (∃ a t b, s = a ++ t ++ b ∧ Blank a ∧ Blank b ∧ Decimal t n) ∧ Fits n := by
  rw [parseInt_eq_some]
  refine and_congr_left fun _ => ⟨fun decimal => ?_, ?_⟩
  · obtain ⟨a, b, eq, before, after⟩ := blank_trimSpace s
    exact ⟨a, _, b, eq, before, after, decimal⟩
  · rintro ⟨a, t, b, rfl, before, after, decimal⟩
    rwa [trimSpace_decimal before after decimal.bytes.1 decimal.bytes.2]

/-! ## Numbers -/

theorem Denotes.unique {v : Value} {m n : Int} (left : Denotes v m) (right : Denotes v n) :
    m = n := by
  cases v with
  | nil | bool | other => cases left
  | string s | bytes s =>
    obtain ⟨a, t, b, rfl, before, after, decimal⟩ := left
    obtain ⟨a', t', b', eq, before', after', decimal'⟩ := right
    have same := trimSpace_decimal before after decimal.bytes.1 decimal.bytes.2
    rw [eq, trimSpace_decimal before' after' decimal'.bytes.1 decimal'.bytes.2] at same
    exact decimal.unique (same ▸ decimal')
  | float32 f | float64 f =>
    cases f with
    | nan | inf => cases left
    | finite q => exact Int.cast_inj.mp ((show q = m from left).symm.trans right)
  | _ => exact Eq.trans (Eq.symm left) right

section
variable (wide : Int)

theorem floatInt_eq_some {q : Rat} (inside : q ≠ 2 ^ 63) {n : Int} :
    floatInt wide (.finite q) = some n ↔ q = n ∧ Fits n := by
  by_cases whole : q.den = 1
  · have eq := (Rat.den_eq_one_iff q).mp whole
    have denotes : q = n ↔ q.num = n := by rw [← Int.cast_inj (α := Rat), eq]
    have other : q.num ≠ 2 ^ 63 := fun num => inside (by rw [← eq, num]; norm_num)
    simp only [floatInt, whole, ne_eq, not_true, decide_false, Bool.false_or, Bool.or_eq_true,
      decide_eq_true_eq, other, if_false, denotes, Fits]
    split
    · next outside => exact iff_of_false (by simp) (by omega)
    · next between =>
      rw [Option.some_inj]
      omega
  · have fraction : ∀ k : Int, q ≠ k := by
      rintro k rfl
      exact whole (Rat.den_intCast k)
    simp [floatInt, whole, fraction]

/-- `headerInt` reads the integer that a value denotes, if an `int64` can hold it. -/
theorem headerInt_eq_some {v : Value} (inside : v.isBound = false) {n : Int} :
    headerInt wide v = some n ↔ Denotes v n ∧ Fits n := by
  cases v with
  | nil | bool | other => simp [headerInt, Denotes]
  | string s | bytes s => exact parseInt_trimSpace
  | float32 f | float64 f =>
    cases f with
    | nan | inf => simp [headerInt, floatInt, Denotes]
    | finite q => exact floatInt_eq_some wide (by simpa [Value.isBound] using inside)
  | uint64 k =>
    simp only [headerInt, Denotes, Fits]
    split
    · next outside => exact iff_of_false (by simp) (by omega)
    · next below =>
      rw [Option.some_inj]
      omega
  | int k | int64 k =>
    have := k.le_toInt
    have := k.toInt_lt
    simp only [headerInt, Denotes, Fits, Option.some_inj]
    omega
  | int8 k =>
    have := k.le_toInt
    have := k.toInt_lt
    simp only [headerInt, Denotes, Fits, Option.some_inj]
    omega
  | int16 k =>
    have := k.le_toInt
    have := k.toInt_lt
    simp only [headerInt, Denotes, Fits, Option.some_inj]
    omega
  | int32 k =>
    have := k.le_toInt
    have := k.toInt_lt
    simp only [headerInt, Denotes, Fits, Option.some_inj]
    omega
  | uint8 k =>
    have := k.toNat_lt
    simp only [headerInt, Denotes, Fits, Option.some_inj]
    omega
  | uint16 k =>
    have := k.toNat_lt
    simp only [headerInt, Denotes, Fits, Option.some_inj]
    omega
  | uint32 k =>
    have := k.toNat_lt
    simp only [headerInt, Denotes, Fits, Option.some_inj]
    omega

/-- The bound itself passes the check and is converted to something else. -/
theorem headerInt_bound {v : Value} (bound : v.isBound = true) :
    headerInt wide v = some wide ∧ Denotes v (2 ^ 63) := by
  cases v with
  | float32 f | float64 f =>
    cases f with
    | finite q =>
      obtain rfl : q = 2 ^ 63 := by simpa [Value.isBound] using bound
      exact ⟨by rfl, by norm_num [Denotes]⟩
    | nan | inf => cases bound
  | _ => cases bound

end

/-- The number that a stream frame carries is the one its header denotes. -/
theorem streamSeq_written {wide : Int} {h : Table} {v : Value} {n : Int}
    (written : h headerSeq = some v) (read : streamSeq wide h = some n) :
    headerInt wide v = some n := by
  simp only [streamSeq, written] at read
  exact (Option.filter_eq_some_iff.mp read).1

/-- Integers are read exactly or not at all, but for the floating-point number `2^63`; `w` is what
the platform converts that to. -/
theorem header_integers_exact (w : Int64) (v : Value) :
    (((∀ n, headerInt w.toInt v = some n → Denotes v n) ∧
      (∀ n, Denotes v n → Fits n → headerInt w.toInt v = some n) ∧
      (∀ n, Denotes v n → ¬ Fits n → headerInt w.toInt v = none) ∧
      ∀ h n, h headerSeq = some v → streamSeq w.toInt h = some n → Denotes v n) ↔
        v.isBound = false) ∧
    (∀ n, Fits n → headerInt w.toInt (intHeader n) = some n) ∧
    ∀ h, retryCount w.toInt h ≤ 2 ^ 31 - 1 := by
  refine ⟨⟨fun ⟨exact', _⟩ => ?_, fun inside => ⟨fun n read => ?_, fun n denotes fits => ?_,
    fun n denotes outside => ?_, fun h n written read => ?_⟩⟩,
    fun n fits => headerInt_intHeader _ fits.1 fits.2, retryCount_le _⟩
  · rw [← Bool.not_eq_true]
    intro bound
    obtain ⟨read, denotes⟩ := headerInt_bound w.toInt bound
    have eq := denotes.unique (exact' _ read)
    have := w.toInt_lt
    omega
  · exact ((headerInt_eq_some _ inside).mp read).1
  · exact (headerInt_eq_some _ inside).mpr ⟨denotes, fits⟩
  · rw [Option.eq_none_iff_forall_ne_some]
    intro m read
    obtain ⟨denotes', fits⟩ := (headerInt_eq_some _ inside).mp read
    exact outside (denotes.unique denotes' ▸ fits)
  · exact ((headerInt_eq_some _ inside).mp (streamSeq_written written read)).1

theorem header_integers_exact_spaces :
    headerInt Int64.maxValue.toInt (.string (lit " -12\n")) = some (-12) :=
  ((header_integers_exact Int64.maxValue _).1.mpr rfl).2.1 (-12)
    ⟨lit " ", lit "-12", lit "\n", by decide, ⟨[[32]], by decide, by decide⟩,
      ⟨[[10]], by decide, by decide⟩, .minus (by decide : numeral 10 (lit "12") = some 12)⟩
    (by decide : -2 ^ 63 ≤ (-12 : Int) ∧ (-12 : Int) < 2 ^ 63)

/-- The smallest `int64` for `2^63`, as on amd64, and a stream's number that its sender did not
write, where the conversion gives the largest, as on arm64. -/
theorem bound_misread :
    headerInt (-2 ^ 63) (.float64 (.finite (2 ^ 63))) = some (-2 ^ 63) ∧
    ¬ Denotes (.float64 (.finite (2 ^ 63))) (-2 ^ 63) ∧
    streamSeq (2 ^ 63 - 1) (Table.empty.set headerSeq (.float64 (.finite (2 ^ 63)))) =
      some (2 ^ 63 - 1) ∧
    ¬ Denotes (.float64 (.finite (2 ^ 63))) (2 ^ 63 - 1) := by
  have bound : (Value.float64 (.finite (2 ^ 63))).isBound = true := by simp [Value.isBound]
  obtain ⟨-, denotes⟩ := headerInt_bound 0 bound
  refine ⟨(headerInt_bound _ bound).1, fun other => ?_, ?_, fun other => ?_⟩
  · cases denotes.unique other
  · rw [streamSeq, Table.set_apply, if_pos rfl]
    simp only [(headerInt_bound _ bound).1]
    rfl
  · cases denotes.unique other

end Protobus.Amqp
