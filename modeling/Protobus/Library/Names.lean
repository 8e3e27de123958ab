import Protobus.Library.Bytes

/-!
# Dotted names

Words joined by dots, cut at the last dot or at all of them. A name can be put together again
from its words, so two ways of cutting it can be compared word by word.
-/
namespace Protobus.Library

def dot : UInt8 := 46

/-! ## Words -/

theorem splitDots_append (a b : Bytes) : splitDots (a ++ dot :: b) = splitDots a ++ splitDots b :=
  List.splitOnP_append_cons a b (beq_self_eq_true dot)

theorem splitDots_word {w : Bytes} (h : dot ∉ w) : splitDots w = [w] :=
  List.splitOn_eq_singleton h

/-- A name followed by one more word. -/
theorem splitDots_concat (a : Bytes) {w : Bytes} (h : dot ∉ w) :
    splitDots (a ++ dot :: w) = splitDots a ++ [w] := by
  rw [splitDots_append, splitDots_word h]

theorem join_splitDots (s : Bytes) : [dot].intercalate (splitDots s) = s :=
  List.intercalate_splitOn dot

theorem splitDots_inj {a b : Bytes} (h : splitDots a = splitDots b) : a = b := by
  rw [← join_splitDots a, ← join_splitDots b, h]

/-- The last word of a name can be told from the rest. -/
theorem append_dot_inj {a b v w : Bytes} (hv : dot ∉ v) (hw : dot ∉ w)
    (h : a ++ dot :: v = b ++ dot :: w) : a = b ∧ v = w := by
  have words := congrArg splitDots h
  rw [splitDots_concat a hv, splitDots_concat b hw] at words
  obtain ⟨front, last⟩ := List.append_inj' words rfl
  exact ⟨splitDots_inj front, List.head_eq_of_cons_eq last⟩

/-! ## The last dot -/

/-- `strings.LastIndexByte(s, '.')`, which answers -1 for `none`. -/
def lastDot : Bytes → Option Nat
  | [] => none
  | b :: s => match lastDot s with
    | some i => some (i + 1)
    | none => if b = dot then some 0 else none

theorem lastDot_eq_none {s : Bytes} : lastDot s = none ↔ dot ∉ s := by
  induction s with
  | nil => simp [lastDot]
  | cons b s ih =>
    rw [lastDot]
    cases found : lastDot s with
    | some i =>
      have mem : dot ∈ s :=
        Decidable.byContradiction fun absent => by simp [ih.mpr absent] at found
      simp [mem]
    | none =>
      have absent := ih.mp found
      by_cases eq : b = dot
      · simp [eq]
      · simp [eq, absent, Ne.symm eq]

theorem lastDot_append {a b : Bytes} (h : dot ∉ b) : lastDot (a ++ dot :: b) = some a.length := by
  induction a with
  | nil => simp [lastDot, lastDot_eq_none.mpr h]
  | cons c a ih => simp [lastDot, ih]

theorem exists_of_lastDot {s : Bytes} {i : Nat} (h : lastDot s = some i) :
    ∃ a b, s = a ++ dot :: b ∧ a.length = i ∧ dot ∉ b := by
  induction s generalizing i with
  | nil => cases h
  | cons c s ih =>
    rw [lastDot] at h
    split at h
    · next j found =>
      obtain rfl := Option.some.inj h
      obtain ⟨a, b, rfl, rfl, absent⟩ := ih found
      exact ⟨c :: a, b, rfl, rfl, absent⟩
    · next none =>
      split at h
      · next eq =>
        obtain rfl := Option.some.inj h
        exact ⟨[], s, by rw [eq]; rfl, rfl, lastDot_eq_none.mp none⟩
      · cases h

/-! ## Identifiers -/

def isIdent : Bytes → Bool
  | [] => false
  | b :: s => isLetter b && s.all isLetterDigit

/-- Identifiers joined by dots. -/
def isFullName (s : Bytes) : Bool := (splitDots s).all isIdent

theorem isLetterDigit_of_mem {w : Bytes} {b : UInt8} (h : isIdent w = true) (mem : b ∈ w) :
    isLetterDigit b = true := by
  cases w with
  | nil => cases mem
  | cons c w =>
    simp only [isIdent, Bool.and_eq_true, List.all_eq_true] at h
    rcases List.mem_cons.mp mem with rfl | mem
    · simp [isLetterDigit, h.1]
    · exact h.2 b mem

theorem dot_not_mem_of_isIdent {w : Bytes} (h : isIdent w = true) : dot ∉ w := by
  intro mem
  have := isLetterDigit_of_mem h mem
  revert this
  decide

/-! ## Names are text -/

theorem mem_intercalate {sep b : UInt8} {ws : List Bytes} (mem : b ∈ [sep].intercalate ws) :
    b = sep ∨ ∃ w ∈ ws, b ∈ w := by
  induction ws with
  | nil => simp at mem
  | cons w ws ih =>
    cases ws with
    | nil => exact .inr ⟨w, List.mem_cons_self, by simpa using mem⟩
    | cons v ws =>
      rw [List.intercalate_cons_cons] at mem
      rcases List.mem_append.mp mem with mem | mem
      · rcases List.mem_append.mp mem with mem | mem
        · exact .inr ⟨w, List.mem_cons_self, mem⟩
        · exact .inl (List.mem_singleton.mp mem)
      · rcases ih mem with eq | ⟨u, held, mem⟩
        · exact .inl eq
        · exact .inr ⟨u, List.mem_cons_of_mem _ held, mem⟩

theorem lt_of_isLetterDigit {b : UInt8} (h : isLetterDigit b = true) : b < 0x80 := by
  simp only [isLetterDigit, isLetter, isDigit, Bool.or_eq_true, Bool.and_eq_true, decide_eq_true_eq,
    UInt8.le_iff_toNat_le, ← UInt8.toNat_inj] at h
  rw [UInt8.lt_iff_toNat_lt]
  simp at h ⊢
  omega

theorem validUTF8_of_ascii {s : Bytes} (h : ∀ b ∈ s, b < 0x80) : validUTF8 s = true := by
  induction s with
  | nil => rfl
  | cons b s ih =>
    rw [validUTF8.eq_def]
    simp only
    rw [if_pos (h b List.mem_cons_self)]
    exact ih fun c mem => h c (List.mem_cons_of_mem _ mem)

/-- A name with an identifier behind it. -/
theorem validUTF8_concat {a w : Bytes} (ha : isFullName a = true) (hw : isIdent w = true) :
    validUTF8 (a ++ dot :: w) = true := by
  apply validUTF8_of_ascii
  intro b mem
  rcases List.mem_append.mp mem with mem | mem
  · rw [← join_splitDots a] at mem
    rcases mem_intercalate mem with rfl | ⟨v, held, mem⟩
    · decide
    · exact lt_of_isLetterDigit (isLetterDigit_of_mem (List.all_eq_true.mp ha v held) mem)
  · rcases List.mem_cons.mp mem with rfl | mem
    · decide
    · exact lt_of_isLetterDigit (isLetterDigit_of_mem hw mem)

end Protobus.Library
