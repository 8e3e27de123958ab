import Protobus.Wire.Envelope
import Mathlib.Algebra.Order.Ring.Int

/-!
# What `walk` visits

`walk` peels one field at a time off the front of a buffer. `visit` is the same loop over a
list of well-formed fields, with no bytes left to parse, and the two agree: on a
concatenation of fields `walk` does what `visit` does, and a `walk` that succeeds has been
given such a concatenation.
-/
namespace Protobus.Wire
open Library Protowire

variable {pw : Protowire} {σ : Type}

/-- One turn of `walk` on a field whose bytes have been recognised. -/
def visitField (known : Nat → Bool) (fn : Nat → Bytes → σ → σ × Option WireError)
    (f : Field pw) (s : σ) : σ × Option WireError :=
  if !known f.num then (s, none)
  else if f.typ ≠ bytesType then (s, some (.wireType f.num f.typ))
  else fn f.num f.payload s

def visit (known : Nat → Bool) (fn : Nat → Bytes → σ → σ × Option WireError) :
    List (Field pw) → σ → σ × Option WireError
  | [], s => (s, none)
  | f :: fs, s => match visitField known fn f s with
    | (s, some err) => (s, some err)
    | (s, none) => visit known fn fs s

section
variable {known : Nat → Bool} {fn : Nat → Bytes → σ → σ × Option WireError}

@[simp] theorem walk_nil (s : σ) : walk pw [] known fn s = (s, none) := by
  simp [walk, walkLoop]

variable (h : pw.Lawful)
include h

/-- More fuel than bytes changes nothing: every turn takes at least one byte. -/
theorem walkLoop_enough (k : Nat) (b : Bytes) (s : σ) (hk : b.length ≤ k) :
    walkLoop pw known fn k b s = walkLoop pw known fn b.length b s := by
  induction hb : b.length using Nat.strong_induction_on generalizing k b s with
  | h m ih =>
    subst hb
    cases b with
    | nil => cases k <;> simp [walkLoop]
    | cons x b =>
      obtain ⟨k, rfl⟩ : ∃ j, k = j + 1 := ⟨k - 1, by simp at hk; omega⟩
      simp only [List.length_cons]
      obtain ⟨num, typ, n, ht⟩ : ∃ num typ n, pw.consumeTag (x :: b) = (num, typ, n) :=
        ⟨_, _, _, rfl⟩
      simp only [walkLoop, ht]
      by_cases hn : n < 0
      · simp [hn]
      · obtain ⟨n, rfl⟩ := Int.eq_ofNat_of_zero_le (not_lt.mp hn)
        have pos := (h.consumeTag_local _ _ _ _ ht).1
        have step (j : Nat) (s : σ) :
            walkLoop pw known fn k (((x :: b).drop n).drop j) s =
              walkLoop pw known fn b.length (((x :: b).drop n).drop j) s := by
          have lt : (((x :: b).drop n).drop j).length < (x :: b).length := by
            simp only [List.length_drop, List.length_cons]
            omega
          have le : (((x :: b).drop n).drop j).length ≤ b.length := by
            simp only [List.length_cons] at lt
            omega
          have hk' : b.length ≤ k := by simpa using hk
          rw [ih _ lt k _ s (by omega) rfl, ih _ lt b.length _ s le rfl]
        simp only [Int.toNat_natCast, step]

/-- The loop bound of `walk` does not show: on a buffer that is not empty it takes one turn
and starts over behind it. -/
theorem walk_cons (x : UInt8) (b : Bytes) (s : σ) :
    walk pw (x :: b) known fn s =
      let (num, typ, n) := pw.consumeTag (x :: b)
      if n < 0 then (s, some (.tag n))
      else
        let b := (x :: b).drop n.toNat
        if !known num then
          let n := pw.consumeFieldValue num typ b
          if n < 0 then (s, some (.value num n)) else walk pw (b.drop n.toNat) known fn s
        else if typ ≠ bytesType then (s, some (.wireType num typ))
        else
          let (v, n) := pw.consumeBytes b
          if n < 0 then (s, some (.value num n))
          else match fn num v s with
            | (s, some err) => (s, some err)
            | (s, none) => walk pw (b.drop n.toNat) known fn s := by
  obtain ⟨num, typ, n, ht⟩ : ∃ num typ n, pw.consumeTag (x :: b) = (num, typ, n) :=
    ⟨_, _, _, rfl⟩
  simp only [walk, List.length_cons, walkLoop, ht]
  by_cases hn : n < 0
  · simp [hn]
  · obtain ⟨n, rfl⟩ := Int.eq_ofNat_of_zero_le (not_lt.mp hn)
    have pos := (h.consumeTag_local _ _ _ _ ht).1
    have step (j : Nat) (s : σ) :
        walkLoop pw known fn b.length (((x :: b).drop n).drop j) s =
          walkLoop pw known fn (((x :: b).drop n).drop j).length (((x :: b).drop n).drop j) s := by
      apply walkLoop_enough h
      simp only [List.length_drop, List.length_cons]
      omega
    simp only [Int.toNat_natCast, step]
    exact if_neg (Nat.succ_ne_zero _)

/-- `walk` on a field at the front of a buffer. -/
theorem walk_field (f : Field pw) (rest : Bytes) (s : σ) :
    walk pw (f.bytes ++ rest) known fn s =
      match visitField known fn f s with
      | (s, some err) => (s, some err)
      | (s, none) => walk pw rest known fn s := by
  obtain ⟨x, b, hb⟩ : ∃ x b, f.bytes ++ rest = x :: b :=
    List.exists_cons_of_ne_nil (by simp [f.bytes_ne_nil h])
  have behind : (f.bytes.drop f.tagLen ++ rest).drop (f.bytes.length - f.tagLen) = rest :=
    List.drop_left' (by simp)
  rw [hb, walk_cons h, ← hb, f.consumeTag_append h]
  simp only [Int.not_lt.mpr (Int.natCast_nonneg _), ↓reduceIte, Int.toNat_natCast,
    f.drop_tag_append h, f.consumeFieldValue_append h, behind]
  by_cases hk : known f.num
  · by_cases ht : f.typ = bytesType
    · simp only [hk, Bool.not_true, Bool.false_eq_true, ↓reduceIte, ht, ne_eq, not_true_eq_false,
        f.consumeBytes_append h ht, visitField, Int.not_lt.mpr (Int.natCast_nonneg _),
        Int.toNat_natCast, behind]
    · simp [hk, ht, visitField]
  · simp [hk, visitField]

theorem walk_concat (fs : List (Field pw)) (rest : Bytes) (s : σ) :
    walk pw (concat fs ++ rest) known fn s =
      match visit known fn fs s with
      | (s, some err) => (s, some err)
      | (s, none) => walk pw rest known fn s := by
  induction fs generalizing s with
  | nil => simp [visit]
  | cons f fs ih =>
    rw [concat_cons, List.append_assoc, walk_field h, visit]
    obtain ⟨s', err, hv⟩ : ∃ s' err, visitField known fn f s = (s', err) := ⟨_, _, rfl⟩
    rw [hv]
    cases err with
    | none => exact ih s'
    | some err => rfl

theorem walk_concat_eq_visit (fs : List (Field pw)) (s : σ) :
    walk pw (concat fs) known fn s = visit known fn fs s := by
  rw [← List.append_nil (concat fs), walk_concat h]
  obtain ⟨s', err, hv⟩ : ∃ s' err, visit known fn fs s = (s', err) := ⟨_, _, rfl⟩
  rw [hv]
  cases err <;> simp

/-- An accepted buffer is a concatenation of well-formed fields. The induction is on the
length of the buffer; each accepted turn exposes the field at its front. -/
theorem exists_fields_of_walk (b : Bytes) (s t : σ) (ok : walk pw b known fn s = (t, none)) :
    ∃ fs : List (Field pw), b = concat fs := by
  induction hb : b.length using Nat.strong_induction_on generalizing b s with
  | h m ih =>
    subst hb
    cases b with
    | nil => exact ⟨[], rfl⟩
    | cons x b =>
      rw [walk_cons h] at ok
      obtain ⟨num, typ, n, ht⟩ : ∃ num typ n, pw.consumeTag (x :: b) = (num, typ, n) :=
        ⟨_, _, _, rfl⟩
      simp only [ht] at ok
      by_cases hn : n < 0
      · simp [hn] at ok
      obtain ⟨n, rfl⟩ := Int.eq_ofNat_of_zero_le (not_lt.mp hn)
      have pos := (h.consumeTag_local _ _ _ _ ht).1
      -- whatever the branch, the value was accepted with some length `j`
      obtain ⟨j, s', value, ok⟩ : ∃ (j : Nat) (s' : σ),
          pw.consumeFieldValue num typ ((x :: b).drop n) = (j : Int) ∧
            walk pw (((x :: b).drop n).drop j) known fn s' = (t, none) := by
        simp only [hn, ↓reduceIte, Int.toNat_natCast] at ok
        by_cases hk : known num
        · simp only [hk, Bool.not_true, Bool.false_eq_true, ↓reduceIte] at ok
          by_cases hy : typ = bytesType
          · obtain ⟨v, j, hv⟩ : ∃ v j, pw.consumeBytes ((x :: b).drop n) = (v, j) := ⟨_, _, rfl⟩
            simp only [hy, ne_eq, not_true_eq_false, ↓reduceIte, hv] at ok
            by_cases hj : j < 0
            · simp [hj] at ok
            obtain ⟨j, rfl⟩ := Int.eq_ofNat_of_zero_le (not_lt.mp hj)
            simp only [hj, ↓reduceIte, Int.toNat_natCast] at ok
            obtain ⟨s', err, hf⟩ : ∃ s' err, fn num v s = (s', err) := ⟨_, _, rfl⟩
            rw [hf] at ok
            cases err with
            | some err => simp at ok
            | none => exact ⟨j, s', by rw [hy, h.consumeFieldValue_bytes, hv], ok⟩
          · simp [hy] at ok
        · obtain ⟨j, hj⟩ : ∃ j, pw.consumeFieldValue num typ ((x :: b).drop n) = j := ⟨_, rfl⟩
          simp only [hk, Bool.not_false, ↓reduceIte, hj] at ok
          by_cases neg : j < 0
          · simp [neg] at ok
          obtain ⟨j, rfl⟩ := Int.eq_ofNat_of_zero_le (not_lt.mp neg)
          simp only [neg, ↓reduceIte, Int.toNat_natCast] at ok
          exact ⟨j, s, hj, ok⟩
      have shorter : (((x :: b).drop n).drop j).length < (x :: b).length := by
        simp only [List.length_drop, List.length_cons]
        omega
      obtain ⟨fs, hfs⟩ := ih _ shorter _ s' ok rfl
      refine ⟨fieldAt h (x :: b) num typ n j ht value :: fs, ?_⟩
      rw [concat_cons, ← hfs]
      exact fieldAt_split h (x :: b) num typ n j ht value

/-- A field that the reader does not know can be put in or taken out anywhere between two
fields, whatever follows. -/
theorem walk_unknown (fs : List (Field pw)) (f : Field pw) (hf : known f.num = false)
    (rest : Bytes) (s : σ) :
    walk pw (concat fs ++ (f.bytes ++ rest)) known fn s =
      walk pw (concat fs ++ rest) known fn s := by
  have skip : visitField known fn f = fun s => (s, none) := by
    funext s
    simp [visitField, hf]
  rw [walk_concat h, walk_concat h]
  simp only [walk_field h, skip]

end
end Protobus.Wire
