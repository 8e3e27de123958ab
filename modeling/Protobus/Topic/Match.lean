import Protobus.Library.Bytes

/-!
# AMQP topic matching

`topicMatch` is the binding matcher of the in-memory broker: `*` stands for exactly one
word and `#` for any number of words. Only the pattern gives `*` and `#` that meaning; in
a topic they are words like any other, and so is the empty word.
-/
namespace Protobus.Topic
open Library

def star : Bytes := lit "*"
def hash : Bytes := lit "#"

def topicMatch (p t : List Bytes) : Bool :=
  match p with
  | [] => t.isEmpty
  | w :: ps =>
    if w = hash then
      topicMatch ps t || (match t with
        | [] => false
        | _ :: ts => topicMatch (w :: ps) ts)
    else match t with
      | [] => false
      | u :: ts => if w = star ∨ w = u then topicMatch ps ts else false
termination_by p.length + t.length

@[simp] theorem star_ne_hash : star ≠ hash := by decide
@[simp] theorem hash_ne_star : hash ≠ star := by decide

@[simp] theorem topicMatch_nil (t : List Bytes) : topicMatch [] t = t.isEmpty := by
  rw [topicMatch]

@[simp] theorem topicMatch_hash_nil (p : List Bytes) :
    topicMatch (hash :: p) [] = topicMatch p [] := by
  rw [topicMatch]
  simp

@[simp] theorem topicMatch_hash_cons (p t : List Bytes) (u : Bytes) :
    topicMatch (hash :: p) (u :: t) = (topicMatch p (u :: t) || topicMatch (hash :: p) t) := by
  rw [topicMatch]
  simp

theorem topicMatch_word_nil {w : Bytes} (hw : w ≠ hash) (p : List Bytes) :
    topicMatch (w :: p) [] = false := by
  rw [topicMatch]
  simp [hw]

theorem topicMatch_word_cons {w : Bytes} (hw : w ≠ hash) (u : Bytes) (p t : List Bytes) :
    topicMatch (w :: p) (u :: t) = true ↔ (w = star ∨ w = u) ∧ topicMatch p t = true := by
  rw [topicMatch]
  by_cases h : w = star ∨ w = u <;> simp [hw, h]

/-- A `#` matches by handing some number of words, possibly none, to the rest of the
pattern. -/
theorem topicMatch_hash (p t : List Bytes) :
    topicMatch (hash :: p) t = true ↔ ∃ i ≤ t.length, topicMatch p (t.drop i) = true := by
  induction t with
  | nil => simp
  | cons u t ih =>
    rw [topicMatch_hash_cons, Bool.or_eq_true, ih]
    constructor
    · rintro (h | ⟨i, hi, h⟩)
      · exact ⟨0, by simp, h⟩
      · exact ⟨i + 1, by simpa using hi, by simpa using h⟩
    · rintro ⟨i, hi, h⟩
      cases i with
      | zero => exact .inl (by simpa using h)
      | succ i => exact .inr ⟨i, by simpa using hi, by simpa using h⟩

/-- A pattern matches the topic that is spelled the same way: each wildcard stands for itself. -/
theorem topicMatch_self (p : List Bytes) : topicMatch p p = true := by
  induction p with
  | nil => simp
  | cons w p ih =>
    by_cases hw : w = hash
    · subst hw
      exact (topicMatch_hash p _).mpr ⟨1, by simp, by simpa using ih⟩
    · exact (topicMatch_word_cons hw w p p).mpr ⟨.inr rfl, ih⟩

/-- Words without a wildcard and one `*` behind them. -/
theorem topicMatch_concat_star {ws t : List Bytes} (literal : ∀ w ∈ ws, w ≠ star ∧ w ≠ hash) :
    topicMatch (ws ++ [star]) t = true ↔ ∃ w, t = ws ++ [w] := by
  induction ws generalizing t with
  | nil =>
    cases t with
    | nil => simp [topicMatch_word_nil]
    | cons u t =>
      rw [List.nil_append, topicMatch_word_cons star_ne_hash]
      simp
  | cons w ws ih =>
    obtain ⟨notStar, notHash⟩ := literal w List.mem_cons_self
    cases t with
    | nil => simp [topicMatch_word_nil notHash]
    | cons u t =>
      rw [List.cons_append, topicMatch_word_cons notHash,
        ih fun v mem => literal v (List.mem_cons_of_mem _ mem)]
      simp [notStar, eq_comm]

/-- The catch-all pattern. -/
@[simp] theorem topicMatch_all (t : List Bytes) : topicMatch [hash] t = true :=
  (topicMatch_hash [] t).mpr ⟨t.length, Nat.le_refl _, by simp⟩

end Protobus.Topic
