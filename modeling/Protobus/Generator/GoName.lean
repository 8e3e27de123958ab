import Protobus.Library.Names
import Mathlib.Tactic.SplitIfs

/-!
# Names in a generated skeleton

`goName` capitalises with one flag; `goCamelCase` is the function of that name in protoc-gen-go,
which looks back for the start of a name and forward for the rest of a word. They agree on
identifiers that do not begin with an underscore.
-/
namespace Protobus.Generator
open Library

def isLower (c : UInt8) : Bool := 97 ≤ c && c ≤ 122

def underscore : UInt8 := 95

/-- `s[i+1]` exists and is a lower-case letter. -/
def nextLower (s : Bytes) : Bool := s.head?.any isLower

/-- The loop of `goName`. -/
def goNameFrom (upper : Bool) : Bytes → Bytes
  | [] => []
  | c :: s =>
    if c = underscore && nextLower s then goNameFrom true s
    else if c = dot then goNameFrom true s
    else if upper && isLower c then (c - 97 + 65) :: goNameFrom false s
    else c :: goNameFrom (isDigit c) s

def goName (s : Bytes) : Bytes := goNameFrom true s

/-- The loop of `GoCamelCase` after `prev`; `word` says that it is in the inner loop, which copies
the lower-case letters of a word. -/
def goCamelCaseFrom (prev : Option UInt8) (word : Bool) : Bytes → Bytes
  | [] => []
  | c :: s =>
    if word && isLower c then c :: goCamelCaseFrom (some c) true s
    else if c = dot && nextLower s then goCamelCaseFrom (some c) false s
    else if c = dot then underscore :: goCamelCaseFrom (some c) false s
    else if c = underscore && (prev = none || prev = some dot) then
      88 :: goCamelCaseFrom (some c) false s
    else if c = underscore && nextLower s then goCamelCaseFrom (some c) false s
    else if isDigit c then c :: goCamelCaseFrom (some c) false s
    else (if isLower c then c - 32 else c) :: goCamelCaseFrom (some c) true s

def goCamelCase (s : Bytes) : Bytes := goCamelCaseFrom none false s

/-! ## Within a name -/

theorem capital_eq (c : UInt8) : c - 97 + 65 = c - 32 := by grind

theorem isLower.kind {c : UInt8} (lower : isLower c = true) :
    c ≠ underscore ∧ c ≠ dot ∧ isDigit c = false := by
  simp only [isLower, isDigit, Bool.and_eq_true, decide_eq_true_eq, UInt8.le_iff_toNat_le,
    Bool.and_eq_false_iff, decide_eq_false_iff_not] at lower ⊢
  refine ⟨?_, ?_, ?_⟩
  · rintro rfl; simp [underscore] at lower
  · rintro rfl; simp [dot] at lower
  · have : (57 : UInt8).toNat = 57 := rfl
    have : (97 : UInt8).toNat = 97 := rfl
    omega

/-- The flag of one loop is the opposite of the other's wherever it is read. -/
theorem goNameFrom_eq {s : Bytes} (dotless : dot ∉ s) {prev : UInt8} (inside : prev ≠ dot)
    {upper word : Bool} (flags : nextLower s = true → upper = !word) :
    goNameFrom upper s = goCamelCaseFrom (some prev) word s := by
  induction s generalizing prev upper word with
  | nil => rfl
  | cons c s ih =>
    rw [List.mem_cons, not_or] at dotless
    have here : c ≠ dot := Ne.symm dotless.1
    rw [goNameFrom, goCamelCaseFrom]
    by_cases lower : isLower c = true
    · obtain ⟨notUnderscore, -, notDigit⟩ := isLower.kind lower
      have next : goNameFrom false s = goCamelCaseFrom (some c) true s :=
        ih dotless.2 here fun _ => rfl
      cases flags (by simpa [nextLower] using lower)
      cases word <;> simp [lower, here, notUnderscore, notDigit, next, capital_eq]
    · by_cases under : c = underscore
      · subst under
        by_cases skipped : nextLower s = true
        · have next : goNameFrom true s = goCamelCaseFrom (some underscore) false s :=
            ih dotless.2 here fun _ => rfl
          simp [lower, here, inside, skipped, next]
        · -- what follows is not capitalised, whatever the flags
          have next : goNameFrom false s = goCamelCaseFrom (some underscore) true s :=
            ih dotless.2 here fun _ => rfl
          have notDigit : isDigit underscore = false := rfl
          simp [lower, here, inside, skipped, next, notDigit]
      · have next : goNameFrom (isDigit c) s = goCamelCaseFrom (some c) (!isDigit c) s :=
          ih dotless.2 here fun _ => (Bool.not_not _).symm
        cases digit : isDigit c with
        | true => simpa [lower, here, under, digit] using next
        | false => simpa [lower, here, under, digit] using next

/-! ## The start of a name -/

theorem isLetter.kind {c : UInt8} (letter : isLetter c = true) :
    c ≠ dot ∧ isDigit c = false := by
  simp only [isLetter, isDigit, dot, Bool.or_eq_true, Bool.and_eq_true, decide_eq_true_eq,
    UInt8.le_iff_toNat_le, ← UInt8.toNat_inj, Bool.and_eq_false_iff, decide_eq_false_iff_not,
    ne_eq] at letter ⊢
  simp at letter ⊢
  omega

theorem isIdent.head {c : UInt8} {s : Bytes} (h : isIdent (c :: s) = true) : isLetter c = true := by
  simp only [isIdent, Bool.and_eq_true] at h
  exact h.1

/-- Both loops from the first letter on. -/
theorem goName_of_letter {c : UInt8} {s : Bytes} (letter : isLetter c = true)
    (notUnderscore : c ≠ underscore) (dotless : dot ∉ s) :
    goName (c :: s) = goCamelCase (c :: s) := by
  obtain ⟨notDot, notDigit⟩ := isLetter.kind letter
  have next : goNameFrom false s = goCamelCaseFrom (some c) true s :=
    goNameFrom_eq dotless notDot fun _ => rfl
  rw [goName, goCamelCase, goNameFrom, goCamelCaseFrom]
  cases lower : isLower c <;> simp [notUnderscore, notDot, notDigit, next, capital_eq]

/-- An underscore at the start is lost, or kept where an `X` is expected. -/
theorem goName_underscore {s : Bytes} (dotless : dot ∉ s) :
    goName (underscore :: s) = (if nextLower s then [] else [underscore]) ++
      goCamelCaseFrom (some underscore) false s := by
  have inside : underscore ≠ dot := by decide
  rw [goName, goNameFrom]
  by_cases skipped : nextLower s = true
  · have next : goNameFrom true s = goCamelCaseFrom (some underscore) false s :=
      goNameFrom_eq dotless inside fun _ => rfl
    simp [skipped, next]
  · have next : goNameFrom false s = goCamelCaseFrom (some underscore) false s :=
      goNameFrom_eq dotless inside fun lower => absurd lower skipped
    have notLower : isLower underscore = false := rfl
    have notDigit : isDigit underscore = false := rfl
    simp [skipped, inside, notLower, notDigit, next]

theorem goCamelCase_underscore (s : Bytes) :
    goCamelCase (underscore :: s) = 88 :: goCamelCaseFrom (some underscore) false s := by
  have inside : underscore ≠ dot := by decide
  simp [goCamelCase, goCamelCaseFrom, inside]

/-! ## Nested messages -/

/-- The name of a message within its package, where messages may be nested. -/
def qualified (outer : List Bytes) (s : Bytes) : Bytes := outer.foldr (fun o t => o ++ dot :: t) s

theorem goCamelCaseFrom_dot (s : Bytes) : goCamelCaseFrom (some dot) false s = goCamelCase s := by
  cases s with
  | nil => rfl
  | cons c s => simp [goCamelCase, goCamelCaseFrom]

theorem goCamelCaseFrom_append (a s : Bytes) (prev : Option UInt8) (word : Bool) :
    goCamelCaseFrom prev word (a ++ dot :: s) = goCamelCaseFrom prev word a ++
      ((if nextLower s then [] else [underscore]) ++ goCamelCase s) := by
  induction a generalizing prev word with
  | nil =>
    have notLower : isLower dot = false := rfl
    rw [List.nil_append, goCamelCaseFrom]
    by_cases lower : nextLower s = true <;>
      simp [notLower, lower, goCamelCaseFrom_dot, goCamelCaseFrom]
  | cons c a ih =>
    have ahead : nextLower (a ++ dot :: s) = nextLower a := by
      cases a <;> rfl
    rw [List.cons_append, goCamelCaseFrom, goCamelCaseFrom, ahead]
    generalize (if nextLower s then [] else [underscore]) ++ goCamelCase s = rest at ih ⊢
    split_ifs <;> simp [ih]

theorem length_goName_le {s : Bytes} (h : isIdent s = true) :
    (goName s).length ≤ (goCamelCase s).length ∧ 0 < (goCamelCase s).length := by
  cases s with
  | nil => cases h
  | cons c s =>
    have dotless : dot ∉ s := fun mem => dot_not_mem_of_isIdent h (List.mem_cons_of_mem c mem)
    have letter := isIdent.head h
    obtain ⟨notDot, notDigit⟩ := isLetter.kind letter
    by_cases first : c = underscore
    · subst first
      rw [goName_underscore dotless, goCamelCase_underscore]
      split <;> simp
    · refine ⟨Nat.le_of_eq (congrArg List.length (goName_of_letter letter first dotless)), ?_⟩
      simp [goCamelCase, goCamelCaseFrom, first, notDot, notDigit]

theorem length_qualified {outer : List Bytes} (h : ∀ o ∈ outer, isIdent o = true)
    (s : Bytes) :
    (goCamelCase s).length + outer.length ≤ (goCamelCase (qualified outer s)).length := by
  induction outer with
  | nil => exact Nat.le_refl _
  | cons o outer ih =>
    obtain ⟨here, rest⟩ := List.forall_mem_cons.mp h
    have first := (length_goName_le here).2
    have others := ih rest
    rw [goCamelCase] at first
    simp only [qualified, List.foldr_cons, goCamelCase, goCamelCaseFrom_append, List.length_append,
      List.length_cons] at others ⊢
    omega

/-- The skeleton's name is that of protoc-gen-go unless it begins with an underscore; the name of a
nested message is never the one it has in the generated package. -/
theorem goName_eq_iff (s : Bytes) (h : isIdent s = true) :
    (goName s = goCamelCase s ↔ s.head? ≠ some underscore) ∧
    ∀ outer : List Bytes, (∀ o ∈ outer, isIdent o = true) →
      (goName s = goCamelCase (qualified outer s) ↔
        outer = [] ∧ s.head? ≠ some underscore) := by
  have own : goName s = goCamelCase s ↔ s.head? ≠ some underscore := by
    cases s with
    | nil => cases h
    | cons c s =>
      have dotless : dot ∉ s := fun mem => dot_not_mem_of_isIdent h (List.mem_cons_of_mem c mem)
      by_cases first : c = underscore
      · subst first
        refine iff_of_false (fun eq => ?_) (by simp)
        rw [goName_underscore dotless, goCamelCase_underscore] at eq
        split at eq
        · exact absurd (congrArg List.length eq) (by simp)
        · exact absurd (List.head_eq_of_cons_eq eq) (by decide)
      · exact iff_of_true (goName_of_letter (isIdent.head h) first dotless) (by simpa using first)
  refine ⟨own, fun outer identifiers => ?_⟩
  by_cases top : outer = []
  · subst top
    simpa [qualified] using own
  · refine iff_of_false (fun eq => ?_) fun both => top both.1
    have := congrArg List.length eq
    have := (length_goName_le h).1
    have := length_qualified identifiers s
    have := List.length_pos_iff.mpr top
    omega

theorem goName_eq_iff_method : goName (lit "get_v2item") = lit "GetV2Item" ∧
    goName (lit "get_v2item") = goCamelCase (lit "get_v2item") :=
  ⟨by decide, (goName_eq_iff (lit "get_v2item") (by decide)).1.mpr (by decide)⟩

theorem underscore_lost : isIdent (lit "_foo") = true ∧
    goName (lit "_foo") = lit "Foo" ∧ goCamelCase (lit "_foo") = lit "XFoo" := by
  decide

end Protobus.Generator
