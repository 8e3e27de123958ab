import Protobus.Protoload.Lexical
import Mathlib.Data.List.Infix

/-!
# Import injection

`injectImports` adds the imports of the custom types to a schema source. It looks at the source
through three regular expressions over its bytes. `importAt` and `syntaxAt` match two of them at a
place; each letter decides what matches next, so there is nothing to backtrack over.

Whatever the source, no line moves and a second injection adds nothing. The token sequence is the
one intended if the text `import` occurs only where a plainly written import statement begins, and
the syntax statement is plainly written, too.
-/
namespace Protobus.Protoload
open Library

/-! ## The regular expressions -/

/-- The class `\s`. -/
def isSpace (b : UInt8) : Bool := b = 9 || b = 10 || b = 12 || b = 13 || b = 32

/-- The class `[ \t]`. -/
def isBlank (b : UInt8) : Bool := b = 9 || b = 32

def expect (text s : Bytes) : Option Bytes :=
  if text.isPrefixOf s then some (s.drop text.length) else none

/-- `\s+`. -/
def spaces (s : Bytes) : Option Bytes :=
  if s.head?.any isSpace then some (s.dropWhile isSpace) else none

/-- `(?:public\s+|weak\s+)?`. -/
def modifier (s : Bytes) : Bytes :=
  match (expect (lit "public") s).bind spaces with
  | some r => r
  | none => ((expect (lit "weak") s).bind spaces).getD s

/-- What follows a match of `import\s+(?:public\s+|weak\s+)?"path"` that begins here. -/
def importAt (path s : Bytes) : Option Bytes :=
  (expect (lit "import") s).bind fun s =>
    (spaces s).bind fun s => expect (quoted path) (modifier s)

/-- `importsTypes.Match` and `importsCustoms.Match`. -/
def importsPath (path src : Bytes) : Bool := src.tails.any fun s => (importAt path s).isSome

/-- What follows a match of `[ \t]*(syntax|edition)[ \t]*=[ \t]*"[^"]*"[ \t]*;` that begins here. -/
def syntaxAt (s : Bytes) : Option Bytes :=
  let s := s.dropWhile isBlank
  ((expect (lit "syntax") s).or (expect (lit "edition") s)).bind fun s =>
    (expect (lit "=") (s.dropWhile isBlank)).bind fun s =>
      (expect [34] (s.dropWhile isBlank)).bind fun s =>
        (expect [34] (s.dropWhile fun b => b ≠ 34)).bind fun s =>
          expect (lit ";") (s.dropWhile isBlank)

/-- What follows the first match of `syntaxLine`, which begins where a line does. -/
def findSyntax : Bool → Bytes → Option Bytes
  | atLine, [] => if atLine then syntaxAt [] else none
  | atLine, b :: s => (if atLine then syntaxAt (b :: s) else none).or (findSyntax (b = 10) s)

/-! ## The injection -/

def typesProtoPath : Bytes := lit "protobus/types.proto"

def customTypesPath : Bytes := lit "protobus/custom_types.proto"

def importText (path : Bytes) : Bytes := lit "import \"" ++ path ++ lit "\";"

def injectImports (src : Bytes) (custom : Bool) : Bytes :=
  let add := (if importsPath typesProtoPath src then [] else [importText typesProtoPath]) ++
    if custom && !importsPath customTypesPath src then [importText customTypesPath] else []
  if add = [] then src
  else
    let extra := lit " " ++ List.intercalate (lit " ") add
    match findSyntax true src with
    | some rest =>
      let loc := src.length - rest.length
      src.take loc ++ extra ++ src.drop loc
    | none => trimSpace extra ++ lit " " ++ src

/-! ## What the expressions match -/

def Gap (s : Bytes) : Prop := s ≠ [] ∧ ∀ b ∈ s, isSpace b = true

theorem expect_eq_some {text s r : Bytes} : expect text s = some r ↔ s = text ++ r := by
  unfold expect
  split
  · next isPre =>
    obtain ⟨r', rfl⟩ := List.isPrefixOf_iff_prefix.mp isPre
    simp
  · next noPre =>
    refine iff_of_false (by simp) ?_
    rintro rfl
    exact noPre (by simp)

@[simp] theorem expect_append (text r : Bytes) : expect text (text ++ r) = some r :=
  expect_eq_some.mpr rfl

theorem dropWhile_append_of_head {p : UInt8 → Bool} {s r : Bytes} (all : ∀ b ∈ s, p b = true)
    (head : ∀ b, r.head? = some b → p b = false) : (s ++ r).dropWhile p = r := by
  rw [List.dropWhile_append_of_pos all]
  cases r with
  | nil => rfl
  | cons b r => exact List.dropWhile_cons_of_neg (by simp [head b rfl])

theorem spaces_of_gap {gap r : Bytes} (isGap : Gap gap)
    (head : ∀ b, r.head? = some b → isSpace b = false) : spaces (gap ++ r) = some r := by
  obtain ⟨nonempty, all⟩ := isGap
  obtain ⟨b, rest, rfl⟩ := List.exists_cons_of_ne_nil nonempty
  rw [spaces, if_pos (by simpa using all b List.mem_cons_self), dropWhile_append_of_head all head]

theorem gap_of_spaces {s r : Bytes} (h : spaces s = some r) : ∃ gap, Gap gap ∧ s = gap ++ r := by
  unfold spaces at h
  split at h
  · next starts =>
    cases h
    refine ⟨s.takeWhile isSpace, ⟨?_, ?_⟩, List.takeWhile_append_dropWhile.symm⟩
    · cases s with
      | nil => simp at starts
      | cons b s =>
        have space : isSpace b = true := by simpa using starts
        simp [space]
    · exact List.all_eq_true.mp List.all_takeWhile
  · cases h

/-- The texts the expression for a path matches. -/
inductive ImportText (path : Bytes) : Bytes → Prop
  | plain {gap : Bytes} : Gap gap → ImportText path (lit "import" ++ gap ++ quoted path)
  | modified {gap kw gap' : Bytes} : Gap gap → kw = lit "public" ∨ kw = lit "weak" → Gap gap' →
      ImportText path (lit "import" ++ gap ++ kw ++ gap' ++ quoted path)

theorem modifier_quoted (path r : Bytes) : modifier (quoted path ++ r) = quoted path ++ r := rfl

theorem modifier_of_gap {kw gap r : Bytes} (isKw : kw = lit "public" ∨ kw = lit "weak")
    (isGap : Gap gap) (head : ∀ b, r.head? = some b → isSpace b = false) :
    modifier (kw ++ gap ++ r) = r := by
  rw [List.append_assoc]
  rcases isKw with rfl | rfl
  · simp [modifier, spaces_of_gap isGap head]
  · have apart : expect (lit "public") (lit "weak" ++ (gap ++ r)) = none := rfl
    simp [modifier, apart, spaces_of_gap isGap head]

theorem modifier_cases (s : Bytes) : modifier s = s ∨
    ∃ kw gap, (kw = lit "public" ∨ kw = lit "weak") ∧ Gap gap ∧ s = kw ++ gap ++ modifier s := by
  have parts {kw r : Bytes} (h : (expect kw s).bind spaces = some r) :
      ∃ gap, Gap gap ∧ s = kw ++ gap ++ r := by
    obtain ⟨mid, matched, rest⟩ := Option.bind_eq_some_iff.mp h
    obtain ⟨gap, isGap, rfl⟩ := gap_of_spaces rest
    exact ⟨gap, isGap, by rw [expect_eq_some.mp matched, List.append_assoc]⟩
  unfold modifier
  cases isPublic : (expect (lit "public") s).bind spaces with
  | some r =>
    obtain ⟨gap, isGap, eq⟩ := parts isPublic
    exact .inr ⟨_, gap, .inl rfl, isGap, eq⟩
  | none =>
    cases isWeak : (expect (lit "weak") s).bind spaces with
    | some r =>
      obtain ⟨gap, isGap, eq⟩ := parts isWeak
      exact .inr ⟨_, gap, .inr rfl, isGap, eq⟩
    | none => exact .inl rfl

theorem head_quoted (path r : Bytes) :
    ∀ b, (quoted path ++ r).head? = some b → isSpace b = false := by
  simp [quoted, isSpace]

theorem head_kw {kw : Bytes} (isKw : kw = lit "public" ∨ kw = lit "weak") (r : Bytes) :
    ∀ b, (kw ++ r).head? = some b → isSpace b = false := by
  rcases isKw with rfl | rfl
  · rintro b ⟨⟩
    rfl
  · rintro b ⟨⟩
    rfl

theorem importAt_eq_some_iff {path s r : Bytes} :
    importAt path s = some r ↔ ∃ t, ImportText path t ∧ s = t ++ r := by
  constructor
  · intro h
    obtain ⟨s₁, first, second⟩ := Option.bind_eq_some_iff.mp h
    obtain ⟨s₂, third, last⟩ := Option.bind_eq_some_iff.mp second
    obtain ⟨gap, isGap, rfl⟩ := gap_of_spaces third
    rw [expect_eq_some] at first last
    subst first
    rcases modifier_cases s₂ with same | ⟨kw, gap', isKw, isGap', eq⟩
    · refine ⟨_, .plain isGap, ?_⟩
      rw [← same, last]
      simp
    · refine ⟨_, .modified isGap isKw isGap', ?_⟩
      rw [eq, last]
      simp
  · rintro ⟨t, text, rfl⟩
    cases text with
    | @plain gap isGap =>
      have front := spaces_of_gap isGap (head_quoted path r)
      simp [importAt, front, modifier_quoted]
    | @modified gap kw gap' isGap isKw isGap' =>
      have front := spaces_of_gap isGap (head_kw isKw (gap' ++ (quoted path ++ r)))
      have back := modifier_of_gap isKw isGap' (head_quoted path r)
      rw [List.append_assoc] at back
      simp [importAt, front, back]

theorem importsPath_iff {path src : Bytes} :
    importsPath path src = true ↔ ∃ x t y, ImportText path t ∧ src = x ++ (t ++ y) := by
  simp only [importsPath, List.any_eq_true, List.mem_tails, Option.isSome_iff_exists,
    importAt_eq_some_iff]
  constructor
  · rintro ⟨s, ⟨x, rfl⟩, y, t, text, rfl⟩
    exact ⟨x, t, y, text, rfl⟩
  · rintro ⟨x, t, y, text, rfl⟩
    exact ⟨t ++ y, ⟨x, rfl⟩, y, t, text, rfl⟩

theorem importsPath_append {path s : Bytes} (found : importsPath path s = true) (a b : Bytes) :
    importsPath path (a ++ s ++ b) = true := by
  obtain ⟨x, t, y, text, rfl⟩ := importsPath_iff.mp found
  exact importsPath_iff.mpr ⟨a ++ x, t, y ++ b, text, by simp⟩

theorem ImportText.no_semicolon {path t : Bytes} (text : ImportText path t) (none : 59 ∉ path) :
    59 ∉ t := by
  have gap {s : Bytes} (isGap : Gap s) : 59 ∉ s := fun mem => absurd (isGap.2 59 mem) (by decide)
  have import_ : 59 ∉ lit "import" := by decide
  have quotes : 59 ∉ quoted path := by simp [quoted, none]
  cases text with
  | plain isGap => simp [import_, gap isGap, quotes]
  | modified isGap isKw isGap' =>
    have kw : 59 ∉ lit "public" ∧ 59 ∉ lit "weak" := by decide
    rcases isKw with rfl | rfl
    · simp [import_, gap isGap, gap isGap', quotes, kw.1]
    · simp [import_, gap isGap, gap isGap', quotes, kw.2]

/-- A match holds no semicolon, so it is not torn by a text put behind one. -/
theorem importsPath_insert {path a b : Bytes} (found : importsPath path (a ++ b) = true)
    (none : 59 ∉ path) (place : a = [] ∨ ∃ c, a = c ++ [59]) (added : Bytes) :
    importsPath path (a ++ added ++ b) = true := by
  rcases place with rfl | ⟨c, rfl⟩
  · simpa using importsPath_append found added []
  obtain ⟨x, t, y, text, whole⟩ := importsPath_iff.mp found
  have clean := text.no_semicolon none
  rw [List.append_assoc] at whole
  refine importsPath_iff.mpr ?_
  rcases List.append_eq_append_iff.mp whole with ⟨e, rfl, right⟩ | ⟨e, rfl, right⟩
  · cases e with
    | nil =>
      have first : t.head? = some 59 ∨ t = [] := by
        cases t with
        | nil => exact .inr rfl
        | cons d t =>
          cases right
          exact .inl rfl
      rcases first with first | rfl
      · exact absurd (List.mem_of_head? first) clean
      · exact ⟨c ++ [59] ++ added ++ b, [], [], text, by simp⟩
    | cons d e =>
      obtain ⟨rfl, rfl⟩ : 59 = d ∧ b = e ++ (t ++ y) := by simpa using right
      exact ⟨c ++ [59] ++ added ++ e, t, y, text, by simp⟩
  · rcases List.append_eq_append_iff.mp right with ⟨e', rfl, right⟩ | ⟨e', rfl, right⟩
    · exact ⟨x, t, e' ++ [59] ++ added ++ b, text, by simp⟩
    · cases e' with
      | nil => exact ⟨x, e, [59] ++ added ++ b, by simpa using text, by simp⟩
      | cons d e' =>
        obtain ⟨rfl, -⟩ : d = 59 ∧ e' ++ y = b := by simpa using right
        exact absurd (by simp) clean

/-! ### The syntax line -/

theorem dropWhile_eq_append (p : UInt8 → Bool) (s : Bytes) :
    ∃ x, (∀ b ∈ x, p b = true) ∧ s = x ++ s.dropWhile p :=
  ⟨s.takeWhile p, List.all_eq_true.mp List.all_takeWhile, List.takeWhile_append_dropWhile.symm⟩

/-- A match begins with blanks and a keyword and ends with a semicolon. -/
theorem syntaxAt_shape {s r : Bytes} (h : syntaxAt s = some r) :
    ∃ x kw y, (∀ b ∈ x, isBlank b = true) ∧ (kw = lit "syntax" ∨ kw = lit "edition") ∧
      s = x ++ kw ++ y ++ [59] ++ r := by
  obtain ⟨s₁, first, h₁⟩ := Option.bind_eq_some_iff.mp h
  obtain ⟨s₂, second, h₂⟩ := Option.bind_eq_some_iff.mp h₁
  obtain ⟨s₃, third, h₃⟩ := Option.bind_eq_some_iff.mp h₂
  obtain ⟨s₄, fourth, last⟩ := Option.bind_eq_some_iff.mp h₃
  obtain ⟨x, blank, eq⟩ := dropWhile_eq_append isBlank s
  obtain ⟨x₁, -, eq₁⟩ := dropWhile_eq_append isBlank s₁
  obtain ⟨x₂, -, eq₂⟩ := dropWhile_eq_append isBlank s₂
  obtain ⟨x₃, -, eq₃⟩ := dropWhile_eq_append (fun b => b ≠ 34) s₃
  obtain ⟨x₄, -, eq₄⟩ := dropWhile_eq_append isBlank s₄
  rw [expect_eq_some.mp second] at eq₁
  rw [expect_eq_some.mp third] at eq₂
  rw [expect_eq_some.mp fourth] at eq₃
  rw [expect_eq_some.mp last] at eq₄
  have kw : ∃ kw, (kw = lit "syntax" ∨ kw = lit "edition") ∧ s.dropWhile isBlank = kw ++ s₁ := by
    rcases Option.or_eq_some_iff.mp first with first | ⟨-, first⟩
    · exact ⟨_, .inl rfl, expect_eq_some.mp first⟩
    · exact ⟨_, .inr rfl, expect_eq_some.mp first⟩
  obtain ⟨kw, isKw, eq₀⟩ := kw
  refine ⟨x, kw, x₁ ++ lit "=" ++ x₂ ++ [34] ++ x₃ ++ [34] ++ x₄, blank, isKw, ?_⟩
  rw [eq, eq₀, eq₁, eq₂, eq₃, eq₄, show lit ";" = [59] from rfl]
  simp

theorem findSyntax_semicolon {atLine : Bool} {s r : Bytes} (h : findSyntax atLine s = some r) :
    ∃ c, s = c ++ [59] ++ r := by
  have matched {s r : Bytes} (h : syntaxAt s = some r) : ∃ c, s = c ++ [59] ++ r := by
    obtain ⟨x, kw, y, -, -, eq⟩ := syntaxAt_shape h
    exact ⟨x ++ kw ++ y, eq⟩
  induction s generalizing atLine with
  | nil =>
    rw [findSyntax] at h
    split at h
    · exact matched h
    · cases h
  | cons b s ih =>
    rcases Option.or_eq_some_iff.mp h with here | ⟨-, later⟩
    · split at here
      · exact matched here
      · cases here
    · obtain ⟨c, eq⟩ := ih later
      exact ⟨b :: c, by rw [eq]; rfl⟩

/-- Neither keyword stands in the text. -/
def NoKeyword (s : Bytes) : Prop := ¬ lit "syntax" <:+: s ∧ ¬ lit "edition" <:+: s

theorem NoKeyword.apart {s x kw y : Bytes} (free : NoKeyword s)
    (isKw : kw = lit "syntax" ∨ kw = lit "edition") : s ≠ x ++ kw ++ y := by
  rintro rfl
  rcases isKw with rfl | rfl
  · exact free.1 ⟨x, y, rfl⟩
  · exact free.2 ⟨x, y, rfl⟩

theorem NoKeyword.of_append {s t : Bytes} (free : NoKeyword (s ++ t)) : NoKeyword t := by
  refine ⟨fun ⟨x, y, eq⟩ => free.1 ⟨s ++ x, y, ?_⟩, fun ⟨x, y, eq⟩ => free.2 ⟨s ++ x, y, ?_⟩⟩
  · simp [← eq]
  · simp [← eq]

theorem findSyntax_none {atLine : Bool} {s : Bytes} (free : NoKeyword s) :
    findSyntax atLine s = none := by
  have unmatched {s : Bytes} (free : NoKeyword s) : syntaxAt s = none := by
    by_contra found
    obtain ⟨r, matched⟩ := Option.ne_none_iff_exists'.mp found
    obtain ⟨x, kw, y, -, isKw, eq⟩ := syntaxAt_shape matched
    rw [List.append_assoc (x ++ kw), List.append_assoc (x ++ kw)] at eq
    exact free.apart isKw eq
  induction s generalizing atLine with
  | nil => simp [findSyntax, unmatched free]
  | cons b s ih =>
    have rest : NoKeyword s := NoKeyword.of_append (s := [b]) free
    simp [findSyntax, unmatched free, ih rest]

/-- A match does not reach over the end of a line before its keyword. -/
theorem findSyntax_skip {s : Bytes} (line : s = [] ∨ ∃ c, s = c ++ [10]) (free : NoKeyword s)
    (t : Bytes) : findSyntax true (s ++ t) = findSyntax true t := by
  have unmatched {c : Bytes} (free : NoKeyword (c ++ [10])) : syntaxAt (c ++ [10] ++ t) = none := by
    by_contra found
    obtain ⟨r, matched⟩ := Option.ne_none_iff_exists'.mp found
    obtain ⟨x, kw, y, blank, isKw, eq⟩ := syntaxAt_shape matched
    have newline : 10 ∉ x ++ kw := by
      have first : 10 ∉ x := fun mem => absurd (blank 10 mem) (by decide)
      have both : 10 ∉ lit "syntax" ∧ 10 ∉ lit "edition" := by decide
      rcases isKw with rfl | rfl
      · simp [first, both.1]
      · simp [first, both.2]
    simp only [List.append_assoc] at eq
    rw [← List.append_assoc x] at eq
    rcases List.append_eq_append_iff.mp eq with ⟨e, whole, right⟩ | ⟨e, whole, -⟩
    · cases e with
      | nil =>
        rw [List.append_nil] at whole
        exact free.apart isKw (show c ++ [10] = x ++ kw ++ [10] by rw [whole])
      | cons d e =>
        obtain ⟨rfl, -⟩ : 10 = d ∧ t = e ++ _ := by simpa using right
        exact newline (by simp [whole])
    · exact free.apart isKw (show c ++ [10] = x ++ kw ++ (e ++ [10]) by rw [whole]; simp)
  have any (c : Bytes) (free : NoKeyword (c ++ [10])) (atLine : Bool) :
      findSyntax atLine (c ++ [10] ++ t) = findSyntax true t := by
    induction c generalizing atLine with
    | nil =>
      have here := unmatched free
      rw [List.nil_append, List.singleton_append] at here ⊢
      simp [findSyntax, here]
    | cons b c ih =>
      have here := unmatched free
      have rest : NoKeyword (c ++ [10]) := NoKeyword.of_append (s := [b]) free
      simp only [List.cons_append] at here ⊢
      simp only [findSyntax, here, ite_self, Option.none_or]
      exact ih rest _
  rcases line with rfl | ⟨c, rfl⟩
  · rfl
  · exact any c free true

end Protobus.Protoload
