import Protobus.Protoload.Imports

/-!
# What the injection does to a schema

Whatever the source, the added text holds no line end, and all it adds is found again by a second
injection. What is intended is said by the tokens of the source: one import statement for each path
they lack, behind the syntax statement. Statements that are put in between two tokens make that
sequence only if they are these, and stand there.
-/
namespace Protobus.Protoload
open Library

/-! ## The added text -/

/-- The paths the expressions do not find. -/
def absent (src : Bytes) (custom : Bool) : List Bytes :=
  (if importsPath typesProtoPath src then [] else [typesProtoPath]) ++
    if custom && !importsPath customTypesPath src then [customTypesPath] else []

def extra (paths : List Bytes) : Bytes :=
  lit " " ++ List.intercalate (lit " ") (paths.map importText)

theorem injectImports_eq (src : Bytes) (custom : Bool) : injectImports src custom =
    if absent src custom = [] then src
    else match findSyntax true src with
      | some rest =>
        src.take (src.length - rest.length) ++ extra (absent src custom) ++
          src.drop (src.length - rest.length)
      | none => trimSpace (extra (absent src custom)) ++ lit " " ++ src := by
  unfold injectImports absent
  cases importsPath typesProtoPath src <;> cases custom <;>
    cases importsPath customTypesPath src <;> rfl

def choices : List (List Bytes) :=
  [[typesProtoPath], [customTypesPath], [typesProtoPath, customTypesPath]]

theorem absent_mem_choices {src : Bytes} {custom : Bool} (some : absent src custom ≠ []) :
    absent src custom ∈ choices := by
  revert some
  unfold absent
  cases importsPath typesProtoPath src <;> cases custom <;>
    cases importsPath customTypesPath src <;> simp [choices]

def importPieces (path : Bytes) : List Bytes :=
  [lit " ", lit "import", lit " ", quoted path, lit ";"]

/-- The tokens of an import statement. -/
def importTokens (path : Bytes) : List Bytes := [lit "import", quoted path, lit ";"]

/-- What there is to know of the added text, for each of the three. -/
theorem extra_spec : ∀ paths ∈ choices,
    proto.lex (extra paths) = some (paths.flatMap importPieces) ∧
    (paths.flatMap importPieces).getLast? = some (lit ";") ∧
    lit " " ++ trimSpace (extra paths) = extra paths ∧
    tokens (paths.flatMap importPieces) = paths.flatMap importTokens ∧
    10 ∉ extra paths ∧ ∀ path ∈ paths, importsPath path (trimSpace (extra paths)) = true := by
  decide +kernel

/-- The pieces of the added text in a string, but for the string's own ends. -/
def torn (paths : List Bytes) : List Bytes :=
  ((proto.lex ((extra paths).drop 9 ++ [34])).getD []).dropLast

/-- In a comment or a string in single quotes the added text has no effect, and it ends a string in
double quotes and begins another one. -/
theorem extra_inside : ∀ paths ∈ choices,
    (∀ q ∈ [.line, .block, .string 39], proto.run q (extra paths) = some q) ∧
    extra paths = lit " import \"" ++ (torn paths).flatten ++ lit "\";" ∧
    proto.lex (torn paths ++ [lit "\";\""]).flatten = some (torn paths ++ [lit "\";\""]) ∧
    0 < (tokens (torn paths)).count (lit "/") := by
  decide +kernel

theorem injectImports_of_found {src a rest : Bytes} {custom : Bool}
    (some : absent src custom ≠ []) (found : findSyntax true src = .some rest)
    (eq : src = a ++ rest) :
    injectImports src custom = a ++ extra (absent src custom) ++ rest := by
  have length : src.length - rest.length = a.length := by simp [eq]
  have front : src.take a.length = a := by rw [eq, List.take_left]
  have back : src.drop a.length = rest := by rw [eq, List.drop_left]
  rw [injectImports_eq, if_neg some, found]
  simp only [length, front, back]

/-! ## Any source -/

/-- The text is added at the start or behind a semicolon, and holds what was not found. -/
theorem injectImports_shape (src : Bytes) (custom : Bool) :
    ∃ a added b, src = a ++ b ∧ injectImports src custom = a ++ added ++ b ∧ 10 ∉ added ∧
      (a = [] ∨ ∃ c, a = c ++ [59]) ∧
      ∀ path ∈ absent src custom, importsPath path added = true := by
  by_cases none : absent src custom = []
  · rw [injectImports_eq, if_pos none]
    exact ⟨[], [], src, rfl, rfl, by simp, .inl rfl, by simp [none]⟩
  obtain ⟨-, -, trimmed, -, newline, finds⟩ := extra_spec _ (absent_mem_choices none)
  have finds' : ∀ path ∈ absent src custom,
      importsPath path (extra (absent src custom)) = true := by
    intro path mem
    rw [← trimmed]
    simpa using importsPath_append (finds path mem) (lit " ") []
  cases found : findSyntax true src with
  | some rest =>
    obtain ⟨c, eq⟩ := findSyntax_semicolon found
    exact ⟨c ++ [59], extra (absent src custom), rest, eq, injectImports_of_found none found eq,
      newline, .inr ⟨c, rfl⟩, finds'⟩
  | none =>
    rw [injectImports_eq, if_neg none, found]
    refine ⟨[], trimSpace (extra (absent src custom)) ++ lit " ", src, rfl, rfl, ?_, .inl rfl, ?_⟩
    · have inside : 10 ∉ trimSpace (extra (absent src custom)) := by
        rw [← trimmed] at newline
        exact fun mem => newline (List.mem_append_right _ mem)
      have space : 10 ∉ lit " " := by decide
      simp [inside, space]
    · intro path mem
      simpa using importsPath_append (finds path mem) [] (lit " ")

theorem injectImports_again (src : Bytes) (custom : Bool) :
    injectImports (injectImports src custom) custom = injectImports src custom := by
  obtain ⟨a, added, b, eq, result, -, place, finds⟩ := injectImports_shape src custom
  have kept {path : Bytes} (clean : 59 ∉ path) (found : importsPath path src = true) :
      importsPath path (injectImports src custom) = true := by
    rw [eq] at found
    rw [result]
    exact importsPath_insert found clean place added
  have new {path : Bytes} (mem : path ∈ absent src custom) :
      importsPath path (injectImports src custom) = true := by
    rw [result]
    exact importsPath_append (finds path mem) a b
  have types : importsPath typesProtoPath (injectImports src custom) = true := by
    cases found : importsPath typesProtoPath src with
    | true => exact kept (by decide) found
    | false => exact new (by simp [absent, found])
  have customs : custom = true → importsPath customTypesPath (injectImports src custom) = true := by
    intro wanted
    cases found : importsPath customTypesPath src with
    | true => exact kept (by decide) found
    | false => exact new (by simp [absent, found, wanted])
  have none : absent (injectImports src custom) custom = [] := by
    cases custom with
    | false => simp [absent, types]
    | true => simp [absent, types, customs rfl]
  rw [injectImports_eq (injectImports src custom), if_pos none]

/-! ## The intended tokens -/

/-- In double quotes without escapes, this is the text of a string. -/
def Unescaped (s : Bytes) : Prop := 34 ∉ s ∧ 92 ∉ s

theorem quoted_ne_word (body : Bytes) {t : Bytes} (word : t.head? ≠ some 34) : quoted body ≠ t := by
  rintro rfl
  exact word rfl

theorem importOf_quoted {path : Bytes} (unescaped : Unescaped path) (rest : List Bytes) :
    importOf (quoted path :: lit ";" :: rest) = some path := by
  have isPublic : quoted path ≠ lit "public" := quoted_ne_word path (by decide)
  have isWeak : quoted path ≠ lit "weak" := quoted_ne_word path (by decide)
  have symbol : isString (lit ";") = false := by decide
  simp [importOf, isPublic, isWeak, symbol, value_quoted unescaped.2]

theorem mem_imports {path : Bytes} {toks : List Bytes} :
    path ∈ imports toks ↔
      ∃ before after, toks = before ++ lit "import" :: after ∧ importOf after = some path := by
  induction toks with
  | nil => simp [imports]
  | cons t rest ih =>
    rw [imports, List.mem_append, ih]
    constructor
    · rintro (here | ⟨before, after, rfl, found⟩)
      · split at here
        · next eq => exact ⟨[], rest, by rw [eq]; rfl, by simpa using here⟩
        · cases here
      · exact ⟨t :: before, after, rfl, found⟩
    · rintro ⟨before, after, eq, found⟩
      cases before with
      | nil =>
        cases eq
        exact .inl (by simp [found])
      | cons u before =>
        cases eq
        exact .inr ⟨before, after, rfl, found⟩

theorem splitSyntax_append (toks : List Bytes) :
    (splitSyntax toks).1 ++ (splitSyntax toks).2 = toks := by
  simp only [splitSyntax]
  split
  · next h =>
    obtain ⟨-, -, -, head⟩ := h
    have rest : lit ";" :: ((toks.drop 2).dropWhile isString).tail =
        (toks.drop 2).dropWhile isString := List.cons_head?_tail head
    calc toks.take 2 ++ (toks.drop 2).takeWhile isString ++ [lit ";"] ++
          ((toks.drop 2).dropWhile isString).tail
        = toks.take 2 ++ ((toks.drop 2).takeWhile isString ++
          lit ";" :: ((toks.drop 2).dropWhile isString).tail) := by simp
      _ = toks := by rw [rest, List.takeWhile_append_dropWhile, List.take_append_drop]
  · rfl

/-- The paths a token sequence lacks. -/
def missing (toks : List Bytes) (custom : Bool) : List Bytes :=
  (if (imports toks).contains typesProtoPath then [] else [typesProtoPath]) ++
    if custom && !(imports toks).contains customTypesPath then [customTypesPath] else []

/-- The tokens of a schema with one import statement for each path it lacks, behind the syntax
statement or at the start. -/
def intended (toks : List Bytes) (custom : Bool) : List Bytes :=
  (splitSyntax toks).1 ++ (missing toks custom).flatMap importTokens ++ (splitSyntax toks).2

theorem missing_mem (toks : List Bytes) (custom : Bool) :
    missing toks custom ∈ [] :: choices := by
  unfold missing
  cases (imports toks).contains typesProtoPath <;> cases custom <;>
    cases (imports toks).contains customTypesPath <;> simp [choices]

theorem count_intended (toks : List Bytes) (custom : Bool) (t : Bytes) :
    (intended toks custom).count t =
      toks.count t + ((missing toks custom).flatMap importTokens).count t := by
  have parts : toks.count t = (splitSyntax toks).1.count t + (splitSyntax toks).2.count t := by
    rw [← List.count_append, splitSyntax_append]
  simp only [intended, List.count_append]
  omega

theorem length_intended (toks : List Bytes) (custom : Bool) :
    (intended toks custom).length =
      toks.length + ((missing toks custom).flatMap importTokens).length := by
  have parts : toks.length = (splitSyntax toks).1.length + (splitSyntax toks).2.length := by
    rw [← List.length_append, splitSyntax_append]
  simp only [intended, List.length_append]
  omega

theorem intended_eq_self_iff {toks : List Bytes} {custom : Bool} :
    intended toks custom = toks ↔ missing toks custom = [] := by
  constructor
  · intro eq
    have length := length_intended toks custom
    rw [eq] at length
    cases lacks : missing toks custom with
    | nil => rfl
    | cons path paths => simp [lacks, importTokens] at length
  · intro none
    rw [intended, none, List.flatMap_nil, List.append_nil, splitSyntax_append]

/-- A path whose statement stands among the tokens is not missing. -/
theorem missing_absent {toks paths : List Bytes} {custom : Bool} (choice : paths ∈ choices)
    (lacks : missing toks custom = paths) : ¬ paths.flatMap importTokens <:+: toks := by
  rintro ⟨before, after, eq⟩
  obtain ⟨path, rest, rfl⟩ : ∃ path rest, paths = path :: rest := by
    cases paths with
    | nil => simp [choices] at choice
    | cons path rest => exact ⟨path, rest, rfl⟩
  have known : path = typesProtoPath ∨ path = customTypesPath := by
    simp only [choices, List.mem_cons, List.cons.injEq, List.not_mem_nil, or_false] at choice
    grind
  have clean : Unescaped path := by
    rcases known with rfl | rfl
    · exact ⟨by decide, by decide⟩
    · exact ⟨by decide, by decide⟩
  have imported : path ∈ imports toks := by
    refine mem_imports.mpr
      ⟨before, quoted path :: lit ";" :: (rest.flatMap importTokens ++ after), ?_,
        importOf_quoted clean _⟩
    simp [← eq, importTokens]
  have listed : (imports toks).contains path = true := by simpa using imported
  have there : path ∈ missing toks custom := lacks ▸ List.mem_cons_self
  unfold missing at there
  rcases known with rfl | rfl
  · rw [if_pos listed] at there
    simp only [List.nil_append] at there
    split at there
    · exact absurd (List.mem_singleton.mp there) (by decide)
    · cases there
  · rw [listed] at there
    simp only [Bool.not_true, Bool.and_false, Bool.false_eq_true, if_false,
      List.append_nil] at there
    split at there
    · cases there
    · exact absurd (List.mem_singleton.mp there) (by decide)

/-! ## Where a list may be inserted -/

section Insert
variable {α : Type} {I P Q A B C : List α}

/-- A list that commutes with another is empty or has it as its beginning, unless the other commutes
with a beginning of its own. -/
theorem commute_nil (comm : C ++ I = I ++ C) (free : ¬ I <+: C)
    (whole : ∀ n < I.length, 0 < n → I.take n ++ I ≠ I ++ I.take n) : C = [] := by
  by_cases short : C.length < I.length
  · have front : C = I.take C.length := by
      have taken := congrArg (List.take C.length) comm
      rwa [List.take_left, List.take_append_of_le_length (by omega)] at taken
    by_contra some
    have pos := List.length_pos_iff.mpr some
    exact whole C.length short pos (by rw [← front, comm])
  · have front := congrArg (List.take I.length) comm
    rw [List.take_left, List.take_append_of_le_length (by omega)] at front
    exact absurd (front ▸ List.take_prefix _ _) free

/-- The result tells where the list was inserted. -/
theorem insert_unique (same : P ++ Q = A ++ B) (eq : P ++ I ++ Q = A ++ I ++ B)
    (free : ¬ I <:+: P ++ Q)
    (whole : ∀ n < I.length, 0 < n → I.take n ++ I ≠ I ++ I.take n) : P = A := by
  have inside {x C y : List α} (parts : P ++ Q = x ++ C ++ y) : ¬ I <+: C := by
    rintro ⟨z, rfl⟩
    exact free ⟨x, z ++ y, by rw [parts]; simp⟩
  rcases List.append_eq_append_iff.mp same with ⟨C, rfl, rfl⟩ | ⟨C, rfl, rfl⟩
  · have comm : C ++ I = I ++ C := by
      have swapped : (I ++ C) ++ B = (C ++ I) ++ B := by simpa using eq
      exact (List.append_cancel_right swapped).symm
    simp [commute_nil comm (inside (x := P) (y := B) (by simp)) whole]
  · have comm : C ++ I = I ++ C := by
      have swapped : (C ++ I) ++ Q = (I ++ C) ++ Q := by simpa using eq
      exact List.append_cancel_right swapped
    simp [commute_nil comm (inside (x := A) (y := Q) (by simp)) whole]

end Insert

theorem importTokens_inj : ∀ paths ∈ [] :: choices, ∀ paths' ∈ [] :: choices,
    (∀ path ∈ [typesProtoPath, customTypesPath],
      (paths.flatMap importTokens).count (quoted path) =
        (paths'.flatMap importTokens).count (quoted path)) → paths = paths' := by
  decide +kernel

theorem importTokens_whole : ∀ paths ∈ choices, ∀ n < (paths.flatMap importTokens).length,
    0 < n → (paths.flatMap importTokens).take n ++ paths.flatMap importTokens ≠
      paths.flatMap importTokens ++ (paths.flatMap importTokens).take n := by
  decide +kernel

/-- Between two tokens only the missing statements are right, and only behind the syntax
statement. -/
theorem insert_eq_intended_iff {P Q paths : List Bytes} {custom : Bool} (choice : paths ∈ choices) :
    P ++ paths.flatMap importTokens ++ Q = intended (P ++ Q) custom ↔
      paths = missing (P ++ Q) custom ∧ P = (splitSyntax (P ++ Q)).1 := by
  constructor
  · intro eq
    have lacks : paths = missing (P ++ Q) custom := by
      refine importTokens_inj paths (by simp [choice]) _ (missing_mem _ _) fun path _ => ?_
      have count := congrArg (List.count (quoted path)) eq
      rw [count_intended] at count
      simp only [List.count_append] at count
      omega
    refine ⟨lacks, insert_unique (splitSyntax_append _).symm ?_ (missing_absent choice lacks.symm)
      (importTokens_whole paths choice)⟩
    rw [eq, intended, ← lacks]
  · rintro ⟨lacks, front⟩
    have back : Q = (splitSyntax (P ++ Q)).2 := by
      have parts := splitSyntax_append (P ++ Q)
      nth_rewrite 3 [front] at parts
      exact (List.append_cancel_left parts).symm
    rw [intended, ← lacks, ← front, ← back]

end Protobus.Protoload
