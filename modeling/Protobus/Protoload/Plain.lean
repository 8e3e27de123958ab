import Protobus.Protoload.Places

/-!
# Plainly written schemas

A schema whose import and syntax statements are plainly written, and in which nothing else looks
like an import of the added paths, gets the imports it lacks.
-/
namespace Protobus.Protoload
open Library

/-- What follows the word `import` in a plainly written statement: white space, perhaps a modifier
and white space, the path in double quotes, and the semicolon. -/
inductive ImportLayout (path : Bytes) : List Bytes → Prop
  | plain {gap tail : Bytes} {rest : List Bytes} : Gap gap → (∀ b ∈ tail, isSpace b = true) →
      ImportLayout path (spaced gap ++ quoted path :: (spaced tail ++ lit ";" :: rest))
  | modified {gap kw gap' tail : Bytes} {rest : List Bytes} : Gap gap →
      kw = lit "public" ∨ kw = lit "weak" → Gap gap' → (∀ b ∈ tail, isSpace b = true) →
      ImportLayout path
        (spaced gap ++ kw :: (spaced gap' ++ quoted path :: (spaced tail ++ lit ";" :: rest)))

/-- A plainly written syntax or edition statement up to its semicolon: the keyword is the first on
its line, with only white space and comments that mention neither keyword before it, and blanks
stand between its tokens. -/
inductive SyntaxLayout : List Bytes → Prop
  | intro {before : List Bytes} {indent kw gap gap' level gap'' : Bytes} :
      tokens before = [] → NoKeyword before.flatten →
      before.flatten = [] ∨ (∃ c, before.flatten = c ++ [10]) →
      kw = lit "syntax" ∨ kw = lit "edition" →
      (∀ b ∈ indent ++ gap ++ gap' ++ gap'', isBlank b = true) → Unescaped level →
      SyntaxLayout (before ++ (spaced indent ++ kw :: (spaced gap ++ lit "=" ::
        (spaced gap' ++ quoted level :: spaced gap''))))

/-- Each import statement is plainly written, nothing else is taken for an import of the added
paths, and the source begins with a plainly written syntax or edition statement or holds neither
keyword. -/
structure Plain (src : Bytes) (pieces : List Bytes) : Prop where
  written : ∀ before after, pieces = before ++ lit "import" :: after →
    ∃ path, Unescaped path ∧ ImportLayout path after
  found : ∀ path ∈ [typesProtoPath, customTypesPath], ∀ x y, src = x ++ y →
    (importAt path y).isSome = true →
      ∃ before after, pieces = before ++ lit "import" :: after ∧ before.flatten = x
  level : (∃ head rest, pieces = head ++ lit ";" :: rest ∧ SyntaxLayout head) ∨ NoKeyword src

theorem isWhite_of_isSpace {b : UInt8} (space : isSpace b = true) : isWhite b = true := by
  simp only [isSpace, Bool.or_eq_true, decide_eq_true_eq] at space
  rcases space with (((rfl | rfl) | rfl) | rfl) | rfl <;> rfl

theorem isWhite_of_isBlank {b : UInt8} (blank : isBlank b = true) : isWhite b = true := by
  simp only [isBlank, Bool.or_eq_true, decide_eq_true_eq] at blank
  rcases blank with rfl | rfl <;> rfl

theorem tokens_gap {s : Bytes} (spaces : ∀ b ∈ s, isSpace b = true) : tokens (spaced s) = [] :=
  tokens_spaced fun b mem => isWhite_of_isSpace (spaces b mem)

theorem importOf_modified {path kw : Bytes} (isKw : kw = lit "public" ∨ kw = lit "weak")
    (unescaped : Unescaped path) (rest : List Bytes) :
    importOf (kw :: quoted path :: lit ";" :: rest) = some path := by
  have symbol : isString (lit ";") = false := by decide
  simp [importOf, isKw, symbol, value_quoted unescaped.2]

/-- The statement as tokens. -/
theorem ImportLayout.importOf_tokens {path : Bytes} {after : List Bytes}
    (layout : ImportLayout path after) (unescaped : Unescaped path) :
    importOf (tokens after) = some path := by
  cases layout with
  | plain isGap tail =>
    rw [tokens_append, tokens_gap isGap.2, List.nil_append,
      tokens_cons_of_token (isToken_quoted _), tokens_append, tokens_gap tail, List.nil_append,
      tokens_cons_of_token isToken_semicolon]
    exact importOf_quoted unescaped _
  | modified isGap isKw isGap' tail =>
    have token : ∀ kw, kw = lit "public" ∨ kw = lit "weak" → isToken kw = true := by
      rintro kw (rfl | rfl) <;> decide
    rw [tokens_append, tokens_gap isGap.2, List.nil_append, tokens_cons_of_token (token _ isKw),
      tokens_append, tokens_gap isGap'.2, List.nil_append,
      tokens_cons_of_token (isToken_quoted _), tokens_append, tokens_gap tail, List.nil_append,
      tokens_cons_of_token isToken_semicolon]
    exact importOf_modified isKw unescaped _

theorem expect_quoted {p path r : Bytes} (hp : 34 ∉ p) (hpath : 34 ∉ path)
    (h : (expect (quoted p) (quoted path ++ r)).isSome = true) : p = path := by
  obtain ⟨r', eq⟩ := Option.isSome_iff_exists.mp h
  have same : path ++ 34 :: r = p ++ 34 :: r' := by
    simpa [quoted] using expect_eq_some.mp eq
  have ends {s t : Bytes} (clean : 34 ∉ s) : (s ++ 34 :: t).takeWhile (fun b => b ≠ 34) = s := by
    rw [List.takeWhile_append_of_pos]
    · simp
    · intro b mem
      have : b ≠ 34 := fun eq => clean (eq ▸ mem)
      simpa using this
  rw [← ends hp, ← ends hpath, same]

/-- The statement as bytes: the expression for a path finds it exactly if it imports that path. -/
theorem ImportLayout.importAt_iff {path p : Bytes} {after : List Bytes}
    (layout : ImportLayout path after) (unescaped : Unescaped path) (clean : 34 ∉ p) :
    (importAt p (lit "import" ++ after.flatten)).isSome = true ↔ p = path := by
  cases layout with
  | @plain gap tail rest isGap _ =>
    have front := spaces_of_gap isGap (head_quoted path (tail ++ (lit ";" ++ rest.flatten)))
    refine ⟨fun h => ?_, ?_⟩
    · refine expect_quoted clean unescaped.1 (r := tail ++ (lit ";" ++ rest.flatten)) ?_
      simpa [importAt, front, modifier_quoted] using h
    · rintro rfl
      simp [importAt, front, modifier_quoted]
  | @modified gap kw gap' tail rest isGap isKw isGap' _ =>
    have back := modifier_of_gap isKw isGap' (head_quoted path (tail ++ (lit ";" ++ rest.flatten)))
    have front := spaces_of_gap isGap
      (head_kw isKw (gap' ++ (quoted path ++ (tail ++ (lit ";" ++ rest.flatten)))))
    rw [List.append_assoc] at back
    refine ⟨fun h => ?_, ?_⟩
    · refine expect_quoted clean unescaped.1 (r := tail ++ (lit ";" ++ rest.flatten)) ?_
      simpa [importAt, front, back] using h
    · rintro rfl
      simp [importAt, front, back]

/-- Plainly written imports are found by the expressions and by the tokens alike. -/
theorem Plain.importsPath_iff_tokens {src path : Bytes} {pieces : List Bytes}
    (plain : Plain src pieces) (lexed : proto.lex src = some pieces)
    (added : path ∈ [typesProtoPath, customTypesPath]) (clean : 34 ∉ path) :
    importsPath path src = true ↔ path ∈ imports (tokens pieces) := by
  obtain ⟨flat, -⟩ := Lexer.lex_eq_some_iff.mp lexed
  have text {before after : List Bytes} (eq : pieces = before ++ lit "import" :: after) :
      src = before.flatten ++ (lit "import" ++ after.flatten) := by
    rw [← flat, eq]
    simp
  constructor
  · intro found
    obtain ⟨x, t, y, isText, eq⟩ := importsPath_iff.mp found
    have matched : (importAt path (t ++ y)).isSome = true := by
      rw [importAt_eq_some_iff.mpr ⟨t, isText, rfl⟩]
      rfl
    obtain ⟨before, after, split, rfl⟩ := plain.found path added x (t ++ y) eq matched
    obtain ⟨path', unescaped, layout⟩ := plain.written before after split
    rw [← List.append_cancel_left ((text split).symm.trans eq)] at matched
    rw [(layout.importAt_iff unescaped clean).mp matched]
    refine mem_imports.mpr ⟨tokens before, tokens after, ?_, layout.importOf_tokens unescaped⟩
    rw [split, tokens_append, tokens_cons_of_token (by decide)]
  · intro found
    obtain ⟨first, last, toks, imported⟩ := mem_imports.mp found
    obtain ⟨before, tail, split, rfl, others⟩ := List.filter_eq_append_iff.mp toks
    obtain ⟨skipped, after, rfl, none, -, rfl⟩ := List.filter_eq_cons_iff.mp others
    have split' : pieces = (before ++ skipped) ++ lit "import" :: after := by rw [split]; simp
    obtain ⟨path', unescaped, layout⟩ := plain.written _ _ split'
    have known := layout.importOf_tokens unescaped
    rw [tokens, imported] at known
    cases known
    have matched := (layout.importAt_iff unescaped clean).mpr rfl
    obtain ⟨r, at_import⟩ := Option.isSome_iff_exists.mp matched
    obtain ⟨t, isText, eq⟩ := importAt_eq_some_iff.mp at_import
    exact importsPath_iff.mpr ⟨_, t, r, isText, by rw [text split', eq]⟩

/-! ## The syntax statement -/

theorem syntaxAt_plain {indent kw gap gap' level gap'' r : Bytes}
    (isKw : kw = lit "syntax" ∨ kw = lit "edition")
    (blank : ∀ b ∈ indent ++ gap ++ gap' ++ gap'', isBlank b = true) (clean : 34 ∉ level) :
    syntaxAt (indent ++ (kw ++ (gap ++ (lit "=" ++ (gap' ++ (quoted level ++
      (gap'' ++ (lit ";" ++ r)))))))) = some r := by
  have skip {s t : Bytes} (sub : s ⊆ indent ++ gap ++ gap' ++ gap'')
      (head : ∀ b, t.head? = some b → isBlank b = false) : (s ++ t).dropWhile isBlank = t :=
    dropWhile_append_of_head (fun b mem => blank b (sub mem)) head
  have inside {t : Bytes} : (level ++ 34 :: t).dropWhile (fun b => b ≠ 34) = [34] ++ t := by
    refine dropWhile_append_of_head (fun b mem => ?_) (by simp)
    have : b ≠ 34 := fun eq => clean (eq ▸ mem)
    simpa using this
  have word {t : Bytes} : (indent ++ (kw ++ t)).dropWhile isBlank = kw ++ t := by
    apply skip (by simp)
    rcases isKw with rfl | rfl
    · rintro b ⟨⟩
      rfl
    · rintro b ⟨⟩
      rfl
  have read {t : Bytes} :
      (expect (lit "syntax") (kw ++ t)).or (expect (lit "edition") (kw ++ t)) = some t := by
    rcases isKw with rfl | rfl
    · simp
    · rw [show expect (lit "syntax") (lit "edition" ++ t) = none from rfl]
      simp
  have equals {t : Bytes} : (gap ++ (lit "=" ++ t)).dropWhile isBlank = lit "=" ++ t := by
    refine skip (fun b mem => by simp [mem]) ?_
    rintro b ⟨⟩
    rfl
  have opens {t : Bytes} : (gap' ++ (quoted level ++ t)).dropWhile isBlank =
      [34] ++ (level ++ 34 :: t) := by
    rw [skip (fun b mem => by simp [mem]) (by simp [quoted, isBlank])]
    simp [quoted]
  have ends : (gap'' ++ (lit ";" ++ r)).dropWhile isBlank = lit ";" ++ r := by
    refine skip (fun b mem => by simp [mem]) ?_
    rintro b ⟨⟩
    rfl
  simp only [syntaxAt, word, read, Option.bind_some, equals, expect_append, opens, inside, ends]

theorem findSyntax_here {s r : Bytes} (h : syntaxAt s = some r) : findSyntax true s = some r := by
  cases s with
  | nil => simp [findSyntax, h]
  | cons b s => simp [findSyntax, h]

/-- The expression finds the plainly written statement. -/
theorem SyntaxLayout.findSyntax_eq {head : List Bytes} (layout : SyntaxLayout head)
    (rest : List Bytes) :
    findSyntax true ((head ++ lit ";" :: rest).flatten) = some rest.flatten := by
  cases layout with
  | @intro before indent kw gap gap' level gap'' _ free line isKw blank unescaped =>
    have here := findSyntax_here (syntaxAt_plain (r := rest.flatten) isKw blank unescaped.1)
    have skip := findSyntax_skip line free (indent ++ (kw ++ (gap ++ (lit "=" ++ (gap' ++
      (quoted level ++ (gap'' ++ (lit ";" ++ rest.flatten))))))))
    rw [here] at skip
    simpa using skip

theorem SyntaxLayout.tokens_eq {head : List Bytes} (layout : SyntaxLayout head) :
    ∃ kw level, (kw = lit "syntax" ∨ kw = lit "edition") ∧
      tokens head = [kw, lit "=", quoted level] := by
  cases layout with
  | @intro before indent kw gap gap' level gap'' comments _ _ isKw blank _ =>
    have nothing {s : Bytes} (sub : s ⊆ indent ++ gap ++ gap' ++ gap'') : tokens (spaced s) = [] :=
      tokens_spaced fun b mem => isWhite_of_isBlank (blank b (sub mem))
    have word : isToken kw = true := by rcases isKw with rfl | rfl <;> decide
    refine ⟨kw, level, isKw, ?_⟩
    rw [tokens_append, comments, tokens_append, nothing (by simp), tokens_cons_of_token word,
      tokens_append, nothing (fun b mem => by simp [mem]), tokens_cons_of_token (by decide),
      tokens_append, nothing (fun b mem => by simp [mem]),
      tokens_cons_of_token (isToken_quoted _), nothing (fun b mem => by simp [mem])]
    rfl

/-- The tokens begin with it. -/
theorem SyntaxLayout.splitSyntax_eq {head : List Bytes} (layout : SyntaxLayout head)
    (rest : List Bytes) : splitSyntax (tokens (head ++ lit ";" :: rest)) =
      (tokens head ++ [lit ";"], tokens rest) := by
  obtain ⟨kw, level, isKw, toks⟩ := layout.tokens_eq
  have symbol : isString (lit ";") = false := by decide
  rw [tokens_append, toks, tokens_cons_of_token isToken_semicolon]
  simp [splitSyntax, isKw, symbol]

theorem NoKeyword.splitSyntax_eq {src : Bytes} {pieces : List Bytes} (free : NoKeyword src)
    (flat : pieces.flatten = src) : splitSyntax (tokens pieces) = ([], tokens pieces) := by
  have apart {kw : Bytes} (isKw : kw = lit "syntax" ∨ kw = lit "edition") :
      (tokens pieces).head? ≠ some kw := by
    intro head
    have mem : kw ∈ pieces := List.mem_of_mem_filter (List.mem_of_head? head)
    obtain ⟨before, after, rfl⟩ := List.append_of_mem mem
    exact free.apart isKw (x := before.flatten) (y := after.flatten) (by simp [← flat])
  rw [splitSyntax, if_neg]
  rintro ⟨head | head, -⟩
  · exact apart (.inl rfl) head
  · exact apart (.inr rfl) head

theorem Plain.absent_eq {src : Bytes} {pieces : List Bytes} (plain : Plain src pieces)
    (lexed : proto.lex src = some pieces) (custom : Bool) :
    absent src custom = missing (tokens pieces) custom := by
  have types :
      importsPath typesProtoPath src = (imports (tokens pieces)).contains typesProtoPath := by
    rw [Bool.eq_iff_iff, plain.importsPath_iff_tokens lexed (by simp) (by decide),
      List.contains_iff_mem]
  have customs :
      importsPath customTypesPath src = (imports (tokens pieces)).contains customTypesPath := by
    rw [Bool.eq_iff_iff, plain.importsPath_iff_tokens lexed (by simp) (by decide),
      List.contains_iff_mem]
  rw [absent, missing, types, customs]

theorem Plain.fits {src : Bytes} {pieces : List Bytes} (plain : Plain src pieces)
    (lexed : proto.lex src = some pieces) (custom : Bool) : Fits src pieces custom := by
  obtain ⟨flat, cut⟩ := Lexer.lex_eq_some_iff.mp lexed
  refine .inl ⟨plain.absent_eq lexed custom, fun _ => ?_⟩
  rcases plain.level with ⟨head, rest, rfl, layout⟩ | free
  · have found := layout.findSyntax_eq rest
    rw [flat] at found
    obtain ⟨x, place, text⟩ := front_of_found found
    have whole : (head ++ [lit ";"]).flatten ++ rest.flatten = x ++ [59] ++ rest.flatten := by
      rw [← text, ← flat]
      simp
    refine ⟨head ++ [lit ";"], ⟨⟨rest, by simp⟩, ?_, by simp⟩, ?_⟩
    · rw [place, List.append_cancel_right whole]
    · rw [layout.splitSyntax_eq rest, tokens_append, tokens_cons_of_token isToken_semicolon]
      rfl
  · refine ⟨[], ⟨List.nil_prefix, (front_of_none (findSyntax_none free)).symm, by simp⟩, ?_⟩
    rw [free.splitSyntax_eq flat]
    rfl

/-- For any source no line moves and a second injection adds nothing. For a source that can be cut
into tokens, the tokens of the result are those of the source with one import statement for each
path they lack, behind the syntax statement or at the start, exactly if the expressions fit the
source, as they do if it is plainly written. -/
theorem injectImports_exact (src : Bytes) (custom : Bool) :
    (∃ a added b, src = a ++ b ∧ injectImports src custom = a ++ added ++ b ∧ 10 ∉ added) ∧
    injectImports (injectImports src custom) custom = injectImports src custom ∧
    ∀ pieces, proto.lex src = some pieces →
      ((∃ pieces', proto.lex (injectImports src custom) = some pieces' ∧
        tokens pieces' = (splitSyntax (tokens pieces)).1 ++
          (missing (tokens pieces) custom).flatMap importTokens ++
          (splitSyntax (tokens pieces)).2) ↔ Fits src pieces custom) ∧
      (Plain src pieces → Fits src pieces custom) := by
  refine ⟨?_, injectImports_again src custom, fun pieces lexed => ⟨?_, ?_⟩⟩
  · obtain ⟨a, added, b, eq, result, newline, -⟩ := injectImports_shape src custom
    exact ⟨a, added, b, eq, result, newline⟩
  · exact intended_iff_fits lexed
  · exact fun plain => plain.fits lexed custom

/-- A comment speaks of an import; the built-in types are imported already, the user's are not. -/
theorem injectImports_exact_imported :
    ∃ src pieces pieces', proto.lex src = some pieces ∧
      proto.lex (injectImports src true) = some pieces' ∧
      tokens pieces' = [lit "syntax", lit "=", quoted (lit "proto3"), lit ";"] ++
        importTokens customTypesPath ++
        [lit "import", lit "public", quoted typesProtoPath, lit ";", lit "message"] := by
  let src := lit "// no import\nsyntax = \"proto3\";\n" ++
    lit "import public \"protobus/types.proto\"; message"
  let after := spaced (lit " ") ++ lit "public" :: (spaced (lit " ") ++
    quoted typesProtoPath :: (spaced [] ++ lit ";" :: ([lit " "] ++ [lit "message"])))
  let head := [lit "// no import", lit "\n"] ++ (spaced [] ++ lit "syntax" ::
    (spaced (lit " ") ++ lit "=" :: (spaced (lit " ") ++ quoted (lit "proto3") :: spaced [])))
  let front := head ++ lit ";" :: [lit "\n"]
  let pieces := front ++ lit "import" :: after
  have lexed : proto.lex src = some pieces := by decide +kernel
  have space : Gap (lit " ") := ⟨by decide, List.all_eq_true.mp (by decide)⟩
  have word : ∀ n < pieces.length, pieces[n]? = some (lit "import") → n = front.length := by
    decide +kernel
  have place : ∀ path ∈ [typesProtoPath, customTypesPath], ∀ n ≤ src.length,
      (importAt path (src.drop n)).isSome = true → n = front.flatten.length := by
    decide +kernel
  have plain : Plain src pieces := by
    refine ⟨fun before rest eq => ⟨typesProtoPath, ⟨by decide, by decide⟩, ?_⟩,
      fun path added x y eq found => ⟨front, after, rfl, ?_⟩, .inl ⟨head, _, rfl, ?_⟩⟩
    · have same := word before.length (by simp [eq]) (by simp [eq])
      obtain ⟨-, others⟩ := List.append_inj (eq : front ++ lit "import" :: after = _) same.symm
      cases others
      exact .modified space (.inl rfl) space (by simp)
    · have same := place path added x.length (by simp [eq]) (by simpa [eq] using found)
      have text : front.flatten ++ (lit "import" :: after).flatten = x ++ y := by
        rw [← eq, ← (Lexer.lex_eq_some_iff.mp lexed).1, ← List.flatten_append]
      exact (List.append_inj text same.symm).1
    · refine .intro rfl ⟨by decide, by decide⟩ (.inr ⟨lit "// no import", rfl⟩) (.inl rfl) ?_ ?_
      · exact List.all_eq_true.mp (by decide)
      · exact ⟨by decide, by decide⟩
  obtain ⟨exact_iff, fits⟩ := (injectImports_exact src true).2.2 pieces lexed
  obtain ⟨pieces', result, toks⟩ := exact_iff.mpr (fits plain)
  have lacks : missing (tokens pieces) true = [customTypesPath] := by decide +kernel
  have parts : splitSyntax (tokens pieces) =
      ([lit "syntax", lit "=", quoted (lit "proto3"), lit ";"],
        [lit "import", lit "public", quoted typesProtoPath, lit ";", lit "message"]) := by
    decide +kernel
  rw [lacks, parts] at toks
  exact ⟨src, pieces, pieces', lexed, result, toks⟩

/-- A comment that mentions an import hides that it is missing; an import in single quotes, or one
without white space behind the keyword, is not seen and repeated; and an import is put in front of a
syntax statement in single quotes. -/
theorem lexical_rules_missed :
    (∃ src, (proto.lex src).map tokens = some [] ∧ injectImports src false = src) ∧
    (∀ src ∈ [lit "import 'protobus/types.proto';", lit "import\"protobus/types.proto\";"],
      (proto.lex src).map (imports ∘ tokens) = some [typesProtoPath] ∧
      injectImports src false = importText typesProtoPath ++ lit " " ++ src) ∧
    (∃ src, (proto.lex src).map (splitSyntax ∘ tokens) =
        some ([lit "syntax", lit "=", lit "'proto3'", lit ";"], []) ∧
      injectImports src false = importText typesProtoPath ++ lit " " ++ src) := by
  refine ⟨⟨lit "// import \"protobus/types.proto\"\n", ?_⟩, ?_, ⟨lit "syntax = 'proto3';", ?_⟩⟩
  · decide +kernel
  · decide +kernel
  · decide +kernel

end Protobus.Protoload
