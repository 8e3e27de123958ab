import Protobus.Protoload.Injection

/-!
# Where the imports are added

The added text stands at the start or behind a semicolon, and a semicolon is a token of its own or
stands in a comment or in a string. In a comment the text is lost, and in a string it is never
right. So the tokens of the result are the intended ones exactly if what the expressions find agrees
with the tokens of the source.
-/
namespace Protobus.Protoload
open Library

/-- The added text has its own pieces in front of any others. -/
theorem added_pieces {paths : List Bytes} (choice : paths ∈ choices) {rest : List Bytes}
    (cut : proto.Pieces rest) : proto.Pieces (paths.flatMap importPieces ++ rest) := by
  obtain ⟨lexed, ends, -⟩ := extra_spec paths choice
  obtain ⟨-, own⟩ := Lexer.lex_eq_some_iff.mp lexed
  obtain ⟨front, eq⟩ := List.getLast?_eq_some_iff.mp ends
  rw [eq] at own ⊢
  simpa using own.splice closed_semicolon (by decide) cut

/-! ## The place of the added text -/

/-- The text before the added one. -/
def front (src : Bytes) : Bytes :=
  match findSyntax true src with
  | some rest => src.take (src.length - rest.length)
  | none => []

/-- These pieces are before the added text. -/
def Behind (pieces before : List Bytes) (front : Bytes) : Prop :=
  before <+: pieces ∧ before.flatten = front ∧ ∀ t ∈ before.getLast?, t = lit ";"

/-- The added text is in a comment. -/
def InComment (pieces : List Bytes) (front : Bytes) : Prop :=
  ∃ before c c' after, pieces = before ++ (c ++ c') :: after ∧ before.flatten ++ c = front ∧
    c ≠ [] ∧ isToken (c ++ c') = false

/-- The expressions find the imports there are, and if one is missing the place of the added text is
directly behind the syntax statement; or none is missing, and the added text is in a comment. -/
def Fits (src : Bytes) (pieces : List Bytes) (custom : Bool) : Prop :=
  absent src custom = missing (tokens pieces) custom ∧
    (absent src custom ≠ [] → ∃ before, Behind pieces before (front src) ∧
      tokens before = (splitSyntax (tokens pieces)).1) ∨
  missing (tokens pieces) custom = [] ∧ InComment pieces (front src)

theorem front_of_found {src rest : Bytes} (found : findSyntax true src = some rest) :
    ∃ x, front src = x ++ [59] ∧ src = x ++ [59] ++ rest := by
  obtain ⟨x, eq⟩ := findSyntax_semicolon found
  refine ⟨x, ?_, eq⟩
  have length : src.length - rest.length = (x ++ [59]).length := by
    rw [eq, List.length_append, Nat.add_sub_cancel]
  simp only [front, found, length]
  rw [eq, List.take_left]

theorem front_of_none {src : Bytes} (missed : findSyntax true src = none) : front src = [] := by
  simp [front, missed]

/-- What goes on after a semicolon is a comment or a string, as it was begun. -/
theorem mode_of_start {b : UInt8} {q q' : Mode} (started : proto.start b = .take q)
    (kind : q'.kind = q.kind) (mode : q' = .line ∨ q' = .block ∨ ∃ quote, q' = .string quote) :
    b = 47 ∧ q = .slash ∧ (q' = .line ∨ q' = .block) ∨
      isQuote b = true ∧ q = .string b ∧ q' = .string b := by
  rcases start_cases started with ⟨rfl, rfl⟩ | ⟨isQuote, rfl⟩ | bare
  · rcases mode with rfl | rfl | ⟨quote, rfl⟩
    · exact .inl ⟨rfl, rfl, .inl rfl⟩
    · exact .inl ⟨rfl, rfl, .inr rfl⟩
    · cases kind
  · rcases mode with rfl | rfl | ⟨quote, rfl⟩
    · cases kind
    · cases kind
    · cases kind
      exact .inr ⟨isQuote, rfl, rfl⟩
  · rw [bare] at kind
    rcases mode with rfl | rfl | ⟨quote, rfl⟩ <;> cases kind

theorem start_kind_ne {b : UInt8} {q : Mode} (started : proto.start b = .take q) :
    q.kind ≠ .string 59 := by
  rcases start_cases started with ⟨-, rfl⟩ | ⟨quote, rfl⟩ | bare
  · simp [Mode.kind]
  · rintro ⟨⟩
    cases quote
  · simp [bare]

/-- Where a semicolon stands. -/
theorem semicolon_cases {pieces : List Bytes} {x y : Bytes} (cut : proto.Pieces pieces)
    (flat : pieces.flatten = x ++ [59] ++ y) :
    ∃ before c c' after, pieces = before ++ (c ++ c') :: after ∧ x ++ [59] = before.flatten ++ c ∧
      y = c' ++ after.flatten ∧ (c = lit ";" ∧ c' = [] ∨ ∃ b u q q', c = b :: u ∧
        proto.start b = .take q ∧ proto.run q u = some q' ∧
        proto.scan q' (c' ++ after.flatten) = some (c', after.flatten) ∧
        (b = 47 ∧ q = .slash ∧ (q' = .line ∨ q' = .block) ∨
          isQuote b = true ∧ q = .string b ∧ q' = .string b)) := by
  obtain ⟨before, c, c', after, rfl, text, rfl, some⟩ := Lexer.exists_piece flat (by simp)
  refine ⟨before, c, c', after, rfl, text, rfl, ?_⟩
  obtain ⟨b, u, rfl⟩ := List.exists_cons_of_ne_nil some
  have next := cut.tail.1
  have last : (b :: u).getLast? = Option.some 59 := by
    have ends := congrArg List.getLast? text
    simpa [List.getLast?_append] using ends.symm
  rw [List.cons_append, List.cons_append, Lexer.next] at next
  split at next
  · next q started =>
    obtain ⟨⟨t, r⟩, scanned, eq⟩ := Option.map_eq_some_iff.mp next
    simp only [Prod.mk.injEq, List.cons.injEq, true_and] at eq
    obtain ⟨rfl, rfl⟩ := eq
    obtain rfl | ⟨v, rfl⟩ : u = [] ∨ ∃ v, u = v ++ [59] := by
      rcases List.eq_nil_or_concat u with rfl | ⟨v, d, rfl⟩
      · exact .inl rfl
      · rw [List.concat_eq_append, ← List.cons_append, List.getLast?_concat] at last
        cases last
        exact .inr ⟨v, List.concat_eq_append⟩
    · cases last
      cases started
    · obtain ⟨q', ran, rest, kind, mode⟩ :=
        scan_semicolon (u := v) (v := c') (start_kind_ne started) (by simpa using scanned)
      exact .inr ⟨b, v ++ [59], q, q', rfl, started, ran, rest, mode_of_start started kind mode⟩
  · simp only [Option.some.injEq, Prod.mk.injEq, List.cons.injEq, true_and] at next
    obtain ⟨rfl, rfl⟩ : u = [] ∧ c' = [] := by simpa using next.1.symm
    cases last
    exact .inl ⟨rfl, rfl⟩
  · cases next
  · cases next

theorem isToken_of_quote {b : UInt8} (quote : isQuote b = true) (s : Bytes) :
    isToken (b :: s) = true := by
  simp only [isQuote, Bool.or_eq_true, decide_eq_true_eq] at quote
  rcases quote with rfl | rfl
  · simp [isToken, isWhite]
  · simp [isToken, isWhite]

/-- A comment is one by its first two bytes. -/
theorem isToken_of_run {u : Bytes} {q' : Mode} (ran : proto.run .slash u = some q')
    (mode : q' = .line ∨ q' = .block) (s : Bytes) : isToken (47 :: (u ++ s)) = false := by
  cases u with
  | nil =>
    cases ran
    simp at mode
  | cons d u =>
    have second : d = 47 ∨ d = 42 := by
      by_contra other
      rw [not_or] at other
      simp [Lexer.run, proto, other] at ran
    rcases second with rfl | rfl
    · simp [isToken]
    · simp [isToken]

/-- A text that leads back to the state at its place becomes part of the piece. -/
theorem pieces_insert {before after : List Bytes} {b : UInt8} {u c' e : Bytes} {q q' : Mode}
    (cut : proto.Pieces (before ++ (b :: u ++ c') :: after)) (started : proto.start b = .take q)
    (ran : proto.run q u = some q')
    (rest : proto.scan q' (c' ++ after.flatten) = some (c', after.flatten))
    (stays : proto.run q' e = some q') :
    proto.Pieces (before ++ (b :: (u ++ (e ++ c'))) :: after) := by
  refine Lexer.Pieces.replace cut ⟨?_, cut.tail.2⟩
  have scanned := Lexer.scan_run ran (e ++ (c' ++ after.flatten))
  rw [Lexer.scan_run stays, rest] at scanned
  simp only [List.cons_append, Lexer.next, started]
  simpa using scanned

/-- In a string in double quotes the added text ends it, and begins another one. -/
theorem pieces_torn {before after paths : List Bytes} {u c' : Bytes} (choice : paths ∈ choices)
    (cut : proto.Pieces (before ++ (34 :: u ++ c') :: after))
    (ran : proto.run (.string 34) u = some (.string 34))
    (rest : proto.scan (.string 34) (c' ++ after.flatten) = some (c', after.flatten)) :
    proto.Pieces (before ++ (34 :: (u ++ lit " import \"")) ::
      (torn paths ++ (34 :: 59 :: c') :: after)) := by
  obtain ⟨-, -, lexed, -⟩ := extra_inside paths choice
  obtain ⟨-, own⟩ := Lexer.lex_eq_some_iff.mp lexed
  have second : proto.next (34 :: 59 :: c' ++ after.flatten) =
      some (34 :: 59 :: c', after.flatten) := by
    have skip : proto.run (.string 34) [59] = some (.string 34) := rfl
    have scanned := Lexer.scan_run skip (c' ++ after.flatten)
    rw [rest] at scanned
    simp only [List.cons_append, Lexer.next]
    rw [show proto.start 34 = .take (.string 34) from rfl]
    simpa using scanned
  have behind : proto.Pieces (torn paths ++ (34 :: 59 :: c') :: after) :=
    Lexer.Pieces.replace (a := 34) (t := [59, 34]) own ⟨second, cut.tail.2⟩
  refine Lexer.Pieces.replace cut ⟨?_, behind⟩
  have scanned := Lexer.scan_run ran (lit " import \"" ++ (torn paths ++
    (34 :: 59 :: c') :: after).flatten)
  have ends : ∀ s, proto.scan (.string 34) (lit " import \"" ++ s) =
      some (lit " import \"", s) := fun _ => rfl
  rw [ends] at scanned
  simp only [List.cons_append, List.append_assoc, Lexer.next]
  rw [show proto.start 34 = .take (.string 34) from rfl]
  simpa using scanned

/-- A string in double quotes is torn, and the slashes of the paths become tokens. -/
theorem double_quoted_wrong {before after paths : List Bytes} {u c' : Bytes} {custom : Bool}
    (choice : paths ∈ choices) :
    tokens (before ++ (34 :: (u ++ lit " import \"")) ::
      (torn paths ++ (34 :: 59 :: c') :: after)) ≠
      intended (tokens (before ++ (34 :: u ++ c') :: after)) custom := by
  intro right
  obtain ⟨-, -, -, slashes⟩ := extra_inside paths choice
  have string {s : Bytes} : isToken (34 :: s) = true := isToken_of_quote rfl s
  have none : ∀ paths ∈ [] :: choices, (paths.flatMap importTokens).count (lit "/") = 0 := by
    decide +kernel
  have apart {s : Bytes} : (34 :: s == lit "/") = false := by
    simp [show lit "/" = [47] from rfl]
  have count := congrArg (List.count (lit "/")) right
  rw [count_intended, none _ (missing_mem _ _)] at count
  simp only [tokens_append, List.cons_append, tokens_cons_of_token string, List.count_append,
    List.count_cons, apart] at count
  omega

/-- A string in single quotes becomes longer. -/
theorem single_quoted_wrong {before after paths : List Bytes} {u c' : Bytes} {custom : Bool}
    (choice : paths ∈ choices) :
    tokens (before ++ (39 :: (u ++ (extra paths ++ c'))) :: after) ≠
      intended (tokens (before ++ (39 :: u ++ c') :: after)) custom := by
  intro right
  obtain ⟨-, text, -⟩ := extra_inside paths choice
  have string {s : Bytes} : isToken (39 :: s) = true := isToken_of_quote rfl s
  simp only [tokens_append, List.cons_append, tokens_cons_of_token string] at right
  have length := congrArg List.length right
  rw [length_intended] at length
  have none : missing (tokens before ++ (39 :: (u ++ c')) :: tokens after) custom = [] := by
    cases lacks : missing (tokens before ++ (39 :: (u ++ c')) :: tokens after) custom with
    | nil => rfl
    | cons path paths => simp [lacks, importTokens] at length
  rw [intended_eq_self_iff.mpr none] at right
  have same := List.append_cancel_left right
  have shorter := congrArg List.length (List.cons.inj same).1
  have some : 0 < (lit "\";").length := by decide
  simp only [text, List.length_cons, List.length_append] at shorter
  omega

/-- In a string the added text is never right. -/
theorem string_wrong {before after paths pieces' : List Bytes} {b : UInt8} {u c' : Bytes}
    {custom : Bool} (choice : paths ∈ choices)
    (cut : proto.Pieces (before ++ (b :: u ++ c') :: after)) (quote : isQuote b = true)
    (started : proto.start b = .take (.string b)) (ran : proto.run (.string b) u = some (.string b))
    (rest : proto.scan (.string b) (c' ++ after.flatten) = some (c', after.flatten))
    (lexed : proto.lex (before.flatten ++ (b :: u) ++ extra paths ++ (c' ++ after.flatten)) =
      some pieces') :
    tokens pieces' ≠ intended (tokens (before ++ (b :: u ++ c') :: after)) custom := by
  obtain ⟨stays, text, -⟩ := extra_inside paths choice
  have kinds : b = 34 ∨ b = 39 := by simpa [isQuote] using quote
  rcases kinds with rfl | rfl
  · have flat : (before ++ (34 :: (u ++ lit " import \"")) ::
        (torn paths ++ (34 :: 59 :: c') :: after)).flatten =
        before.flatten ++ (34 :: u) ++ extra paths ++ (c' ++ after.flatten) := by
      rw [text, show lit "\";" = [34, 59] from rfl]
      simp
    rw [Lexer.lex_eq_some_iff.mpr ⟨flat, pieces_torn choice cut ran rest⟩] at lexed
    cases lexed
    exact double_quoted_wrong choice
  · have kept := pieces_insert cut started ran rest (stays (.string 39) (by simp))
    have flat : (before ++ (39 :: (u ++ (extra paths ++ c'))) :: after).flatten =
        before.flatten ++ (39 :: u) ++ extra paths ++ (c' ++ after.flatten) := by simp
    rw [Lexer.lex_eq_some_iff.mpr ⟨flat, kept⟩] at lexed
    cases lexed
    exact single_quoted_wrong choice

/-- In a comment it is lost. -/
theorem lex_in_comment {before after paths : List Bytes} {u c' : Bytes} {q' : Mode}
    (choice : paths ∈ choices) (cut : proto.Pieces (before ++ (47 :: u ++ c') :: after))
    (ran : proto.run .slash u = some q') (mode : q' = .line ∨ q' = .block)
    (rest : proto.scan q' (c' ++ after.flatten) = some (c', after.flatten)) :
    ∃ pieces', proto.lex (before.flatten ++ (47 :: u) ++ extra paths ++ (c' ++ after.flatten)) =
        some pieces' ∧
      tokens pieces' = tokens (before ++ (47 :: u ++ c') :: after) := by
  obtain ⟨stays, -⟩ := extra_inside paths choice
  have kept := pieces_insert cut rfl ran rest (stays q' (by grind))
  refine ⟨_, Lexer.lex_eq_some_iff.mpr ⟨by simp, kept⟩, ?_⟩
  simp [tokens, isToken_of_run ran mode]

/-- Behind a semicolon that is a token its own tokens follow. -/
theorem lex_behind {before after paths : List Bytes} (choice : paths ∈ choices)
    (cut : proto.Pieces (before ++ lit ";" :: after)) :
    ∃ pieces', proto.lex (before.flatten ++ lit ";" ++ extra paths ++ after.flatten) =
        some pieces' ∧
      tokens pieces' = tokens (before ++ [lit ";"]) ++ paths.flatMap importTokens ++
        tokens after := by
  obtain ⟨lexed, -, -, toks, -⟩ := extra_spec paths choice
  obtain ⟨flat, -⟩ := Lexer.lex_eq_some_iff.mp lexed
  have own : proto.Pieces (before ++ lit ";" :: (paths.flatMap importPieces ++ after)) :=
    cut.splice closed_semicolon (by decide) (added_pieces choice cut.tail.2)
  refine ⟨_, Lexer.lex_eq_some_iff.mpr ⟨?_, own⟩, ?_⟩
  · rw [← flat]
    simp
  · rw [← toks, ← tokens_append, ← tokens_append]
    simp

theorem inComment_iff {before after : List Bytes} {c c' : Bytes} (some : c ≠ []) :
    InComment (before ++ (c ++ c') :: after) (before.flatten ++ c) ↔ isToken (c ++ c') = false := by
  constructor
  · rintro ⟨before', d, d', after', same, place, some', comment⟩
    obtain ⟨-, rfl, rfl⟩ := Lexer.piece_unique same place.symm some some'
    exact comment
  · exact fun comment => ⟨before, c, c', after, rfl, rfl, some, comment⟩

theorem behind_iff {before after pre : List Bytes} {c c' : Bytes} (some : c ≠ []) :
    Behind (before ++ (c ++ c') :: after) pre (before.flatten ++ c) ↔
      c = lit ";" ∧ c' = [] ∧ pre = before ++ [lit ";"] := by
  constructor
  · rintro ⟨⟨rest, whole⟩, place, last⟩
    rcases List.eq_nil_or_concat pre with rfl | ⟨front, t, rfl⟩
    · simp only [List.flatten_nil] at place
      exact absurd (List.append_eq_nil_iff.mp place.symm).2 some
    · obtain rfl : t = lit ";" := last t (by simp)
      have same : before ++ (c ++ c') :: after = front ++ (lit ";" ++ []) :: rest := by
        rw [← whole]
        simp
      obtain ⟨rfl, rfl, rfl⟩ :=
        Lexer.piece_unique same (by simpa using place.symm) some (by decide)
      exact ⟨rfl, rfl, List.concat_eq_append⟩
  · rintro ⟨rfl, rfl, rfl⟩
    refine ⟨⟨after, by simp⟩, by simp, ?_⟩
    simp

theorem behind_nil_iff {pieces pre : List Bytes} (cut : proto.Pieces pieces) :
    Behind pieces pre [] ↔ pre = [] := by
  constructor
  · rintro ⟨⟨rest, rfl⟩, empty, -⟩
    cases pre with
    | nil => rfl
    | cons t ts =>
      exact absurd (List.append_eq_nil_iff.mp empty).1 (cut.ne_nil t (by simp))
  · rintro rfl
    exact ⟨List.nil_prefix, rfl, by simp⟩

/-- Where nothing is found, the text is added at the start. -/
theorem lex_of_none {src : Bytes} {pieces : List Bytes} {custom : Bool}
    (lexed : proto.lex src = some pieces) (some : absent src custom ≠ [])
    (missed : findSyntax true src = none) :
    ∃ pieces', proto.lex (injectImports src custom) = .some pieces' ∧
      tokens pieces' = (absent src custom).flatMap importTokens ++ tokens pieces := by
  obtain ⟨flat, cut⟩ := Lexer.lex_eq_some_iff.mp lexed
  have choice := absent_mem_choices some
  obtain ⟨lexedExtra, -, trimmed, toks, -⟩ := extra_spec _ choice
  obtain ⟨flatExtra, -⟩ := Lexer.lex_eq_some_iff.mp lexedExtra
  obtain ⟨path, paths, eq⟩ := List.exists_cons_of_ne_nil some
  refine ⟨((absent src custom).flatMap importPieces).tail ++ lit " " :: pieces,
    Lexer.lex_eq_some_iff.mpr ⟨?_, ?_⟩, ?_⟩
  · rw [injectImports_eq, if_neg some, missed]
    have text : ((absent src custom).flatMap importPieces).tail.flatten =
        trimSpace (extra (absent src custom)) := by
      rw [← flatExtra, eq] at trimmed
      rw [← flatExtra, eq]
      exact (List.append_cancel_left trimmed).symm
    simp [text, flat]
  · have own : proto.Pieces ((absent src custom).flatMap importPieces ++ lit " " :: pieces) :=
      added_pieces choice ⟨closed_white (by decide) _, cut⟩
    rw [eq] at own ⊢
    exact own.2
  · have first : (absent src custom).flatMap importPieces =
        lit " " :: ((absent src custom).flatMap importPieces).tail := by rw [eq]; rfl
    rw [← toks, tokens_append, tokens_cons_space]
    nth_rewrite 2 [first]
    rw [tokens_cons_space]

/-- When the tokens are the intended ones. -/
theorem intended_iff_fits {src : Bytes} {pieces : List Bytes} {custom : Bool}
    (lexed : proto.lex src = some pieces) :
    (∃ pieces', proto.lex (injectImports src custom) = some pieces' ∧
      tokens pieces' = intended (tokens pieces) custom) ↔ Fits src pieces custom := by
  obtain ⟨flat, cut⟩ := Lexer.lex_eq_some_iff.mp lexed
  by_cases none : absent src custom = []
  · rw [injectImports_eq, if_pos none, lexed]
    simp only [Option.some.injEq, exists_eq_left', Fits, none, ne_eq, not_true_eq_false,
      false_implies, and_true]
    rw [eq_comm, intended_eq_self_iff, eq_comm]
    exact ⟨.inl, fun either => either.elim id fun both => both.1⟩
  have choice := absent_mem_choices none
  cases found : findSyntax true src with
  | none =>
    obtain ⟨pieces', lexed', toks⟩ := lex_of_none lexed none found
    have right : [] ++ (absent src custom).flatMap importTokens ++ tokens pieces =
        intended ([] ++ tokens pieces) custom ↔ _ := insert_eq_intended_iff choice
    have outside : ¬ InComment pieces [] := by
      rintro ⟨before, c, c', after, -, place, some, -⟩
      exact some (List.append_eq_nil_iff.mp place).2
    simp only [List.nil_append] at right
    simp only [lexed', Option.some.injEq, exists_eq_left', toks, right, Fits, none, ne_eq,
      not_false_eq_true, forall_const, front_of_none found, behind_nil_iff cut, exists_eq_left,
      outside, and_false, or_false]
    rfl
  | some rest =>
    obtain ⟨x, place, text⟩ := front_of_found found
    rw [text] at flat
    obtain ⟨before, c, c', after, rfl, spot, rfl, shape⟩ := semicolon_cases cut flat
    have some : c ≠ [] := by
      rintro rfl
      rcases shape with ⟨absurd, -⟩ | ⟨b, u, -, -, absurd, -⟩ <;> cases absurd
    have result := injectImports_of_found none found text
    rw [spot] at place result
    simp only [Fits, none, ne_eq, not_false_eq_true, forall_const, place, inComment_iff some,
      behind_iff some]
    rcases shape with ⟨rfl, rfl⟩ | ⟨b, u, q, q', rfl, started, ran, scanned, kind⟩
    · have right : tokens (before ++ [lit ";"]) ++ (absent src custom).flatMap importTokens ++
          tokens after = intended (tokens (before ++ [lit ";"]) ++ tokens after) custom ↔ _ :=
        insert_eq_intended_iff choice
      have whole : tokens (before ++ [lit ";"]) ++ tokens after =
          tokens (before ++ (lit ";" ++ []) :: after) := by simp [← tokens_append]
      obtain ⟨pieces', lexed', toks⟩ := lex_behind choice cut
      rw [← List.nil_append after.flatten, ← result] at lexed'
      rw [whole] at right
      have token : isToken (lit ";" ++ []) = true := by decide
      simp only [lexed', Option.some.injEq, exists_eq_left', toks, right, token, true_and,
        exists_eq_left, Bool.true_eq_false, and_false, or_false]
    · have apart : b :: u ≠ lit ";" := by
        rcases kind with ⟨rfl, -⟩ | ⟨quote, -⟩
        · exact fun eq => absurd (List.cons.inj eq).1 (by decide)
        · rintro ⟨⟩
          cases quote
      rcases kind with ⟨rfl, rfl, mode⟩ | ⟨quote, rfl, rfl⟩
      · obtain ⟨pieces', lexed', toks⟩ := lex_in_comment choice cut ran mode scanned
        rw [← result] at lexed'
        have comment := isToken_of_run ran mode
        simp only [lexed', Option.some.injEq, exists_eq_left', toks, apart, false_and, exists_false,
          and_false, false_or, List.cons_append, comment, and_true]
        rw [eq_comm, intended_eq_self_iff]
      · refine iff_of_false ?_ ?_
        · rintro ⟨pieces', lexed', right⟩
          rw [result] at lexed'
          exact string_wrong choice cut quote started ran scanned lexed' right
        · simp [apart, isToken_of_quote quote]

end Protobus.Protoload
