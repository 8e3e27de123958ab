import Protobus.Library.Bytes
import Protobus.Library.Lexer

/-!
# The lexical rules of schemas

Protobuf's own cut of a schema source into white space, line and block comments, words, numbers,
strings in either quotes and single-letter symbols, and what the token sequence says of imports and
of the syntax statement.
-/
namespace Protobus.Protoload
open Library

def isWhite (b : UInt8) : Bool := (9 ≤ b && b ≤ 13) || b = 32

def isQuote (b : UInt8) : Bool := b = 34 || b = 39

/-- Where the reading of a piece is. `slash` may still become a comment, `dot` a number and `zero` a
hexadecimal one; `star` is behind an asterisk in a block comment; in `number` an exponent's sign may
come directly behind its letter. -/
inductive Mode
  | slash
  | line
  | block
  | star
  | word
  | dot
  | zero
  | number (hex exponent : Bool)
  | string (quote : UInt8)
  | escape (quote : UInt8)
deriving DecidableEq

def digits (hex : Bool) (b : UInt8) : Move Mode :=
  if isLetterDigit b || b = 46 then .take (.number hex (b = 69 || b = 101)) else .stop

def proto : Lexer UInt8 Mode where
  start b :=
    if isWhite b then .last
    else if b = 47 then .take .slash
    else if isLetter b then .take .word
    else if b = 48 then .take .zero
    else if isDigit b then .take (.number false false)
    else if b = 46 then .take .dot
    else if isQuote b then .take (.string b)
    else if 33 ≤ b && b ≤ 126 then .last
    else .fail
  move
    | .slash, b =>
      if b = 47 then .take .line else if b = 42 then .take .block else .stop
    | .line, b => if b = 10 then .stop else .take .line
    | .block, b => if b = 42 then .take .star else .take .block
    | .star, b => if b = 47 then .last else if b = 42 then .take .star else .take .block
    | .word, b => if isLetterDigit b then .take .word else .stop
    | .dot, b => if isDigit b then .take (.number false false) else .stop
    | .zero, b => if b = 88 || b = 120 then .take (.number true false) else digits false b
    | .number hex exponent, b =>
      if (b = 43 || b = 45) && exponent && !hex then .take (.number hex false) else digits hex b
    | .string quote, b =>
      if b = quote then .last
      else if b = 92 then .take (.escape quote)
      else if b = 10 || b = 0 then .fail
      else .take (.string quote)
    | .escape quote, b => if b = 10 || b = 0 then .fail else .take (.string quote)
  atEnd
    | .slash | .line | .word | .dot | .zero | .number _ _ => true
    | .block | .star | .string _ | .escape _ => false

/-- White space and comments are no tokens. -/
def isToken : Bytes → Bool
  | [] => false
  | b :: s => !isWhite b && !(b = 47 && (s.head? = some 47 || s.head? = some 42))

def tokens (pieces : List Bytes) : List Bytes := pieces.filter isToken

/-! ## The value of a string -/

/-- How far an escape has been read: in `hex` and `octal` more digits may follow, in `unicode` they
must. -/
inductive Escape
  | plain
  | begun
  | hex (digits value : Nat)
  | octal (digits value : Nat)
  | unicode (missing value : Nat)

def hexDigit (b : UInt8) : Option Nat :=
  if isDigit b then some (b.toNat - 48)
  else if 65 ≤ b && b ≤ 70 then some (b.toNat - 55)
  else if 97 ≤ b && b ≤ 102 then some (b.toNat - 87)
  else none

def octalDigit (b : UInt8) : Option Nat :=
  if 48 ≤ b && b ≤ 55 then some (b.toNat - 48) else none

/-- `\a`, `\b`, `\f`, `\n`, `\r`, `\t` and `\v`; any other letter stands for itself. -/
def simpleEscape (b : UInt8) : UInt8 :=
  if b = 97 then 7 else if b = 98 then 8 else if b = 102 then 12 else if b = 110 then 10
  else if b = 114 then 13 else if b = 116 then 9 else if b = 118 then 11 else b

def unescape : Escape → Bytes → Bytes
  | .plain, [] | .begun, [] | .unicode _ _, [] => []
  | .hex _ v, [] | .octal _ v, [] => [UInt8.ofNat v]
  | .plain, b :: s => if b = 92 then unescape .begun s else b :: unescape .plain s
  | .begun, b :: s =>
    if b = 88 || b = 120 then unescape (.hex 0 0) s
    else if b = 117 then unescape (.unicode 4 0) s
    else if b = 85 then unescape (.unicode 8 0) s
    else match octalDigit b with
      | some d => unescape (.octal 1 d) s
      | none => simpleEscape b :: unescape .plain s
  | .hex n v, b :: s =>
    match if n < 2 then hexDigit b else none with
    | some d => unescape (.hex (n + 1) (16 * v + d)) s
    | none => UInt8.ofNat v :: if b = 92 then unescape .begun s else b :: unescape .plain s
  | .octal n v, b :: s =>
    match if n < 3 then octalDigit b else none with
    | some d => unescape (.octal (n + 1) (8 * v + d)) s
    | none => UInt8.ofNat v :: if b = 92 then unescape .begun s else b :: unescape .plain s
  | .unicode n v, b :: s =>
    let v := 16 * v + (hexDigit b).getD 0
    if n ≤ 1 then String.utf8EncodeChar (Char.ofNat v) ++ unescape .plain s
    else unescape (.unicode (n - 1) v) s

def isString (t : Bytes) : Bool := t.head?.any isQuote

/-- The value of a string token, of what is between its quotes. -/
def value (t : Bytes) : Bytes := unescape .plain (t.drop 1).dropLast

/-! ## Statements -/

/-- The path imported by what follows the word `import`; adjacent strings are one. -/
def importOf (toks : List Bytes) : Option Bytes :=
  let named := match toks with
    | [] => []
    | t :: rest => if t = lit "public" ∨ t = lit "weak" then rest else toks
  let path := named.takeWhile isString
  if path ≠ [] ∧ (named.dropWhile isString).head? = some (lit ";") then some (path.flatMap value)
  else none

/-- The paths a token sequence imports. -/
def imports : List Bytes → List Bytes
  | [] => []
  | t :: rest => (if t = lit "import" then (importOf rest).toList else []) ++ imports rest

/-- The syntax or edition statement a token sequence begins with, and what follows it. -/
def splitSyntax (toks : List Bytes) : List Bytes × List Bytes :=
  let level := (toks.drop 2).takeWhile isString
  let rest := (toks.drop 2).dropWhile isString
  if (toks.head? = some (lit "syntax") ∨ toks.head? = some (lit "edition")) ∧
      toks[1]? = some (lit "=") ∧ level ≠ [] ∧ rest.head? = some (lit ";") then
    (toks.take 2 ++ level ++ [lit ";"], rest.tail)
  else ([], toks)

/-! ## What the lexer makes of plain texts -/

def quoted (body : Bytes) : Bytes := 34 :: body ++ [34]

/-- Each byte of white space is a piece. -/
def spaced (s : Bytes) : List Bytes := s.map fun b => [b]

@[simp] theorem flatten_spaced (s : Bytes) : (spaced s).flatten = s := by
  induction s with
  | nil => rfl
  | cons b s ih => simpa [spaced] using ih

@[simp] theorem tokens_append (ps qs : List Bytes) : tokens (ps ++ qs) = tokens ps ++ tokens qs :=
  List.filter_append _ _

theorem tokens_cons_of_token {t : Bytes} (token : isToken t = true) (ps : List Bytes) :
    tokens (t :: ps) = t :: tokens ps := List.filter_cons_of_pos token

theorem isToken_semicolon : isToken (lit ";") = true := by decide

theorem tokens_cons_space (ps : List Bytes) : tokens (lit " " :: ps) = tokens ps :=
  List.filter_cons_of_neg (by decide)

theorem tokens_spaced {s : Bytes} (white : ∀ b ∈ s, isWhite b = true) : tokens (spaced s) = [] := by
  rw [tokens, spaced, List.filter_map, List.map_eq_nil_iff, List.filter_eq_nil_iff]
  intro b mem
  simp [isToken, white b mem]

@[simp] theorem isToken_quoted (body : Bytes) : isToken (quoted body) = true := by
  simp [quoted, isToken, isWhite]

@[simp] theorem isString_quoted (body : Bytes) : isString (quoted body) = true := by
  simp [quoted, isString, isQuote]

theorem unescape_plain {s : Bytes} (none : 92 ∉ s) : unescape .plain s = s := by
  induction s with
  | nil => rfl
  | cons b s ih =>
    obtain ⟨first, rest⟩ : ¬ 92 = b ∧ 92 ∉ s := by simpa using none
    rw [unescape, if_neg (Ne.symm first), ih rest]

theorem value_quoted {body : Bytes} (none : 92 ∉ body) : value (quoted body) = body := by
  rw [value, quoted, List.cons_append, List.drop_one, List.tail_cons, List.dropLast_concat,
    unescape_plain none]

/-! ## Semicolons -/

inductive Kind
  | bare
  | comment
  | string (quote : UInt8)

def Mode.kind : Mode → Kind
  | .word | .dot | .zero | .number _ _ => .bare
  | .slash | .line | .block | .star => .comment
  | .string quote | .escape quote => .string quote

theorem start_cases {b : UInt8} {q : Mode} (h : proto.start b = .take q) :
    b = 47 ∧ q = .slash ∨ isQuote b = true ∧ q = .string b ∨ q.kind = .bare := by
  simp only [proto] at h
  split at h
  · cases h
  split at h
  · next slash =>
    cases h
    exact .inl ⟨slash, rfl⟩
  split at h
  · cases h
    exact .inr (.inr rfl)
  split at h
  · cases h
    exact .inr (.inr rfl)
  split at h
  · cases h
    exact .inr (.inr rfl)
  split at h
  · cases h
    exact .inr (.inr rfl)
  split at h
  · next quote =>
    cases h
    exact .inr (.inl ⟨quote, rfl⟩)
  split at h <;> cases h

/-- A piece stays what it began as. -/
theorem move_kind {q q' : Mode} {b : UInt8} (h : proto.move q b = .take q') :
    q'.kind = q.kind := by
  cases q <;> simp only [proto, digits] at h <;> grind [Mode.kind]

theorem move_semicolon (q : Mode) (other : q.kind ≠ .string 59) : proto.move q 59 = .stop ∨
    ∃ q', proto.move q 59 = .take q' ∧
      (q' = .line ∨ q' = .block ∨ ∃ quote, q' = .string quote) := by
  cases q with
  | slash | word | dot | zero | number => exact .inl rfl
  | line => exact .inr ⟨.line, rfl, .inl rfl⟩
  | block | star => exact .inr ⟨.block, rfl, .inr (.inl rfl)⟩
  | escape quote => exact .inr ⟨.string quote, rfl, .inr (.inr ⟨quote, rfl⟩)⟩
  | string quote =>
    have apart : ¬ 59 = quote := by
      rintro rfl
      exact other rfl
    refine .inr ⟨.string quote, ?_, .inr (.inr ⟨quote, rfl⟩)⟩
    simp [proto, apart]

/-- A semicolon within a piece stands in a comment or a string. -/
theorem scan_semicolon {q : Mode} {u v s : Bytes} (other : q.kind ≠ .string 59)
    (h : proto.scan q (u ++ 59 :: v ++ s) = some (u ++ 59 :: v, s)) :
    ∃ q', proto.run q (u ++ [59]) = some q' ∧ proto.scan q' (v ++ s) = some (v, s) ∧
      q'.kind = q.kind ∧ (q' = .line ∨ q' = .block ∨ ∃ quote, q' = .string quote) := by
  induction u generalizing q with
  | nil =>
    simp only [List.nil_append, List.cons_append, Lexer.scan] at h
    obtain stops | ⟨q', moved, mode⟩ := move_semicolon q other
    · simp [stops] at h
    · simp only [moved, Option.map_eq_some_iff, Prod.mk.injEq, List.cons.injEq, true_and] at h
      obtain ⟨⟨t, r⟩, scanned, rfl, rfl⟩ := h
      exact ⟨q', by simp [Lexer.run, moved], scanned, move_kind moved, mode⟩
  | cons b u ih =>
    simp only [List.cons_append, Lexer.scan] at h
    split at h
    · next q₁ moved =>
      obtain ⟨⟨t, r⟩, scanned, eq⟩ := Option.map_eq_some_iff.mp h
      simp only [Prod.mk.injEq, List.cons.injEq, true_and] at eq
      obtain ⟨rfl, rfl⟩ := eq
      have kind := move_kind moved
      obtain ⟨q', ran, rest, same, mode⟩ := ih (kind ▸ other) scanned
      refine ⟨q', ?_, rest, same.trans kind, mode⟩
      rw [List.cons_append, Lexer.run, moved]
      exact ran
    · simp at h
    · simp at h
    · cases h

theorem closed_semicolon : proto.Closed (lit ";") := fun _ => rfl

theorem closed_white {b : UInt8} (white : isWhite b = true) : proto.Closed [b] := by
  intro s
  simp [Lexer.next, proto, white]

end Protobus.Protoload
