/-!
# Byte strings

A Go `string` and a Go `[]byte` are both finite sequences of bytes; nothing makes a
string valid UTF-8. Both are modelled by `Bytes`, so a text that cannot be decoded is
still a value, and validity is a predicate that a program may or may not check.
-/
namespace Protobus.Library

abbrev Bytes := List UInt8

/-- The bytes of a string literal. -/
def lit (s : String) : Bytes := s.toUTF8.data.toList

/-- `strings.Split(s, ".")`. The empty string has one (empty) word. -/
def splitDots (s : Bytes) : List Bytes := s.splitOn 46

def isDigit (b : UInt8) : Bool := 48 ≤ b && b ≤ 57

/-- A letter of an identifier, where the underscore is one. -/
def isLetter (b : UInt8) : Bool := b = 95 || 97 ≤ b && b ≤ 122 || 65 ≤ b && b ≤ 90

def isLetterDigit (b : UInt8) : Bool := isLetter b || isDigit b

/-! ## White space -/

/-- The encodings of the runes for which `unicode.IsSpace` holds. -/
def spaceRunes : List Bytes :=
  [[0x09], [0x0A], [0x0B], [0x0C], [0x0D], [0x20], [0xC2, 0x85], [0xC2, 0xA0], [0xE1, 0x9A, 0x80],
    [0xE2, 0x80, 0x80], [0xE2, 0x80, 0x81], [0xE2, 0x80, 0x82], [0xE2, 0x80, 0x83],
    [0xE2, 0x80, 0x84], [0xE2, 0x80, 0x85], [0xE2, 0x80, 0x86], [0xE2, 0x80, 0x87],
    [0xE2, 0x80, 0x88], [0xE2, 0x80, 0x89], [0xE2, 0x80, 0x8A], [0xE2, 0x80, 0xA8],
    [0xE2, 0x80, 0xA9], [0xE2, 0x80, 0xAF], [0xE2, 0x81, 0x9F], [0xE3, 0x80, 0x80]]

/-- Strip the given prefixes for as long as there is one. -/
def stripWhile (ps : List Bytes) : Nat → Bytes → Bytes
  | 0, s => s
  | fuel + 1, s => match ps.find? (·.isPrefixOf s) with
    | some p => stripWhile ps fuel (s.drop p.length)
    | none => s

/-- `strings.TrimSpace`. -/
def trimSpace (s : Bytes) : Bytes :=
  let s := stripWhile spaceRunes s.length s
  (stripWhile (spaceRunes.map List.reverse) s.length s.reverse).reverse

/-! ## Runes -/

/-- A continuation byte, the shape of every byte after the second of an encoded rune. -/
def isCont (b : UInt8) : Bool := 0x80 ≤ b && b ≤ 0xBF

/-- A two-byte rune; `C0` and `C1` would be overlong. -/
def isRune2 (a b : UInt8) : Bool := 0xC2 ≤ a && a ≤ 0xDF && isCont b

/-- A three-byte rune. The second byte is narrowed after `E0` (overlong) and after
`ED` (surrogates). -/
def isRune3 (a b c : UInt8) : Bool :=
  isCont c &&
    ((a == 0xE0 && 0xA0 ≤ b && b ≤ 0xBF) ||
     (a == 0xED && 0x80 ≤ b && b ≤ 0x9F) ||
     (0xE1 ≤ a && a ≤ 0xEF && a != 0xED && isCont b))

/-- A four-byte rune, narrowed after `F0` (overlong) and after `F4` (beyond `U+10FFFF`). -/
def isRune4 (a b c d : UInt8) : Bool :=
  isCont c && isCont d &&
    ((a == 0xF0 && 0x90 ≤ b && b ≤ 0xBF) ||
     (a == 0xF4 && 0x80 ≤ b && b ≤ 0x8F) ||
     (0xF1 ≤ a && a ≤ 0xF3 && isCont b))

/-- `utf8.Valid`: the input consists entirely of encoded runes. -/
def validUTF8 : Bytes → Bool
  | [] => true
  | a :: t =>
    if a < 0x80 then validUTF8 t
    else match t with
      | [] => false
      | b :: t =>
        if isRune2 a b then validUTF8 t
        else match t with
          | [] => false
          | c :: t =>
            if isRune3 a b c then validUTF8 t
            else match t with
              | [] => false
              | d :: t => isRune4 a b c d && validUTF8 t

end Protobus.Library
