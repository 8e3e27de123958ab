import Protobus.Library.Bytes
import Mathlib.Algebra.Order.Ring.Int

/-!
# The protobuf wire format as a parameter

`Protowire` is the interface of a wire-format library: encoders that produce bytes, and
consumers that report how many bytes a tag or a value takes at the front of a buffer, or a
negative code when there is none. `Lawful` says what the wire format specifies about them.
A message is a concatenation of fields, and `Field` is one well-formed field: a tag and
exactly the bytes its value takes.
-/
namespace Protobus.Library

/-- The wire type of strings, byte strings and embedded messages. -/
def bytesType : Nat := 2

/-- Largest field number of the wire format. -/
def maxValidNumber : Nat := 2 ^ 29 - 1

structure Protowire where
  /-- The encoding of an unsigned 64-bit integer. -/
  varint : Nat → Bytes
  /-- The encoding of a field number and wire type. -/
  tag : Nat → Nat → Bytes
  /-- A length-prefixed byte string. -/
  bytes : Bytes → Bytes
  sizeTag : Nat → Nat
  sizeBytes : Nat → Nat
  /-- Field number, wire type, and length taken or error code. -/
  consumeTag : Bytes → Nat × Nat × Int
  consumeBytes : Bytes → Bytes × Int
  consumeFieldValue : Nat → Nat → Bytes → Int
  /-- The text of an error code. -/
  parseError : Int → Bytes

namespace Protowire

/-- What the wire format promises. A consumer that accepts looks only at the bytes it
takes, so its answer survives any change behind them. -/
structure Lawful (w : Protowire) : Prop where
  bytes_eq : ∀ v, w.bytes v = w.varint (v.length % 2 ^ 64) ++ v
  sizeBytes_eq : ∀ v, w.sizeBytes v.length = (w.bytes v).length
  sizeTag_eq : ∀ num typ, 1 ≤ num → num ≤ maxValidNumber → typ < 8 →
    w.sizeTag num = (w.tag num typ).length
  consumeTag_tag : ∀ num typ rest, 1 ≤ num → num ≤ maxValidNumber → typ < 8 →
    w.consumeTag (w.tag num typ ++ rest) = (num, typ, ((w.tag num typ).length : Int))
  consumeBytes_bytes : ∀ v rest, v.length < 2 ^ 64 →
    w.consumeBytes (w.bytes v ++ rest) = (v, ((w.bytes v).length : Int))
  consumeTag_local : ∀ b num typ (n : Nat), w.consumeTag b = (num, typ, (n : Int)) →
    0 < n ∧ n ≤ b.length ∧ 1 ≤ num ∧
      ∀ rest, w.consumeTag (b.take n ++ rest) = (num, typ, (n : Int))
  consumeBytes_local : ∀ b v (n : Nat), w.consumeBytes b = (v, (n : Int)) →
    n ≤ b.length ∧ ∀ rest, w.consumeBytes (b.take n ++ rest) = (v, (n : Int))
  consumeFieldValue_local : ∀ num typ b (n : Nat), w.consumeFieldValue num typ b = (n : Int) →
    n ≤ b.length ∧ ∀ rest, w.consumeFieldValue num typ (b.take n ++ rest) = (n : Int)
  consumeFieldValue_bytes : ∀ num b,
    w.consumeFieldValue num bytesType b = (w.consumeBytes b).2

/-- One well-formed field, tag included. -/
structure Field (w : Protowire) where
  bytes : Bytes
  num : Nat
  typ : Nat
  tagLen : Nat
  tag_eq : w.consumeTag bytes = (num, typ, (tagLen : Int))
  value_eq : w.consumeFieldValue num typ (bytes.drop tagLen) = ((bytes.length - tagLen : Nat) : Int)

/-- What a length-delimited field holds. -/
def Field.payload {w : Protowire} (f : Field w) : Bytes :=
  (w.consumeBytes (f.bytes.drop f.tagLen)).1

/-- The message made of some fields. -/
def concat {w : Protowire} (fs : List (Field w)) : Bytes := (fs.map Field.bytes).flatten

variable {w : Protowire}

@[simp] theorem concat_nil : concat ([] : List (Field w)) = [] := rfl
@[simp] theorem concat_cons (f : Field w) (fs : List (Field w)) :
    concat (f :: fs) = f.bytes ++ concat fs := rfl
@[simp] theorem concat_append (fs gs : List (Field w)) :
    concat (fs ++ gs) = concat fs ++ concat gs := by simp [concat]

section Lawful
variable (h : w.Lawful)
include h

theorem Field.tagLen_le (f : Field w) : f.tagLen ≤ f.bytes.length :=
  (h.consumeTag_local _ _ _ _ f.tag_eq).2.1

theorem Field.num_pos (f : Field w) : 1 ≤ f.num :=
  (h.consumeTag_local _ _ _ _ f.tag_eq).2.2.1

theorem Field.bytes_ne_nil (f : Field w) : f.bytes ≠ [] := by
  have := h.consumeTag_local _ _ _ _ f.tag_eq
  intro nil
  simp only [nil, List.length_nil] at this
  omega

theorem tag_ne_nil (num typ : Nat) (low : 1 ≤ num) (high : num ≤ maxValidNumber)
    (small : typ < 8) : w.tag num typ ≠ [] := by
  intro nil
  have read := h.consumeTag_local _ _ _ _ (h.consumeTag_tag num typ [] low high small)
  simp [nil] at read

/-- The tag of a field is read the same with anything behind the field. -/
theorem Field.consumeTag_append (f : Field w) (rest : Bytes) :
    w.consumeTag (f.bytes ++ rest) = (f.num, f.typ, (f.tagLen : Int)) := by
  have key := (h.consumeTag_local _ _ _ _ f.tag_eq).2.2.2 (f.bytes.drop f.tagLen ++ rest)
  rwa [← List.append_assoc, List.take_append_drop] at key

theorem Field.drop_tag_append (f : Field w) (rest : Bytes) :
    (f.bytes ++ rest).drop f.tagLen = f.bytes.drop f.tagLen ++ rest :=
  List.drop_append_of_le_length (f.tagLen_le h)

theorem Field.consumeFieldValue_append (f : Field w) (rest : Bytes) :
    w.consumeFieldValue f.num f.typ (f.bytes.drop f.tagLen ++ rest) =
      ((f.bytes.length - f.tagLen : Nat) : Int) := by
  have key := (h.consumeFieldValue_local _ _ _ _ f.value_eq).2 rest
  rwa [List.take_of_length_le (by simp)] at key

theorem Field.consumeBytes_append (f : Field w) (hf : f.typ = bytesType) (rest : Bytes) :
    w.consumeBytes (f.bytes.drop f.tagLen ++ rest) =
      (f.payload, ((f.bytes.length - f.tagLen : Nat) : Int)) := by
  have value := f.value_eq
  rw [hf, h.consumeFieldValue_bytes] at value
  have self : w.consumeBytes (f.bytes.drop f.tagLen) =
      (f.payload, ((f.bytes.length - f.tagLen : Nat) : Int)) := Prod.ext rfl value
  have key := (h.consumeBytes_local _ _ _ self).2 rest
  rwa [List.take_of_length_le (by simp)] at key

/-- The field at the front of a buffer whose tag and value are both accepted. -/
def fieldAt (b : Bytes) (num typ n m : Nat) (tag : w.consumeTag b = (num, typ, (n : Int)))
    (value : w.consumeFieldValue num typ (b.drop n) = (m : Int)) : Field w where
  bytes := b.take (n + m)
  num := num
  typ := typ
  tagLen := n
  tag_eq := by
    have key := (h.consumeTag_local _ _ _ _ tag).2.2.2 ((b.drop n).take m)
    rwa [← List.take_add] at key
  value_eq := by
    have tagLe := (h.consumeTag_local _ _ _ _ tag).2.1
    have ⟨valueLe, stays⟩ := h.consumeFieldValue_local _ _ _ _ value
    have len : (b.take (n + m)).length - n = m := by
      simp only [List.length_drop] at valueLe
      simp only [List.length_take]
      omega
    rw [len, List.take_add, List.drop_left' (by simp only [List.length_take]; omega)]
    simpa using stays []

theorem fieldAt_split (b : Bytes) (num typ n m : Nat) (tag : w.consumeTag b = (num, typ, (n : Int)))
    (value : w.consumeFieldValue num typ (b.drop n) = (m : Int)) :
    b = (fieldAt h b num typ n m tag value).bytes ++ (b.drop n).drop m := by
  rw [List.drop_drop]
  exact (List.take_append_drop (n + m) b).symm

/-- A string or byte-string field as the encoders write it. -/
def bytesField (num : Nat) (v : Bytes) (low : 1 ≤ num) (high : num ≤ maxValidNumber)
    (len : v.length < 2 ^ 64) : Field w where
  bytes := w.tag num bytesType ++ w.bytes v
  num := num
  typ := bytesType
  tagLen := (w.tag num bytesType).length
  tag_eq := h.consumeTag_tag num bytesType _ low high (by decide)
  value_eq := by
    have key := h.consumeBytes_bytes v [] len
    rw [List.append_nil] at key
    rw [List.drop_left, h.consumeFieldValue_bytes, key]
    simp

@[simp] theorem num_bytesField (num : Nat) (v : Bytes) (low : 1 ≤ num) (high : num ≤ maxValidNumber)
    (len : v.length < 2 ^ 64) : (bytesField h num v low high len).num = num := rfl

@[simp] theorem typ_bytesField (num : Nat) (v : Bytes) (low : 1 ≤ num) (high : num ≤ maxValidNumber)
    (len : v.length < 2 ^ 64) : (bytesField h num v low high len).typ = bytesType := rfl

@[simp] theorem payload_bytesField (num : Nat) (v : Bytes) (low : 1 ≤ num)
    (high : num ≤ maxValidNumber)
    (len : v.length < 2 ^ 64) : (bytesField h num v low high len).payload = v := by
  have key := h.consumeBytes_bytes v [] len
  rw [List.append_nil] at key
  simp [Field.payload, bytesField, key]

end Lawful
end Protowire
end Protobus.Library
