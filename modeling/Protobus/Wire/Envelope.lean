import Protobus.Library.Protowire

/-!
# The envelope codec

The five small messages that every request, reply and event travels in, with the encoders
and decoders of `internal/wire`. The wire-format library is the parameter `pw`.

A nil slice and an empty one are the same byte string, and a decoded slice that aliases its
input is the same byte string as a copy.
-/
namespace Protobus.Wire
open Library

structure Request where
  method : Bytes
  actor : Bytes
  data : Bytes
deriving DecidableEq

structure Result where
  method : Bytes
  data : Bytes
deriving DecidableEq

/-- A `ResponseError`. Only these three fields cross the wire. -/
structure Error where
  method : Bytes
  message : Bytes
  code : Bytes
deriving DecidableEq

/-- A `ResponseContainer`, whose two members are pointers in Go. -/
structure Response where
  result : Option Result
  error : Option Error
deriving DecidableEq

structure Event where
  type : Bytes
  topic : Bytes
  data : Bytes
deriving DecidableEq

/-- Exactly one member is set. -/
def Response.WellFormed (r : Response) : Prop := r.result.isSome ≠ r.error.isSome

inductive AppendError where
  | both
  | neither
deriving DecidableEq

def AppendError.text : AppendError → Bytes
  | both => lit "protobus: response carries both a result and an error"
  | neither => lit "protobus: response carries neither a result nor an error"

/-- Everything that wraps `ErrMalformed`. -/
inductive WireError where
  | tag (code : Int)
  | value (num : Nat) (code : Int)
  | wireType (num typ : Nat)
  | notUTF8 (num : Nat)
  | neither
  /-- The model's loop bound. `walk_cons` shows that it is never reached. -/
  | exhausted
deriving DecidableEq

/-- A byte slice with the room behind it that an append may use. -/
structure Buffer where
  data : Bytes
  cap : Nat
  fits : data.length ≤ cap

def Buffer.nil : Buffer := ⟨[], 0, Nat.le_refl 0⟩

/-- Go's `append`. How much an allocation rounds up is left open by the language; here it
does not round. -/
def Buffer.append (b : Buffer) (v : Bytes) : Buffer where
  data := b.data ++ v
  cap := max b.cap (b.data.length + v.length)
  fits := by simp only [List.length_append]; omega

def grow (b : Buffer) (n : Nat) : Buffer :=
  if b.cap - b.data.length ≥ n then b
  else ⟨b.data, b.data.length + n, Nat.le_add_right _ _⟩

@[simp] theorem Buffer.data_append (b : Buffer) (v : Bytes) : (b.append v).data = b.data ++ v := rfl
@[simp] theorem Buffer.data_nil : Buffer.nil.data = [] := rfl
@[simp] theorem data_grow (b : Buffer) (n : Nat) : (grow b n).data = b.data := by
  unfold grow
  split <;> rfl

section Encode
variable (pw : Protowire)

def WireError.text : WireError → Bytes
  | tag code => lit "protobus: malformed envelope: " ++ pw.parseError code
  | value num code =>
    lit (s!"protobus: malformed envelope: field {num}: ") ++ pw.parseError code
  | wireType num typ =>
    lit (s!"protobus: malformed envelope: field {num} has wire type {typ}, want length-delimited")
  | notUTF8 num => lit (s!"protobus: malformed envelope: field {num} is not valid UTF-8")
  | neither =>
    lit "protobus: malformed envelope: response carries neither a result nor an error"
  | exhausted => []

def sizeField (field n : Nat) : Nat := pw.sizeTag field + pw.sizeBytes n

def appendString (b : Buffer) (field : Nat) (s : Bytes) : Buffer :=
  (b.append (pw.tag field bytesType)).append (pw.bytes s)

def appendBytes (b : Buffer) (field : Nat) (v : Bytes) : Buffer :=
  (b.append (pw.tag field bytesType)).append (pw.bytes v)

def sizeRequest (r : Request) : Nat :=
  let n := sizeField pw 1 r.method.length + sizeField pw 3 r.data.length
  if r.actor ≠ [] then n + sizeField pw 2 r.actor.length else n

/-- The method and data are always written, the actor only when there is one. -/
def appendRequest (b : Buffer) (r : Request) : Buffer :=
  let b := grow b (sizeRequest pw r)
  let b := appendString pw b 1 r.method
  let b := if r.actor ≠ [] then appendString pw b 2 r.actor else b
  appendBytes pw b 3 r.data

def sizeResult (r : Result) : Nat :=
  sizeField pw 1 r.method.length + sizeField pw 2 r.data.length

def appendResult (b : Buffer) (r : Result) : Buffer :=
  let b := grow b (sizeResult pw r)
  let b := appendString pw b 1 r.method
  appendBytes pw b 2 r.data

def sizeError (e : Error) : Nat :=
  sizeField pw 1 e.method.length + sizeField pw 2 e.message.length + sizeField pw 3 e.code.length

def appendError (b : Buffer) (e : Error) : Buffer :=
  let b := grow b (sizeError pw e)
  let b := appendString pw b 1 e.method
  let b := appendString pw b 2 e.message
  appendString pw b 3 e.code

/-- The header of an embedded message: its tag, and its length as a `uint64`. -/
def appendHeader (b : Buffer) (field n : Nat) : Buffer :=
  let b := grow b (pw.sizeTag field + pw.sizeBytes n)
  let b := b.append (pw.tag field bytesType)
  b.append (pw.varint (n % 2 ^ 64))

def appendResponse (b : Buffer) (r : Response) : Buffer × Option AppendError :=
  match r.result, r.error with
  | some _, some _ => (b, some .both)
  | some res, none => (appendResult pw (appendHeader pw b 1 (sizeResult pw res)) res, none)
  | none, some e => (appendError pw (appendHeader pw b 2 (sizeError pw e)) e, none)
  | none, none => (b, some .neither)

def appendEvent (b : Buffer) (e : Event) : Buffer :=
  let b := grow b (sizeField pw 1 e.type.length + sizeField pw 2 e.topic.length +
    sizeField pw 3 e.data.length)
  let b := appendString pw b 1 e.type
  let b := appendString pw b 2 e.topic
  appendBytes pw b 3 e.data

end Encode

section Decode
variable (pw : Protowire) {σ : Type}

/-- `walk`, with the variables its callback assigns as explicit state. Every turn takes a
tag, so the length of the buffer bounds the number of turns. -/
def walkLoop (known : Nat → Bool) (fn : Nat → Bytes → σ → σ × Option WireError) :
    Nat → Bytes → σ → σ × Option WireError
  | 0, [], s => (s, none)
  | 0, _ :: _, s => (s, some .exhausted)
  | fuel + 1, b, s =>
    if b.length = 0 then (s, none)
    else
      let (num, typ, n) := pw.consumeTag b
      if n < 0 then (s, some (.tag n))
      else
        let b := b.drop n.toNat
        if !known num then
          let n := pw.consumeFieldValue num typ b
          if n < 0 then (s, some (.value num n))
          else walkLoop known fn fuel (b.drop n.toNat) s
        else if typ ≠ bytesType then (s, some (.wireType num typ))
        else
          let (v, n) := pw.consumeBytes b
          if n < 0 then (s, some (.value num n))
          else
            let b := b.drop n.toNat
            match fn num v s with
            | (s, some err) => (s, some err)
            | (s, none) => walkLoop known fn fuel b s

def walk (b : Bytes) (known : Nat → Bool) (fn : Nat → Bytes → σ → σ × Option WireError)
    (s : σ) : σ × Option WireError :=
  walkLoop pw known fn b.length b s

def upTo (max : Nat) (n : Nat) : Bool := decide (1 ≤ n ∧ n ≤ max)

/-- A string field. Go returns an empty string beside the error. -/
def str (num : Nat) (v : Bytes) : Bytes × Option WireError :=
  if !validUTF8 v then ([], some (.notUTF8 num)) else (v, none)

def requestField (num : Nat) (v : Bytes) (r : Request) : Request × Option WireError :=
  match num with
  | 1 => ({ r with method := (str num v).1 }, (str num v).2)
  | 2 => ({ r with actor := (str num v).1 }, (str num v).2)
  | 3 => ({ r with data := v }, none)
  | _ => (r, none)

def decodeRequest (b : Bytes) : Request × Option WireError :=
  walk pw b (upTo 3) requestField ⟨[], [], []⟩

def resultField (num : Nat) (v : Bytes) (r : Result) : Result × Option WireError :=
  match num with
  | 1 => ({ r with method := (str num v).1 }, (str num v).2)
  | 2 => ({ r with data := v }, none)
  | _ => (r, none)

/-- Decodes into an existing value, which is how repeated occurrences merge. -/
def decodeResult (b : Bytes) (r : Result) : Result × Option WireError :=
  walk pw b (upTo 2) resultField r

def errorField (num : Nat) (v : Bytes) (e : Error) : Error × Option WireError :=
  match num with
  | 1 => ({ e with method := (str num v).1 }, (str num v).2)
  | 2 => ({ e with message := (str num v).1 }, (str num v).2)
  | 3 => ({ e with code := (str num v).1 }, (str num v).2)
  | _ => (e, none)

def decodeError (b : Bytes) (e : Error) : Error × Option WireError :=
  walk pw b (upTo 3) errorField e

/-- The local variables of `DecodeResponse`. -/
structure Members where
  res : Result
  er : Error
  hasRes : Bool
  hasErr : Bool

def responseField (num : Nat) (v : Bytes) (m : Members) : Members × Option WireError :=
  if num = 1 then
    let (res, err) := decodeResult pw v m.res
    ({ m with hasRes := true, res := res }, err)
  else
    let (er, err) := decodeError pw v m.er
    ({ m with hasErr := true, er := er }, err)

def decodeResponse (b : Bytes) : Response × Option WireError :=
  match walk pw b (upTo 2) (responseField pw) ⟨⟨[], []⟩, ⟨[], [], []⟩, false, false⟩ with
  | (_, some err) => (⟨none, none⟩, some err)
  | (m, none) =>
    if m.hasErr then (⟨none, some m.er⟩, none)
    else if m.hasRes then (⟨some m.res, none⟩, none)
    else (⟨none, none⟩, some .neither)

def eventField (num : Nat) (v : Bytes) (e : Event) : Event × Option WireError :=
  match num with
  | 1 => ({ e with type := (str num v).1 }, (str num v).2)
  | 2 => ({ e with topic := (str num v).1 }, (str num v).2)
  | 3 => ({ e with data := v }, none)
  | _ => (e, none)

def decodeEvent (b : Bytes) : Event × Option WireError :=
  walk pw b (upTo 3) eventField ⟨[], [], []⟩

end Decode
end Protobus.Wire
