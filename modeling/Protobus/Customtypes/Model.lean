import Protobus.Library.Bytes
import Protobus.Library.Search
import Protobus.Pbtypes.Bigint

/-!
# Custom types in messages

A decoded message is walked for bigints wider than their wire format. Subtrees whose type cannot
hold a bigint are skipped; whether one can is found by a depth-first search of the descriptors and
remembered in a cache that is one for the process, keyed by the full name of the type.
-/
namespace Protobus.Customtypes
open Library Search

/-! ## Descriptors and messages -/

/-- What a field holds, or each element of a repeated field, or each value of a map. -/
inductive Kind (ι : Type)
  | bytes
  | scalar
  | message (desc : ι)
deriving DecidableEq

inductive Shape
  | singular
  | list
  | map
deriving DecidableEq

structure Field (ι : Type) where
  number : Nat
  shape : Shape
  kind : Kind ι
deriving DecidableEq

/-- `fd.Message()`, of the map's value for a map. -/
def Field.message? {ι : Type} (fd : Field ι) : Option ι :=
  match fd.kind with
  | .message desc => some desc
  | _ => none

structure Descriptor (ι : Type) where
  fullName : Bytes
  fields : List (Field ι)

/-- The descriptors of a process, of however many registries. -/
abbrev Descriptors (ι : Type) := ι → Descriptor ι

/-- A value. The fields of a message are those that are populated, declared ones and extensions, in
the order `Range` visits them, each with its one value, its elements or the values of its map. -/
inductive Value (ι : Type)
  | bytes (b : Bytes)
  | scalar
  | message (desc : ι) (fields : List (Field ι × List (Value ι)))

structure Message (ι : Type) where
  desc : ι
  fields : List (Field ι × List (Value ι))

def Message.value {ι : Type} (m : Message ι) : Value ι := .message m.desc m.fields

def bigintName : Bytes := lit "bigint"

section Walk
variable {ι : Type} (g : Descriptors ι)

def fullName (d : ι) : Bytes := (g d).fullName

/-- The message types of the declared fields. -/
def succs (d : ι) : List ι := (g d).fields.filterMap Field.message?

variable [Fintype ι]

def reachesBigintWalk (d : ι) : Option (Bool × List Bytes) :=
  walk (fullName g) bigintName (succs g) (Fintype.card ι + 1) d []

/-! ## The check -/

abbrev Cache := Bytes → Option Bool

def reachesBigint (d : ι) (hasBigint : Cache) : Bool × Cache :=
  match hasBigint (fullName g d) with
  | some v => (v, hasBigint)
  | none =>
    let found := (reachesBigintWalk g d).any Prod.fst
    (found, Function.update hasBigint (fullName g d) (some found))

/-- `wide` is `ErrBigintRange` with the length it quotes; `panicked` is a panic of the reflection
package, on a value that does not fit its descriptor. -/
inductive Error
  | wide (length : Nat)
  | panicked
deriving DecidableEq

instance : DecidableEq (Except Error Unit) := fun a b =>
  match a, b with
  | .ok (), .ok () => .isTrue rfl
  | .error e, .error f => if h : e = f then .isTrue (by rw [h]) else .isFalse (by simpa using h)
  | .ok (), .error _ => .isFalse (by simp)
  | .error _, .ok () => .isFalse (by simp)

/-- `r.Get(r.Descriptor().Fields().ByNumber(1)).Bytes()`; a field that is not populated has its
default. -/
def valueBytes (d : ι) (fields : List (Field ι × List (Value ι))) : Except Error Bytes :=
  match (g d).fields.find? (fun fd => fd.number = 1) with
  | some ⟨_, .singular, .bytes⟩ =>
    match fields.find? (fun p => p.1.number = 1) with
    | none => .ok []
    | some (_, [.bytes b]) => .ok b
    | some _ => .error .panicked
  | _ => .error .panicked

def checkBigint (d : ι) (fields : List (Field ι × List (Value ι))) : Except Error Unit :=
  match valueBytes g d fields with
  | .error e => .error e
  | .ok v => if Pbtypes.bigintBytes < v.length then .error (.wide v.length) else .ok ()

/-- The walk stops at the first error. -/
def andThen (r : Except Error Unit × Cache) (next : Cache → Except Error Unit × Cache) :
    Except Error Unit × Cache :=
  match r.1 with
  | .error e => (.error e, r.2)
  | .ok () => next r.2

mutual

def checkMessage : Value ι → Cache → Except Error Unit × Cache
  | .message d fields, c =>
    if fullName g d = bigintName then (checkBigint g d fields, c) else checkFields fields c
  | .bytes _, c | .scalar, c => (.error .panicked, c)

/-- The function given to `Range`, over the fields left. -/
def checkFields : List (Field ι × List (Value ι)) → Cache → Except Error Unit × Cache
  | [], c => (.ok (), c)
  | (fd, vs) :: rest, c =>
    match fd.message? with
    | none => checkFields rest c
    | some d =>
      if (reachesBigint g d c).1 then
        andThen (checkValues vs (reachesBigint g d c).2) (checkFields rest)
      else checkFields rest (reachesBigint g d c).2

def checkValues : List (Value ι) → Cache → Except Error Unit × Cache
  | [], c => (.ok (), c)
  | v :: rest, c => andThen (checkMessage v c) (checkValues rest)

end

def checkCustomTypes (m : Message ι) (hasBigint : Cache) : Except Error Unit × Cache :=
  let (reaches, hasBigint) := reachesBigint g m.desc hasBigint
  if reaches then checkMessage g m.value hasBigint else (.ok (), hasBigint)

/-! ### Its two callers -/

section Codec
variable {ε : Type} (Unmarshal : Bytes → Except ε (Message ι))
  (Marshal : Message ι → Except ε Bytes)

/-- The error of the codec or of the check. -/
abbrev Failure (ε : Type) := ε ⊕ Error

def unmarshal (b : Bytes) (hasBigint : Cache) : Except (Failure ε) (Message ι) × Cache :=
  match Unmarshal b with
  | .error e => (.error (.inl e), hasBigint)
  | .ok m => match checkCustomTypes g m hasBigint with
    | (.error e, hasBigint) => (.error (.inr e), hasBigint)
    | (.ok (), hasBigint) => (.ok m, hasBigint)

def marshal (m : Message ι) (hasBigint : Cache) : Except (Failure ε) Bytes × Cache :=
  match checkCustomTypes g m hasBigint with
  | (.error e, hasBigint) => (.error (.inr e), hasBigint)
  | (.ok (), hasBigint) => ((Marshal m).mapError .inl, hasBigint)

end Codec

/-- What a process asks, and the cache it leaves. -/
inductive Query (ι : Type)
  | reaches (d : ι)
  | check (m : Message ι)

def Query.run (c : Cache) : Query ι → Cache
  | .reaches d => (reachesBigint g d c).2
  | .check m => (checkCustomTypes g m c).2

def after (queries : List (Query ι)) : Cache := queries.foldl (Query.run g) fun _ => none

end Walk

end Protobus.Customtypes
