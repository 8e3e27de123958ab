import Protobus.Errors.Model
import Protobus.Library.Names
import Protobus.Library.ProtowireReference
import Protobus.Rpc.Model
import Protobus.Stream.Client
import Protobus.Stream.Server
import Protobus.Wire.Codec

/-!
# Errors on their way to the caller

`encodeError` and `serviceErrorBody` write what `sanitizeForCaller` gives into a `ResponseError`,
and `decodeReply` reads it. The encoder takes any string and the decoder only text, so an answer
that quotes raw input is lost: the caller learns that the reply was invalid.
-/
namespace Protobus.Errors
open Library Protowire Wire Err

section
variable (pw : Protowire) (expose : Bool) (method : Bytes) (err : Err)

def encodeError : Bytes :=
  Rpc.encodeError pw method (sanitizeForCaller err expose).code
    (sanitizeForCaller err expose).message

def serviceErrorBody : Bytes :=
  Stream.serviceErrorBody pw method
    ⟨(sanitizeForCaller err expose).message, (sanitizeForCaller err expose).code⟩

/-- The error as both write it. -/
def answer : Error :=
  ⟨method, (sanitizeForCaller err expose).message, (sanitizeForCaller err expose).code⟩

end

/-- The code and the message are text. -/
def Err.CallerError.Text (ce : CallerError) : Prop :=
  validUTF8 ce.code = true ∧ validUTF8 ce.message = true

section
variable {pw : Protowire} (h : pw.Lawful) (called : Bytes) (unmarshal : Bytes → Bool)
include h

/-- An encoded error is read as it was written if it is text, and is invalid otherwise. -/
theorem decodeReply_error (e : Error) (fits : sizeError pw e < 2 ^ 63) :
    (e.Text → Stream.decodeReply pw called unmarshal
      (appendResponse pw .nil ⟨none, some e⟩).1.data = some (.remote e)) ∧
    (¬e.Text → ∃ err, Stream.decodeReply pw called unmarshal
      (appendResponse pw .nil ⟨none, some e⟩).1.data = some (.invalid (some err))) := by
  constructor
  · intro text
    obtain ⟨body, appended, decoded⟩ :=
      exists_encoding_response h ⟨none, some e⟩ (by simp [Response.WellFormed])
        ⟨by simp, by simpa using fits⟩ ⟨by simp, by simpa using text⟩
    rw [(appended .nil).1]
    change Stream.decodeReply pw called unmarshal body = _
    simp [Stream.decodeReply, decoded]
  · intro not_text
    have refused := mt (decodeResponse_error_iff h e fits).mp not_text
    cases decoded : decodeResponse pw (appendResponse pw .nil ⟨none, some e⟩).1.data with
    | mk resp err =>
      cases err with
      | none => exact absurd (congrArg Prod.snd decoded) refused
      | some err => exact ⟨err, by simp [Stream.decodeReply, decoded]⟩

/-- An answer reaches the caller as `sanitizeForCaller` gave it exactly if its code and message are
text; otherwise the caller gets an invalid response. The method is one of a contract. -/
theorem answer_intact_iff (sd : Rpc.ServiceDescriptor) (md : Rpc.MethodDescriptor)
    (declared : md ∈ sd.methods) (err : Err) (expose : Bool)
    (fits : sizeError pw (answer expose (sd.fullName ++ dot :: md.name) err) < 2 ^ 63)
    (body : Bytes)
    (encoded : body = encodeError pw expose (sd.fullName ++ dot :: md.name) err ∨
      body = serviceErrorBody pw expose (sd.fullName ++ dot :: md.name) err) :
    (Stream.decodeReply pw called unmarshal body =
        some (.remote (answer expose (sd.fullName ++ dot :: md.name) err)) ↔
      (sanitizeForCaller err expose).Text) ∧
    ((∀ invalid, Stream.decodeReply pw called unmarshal body ≠ some (.invalid invalid)) ↔
      (sanitizeForCaller err expose).Text) := by
  have method : validUTF8 (sd.fullName ++ dot :: md.name) = true :=
    validUTF8_concat sd.fullName_valid (sd.methods_valid md declared)
  have text_iff : (answer expose (sd.fullName ++ dot :: md.name) err).Text ↔
      (sanitizeForCaller err expose).Text :=
    ⟨fun text => ⟨text.2.2, text.2.1⟩, fun text => ⟨method, text.2, text.1⟩⟩
  obtain ⟨read, refused⟩ := decodeReply_error h called unmarshal _ fits
  -- the two encoders write the same bytes
  have body_eq : body = (appendResponse pw .nil
      ⟨none, some (answer expose (sd.fullName ++ dot :: md.name) err)⟩).1.data :=
    encoded.elim id id
  rw [← body_eq, text_iff] at read refused
  by_cases text : (sanitizeForCaller err expose).Text
  · simp [read text, text]
  · obtain ⟨cause, invalid⟩ := refused text
    simp [invalid, text]

end

/-! ## Raw input in a message -/

/-- A contract with one method. -/
def echo : Rpc.ServiceDescriptor :=
  ⟨lit "Echo.Service", [⟨lit "say", false, false⟩], by decide, by decide⟩

/-- The answer to a request that could not be parsed quotes a byte of it. -/
def quoted : Err := newHandledError (lit "BAD_INPUT") (lit "unexpected byte " ++ [0xFF])

theorem quoted_byte_lost :
    sanitizeForCaller quoted false = ⟨lit "BAD_INPUT", lit "unexpected byte " ++ [0xFF]⟩ ∧
    Stream.decodeReply reference (lit "Echo.Service.say") (fun _ => true)
        (encodeError reference false (lit "Echo.Service.say") quoted) =
      some (.invalid (some (.notUTF8 2))) :=
  ⟨by decide, rfl⟩

theorem answer_intact_of_limit :
    Stream.decodeReply reference (lit "Echo.Service.say") (fun _ => true)
        (serviceErrorBody reference false (lit "Echo.Service.say")
          (.timeout (lit "7") 1500000000)) =
      some (.remote ⟨lit "Echo.Service.say",
        lit "message 7 exceeded the 1.5s processing timeout", codeProcessingTimeout⟩) :=
  (answer_intact_iff reference_lawful _ _ echo ⟨lit "say", false, false⟩ List.mem_cons_self _
    false (by decide) _ (.inr rfl)).1.mpr ⟨by decide, by decide⟩

end Protobus.Errors
