import Protobus.Wire.Grammar
import Protobus.Library.ProtowireReference

/-!
# Round trips of the envelope codec

Every encoder appends a concatenation of fields that its decoder accepts, so what is encoded
is decoded to itself, and the decoders read exactly the grammar of `Grammar`.

`Fits` bounds lengths by Go's `int`, which no string, slice or encoding exceeds.
-/
namespace Protobus.Wire
open Library Protowire

structure Request.Fits (r : Request) : Prop where
  method : r.method.length < 2 ^ 63
  actor : r.actor.length < 2 ^ 63
  data : r.data.length < 2 ^ 63

structure Event.Fits (e : Event) : Prop where
  type : e.type.length < 2 ^ 63
  topic : e.topic.length < 2 ^ 63
  data : e.data.length < 2 ^ 63

def Request.Text (r : Request) : Prop := validUTF8 r.method = true ∧ validUTF8 r.actor = true
def Event.Text (e : Event) : Prop := validUTF8 e.type = true ∧ validUTF8 e.topic = true
def Result.Text (r : Result) : Prop := validUTF8 r.method = true
def Error.Text (e : Error) : Prop :=
  validUTF8 e.method = true ∧ validUTF8 e.message = true ∧ validUTF8 e.code = true

/-- The nested encoding fits. -/
def Response.Fits (pw : Protowire) (r : Response) : Prop :=
  (∀ res, r.result = some res → sizeResult pw res < 2 ^ 63) ∧
  (∀ e, r.error = some e → sizeError pw e < 2 ^ 63)

def Response.Text (r : Response) : Prop :=
  (∀ res, r.result = some res → res.Text) ∧ (∀ e, r.error = some e → e.Text)

variable {pw : Protowire}

theorem appendString_data (b : Buffer) (num : Nat) (s : Bytes) :
    (appendString pw b num s).data = b.data ++ (pw.tag num bytesType ++ pw.bytes s) := by
  simp [appendString]

theorem appendBytes_data (b : Buffer) (num : Nat) (v : Bytes) :
    (appendBytes pw b num v).data = b.data ++ (pw.tag num bytesType ++ pw.bytes v) := by
  simp [appendBytes]

/-- The nested bytes are written after the length that `sizeResult` announces. -/
theorem appendResponse_result (b : Buffer) (r : Result) :
    (appendResponse pw b ⟨some r, none⟩).1.data = b.data ++ (pw.tag 1 bytesType ++
      (pw.varint (sizeResult pw r % 2 ^ 64) ++ (appendResult pw .nil r).data)) := by
  simp [appendResponse, appendHeader, appendResult, appendString_data, appendBytes_data]

theorem appendResponse_error (b : Buffer) (e : Error) :
    (appendResponse pw b ⟨none, some e⟩).1.data = b.data ++ (pw.tag 2 bytesType ++
      (pw.varint (sizeError pw e % 2 ^ 64) ++ (appendError pw .nil e).data)) := by
  simp [appendResponse, appendHeader, appendError, appendString_data]

theorem appendResponse_err_iff (b : Buffer) (r : Response) :
    (appendResponse pw b r).2 ≠ none ↔ ¬r.WellFormed := by
  obtain ⟨result, error⟩ := r
  cases result <;> cases error <;> simp [appendResponse, Response.WellFormed]

theorem appendResponse_err (b : Buffer) (r : Response) (bad : ¬r.WellFormed) :
    (appendResponse pw b r).1 = b := by
  obtain ⟨result, error⟩ := r
  cases result <;> cases error <;> simp_all [appendResponse, Response.WellFormed]

section
variable (h : pw.Lawful)
include h

/-! ## What the encoders append -/

def Request.fields (r : Request) (fits : r.Fits) : List (Field pw) :=
  bytesField h 1 r.method (by decide) (by decide) (by have := fits.method; omega) ::
    ((if r.actor = [] then [] else
      [bytesField h 2 r.actor (by decide) (by decide) (by have := fits.actor; omega)]) ++
    [bytesField h 3 r.data (by decide) (by decide) (by have := fits.data; omega)])

theorem appendRequest_data (b : Buffer) (r : Request) (fits : r.Fits) :
    (appendRequest pw b r).data = b.data ++ concat (r.fields h fits) := by
  by_cases actor : r.actor = [] <;>
    simp [appendRequest, Request.fields, actor, appendString_data, appendBytes_data, bytesField]

def Event.fields (e : Event) (fits : e.Fits) : List (Field pw) :=
  [bytesField h 1 e.type (by decide) (by decide) (by have := fits.type; omega),
    bytesField h 2 e.topic (by decide) (by decide) (by have := fits.topic; omega),
    bytesField h 3 e.data (by decide) (by decide) (by have := fits.data; omega)]

theorem appendEvent_data (b : Buffer) (e : Event) (fits : e.Fits) :
    (appendEvent pw b e).data = b.data ++ concat (e.fields h fits) := by
  simp [appendEvent, Event.fields, appendString_data, appendBytes_data, bytesField]

/-! ## The nested messages and their sizes -/

theorem sizeField_eq (num : Nat) (v : Bytes) (low : 1 ≤ num) (high : num ≤ maxValidNumber) :
    sizeField pw num v.length = (pw.tag num bytesType ++ pw.bytes v).length := by
  rw [sizeField, h.sizeTag_eq num bytesType low high (by decide), h.sizeBytes_eq,
    List.length_append]

theorem length_lt_sizeField (num : Nat) (v : Bytes) : v.length ≤ sizeField pw num v.length := by
  rw [sizeField, h.sizeBytes_eq, h.bytes_eq, List.length_append]
  omega

theorem appendResult_length (b : Buffer) (r : Result) :
    (appendResult pw b r).data.length = b.data.length + sizeResult pw r := by
  simp only [appendResult, sizeResult, appendString_data, appendBytes_data, data_grow,
    List.length_append, sizeField_eq h 1 r.method (by decide) (by decide),
    sizeField_eq h 2 r.data (by decide) (by decide)]
  omega

theorem appendError_length (b : Buffer) (e : Error) :
    (appendError pw b e).data.length = b.data.length + sizeError pw e := by
  simp only [appendError, sizeError, appendString_data, data_grow, List.length_append,
    sizeField_eq h 1 e.method (by decide) (by decide),
    sizeField_eq h 2 e.message (by decide) (by decide),
    sizeField_eq h 3 e.code (by decide) (by decide)]
  omega

/-! ## Reading back what was appended -/

theorem decodeRequest_accepted {fs : List (Field pw)} (acc : Accepted 3 requestText fs) :
    decodeRequest pw (concat fs) = (⟨lastOr 1 fs [], lastOr 2 fs [], lastOr 3 fs []⟩, none) := by
  rw [decodeRequest, walk_accepted h requestField_assigns acc, assignAll_request]

theorem decodeEvent_accepted {fs : List (Field pw)} (acc : Accepted 3 requestText fs) :
    decodeEvent pw (concat fs) = (⟨lastOr 1 fs [], lastOr 2 fs [], lastOr 3 fs []⟩, none) := by
  rw [decodeEvent, walk_accepted h eventField_assigns acc, assignAll_event]

theorem decodeRequest_fields (r : Request) (fits : r.Fits) (text : r.Text) :
    decodeRequest pw (concat (r.fields h fits)) = (r, none) := by
  have acc : Accepted 3 requestText (r.fields h fits) := by
    intro f hf _
    simp only [Request.fields, List.mem_cons, List.mem_append, List.mem_ite_nil_left,
      List.not_mem_nil, or_false] at hf
    obtain rfl | ⟨-, rfl⟩ | rfl := hf
    · simpa using fun _ => text.1
    · simpa using fun _ => text.2
    · simp [requestText]
  rw [decodeRequest_accepted h acc]
  obtain ⟨method, actor, data⟩ := r
  by_cases absent : actor = [] <;> simp [Request.fields, absent, lastOr_cons]

theorem decodeEvent_fields (e : Event) (fits : e.Fits) (text : e.Text) :
    decodeEvent pw (concat (e.fields h fits)) = (e, none) := by
  have acc : Accepted 3 requestText (e.fields h fits) := by
    intro f hf _
    simp only [Event.fields, List.mem_cons, List.not_mem_nil, or_false] at hf
    obtain rfl | rfl | rfl := hf
    · simpa using fun _ => text.1
    · simpa using fun _ => text.2
    · simp [requestText]
  rw [decodeEvent_accepted h acc]
  simp [Event.fields, lastOr_cons]

theorem decodeResult_appendResult (r : Result) (fits : sizeResult pw r < 2 ^ 63) (text : r.Text) :
    decodeResult pw (appendResult pw .nil r).data .zero = (r, none) := by
  have method := length_lt_sizeField h 1 r.method
  have data := length_lt_sizeField h 2 r.data
  unfold sizeResult at fits
  let fs : List (Field pw) := [bytesField h 1 r.method (by decide) (by decide) (by omega),
    bytesField h 2 r.data (by decide) (by decide) (by omega)]
  have bytes : (appendResult pw .nil r).data = concat fs := by
    simp [fs, appendResult, appendString_data, appendBytes_data, bytesField]
  have acc : Accepted 2 resultText fs := by
    intro f hf _
    simp only [fs, List.mem_cons, List.not_mem_nil, or_false] at hf
    obtain rfl | rfl := hf
    · exact ⟨rfl, fun _ => by rw [payload_bytesField]; exact text⟩
    · simp [resultText]
  rw [bytes, decodeResult, walk_accepted h resultField_assigns acc, assignAll_result]
  simp [fs, lastOr_cons]

/-- The fields that `appendError` writes. -/
def Error.fields (e : Error) (fits : sizeError pw e < 2 ^ 63) : List (Field pw) :=
  have method := length_lt_sizeField h 1 e.method
  have message := length_lt_sizeField h 2 e.message
  have code := length_lt_sizeField h 3 e.code
  have fits : sizeField pw 1 e.method.length + sizeField pw 2 e.message.length +
    sizeField pw 3 e.code.length < 2 ^ 63 := fits
  [bytesField h 1 e.method (by decide) (by decide) (by omega),
    bytesField h 2 e.message (by decide) (by decide) (by omega),
    bytesField h 3 e.code (by decide) (by decide) (by omega)]

theorem appendError_data (e : Error) (fits : sizeError pw e < 2 ^ 63) :
    (appendError pw .nil e).data = concat (e.fields h fits) := by
  simp [Error.fields, appendError, appendString_data, bytesField]

/-- The encoding of an error is accepted exactly if its three fields are text. -/
theorem accepted_error_iff (e : Error) (fits : sizeError pw e < 2 ^ 63) :
    Accepted 3 errorText (e.fields h fits) ↔ e.Text := by
  simp [Accepted, Error.fields, errorText, Error.Text]

theorem decodeError_appendError (e : Error) (fits : sizeError pw e < 2 ^ 63) (text : e.Text) :
    decodeError pw (appendError pw .nil e).data .zero = (e, none) := by
  rw [appendError_data h e fits, decodeError,
    walk_accepted h errorField_assigns ((accepted_error_iff h e fits).mpr text), assignAll_error]
  simp [Error.fields, lastOr_cons]

/-- The reading of an accepted container: an error wins over a result, wherever they stand. -/
theorem decodeResponse_accepted {fs : List (Field pw)} (acc : ResponseAccepted fs) :
    decodeResponse pw (concat fs) =
      if payloads 2 fs ≠ [] then
        (⟨none, some (decodeError pw (payloads 2 fs).flatten .zero).1⟩, none)
      else if payloads 1 fs ≠ [] then
        (⟨some (decodeResult pw (payloads 1 fs).flatten .zero).1, none⟩, none)
      else (⟨none, none⟩, some .neither) := by
  have key := (visit_response h acc ⟨.zero, .zero, false, false⟩).1
  simp only [Bool.false_or] at key
  rw [decodeResponse, walk_concat_eq_visit h]
  simp only [Result.zero, Error.zero] at key
  rw [key]
  simp only [decide_eq_true_eq]
  rfl

theorem responseAccepted_of_decode {fs : List (Field pw)}
    (ok : (decodeResponse pw (concat fs)).2 = none) : ResponseAccepted fs := by
  rw [decodeResponse, walk_concat_eq_visit h] at ok
  cases hv : visit (upTo 2) (responseField pw) fs ⟨⟨[], []⟩, ⟨[], [], []⟩, false, false⟩ with
  | mk m err =>
    cases err with
    | some err => simp [hv] at ok
    | none => exact responseAccepted_of_visit h (congrArg Prod.snd hv)

theorem decodeResponse_ok_iff (b : Bytes) : (decodeResponse pw b).2 = none ↔
    ∃ fs : List (Field pw), b = concat fs ∧ ResponseAccepted fs ∧ ∃ f ∈ fs, f.num ≤ 2 := by
  constructor
  · intro ok
    cases hw : walk pw b (upTo 2) (responseField pw) ⟨⟨[], []⟩, ⟨[], [], []⟩, false, false⟩ with
    | mk m err =>
      cases err with
      | some err => simp [decodeResponse, hw] at ok
      | none =>
        obtain ⟨fs, rfl⟩ := exists_fields_of_walk h b _ m hw
        have acc := responseAccepted_of_decode h ok
        rw [decodeResponse_accepted h acc] at ok
        refine ⟨fs, rfl, acc, ?_⟩
        split_ifs at ok with h2 h1
        · obtain ⟨f, hf, num⟩ := payloads_ne_nil.mp h2
          exact ⟨f, hf, by omega⟩
        · obtain ⟨f, hf, num⟩ := payloads_ne_nil.mp h1
          exact ⟨f, hf, by omega⟩
  · rintro ⟨fs, rfl, acc, f, hf, le⟩
    have pos := f.num_pos h
    rw [decodeResponse_accepted h acc]
    split_ifs with h2 h1
    · rfl
    · rfl
    · have one : f.num ≠ 1 := fun num => h1 (payloads_ne_nil.mpr ⟨f, hf, num⟩)
      have two : f.num ≠ 2 := fun num => h2 (payloads_ne_nil.mpr ⟨f, hf, num⟩)
      omega

theorem decodeResponse_bytesField {num : Nat} (low : 1 ≤ num) (high : num ≤ maxValidNumber)
    {v : Bytes} (len : v.length < 2 ^ 64)
    (acc : ResponseAccepted [bytesField h num v low high len]) :
    decodeResponse pw (pw.tag num bytesType ++ pw.bytes v) =
      if num = 2 then (⟨none, some (decodeError pw v .zero).1⟩, none)
      else if num = 1 then (⟨some (decodeResult pw v .zero).1, none⟩, none)
      else (⟨none, none⟩, some .neither) := by
  have key := decodeResponse_accepted h acc
  simp only [payloads_cons, num_bytesField, payload_bytesField] at key
  have bytes : concat [bytesField h num v low high len] = pw.tag num bytesType ++ pw.bytes v := by
    simp [bytesField]
  rw [bytes] at key
  rw [key]
  by_cases two : num = 2
  · simp [two, payloads]
  · by_cases one : num = 1 <;> simp [one, two, payloads]

/-- A well-formed response has one encoding, whatever it is appended to, and decodes to
itself. -/
theorem exists_encoding_response (r : Response) (wf : r.WellFormed) (fits : r.Fits pw)
    (text : r.Text) :
    ∃ e, (∀ b, (appendResponse pw b r).1.data = b.data ++ e ∧ (appendResponse pw b r).2 = none) ∧
      decodeResponse pw e = (r, none) := by
  obtain ⟨result, error⟩ := r
  match result, error with
  | some res, none =>
    have fits := fits.1 res rfl
    have nested := decodeResult_appendResult h res fits (text.1 res rfl)
    have len : (appendResult pw .nil res).data.length = sizeResult pw res := by
      simpa using appendResult_length h .nil res
    refine ⟨_, fun b => ⟨appendResponse_result b res, rfl⟩, ?_⟩
    rw [← len, ← h.bytes_eq, decodeResponse_bytesField h (by decide) (by decide) (by omega)]
    · simp [nested]
    · intro f hf
      obtain rfl := List.mem_singleton.mp hf
      simp [nested]
  | none, some e =>
    have fits := fits.2 e rfl
    have nested := decodeError_appendError h e fits (text.2 e rfl)
    have len : (appendError pw .nil e).data.length = sizeError pw e := by
      simpa using appendError_length h .nil e
    refine ⟨_, fun b => ⟨appendResponse_error b e, rfl⟩, ?_⟩
    rw [← len, ← h.bytes_eq, decodeResponse_bytesField h (by decide) (by decide) (by omega)]
    · simp [nested]
    · intro f hf
      obtain rfl := List.mem_singleton.mp hf
      simp [nested]
  | some _, some _ => simp [Response.WellFormed] at wf
  | none, none => simp [Response.WellFormed] at wf

/-- The encoder takes every error, the decoder only those that are text. -/
theorem decodeResponse_error_iff (e : Error) (fits : sizeError pw e < 2 ^ 63) :
    (decodeResponse pw (appendResponse pw .nil ⟨none, some e⟩).1.data).2 = none ↔ e.Text := by
  constructor
  · intro ok
    have len : (appendError pw .nil e).data.length = sizeError pw e := by
      simpa using appendError_length h .nil e
    have bytes : (appendResponse pw .nil ⟨none, some e⟩).1.data =
        concat [bytesField h 2 (appendError pw .nil e).data (by decide) (by decide)
          (by omega)] := by
      rw [appendResponse_error, ← len, ← h.bytes_eq]
      simp [bytesField]
    rw [bytes] at ok
    have nested := ((responseAccepted_of_decode h ok _ List.mem_cons_self).2 rfl).2
    rw [payload_bytesField, appendError_data h e fits, decodeError,
      walk_concat_eq_visit h] at nested
    exact (accepted_error_iff h e fits).mp (accepted_of_visit h errorField_assigns nested)
  · intro text
    obtain ⟨body, appended, decoded⟩ :=
      exists_encoding_response h ⟨none, some e⟩ (by simp [Response.WellFormed])
        ⟨by simp, by simpa using fits⟩ ⟨by simp, by simpa using text⟩
    rw [(appended .nil).1]
    exact congrArg Prod.snd decoded

/-! ## What was decoded can be encoded -/

theorem decodeRequest_text {b : Bytes} {r : Request} (ok : decodeRequest pw b = (r, none)) :
    r.Text := by
  obtain ⟨fs, rfl, acc⟩ := (walk_ok_iff h requestField_assigns b _).mp (congrArg Prod.snd ok)
  rw [decodeRequest_accepted h acc] at ok
  obtain rfl := congrArg Prod.fst ok
  exact ⟨lastOr_valid acc (by decide) (by decide) rfl, lastOr_valid acc (by decide) (by decide) rfl⟩

theorem decodeEvent_text {b : Bytes} {e : Event} (ok : decodeEvent pw b = (e, none)) :
    e.Text := by
  obtain ⟨fs, rfl, acc⟩ := (walk_ok_iff h eventField_assigns b _).mp (congrArg Prod.snd ok)
  rw [decodeEvent_accepted h acc] at ok
  obtain rfl := congrArg Prod.fst ok
  exact ⟨lastOr_valid acc (by decide) (by decide) rfl, lastOr_valid acc (by decide) (by decide) rfl⟩

theorem decodeResult_text {b : Bytes} (ok : (decodeResult pw b .zero).2 = none) :
    (decodeResult pw b .zero).1.Text := by
  obtain ⟨fs, rfl, acc⟩ := (walk_ok_iff h resultField_assigns b _).mp ok
  rw [decodeResult, walk_accepted h resultField_assigns acc, assignAll_result]
  exact lastOr_valid acc (by decide) (by decide) rfl

theorem decodeError_text {b : Bytes} (ok : (decodeError pw b .zero).2 = none) :
    (decodeError pw b .zero).1.Text := by
  obtain ⟨fs, rfl, acc⟩ := (walk_ok_iff h errorField_assigns b _).mp ok
  rw [decodeError, walk_accepted h errorField_assigns acc, assignAll_error]
  exact ⟨lastOr_valid acc (by decide) (by decide) rfl, lastOr_valid acc (by decide) (by decide) rfl,
    lastOr_valid acc (by decide) (by decide) rfl⟩

theorem decodeResponse_text {b : Bytes} {r : Response} (ok : decodeResponse pw b = (r, none)) :
    r.WellFormed ∧ r.Text := by
  obtain ⟨fs, rfl, acc, -⟩ := (decodeResponse_ok_iff h b).mp (congrArg Prod.snd ok)
  obtain ⟨-, okRes, okErr⟩ := visit_response h acc ⟨.zero, .zero, false, false⟩
  rw [decodeResponse_accepted h acc] at ok
  split_ifs at ok with h2 h1
  · obtain rfl := congrArg Prod.fst ok
    refine ⟨by simp [Response.WellFormed], by simp, ?_⟩
    rintro e ⟨⟩
    exact decodeError_text h okErr
  · obtain rfl := congrArg Prod.fst ok
    refine ⟨by simp [Response.WellFormed], ?_, by simp⟩
    rintro res ⟨⟩
    exact decodeResult_text h okRes
  · cases congrArg Prod.snd ok

/-! ## The two results -/

/-- Encoding appends bytes that do not depend on the buffer and that decode to the value;
the announced length of a nested message is its length; and a malformed response leaves the
buffer as it was. -/
theorem codec_round_trip :
    (∀ r : Request, r.Fits → r.Text →
      ∃ e, (∀ b, (appendRequest pw b r).data = b.data ++ e) ∧ decodeRequest pw e = (r, none)) ∧
    (∀ v : Event, v.Fits → v.Text →
      ∃ e, (∀ b, (appendEvent pw b v).data = b.data ++ e) ∧ decodeEvent pw e = (v, none)) ∧
    (∀ r : Response, r.WellFormed → r.Fits pw → r.Text →
      ∃ e, (∀ b, (appendResponse pw b r).1.data = b.data ++ e ∧
        (appendResponse pw b r).2 = none) ∧ decodeResponse pw e = (r, none)) ∧
    (∀ (b : Buffer) (r : Result), (appendResult pw .nil r).data.length = sizeResult pw r ∧
      (appendResponse pw b ⟨some r, none⟩).1.data = b.data ++ (pw.tag 1 bytesType ++
        (pw.varint (sizeResult pw r % 2 ^ 64) ++ (appendResult pw .nil r).data))) ∧
    (∀ (b : Buffer) (e : Error), (appendError pw .nil e).data.length = sizeError pw e ∧
      (appendResponse pw b ⟨none, some e⟩).1.data = b.data ++ (pw.tag 2 bytesType ++
        (pw.varint (sizeError pw e % 2 ^ 64) ++ (appendError pw .nil e).data))) ∧
    (∀ (b : Buffer) (r : Response), ((appendResponse pw b r).2 ≠ none ↔ ¬r.WellFormed) ∧
      (¬r.WellFormed → (appendResponse pw b r).1 = b)) := by
  refine ⟨fun r fits text => ?_, fun v fits text => ?_, exists_encoding_response h,
    fun b r => ?_, fun b e => ?_, fun b r => ⟨appendResponse_err_iff b r, appendResponse_err b r⟩⟩
  · exact ⟨_, fun b => appendRequest_data h b r fits, decodeRequest_fields h r fits text⟩
  · exact ⟨_, fun b => appendEvent_data h b v fits, decodeEvent_fields h v fits text⟩
  · exact ⟨by simpa using appendResult_length h .nil r, appendResponse_result b r⟩
  · exact ⟨by simpa using appendError_length h .nil e, appendResponse_error b e⟩

/-- The decoders accept exactly the concatenations of fields that the grammar allows, read
every field from its last occurrence and the members of a response from the concatenation of
their payloads, ignore fields they do not know wherever these stand, and yield values that
survive being encoded again. -/
theorem decoders_read_the_grammar :
    (∀ b, (decodeRequest pw b).2 = none ↔
      ∃ fs : List (Field pw), b = concat fs ∧ Accepted 3 requestText fs) ∧
    (∀ fs : List (Field pw), Accepted 3 requestText fs →
      decodeRequest pw (concat fs) = (⟨lastOr 1 fs [], lastOr 2 fs [], lastOr 3 fs []⟩, none)) ∧
    (∀ (fs : List (Field pw)) (f : Field pw) (rest : Bytes), 3 < f.num →
      decodeRequest pw (concat fs ++ (f.bytes ++ rest)) = decodeRequest pw (concat fs ++ rest)) ∧
    (∀ b, (decodeEvent pw b).2 = none ↔
      ∃ fs : List (Field pw), b = concat fs ∧ Accepted 3 requestText fs) ∧
    (∀ fs : List (Field pw), Accepted 3 requestText fs →
      decodeEvent pw (concat fs) = (⟨lastOr 1 fs [], lastOr 2 fs [], lastOr 3 fs []⟩, none)) ∧
    (∀ (fs : List (Field pw)) (f : Field pw) (rest : Bytes), 3 < f.num →
      decodeEvent pw (concat fs ++ (f.bytes ++ rest)) = decodeEvent pw (concat fs ++ rest)) ∧
    (∀ b, (decodeResponse pw b).2 = none ↔ ∃ fs : List (Field pw),
      b = concat fs ∧ ResponseAccepted fs ∧ ∃ f ∈ fs, f.num ≤ 2) ∧
    (∀ fs : List (Field pw), ResponseAccepted fs → payloads 2 fs ≠ [] →
      decodeResponse pw (concat fs) =
        (⟨none, some (decodeError pw (payloads 2 fs).flatten .zero).1⟩, none)) ∧
    (∀ fs : List (Field pw), ResponseAccepted fs → payloads 2 fs = [] → payloads 1 fs ≠ [] →
      decodeResponse pw (concat fs) =
        (⟨some (decodeResult pw (payloads 1 fs).flatten .zero).1, none⟩, none)) ∧
    (∀ b r, decodeRequest pw b = (r, none) → r.Fits →
      decodeRequest pw (appendRequest pw .nil r).data = (r, none)) ∧
    (∀ b v, decodeEvent pw b = (v, none) → v.Fits →
      decodeEvent pw (appendEvent pw .nil v).data = (v, none)) ∧
    (∀ b r, decodeResponse pw b = (r, none) → r.Fits pw →
      (appendResponse pw .nil r).2 = none ∧
        decodeResponse pw (appendResponse pw .nil r).1.data = (r, none)) := by
  have above {f : Field pw} (high : 3 < f.num) : upTo 3 f.num = false := by
    simp only [upTo, decide_eq_false_iff_not]
    omega
  refine ⟨fun b => walk_ok_iff h requestField_assigns b _, fun fs => decodeRequest_accepted h,
    fun fs f rest high => walk_unknown h fs f (above high) rest _,
    fun b => walk_ok_iff h eventField_assigns b _, fun fs => decodeEvent_accepted h,
    fun fs f rest high => walk_unknown h fs f (above high) rest _,
    decodeResponse_ok_iff h, ?_, ?_, ?_, ?_, ?_⟩
  · intro fs acc h2
    rw [decodeResponse_accepted h acc, if_pos h2]
  · intro fs acc h2 h1
    rw [decodeResponse_accepted h acc, if_neg (not_not.mpr h2), if_pos h1]
  · intro b r ok fits
    rw [appendRequest_data h .nil r fits]
    exact decodeRequest_fields h r fits (decodeRequest_text h ok)
  · intro b v ok fits
    rw [appendEvent_data h .nil v fits]
    exact decodeEvent_fields h v fits (decodeEvent_text h ok)
  · intro b r ok fits
    obtain ⟨wf, text⟩ := decodeResponse_text h ok
    obtain ⟨e, appended, read⟩ := exists_encoding_response h r wf fits text
    obtain ⟨bytes, noErr⟩ := appended .nil
    exact ⟨noErr, by rw [bytes]; exact read⟩

end

/-- A request without an actor, whose data is not text. -/
theorem codec_round_trip_reference :
    ∃ e, (∀ b, (appendRequest reference b ⟨lit "Calc.Service.add", [], [0xff, 0x00]⟩).data =
        b.data ++ e) ∧
      decodeRequest reference e = (⟨lit "Calc.Service.add", [], [0xff, 0x00]⟩, none) :=
  (codec_round_trip reference_lawful).1 _ ⟨by decide, by decide, by decide⟩ ⟨by decide, by decide⟩

/-- A group numbered 4, which no decoder knows, before a repeated method. -/
theorem decoders_read_the_grammar_reference :
    ∃ fs : List (Field reference),
      [0x23, 0x08, 0x01, 0x24, 0x0a, 0x01, 0x61, 0x0a, 0x01, 0x62] = concat fs ∧
        Accepted 3 requestText fs :=
  ((decoders_read_the_grammar reference_lawful).1
    [0x23, 0x08, 0x01, 0x24, 0x0a, 0x01, 0x61, 0x0a, 0x01, 0x62]).mp (by decide)

end Protobus.Wire
