import Protobus.Wire.Walk

/-!
# The grammar of envelopes and its reading

A decoder accepts a concatenation of fields in which the fields it knows are
length-delimited and its text fields are valid UTF-8, and takes every field from its last
occurrence. The four flat decoders differ only in how many fields they know, which of them
are text and where they are stored; `Assigns` is what they have in common.
-/
namespace Protobus.Wire
open Library Protowire

variable {pw : Protowire} {σ : Type}

/-- A callback that stores the payload of field `num` with `set`, after checking the fields
of `text` for valid UTF-8. -/
structure Assigns (text : Nat → Bool) (set : Nat → Bytes → σ → σ)
    (fn : Nat → Bytes → σ → σ × Option WireError) : Prop where
  store : ∀ num v s, (text num = true → validUTF8 v = true) → fn num v s = (set num v s, none)
  refuse : ∀ num v s, text num = true → validUTF8 v = false →
    (fn num v s).2 = some (.notUTF8 num)

/-- The grammar of a flat envelope with fields `1..max`. -/
def Accepted (max : Nat) (text : Nat → Bool) (fs : List (Field pw)) : Prop :=
  ∀ f ∈ fs, f.num ≤ max → f.typ = bytesType ∧ (text f.num = true → validUTF8 f.payload = true)

/-- The payload of the last field numbered `num`, or `init` when there is none. -/
def lastOr (num : Nat) (fs : List (Field pw)) (init : Bytes) : Bytes :=
  ((fs.filter (fun f => f.num = num)).getLast?.map Field.payload).getD init

theorem lastOr_cons (num : Nat) (f : Field pw) (fs : List (Field pw)) (init : Bytes) :
    lastOr num (f :: fs) init = lastOr num fs (if f.num = num then f.payload else init) := by
  by_cases hf : f.num = num
  · simp only [lastOr, List.filter_cons_of_pos, hf, decide_true, List.getLast?_cons]
    cases (fs.filter (fun f => f.num = num)).getLast? <;> simp
  · simp [lastOr, hf]

@[simp] theorem lastOr_nil (num : Nat) (init : Bytes) :
    lastOr num ([] : List (Field pw)) init = init := by simp [lastOr]

/-- Storing the fields a decoder knows, in order. -/
def assignAll (max : Nat) (set : Nat → Bytes → σ → σ) (fs : List (Field pw)) (s : σ) : σ :=
  fs.foldl (fun s f => if upTo max f.num then set f.num f.payload s else s) s

/-- Reading back a component that field `k` and no other field stores into. -/
theorem get_assignAll {max k : Nat} (set : Nat → Bytes → σ → σ) (get : σ → Bytes)
    (hk : upTo max k = true)
    (hset : ∀ num v s, get (set num v s) = if num = k then v else get s)
    (fs : List (Field pw)) (s : σ) : get (assignAll max set fs s) = lastOr k fs (get s) := by
  induction fs generalizing s with
  | nil => simp [assignAll]
  | cons f fs ih =>
    have step : assignAll max set (f :: fs) s =
        assignAll max set fs (if upTo max f.num then set f.num f.payload s else s) := rfl
    rw [step, ih, lastOr_cons]
    congr 1
    by_cases hf : f.num = k
    · simp [hf, hk, hset]
    · by_cases known : upTo max f.num = true <;> simp [known, hset, hf]

theorem lastOr_valid {max : Nat} {text : Nat → Bool} {fs : List (Field pw)}
    (acc : Accepted max text fs) {k : Nat} (hk : k ≤ max) (ht : text k = true) {init : Bytes}
    (hi : validUTF8 init = true) : validUTF8 (lastOr k fs init) = true := by
  induction fs generalizing init with
  | nil => simpa using hi
  | cons f fs ih =>
    rw [lastOr_cons]
    refine ih (fun g hg => acc g (List.mem_cons_of_mem f hg)) ?_
    split_ifs with hf
    · exact (acc f List.mem_cons_self (hf ▸ hk)).2 (hf ▸ ht)
    · exact hi

section
variable (h : pw.Lawful) {max : Nat} {text : Nat → Bool} {set : Nat → Bytes → σ → σ}
  {fn : Nat → Bytes → σ → σ × Option WireError}
include h

theorem upTo_field (f : Field pw) : upTo max f.num = true ↔ f.num ≤ max := by
  have := f.num_pos h
  simp [upTo, this]

theorem visit_accepted (hfn : Assigns text set fn) {fs : List (Field pw)}
    (acc : Accepted max text fs) (s : σ) :
    visit (upTo max) fn fs s = (assignAll max set fs s, none) := by
  induction fs generalizing s with
  | nil => rfl
  | cons f fs ih =>
    have ih := ih (fun g hg => acc g (List.mem_cons_of_mem f hg))
    have step : assignAll max set (f :: fs) s =
        assignAll max set fs (if upTo max f.num then set f.num f.payload s else s) := rfl
    by_cases known : upTo max f.num = true
    · obtain ⟨typ, valid⟩ := acc f List.mem_cons_self ((upTo_field h f).mp known)
      simp [visit, visitField, known, typ, hfn.store f.num f.payload s valid, ih, step]
    · simp [visit, visitField, known, ih, step]

theorem accepted_of_visit (hfn : Assigns text set fn) {fs : List (Field pw)} {s : σ}
    (ok : (visit (upTo max) fn fs s).2 = none) : Accepted max text fs := by
  induction fs generalizing s with
  | nil => intro f hf; cases hf
  | cons f fs ih =>
    have head : f.num ≤ max → f.typ = bytesType ∧
        (text f.num = true → validUTF8 f.payload = true) := by
      intro le
      have known := (upTo_field h f).mpr le
      by_cases typ : f.typ = bytesType
      · refine ⟨typ, fun ht => ?_⟩
        by_contra bad
        have refused := hfn.refuse f.num f.payload s ht (by simpa using bad)
        obtain ⟨s', err, hv⟩ : ∃ s' err, fn f.num f.payload s = (s', err) := ⟨_, _, rfl⟩
        rw [hv] at refused
        subst refused
        simp [visit, visitField, known, typ, hv] at ok
      · simp [visit, visitField, known, typ] at ok
    have tail : ∃ s', (visit (upTo max) fn fs s').2 = none := by
      rw [visit] at ok
      obtain ⟨s', err, hv⟩ : ∃ s' err, visitField (upTo max) fn f s = (s', err) := ⟨_, _, rfl⟩
      rw [hv] at ok
      cases err with
      | some err => simp at ok
      | none => exact ⟨s', ok⟩
    obtain ⟨s', ok⟩ := tail
    intro g hg
    rcases List.mem_cons.mp hg with rfl | hg
    · exact head
    · exact ih ok g hg

/-- What a flat decoder accepts: this does not depend on the value it decodes into. -/
theorem walk_ok_iff (hfn : Assigns text set fn) (b : Bytes) (s : σ) :
    (walk pw b (upTo max) fn s).2 = none ↔
      ∃ fs : List (Field pw), b = concat fs ∧ Accepted max text fs := by
  constructor
  · intro ok
    obtain ⟨t, ht⟩ : ∃ t, walk pw b (upTo max) fn s = (t, none) :=
      ⟨_, Prod.ext rfl ok⟩
    obtain ⟨fs, rfl⟩ := exists_fields_of_walk h b s t ht
    refine ⟨fs, rfl, ?_⟩
    rw [walk_concat_eq_visit h] at ok
    exact accepted_of_visit h hfn ok
  · rintro ⟨fs, rfl, acc⟩
    rw [walk_concat_eq_visit h, visit_accepted h hfn acc]

theorem walk_accepted (hfn : Assigns text set fn) {fs : List (Field pw)}
    (acc : Accepted max text fs) (s : σ) :
    walk pw (concat fs) (upTo max) fn s = (assignAll max set fs s, none) := by
  rw [walk_concat_eq_visit h, visit_accepted h hfn acc]

/-- Decoding a concatenation is decoding its parts one into the other. -/
theorem walk_append (hfn : Assigns text set fn) {b c : Bytes} {s t : σ}
    (ok : walk pw b (upTo max) fn s = (t, none)) :
    walk pw (b ++ c) (upTo max) fn s = walk pw c (upTo max) fn t := by
  obtain ⟨fs, rfl, acc⟩ := (walk_ok_iff h hfn b s).mp (by rw [ok])
  rw [walk_concat_eq_visit h] at ok
  rw [walk_concat h, ok]

end

/-! ## The four flat decoders -/

theorem str_valid {num : Nat} {v : Bytes} (hv : validUTF8 v = true) : str num v = (v, none) := by
  simp [str, hv]

theorem str_invalid {num : Nat} {v : Bytes} (hv : validUTF8 v = false) :
    str num v = ([], some (.notUTF8 num)) := by
  simp [str, hv]

def requestText (num : Nat) : Bool := decide (num = 1 ∨ num = 2)

def setRequest (num : Nat) (v : Bytes) (r : Request) : Request :=
  match num with
  | 1 => { r with method := v }
  | 2 => { r with actor := v }
  | 3 => { r with data := v }
  | _ => r

theorem requestField_assigns : Assigns requestText setRequest requestField where
  store num v s valid := by
    unfold requestField setRequest
    split <;> simp_all [requestText, str_valid]
  refuse num v s ht hv := by
    have : num = 1 ∨ num = 2 := by simpa [requestText] using ht
    rcases this with rfl | rfl <;> simp [requestField, str_invalid hv]

def resultText (num : Nat) : Bool := decide (num = 1)

def setResult (num : Nat) (v : Bytes) (r : Result) : Result :=
  match num with
  | 1 => { r with method := v }
  | 2 => { r with data := v }
  | _ => r

theorem resultField_assigns : Assigns resultText setResult resultField where
  store num v s valid := by
    unfold resultField setResult
    split <;> simp_all [resultText, str_valid]
  refuse num v s ht hv := by
    have : num = 1 := by simpa [resultText] using ht
    subst this
    simp [resultField, str_invalid hv]

def errorText (num : Nat) : Bool := decide (num = 1 ∨ num = 2 ∨ num = 3)

def setError (num : Nat) (v : Bytes) (e : Error) : Error :=
  match num with
  | 1 => { e with method := v }
  | 2 => { e with message := v }
  | 3 => { e with code := v }
  | _ => e

theorem errorField_assigns : Assigns errorText setError errorField where
  store num v s valid := by
    unfold errorField setError
    split <;> simp_all [errorText, str_valid]
  refuse num v s ht hv := by
    have : num = 1 ∨ num = 2 ∨ num = 3 := by simpa [errorText] using ht
    rcases this with rfl | rfl | rfl <;> simp [errorField, str_invalid hv]

def setEvent (num : Nat) (v : Bytes) (e : Event) : Event :=
  match num with
  | 1 => { e with type := v }
  | 2 => { e with topic := v }
  | 3 => { e with data := v }
  | _ => e

theorem eventField_assigns : Assigns requestText setEvent eventField where
  store num v s valid := by
    unfold eventField setEvent
    split <;> simp_all [requestText, str_valid]
  refuse num v s ht hv := by
    have : num = 1 ∨ num = 2 := by simpa [requestText] using ht
    rcases this with rfl | rfl <;> simp [eventField, str_invalid hv]

theorem assignAll_request (fs : List (Field pw)) (r : Request) :
    assignAll 3 setRequest fs r =
      ⟨lastOr 1 fs r.method, lastOr 2 fs r.actor, lastOr 3 fs r.data⟩ := by
  rw [← get_assignAll setRequest Request.method (by decide : upTo 3 1 = true)
      (by intro num v s; unfold setRequest; split <;> simp_all) fs r,
    ← get_assignAll setRequest Request.actor (by decide : upTo 3 2 = true)
      (by intro num v s; unfold setRequest; split <;> simp_all) fs r,
    ← get_assignAll setRequest Request.data (by decide : upTo 3 3 = true)
      (by intro num v s; unfold setRequest; split <;> simp_all) fs r]

theorem assignAll_result (fs : List (Field pw)) (r : Result) :
    assignAll 2 setResult fs r = ⟨lastOr 1 fs r.method, lastOr 2 fs r.data⟩ := by
  rw [← get_assignAll setResult Result.method (by decide : upTo 2 1 = true)
      (by intro num v s; unfold setResult; split <;> simp_all) fs r,
    ← get_assignAll setResult Result.data (by decide : upTo 2 2 = true)
      (by intro num v s; unfold setResult; split <;> simp_all) fs r]

theorem assignAll_error (fs : List (Field pw)) (e : Error) :
    assignAll 3 setError fs e =
      ⟨lastOr 1 fs e.method, lastOr 2 fs e.message, lastOr 3 fs e.code⟩ := by
  rw [← get_assignAll setError Error.method (by decide : upTo 3 1 = true)
      (by intro num v s; unfold setError; split <;> simp_all) fs e,
    ← get_assignAll setError Error.message (by decide : upTo 3 2 = true)
      (by intro num v s; unfold setError; split <;> simp_all) fs e,
    ← get_assignAll setError Error.code (by decide : upTo 3 3 = true)
      (by intro num v s; unfold setError; split <;> simp_all) fs e]

theorem assignAll_event (fs : List (Field pw)) (e : Event) :
    assignAll 3 setEvent fs e =
      ⟨lastOr 1 fs e.type, lastOr 2 fs e.topic, lastOr 3 fs e.data⟩ := by
  rw [← get_assignAll setEvent Event.type (by decide : upTo 3 1 = true)
      (by intro num v s; unfold setEvent; split <;> simp_all) fs e,
    ← get_assignAll setEvent Event.topic (by decide : upTo 3 2 = true)
      (by intro num v s; unfold setEvent; split <;> simp_all) fs e,
    ← get_assignAll setEvent Event.data (by decide : upTo 3 3 = true)
      (by intro num v s; unfold setEvent; split <;> simp_all) fs e]

/-! ## The response container -/

/-- The payloads of the fields numbered `num`, in order. -/
def payloads (num : Nat) (fs : List (Field pw)) : List Bytes :=
  (fs.filter (fun f => f.num = num)).map Field.payload

theorem payloads_cons (num : Nat) (f : Field pw) (fs : List (Field pw)) :
    payloads num (f :: fs) =
      if f.num = num then f.payload :: payloads num fs else payloads num fs := by
  by_cases hf : f.num = num <;> simp [payloads, hf]

theorem payloads_ne_nil {num : Nat} {fs : List (Field pw)} :
    payloads num fs ≠ [] ↔ ∃ f ∈ fs, f.num = num := by
  simp [payloads, List.filter_eq_nil_iff]

def Result.zero : Result := ⟨[], []⟩
def Error.zero : Error := ⟨[], [], []⟩

/-- The grammar of a response container: its members are length-delimited and hold payloads
that their own decoders accept. -/
def ResponseAccepted (fs : List (Field pw)) : Prop :=
  ∀ f ∈ fs, (f.num = 1 → f.typ = bytesType ∧ (decodeResult pw f.payload .zero).2 = none) ∧
    (f.num = 2 → f.typ = bytesType ∧ (decodeError pw f.payload .zero).2 = none)

section
variable (h : pw.Lawful)
include h

/-- Whether a payload is accepted does not depend on what earlier occurrences left. -/
theorem decodeResult_ok (b : Bytes) (r s : Result) :
    (decodeResult pw b r).2 = none ↔ (decodeResult pw b s).2 = none :=
  (walk_ok_iff h resultField_assigns b r).trans (walk_ok_iff h resultField_assigns b s).symm

theorem decodeError_ok (b : Bytes) (e s : Error) :
    (decodeError pw b e).2 = none ↔ (decodeError pw b s).2 = none :=
  (walk_ok_iff h errorField_assigns b e).trans (walk_ok_iff h errorField_assigns b s).symm

theorem decodeResult_append {b c : Bytes} {r : Result} (ok : (decodeResult pw b r).2 = none) :
    decodeResult pw (b ++ c) r = decodeResult pw c (decodeResult pw b r).1 :=
  walk_append h resultField_assigns (Prod.ext rfl ok)

theorem decodeError_append {b c : Bytes} {e : Error} (ok : (decodeError pw b e).2 = none) :
    decodeError pw (b ++ c) e = decodeError pw c (decodeError pw b e).1 :=
  walk_append h errorField_assigns (Prod.ext rfl ok)

/-- The members after an accepted container: each is decoded from the concatenation of its
payloads, whatever their interleaving with those of the other. -/
theorem visit_response {fs : List (Field pw)} (acc : ResponseAccepted fs) (m : Members) :
    visit (upTo 2) (responseField pw) fs m =
      (⟨(decodeResult pw (payloads 1 fs).flatten m.res).1,
        (decodeError pw (payloads 2 fs).flatten m.er).1,
        m.hasRes || decide (payloads 1 fs ≠ []), m.hasErr || decide (payloads 2 fs ≠ [])⟩, none) ∧
    (decodeResult pw (payloads 1 fs).flatten m.res).2 = none ∧
    (decodeError pw (payloads 2 fs).flatten m.er).2 = none := by
  induction fs generalizing m with
  | nil => simp [visit, payloads, decodeResult, decodeError]
  | cons f fs ih =>
    have ih := ih (fun g hg => acc g (List.mem_cons_of_mem f hg))
    obtain ⟨accRes, accErr⟩ := acc f List.mem_cons_self
    have pos := f.num_pos h
    by_cases h1 : f.num = 1
    · obtain ⟨typ, ok⟩ := accRes h1
      have ok := (decodeResult_ok h f.payload _ m.res).mp ok
      obtain ⟨visitEq, okRes, okErr⟩ :=
        ih { m with hasRes := true, res := (decodeResult pw f.payload m.res).1 }
      have step : visitField (upTo 2) (responseField pw) f m =
          ({ m with hasRes := true, res := (decodeResult pw f.payload m.res).1 }, none) := by
        simp [visitField, upTo, h1, typ, responseField, ok]
      rw [visit, step, payloads_cons, payloads_cons]
      simp only [h1, ↓reduceIte, Nat.reduceEqDiff, List.flatten_cons, decodeResult_append h ok]
      exact ⟨by rw [visitEq]; simp, okRes, okErr⟩
    · by_cases h2 : f.num = 2
      · obtain ⟨typ, ok⟩ := accErr h2
        have ok := (decodeError_ok h f.payload _ m.er).mp ok
        obtain ⟨visitEq, okRes, okErr⟩ :=
          ih { m with hasErr := true, er := (decodeError pw f.payload m.er).1 }
        have step : visitField (upTo 2) (responseField pw) f m =
            ({ m with hasErr := true, er := (decodeError pw f.payload m.er).1 }, none) := by
          simp [visitField, upTo, h2, typ, responseField, ok]
        rw [visit, step, payloads_cons, payloads_cons]
        simp only [h2, ↓reduceIte, Nat.reduceEqDiff, List.flatten_cons, decodeError_append h ok]
        exact ⟨by rw [visitEq]; simp, okRes, okErr⟩
      · have step : visitField (upTo 2) (responseField pw) f m = (m, none) := by
          have : upTo 2 f.num = false := by simp [upTo]; omega
          simp [visitField, this]
        rw [visit, step, payloads_cons, payloads_cons]
        simp only [h1, h2, ↓reduceIte]
        exact ih m

theorem responseAccepted_of_visit {fs : List (Field pw)} {m : Members}
    (ok : (visit (upTo 2) (responseField pw) fs m).2 = none) : ResponseAccepted fs := by
  induction fs generalizing m with
  | nil => intro f hf; cases hf
  | cons f fs ih =>
    obtain ⟨m', err, hv⟩ : ∃ m' err, visitField (upTo 2) (responseField pw) f m = (m', err) :=
      ⟨_, _, rfl⟩
    rw [visit, hv] at ok
    cases err with
    | some err => simp at ok
    | none =>
      intro g hg
      rcases List.mem_cons.mp hg with rfl | hg
      · constructor
        · intro h1
          by_cases typ : g.typ = bytesType
          · simp only [visitField, upTo, h1, typ, responseField] at hv
            have ok : (decodeResult pw g.payload m.res).2 = none := by
              simpa using congrArg Prod.snd hv
            exact ⟨typ, (decodeResult_ok h _ _ _).mp ok⟩
          · simp [visitField, upTo, h1, typ] at hv
        · intro h2
          by_cases typ : g.typ = bytesType
          · simp only [visitField, upTo, h2, typ, responseField] at hv
            have ok : (decodeError pw g.payload m.er).2 = none := by
              simpa using congrArg Prod.snd hv
            exact ⟨typ, (decodeError_ok h _ _ _).mp ok⟩
          · simp [visitField, upTo, h2, typ] at hv
      · exact ih ok g hg

end
end Protobus.Wire
