import Protobus.Customtypes.Model
import Mathlib.Data.Fin.VecNotation

/-!
# What the check finds

`inspect` is the walk with the answer to "can this type hold a bigint" given as a function, and no
cache. The program agrees with it as long as types of one full name have one answer, whatever was
asked before. Where full names identify descriptors the answer is reachability in the graph of
descriptors, and the walk finds the wide bigints.
-/
namespace Protobus.Customtypes
open Library Search

variable {ι : Type} {g : Descriptors ι}

/-- Induction over a value: a message comes after all values of its fields. -/
theorem Value.induct {motive : Value ι → Prop} (bytes : ∀ b, motive (.bytes b))
    (scalar : motive .scalar)
    (message : ∀ d fields, (∀ p ∈ fields, ∀ v ∈ p.2, motive v) → motive (.message d fields))
    (v : Value ι) : motive v := by
  refine @Value.rec ι motive (fun fields => ∀ p ∈ fields, ∀ v ∈ p.2, motive v)
    (fun p => ∀ v ∈ p.2, motive v) (fun vs => ∀ v ∈ vs, motive v) bytes scalar message
    (by simp) ?_ (fun fd vs each => each) (by simp) ?_ v
  · intro p rest first others q mem
    rcases List.mem_cons.mp mem with rfl | mem
    · exact first
    · exact others q mem
  · intro v rest first others w mem
    rcases List.mem_cons.mp mem with rfl | mem
    · exact first
    · exact others w mem

/-! ## The walk without a cache -/

mutual

def inspect (g : Descriptors ι) (reaches : ι → Bool) : Value ι → Except Error Unit
  | .message d fields =>
    if fullName g d = bigintName then checkBigint g d fields
    else inspectFields g reaches fields
  | .bytes _ | .scalar => .error .panicked

def inspectFields (g : Descriptors ι) (reaches : ι → Bool) :
    List (Field ι × List (Value ι)) → Except Error Unit
  | [] => .ok ()
  | (fd, vs) :: rest =>
    if fd.message?.any reaches then
      (inspectValues g reaches vs).bind fun _ => inspectFields g reaches rest
    else inspectFields g reaches rest

def inspectValues (g : Descriptors ι) (reaches : ι → Bool) : List (Value ι) → Except Error Unit
  | [] => .ok ()
  | v :: rest => (inspect g reaches v).bind fun _ => inspectValues g reaches rest

end

section Cached
variable [Fintype ι]

/-- The answer of a search from an empty cache. -/
def reaches (g : Descriptors ι) (d : ι) : Bool := (reachesBigintWalk g d).any Prod.fst

/-- Types of one full name have one answer. -/
def Agree (g : Descriptors ι) : Prop :=
  ∀ d e, fullName g d = fullName g e → reaches g d = reaches g e

/-- What the cache says of a name is right for every type of that name. -/
def Consistent (g : Descriptors ι) (c : Cache) : Prop :=
  ∀ d found, c (fullName g d) = some found → found = reaches g d

/-- A step of the program that returns `r` from every consistent cache and leaves one. -/
def Returns {α : Type} (g : Descriptors ι) (f : Cache → α × Cache) (r : α) : Prop :=
  ∀ c, Consistent g c → (f c).1 = r ∧ Consistent g (f c).2

theorem reachesBigint_returns (agree : Agree g) (d : ι) :
    Returns g (reachesBigint g d) (reaches g d) := by
  intro c consistent
  unfold reachesBigint
  split
  · next found hit => exact ⟨consistent d found hit, consistent⟩
  · refine ⟨rfl, fun e found stored => ?_⟩
    change Function.update c (fullName g d) (some (reaches g d)) (fullName g e) = _ at stored
    by_cases same : fullName g e = fullName g d
    · rw [same, Function.update_self] at stored
      rw [agree e d same, ← Option.some.inj stored]
    · rw [Function.update_of_ne same] at stored
      exact consistent e found stored

theorem Returns.andThen {f next : Cache → Except Error Unit × Cache} {r r' : Except Error Unit}
    (first : Returns g f r) (second : Returns g next r') :
    Returns g (fun c => andThen (f c) next) (r.bind fun _ => r') := by
  intro c consistent
  obtain ⟨rfl, kept⟩ := first c consistent
  simp only [Customtypes.andThen]
  split
  · next e failed => exact ⟨by rw [failed]; rfl, kept⟩
  · next passed => exact ⟨by rw [passed]; exact (second _ kept).1, (second _ kept).2⟩

theorem checkValues_returns {vs : List (Value ι)}
    (each : ∀ v ∈ vs, Returns g (checkMessage g v) (inspect g (reaches g) v)) :
    Returns g (checkValues g vs) (inspectValues g (reaches g) vs) := by
  induction vs with
  | nil =>
    intro c consistent
    simpa [checkValues, inspectValues] using consistent
  | cons v rest ih =>
    have step := (each v List.mem_cons_self).andThen
      (ih fun w mem => each w (List.mem_cons_of_mem _ mem))
    intro c consistent
    simpa only [checkValues, inspectValues] using step c consistent

theorem checkFields_returns (agree : Agree g) {fields : List (Field ι × List (Value ι))}
    (each : ∀ p ∈ fields, ∀ v ∈ p.2, Returns g (checkMessage g v) (inspect g (reaches g) v)) :
    Returns g (checkFields g fields) (inspectFields g (reaches g) fields) := by
  induction fields with
  | nil =>
    intro c consistent
    simpa [checkFields, inspectFields] using consistent
  | cons p rest ih =>
    obtain ⟨fd, vs⟩ := p
    have others := ih fun q mem => each q (List.mem_cons_of_mem _ mem)
    have values := checkValues_returns (each (fd, vs) List.mem_cons_self)
    intro c consistent
    simp only [checkFields, inspectFields]
    cases target : fd.message? with
    | none => simpa using others c consistent
    | some d =>
      obtain ⟨answer, kept⟩ := reachesBigint_returns agree d c consistent
      simp only [answer, Option.any_some]
      split
      · exact values.andThen others _ kept
      · exact others _ kept

theorem checkMessage_returns (agree : Agree g) (v : Value ι) :
    Returns g (checkMessage g v) (inspect g (reaches g) v) := by
  induction v using Value.induct with
  | bytes b =>
    intro c consistent
    simpa [checkMessage, inspect] using consistent
  | scalar =>
    intro c consistent
    simpa [checkMessage, inspect] using consistent
  | message d fields each =>
    intro c consistent
    simp only [checkMessage, inspect]
    split
    · exact ⟨rfl, consistent⟩
    · exact checkFields_returns agree each c consistent

/-- The verdict on a message, by its own type's answer and those of its fields. -/
def verdict (g : Descriptors ι) (m : Message ι) : Except Error Unit :=
  if reaches g m.desc then inspect g (reaches g) m.value else .ok ()

theorem checkCustomTypes_returns (agree : Agree g) (m : Message ι) :
    Returns g (checkCustomTypes g m) (verdict g m) := by
  intro c consistent
  obtain ⟨answer, kept⟩ := reachesBigint_returns agree m.desc c consistent
  simp only [checkCustomTypes, verdict, answer]
  split
  · exact checkMessage_returns agree m.value _ kept
  · exact ⟨rfl, kept⟩

theorem consistent_fresh : Consistent g fun _ => none := by simp [Consistent]

theorem Query.run_consistent (agree : Agree g) (q : Query ι) {c : Cache}
    (consistent : Consistent g c) : Consistent g (q.run g c) := by
  cases q with
  | reaches d => exact (reachesBigint_returns agree d c consistent).2
  | check m => exact (checkCustomTypes_returns agree m c consistent).2

/-- However many queries came before. -/
theorem after_consistent (agree : Agree g) (queries : List (Query ι)) :
    Consistent g (after g queries) := by
  have all : ∀ c, Consistent g c → Consistent g (queries.foldl (Query.run g) c) := by
    induction queries with
    | nil => exact fun _ consistent => consistent
    | cons q rest ih => exact fun c consistent => ih _ (q.run_consistent agree consistent)
  exact all _ consistent_fresh

/-- Where types of one full name have one answer, the verdict on a message is that of a fresh
process, whatever the process was asked before. -/
theorem verdict_independent (agree : Agree g) (queries : List (Query ι)) (m : Message ι) :
    (checkCustomTypes g m (after g queries)).1 = (checkCustomTypes g m fun _ => none).1 := by
  obtain ⟨now, -⟩ := checkCustomTypes_returns agree m _ (after_consistent agree queries)
  obtain ⟨fresh, -⟩ := checkCustomTypes_returns agree m _ (consistent_fresh (g := g))
  rw [now, fresh]

/-- A bigint of 33 bytes, its type being the first of the descriptors. -/
def overlong {n : Nat} : Value (Fin (n + 1)) :=
  .message 0 [(⟨1, .singular, .bytes⟩, [.bytes (List.replicate 33 1)])]

/-- Two registries declare `M` differently, both with a bigint in it. -/
theorem verdict_independent_registries :
    ∃ (g : Descriptors (Fin 3)) (m m' : Message (Fin 3)), fullName g m.desc = fullName g m'.desc ∧
      (checkCustomTypes g m (after g [.check m'])).1 = .error (.wide 33) := by
  let g : Descriptors (Fin 3) := ![⟨bigintName, [⟨1, .singular, .bytes⟩]⟩,
    ⟨lit "M", [⟨1, .singular, .message 0⟩]⟩, ⟨lit "M", [⟨2, .map, .message 0⟩]⟩]
  let m : Message (Fin 3) := ⟨2, [(⟨2, .map, .message 0⟩, [overlong])]⟩
  have agree : Agree g := by
    unfold Agree
    decide +kernel
  refine ⟨g, m, ⟨1, []⟩, rfl, (verdict_independent agree [.check ⟨1, []⟩] m).trans ?_⟩
  decide +kernel

/-- Two registries declare `M`, one of them without a bigint. Once that one was seen, the other's
wide bigint is let through; a fresh process refuses it. -/
theorem verdict_remembered :
    ∃ (g : Descriptors (Fin 3)) (m m' : Message (Fin 3)),
      (checkCustomTypes g m (after g [.check m'])).1 = .ok () ∧
      (checkCustomTypes g m fun _ => none).1 = .error (.wide 33) := by
  let g : Descriptors (Fin 3) := ![⟨bigintName, [⟨1, .singular, .bytes⟩]⟩,
    ⟨lit "M", [⟨1, .singular, .scalar⟩]⟩, ⟨lit "M", [⟨1, .singular, .message 0⟩]⟩]
  let m : Message (Fin 3) := ⟨2, [(⟨1, .singular, .message 0⟩, [overlong])]⟩
  exact ⟨g, m, ⟨1, []⟩, by decide +kernel, by decide +kernel⟩

end Cached

/-! ## Where full names identify descriptors -/

/-- The type of the bigint is the built-in one. -/
structure Named (g : Descriptors ι) : Prop where
  injective : Function.Injective (fullName g)
  bigint : ∀ d, fullName g d = bigintName → (g d).fields = [⟨1, .singular, .bytes⟩]

/-- A value fits its kind, with the fields of a message fitting their descriptors. The bigint type
has no extension range, so what it holds it declares. -/
inductive Typed (g : Descriptors ι) : Kind ι → Value ι → Prop
  | bytes (b : Bytes) : Typed g .bytes (.bytes b)
  | scalar : Typed g .scalar .scalar
  | message {d : ι} {fields : List (Field ι × List (Value ι))}
      (one : ∀ p ∈ fields, p.1.shape = .singular → p.2.length = 1)
      (each : ∀ p ∈ fields, ∀ v ∈ p.2, Typed g p.1.kind v)
      (bigint : fullName g d = bigintName → ∀ p ∈ fields, p.1 ∈ (g d).fields) :
      Typed g (.message d) (.message d fields)

/-- No extension is populated, at any depth. -/
inductive Declared (g : Descriptors ι) : Value ι → Prop
  | bytes (b : Bytes) : Declared g (.bytes b)
  | scalar : Declared g .scalar
  | message {d : ι} {fields : List (Field ι × List (Value ι))}
      (own : ∀ p ∈ fields, p.1 ∈ (g d).fields)
      (each : ∀ p ∈ fields, ∀ v ∈ p.2, Declared g v) : Declared g (.message d fields)

/-- A bigint of more than 32 bytes occurs in the value, through fields that `via` admits. -/
inductive Oversized (g : Descriptors ι) (via : ι → Field ι → Prop) : Value ι → Prop
  | here {d : ι} {fields : List (Field ι × List (Value ι))} {b : Bytes} :
      fullName g d = bigintName → valueBytes g d fields = .ok b → Pbtypes.bigintBytes < b.length →
      Oversized g via (.message d fields)
  | within {d : ι} {fields : List (Field ι × List (Value ι))} {p : Field ι × List (Value ι)}
      {v : Value ι} : p ∈ fields → via d p.1 → v ∈ p.2 → Oversized g via v →
      Oversized g via (.message d fields)

/-- A bigint can be reached through declared fields. -/
def BigintReachable (g : Descriptors ι) (d : ι) : Prop :=
  Reaches (fullName g) bigintName (succs g) d

def declared (g : Descriptors ι) (d : ι) (fd : Field ι) : Prop := fd ∈ (g d).fields

/-- The fields the walk goes into: declared ones and extensions, whose type reaches a bigint. -/
def entered (g : Descriptors ι) (_ : ι) (fd : Field ι) : Prop :=
  ∃ e, fd.message? = some e ∧ BigintReachable g e

theorem BigintReachable.field {d e : ι} {fd : Field ι} (own : fd ∈ (g d).fields)
    (target : fd.message? = some e) (reachable : BigintReachable g e) : BigintReachable g d :=
  reachable.head (List.mem_filterMap.mpr ⟨fd, own, target⟩)

theorem reachesBigintWalk_returns [Fintype ι] (d : ι) :
    (reachesBigintWalk g d).isSome = true := by
  have room : unseen (fullName g) [] < Fintype.card ι + 1 := Nat.lt_succ_of_le (unseen_le_card [])
  obtain ⟨hit, seen, returned, -⟩ : ∃ hit seen, reachesBigintWalk g d = some (hit, seen) ∧ _ :=
    walk_returns d room
  exact Option.isSome_iff_exists.mpr ⟨_, returned⟩

theorem reaches_iff [Fintype ι] (named : Named g) (d : ι) :
    reaches g d = true ↔ BigintReachable g d := by
  obtain ⟨⟨hit, seen⟩, returned⟩ :=
    Option.isSome_iff_exists.mp (reachesBigintWalk_returns (g := g) d)
  rw [reaches, returned]
  exact walk_eq_true_iff named.injective returned

theorem Named.agree [Fintype ι] (named : Named g) : Agree g :=
  fun d e same => by rw [named.injective same]

/-! ### What the walk reports -/

/-- A verdict is an error exactly if `P`, and then the one about a wide bigint. -/
def Judges (r : Except Error Unit) (P : Prop) : Prop :=
  (r = .ok () ∧ ¬ P) ∨ ∃ n, r = .error (.wide n) ∧ Pbtypes.bigintBytes < n ∧ P

theorem Judges.iff {r : Except Error Unit} {P Q : Prop} (judges : Judges r P) (same : P ↔ Q) :
    Judges r Q := by
  simpa only [Judges, same] using judges

theorem Judges.bind {r r' : Except Error Unit} {P Q : Prop} (first : Judges r P)
    (second : Judges r' Q) : Judges (r.bind fun _ => r') (P ∨ Q) := by
  rcases first with ⟨rfl, no⟩ | ⟨n, rfl, wide, yes⟩
  · exact second.iff (by simp [no])
  · exact .inr ⟨n, rfl, wide, .inl yes⟩

theorem Judges.ne_ok {r : Except Error Unit} {P : Prop} (judges : Judges r P) :
    r ≠ .ok () ↔ P := by
  rcases judges with ⟨rfl, no⟩ | ⟨n, rfl, -, yes⟩
  · simp [no]
  · simp [yes]

theorem valueBytes_ok (named : Named g) {d : ι} {fields : List (Field ι × List (Value ι))}
    (bigint : fullName g d = bigintName) (typed : Typed g (.message d) (.message d fields)) :
    ∃ b, valueBytes g d fields = .ok b := by
  cases typed with
  | message one each own =>
    simp only [valueBytes, named.bigint d bigint, List.find?_cons_of_pos, decide_true]
    cases found : fields.find? (fun p => p.1.number = 1) with
    | none => exact ⟨[], rfl⟩
    | some p =>
      have mem := List.mem_of_find?_eq_some found
      have field : p.1 = ⟨1, .singular, .bytes⟩ := by
        simpa [named.bigint d bigint] using own bigint p mem
      obtain ⟨v, single⟩ := List.length_eq_one_iff.mp (one p mem (by rw [field]))
      have fits := each p mem v (by simp [single])
      rw [field] at fits
      obtain ⟨fd, vs⟩ := p
      cases single
      cases fits with
      | bytes b => exact ⟨b, rfl⟩

theorem checkBigint_judges (named : Named g) {via : ι → Field ι → Prop} {d : ι}
    {fields : List (Field ι × List (Value ι))} (bigint : fullName g d = bigintName)
    (typed : Typed g (.message d) (.message d fields)) :
    Judges (checkBigint g d fields) (Oversized g via (.message d fields)) := by
  obtain ⟨b, value⟩ := valueBytes_ok named bigint typed
  simp only [checkBigint, value]
  split
  · next wide => exact .inr ⟨_, rfl, wide, .here bigint value wide⟩
  · next fits =>
    refine .inl ⟨rfl, fun oversized => ?_⟩
    cases typed with
    | message one each own =>
      cases oversized with
      | here _ value' wide =>
        rw [value] at value'
        cases value'
        exact fits wide
      | @within _ _ p v mem _ held inner =>
        have field : p.1 = ⟨1, .singular, .bytes⟩ := by
          simpa [named.bigint d bigint] using own bigint p mem
        have typed := each p mem v held
        rw [field] at typed
        cases typed
        cases inner

theorem inspectValues_judges {reaches : ι → Bool} {P : Value ι → Prop} {vs : List (Value ι)}
    (each : ∀ v ∈ vs, Judges (inspect g reaches v) (P v)) :
    Judges (inspectValues g reaches vs) (∃ v ∈ vs, P v) := by
  induction vs with
  | nil => exact .inl ⟨by simp [inspectValues], by simp⟩
  | cons v rest ih =>
    have step := (each v List.mem_cons_self).bind
      (ih fun w mem => each w (List.mem_cons_of_mem _ mem))
    rw [inspectValues]
    exact step.iff (by simp)

theorem inspectFields_judges {reaches : ι → Bool} {P : Value ι → Prop}
    {fields : List (Field ι × List (Value ι))}
    (each : ∀ p ∈ fields, p.1.message?.any reaches = true → ∀ v ∈ p.2,
      Judges (inspect g reaches v) (P v)) :
    Judges (inspectFields g reaches fields)
      (∃ p ∈ fields, p.1.message?.any reaches = true ∧ ∃ v ∈ p.2, P v) := by
  induction fields with
  | nil => exact .inl ⟨by simp [inspectFields], by simp⟩
  | cons p rest ih =>
    obtain ⟨fd, vs⟩ := p
    have others := ih fun q mem => each q (List.mem_cons_of_mem _ mem)
    rw [inspectFields]
    split
    · next enters =>
      have values := inspectValues_judges (each (fd, vs) List.mem_cons_self enters)
      exact (values.bind others).iff (by simp [enters])
    · next skips => exact others.iff (by simp [skips])

theorem Field.kind_of_message? {fd : Field ι} {e : ι} (target : fd.message? = some e) :
    fd.kind = .message e := by
  unfold Field.message? at target
  split at target
  · next kind => rw [kind, Option.some.inj target]
  · cases target

/-- Through declared fields the walk misses nothing: the types on the way to a bigint reach it. -/
theorem oversized_declared {v : Value ι} {d : ι} (typed : Typed g (.message d) v)
    (oversized : Oversized g (declared g) v) :
    BigintReachable g d ∧ Oversized g (entered g) v := by
  induction oversized generalizing d with
  | here bigint value wide =>
    cases typed
    exact ⟨⟨_, .refl, bigint⟩, .here bigint value wide⟩
  | @within d' fields p v mem own held inner ih =>
    cases typed with
    | message one each _ =>
      have fits := each p mem v held
      cases kind : p.1.kind with
      | bytes | scalar =>
        rw [kind] at fits
        cases fits
        cases inner
      | message e =>
        have target : p.1.message? = some e := by simp [Field.message?, kind]
        rw [kind] at fits
        obtain ⟨reachable, entered⟩ := ih fits
        exact ⟨reachable.field own target, .within mem ⟨e, target, reachable⟩ held entered⟩

theorem Declared.oversized {v : Value ι} (all : Declared g v)
    (oversized : Oversized g (entered g) v) : Oversized g (declared g) v := by
  induction oversized with
  | here bigint value wide => exact .here bigint value wide
  | within mem _ held _ ih =>
    cases all with
    | message own each => exact .within mem (own _ mem) held (ih (each _ mem _ held))

section Verdict
variable [Fintype ι]

theorem any_reaches_iff (named : Named g) (d : ι) (fd : Field ι) :
    fd.message?.any (reaches g) = true ↔ entered g d fd := by
  simp [Option.any_eq_true, entered, reaches_iff named]

theorem inspect_judges (named : Named g) {v : Value ι} {d : ι} (typed : Typed g (.message d) v) :
    Judges (inspect g (reaches g) v) (Oversized g (entered g) v) := by
  induction v using Value.induct generalizing d with
  | bytes b => cases typed
  | scalar => cases typed
  | message d fields ih =>
    cases typed with
    | message one each own =>
      rw [inspect]
      split
      · next bigint => exact checkBigint_judges named bigint (.message one each own)
      · next other =>
        have judged : ∀ p ∈ fields, p.1.message?.any (reaches g) = true → ∀ v ∈ p.2,
            Judges (inspect g (reaches g) v) (Oversized g (entered g) v) := by
          intro p mem enters v held
          obtain ⟨e, target, -⟩ := (any_reaches_iff named d p.1).mp enters
          have fits := each p mem v held
          rw [Field.kind_of_message? target] at fits
          exact ih p mem v held fits
        refine (inspectFields_judges judged).iff ⟨?_, fun oversized => ?_⟩
        · rintro ⟨p, mem, enters, v, held, inner⟩
          exact .within mem ((any_reaches_iff named d p.1).mp enters) held inner
        · cases oversized with
          | here bigint => exact absurd bigint other
          | @within _ _ p v mem enters held inner =>
            exact ⟨p, mem, (any_reaches_iff named d p.1).mpr enters, v, held, inner⟩

theorem verdict_judges (named : Named g) {m : Message ι}
    (typed : Typed g (.message m.desc) m.value) :
    Judges (verdict g m)
      (BigintReachable g m.desc ∧ Oversized g (entered g) m.value) := by
  unfold verdict
  split
  · next yes =>
    exact (inspect_judges named typed).iff (by simp [(reaches_iff named m.desc).mp yes])
  · next no => exact .inl ⟨rfl, fun h => no ((reaches_iff named m.desc).mpr h.1)⟩

theorem marshal_of_unmarshal (named : Named g) {ε : Type}
    {Unmarshal : Bytes → Except ε (Message ι)} (Marshal : Message ι → Except ε Bytes) {b : Bytes}
    {m : Message ι} {before : List (Query ι)}
    (accepted : (unmarshal g Unmarshal b (after g before)).1 = .ok m) (later : List (Query ι)) :
    (marshal g Marshal m (after g later)).1 = (Marshal m).mapError .inl := by
  have passes : verdict g m = .ok () := by
    unfold unmarshal at accepted
    split at accepted
    · cases accepted
    · next m' decoded =>
      have returned := (checkCustomTypes_returns named.agree m' _
        (after_consistent named.agree before)).1
      split at accepted
      · cases accepted
      · next c checked =>
        cases accepted
        rw [← returned, checked]
  have returned := (checkCustomTypes_returns named.agree m _
    (after_consistent named.agree later)).1
  rw [passes] at returned
  unfold marshal
  split
  · next e c checked => simp [checked] at returned
  · rfl

/-- Full names identify descriptors. After any queries, whether a type reaches a bigint is answered
as the graph of declared fields has it, and the check of a message reports a wide bigint exactly if
there is one below fields whose types, and the message's own, reach a bigint: if no extension is
populated, exactly if there is one below declared fields. What `unmarshal` accepts, `marshal` hands
to the codec. -/
theorem custom_types_exact (named : Named g) (queries : List (Query ι)) :
    (∀ d, (reachesBigintWalk g d).isSome = true ∧
      ((reachesBigint g d (after g queries)).1 = true ↔ BigintReachable g d)) ∧
    (∀ m : Message ι, Typed g (.message m.desc) m.value →
      let found := (checkCustomTypes g m (after g queries)).1
      (found = .ok () ∨ ∃ n, found = .error (.wide n) ∧ Pbtypes.bigintBytes < n) ∧
      (found ≠ .ok () ↔ BigintReachable g m.desc ∧ Oversized g (entered g) m.value) ∧
      (Declared g m.value → (found ≠ .ok () ↔ Oversized g (declared g) m.value))) ∧
    (∀ (ε : Type) (Unmarshal : Bytes → Except ε (Message ι)) (Marshal : Message ι → Except ε Bytes)
      (b : Bytes) (m : Message ι), (unmarshal g Unmarshal b (after g queries)).1 = .ok m →
      ∀ later, (marshal g Marshal m (after g later)).1 = (Marshal m).mapError .inl) := by
  have consistent := after_consistent named.agree queries
  refine ⟨fun d => ⟨reachesBigintWalk_returns d, ?_⟩, fun m typed => ?_,
    fun ε Unmarshal Marshal b m accepted => marshal_of_unmarshal named Marshal accepted⟩
  · rw [(reachesBigint_returns named.agree d _ consistent).1]
    exact reaches_iff named d
  · have judges := verdict_judges named typed
    rw [← (checkCustomTypes_returns named.agree m _ consistent).1] at judges
    refine ⟨?_, judges.ne_ok, fun all => judges.ne_ok.trans ⟨fun h => all.oversized h.2, ?_⟩⟩
    · rcases judges with ⟨ok, -⟩ | ⟨n, error, wide, -⟩
      · exact .inl ok
      · exact .inr ⟨n, error, wide⟩
    · exact oversized_declared typed

/-- An order holds parts and a part the order it belongs to; the wide bigint is in a part's map. -/
theorem custom_types_exact_recursive :
    ∃ (g : Descriptors (Fin 3)) (m : Message (Fin 3)), Named g ∧
      (checkCustomTypes g m (after g [.reaches 2])).1 ≠ .ok () := by
  let parts : Field (Fin 3) := ⟨1, .list, .message 2⟩
  let prices : Field (Fin 3) := ⟨4, .map, .message 0⟩
  let g : Descriptors (Fin 3) := ![⟨bigintName, [⟨1, .singular, .bytes⟩]⟩,
    ⟨lit "Order", [parts]⟩, ⟨lit "Part", [⟨1, .singular, .message 1⟩, prices]⟩]
  let part : Value (Fin 3) := .message 2 [(prices, [overlong])]
  have named : Named g := ⟨by decide +kernel, by decide +kernel⟩
  have wide : Typed g (.message 0) overlong := by
    refine .message (by simp) ?_ (by simp [g])
    simpa using Typed.bytes _
  have inner : Typed g (.message 2) part := by
    refine .message (by simp [prices]) ?_ (by simp [g])
    simpa [prices] using wide
  have typed : Typed g (.message 1) (.message 1 [(parts, [part])]) := by
    refine .message (by simp [parts]) ?_ (by simp [g, parts])
    simpa [parts] using inner
  have oversized : Oversized g (declared g) (.message 1 [(parts, [part])]) := by
    refine .within (List.mem_singleton_self _) ?_ (List.mem_singleton_self _)
      (.within (List.mem_singleton_self _) ?_ (List.mem_singleton_self _) (.here rfl rfl ?_))
    · simp [declared, g]
    · simp [declared, g]
    · decide
  have all : Declared g (.message 1 [(parts, [part])]) := by
    refine .message (by simp [g]) ?_
    simp only [List.mem_singleton, forall_eq]
    refine .message (by simp [g]) ?_
    simp only [List.mem_singleton, forall_eq]
    refine .message (by simp [g]) ?_
    simpa using Declared.bytes _
  have found := ((custom_types_exact named [.reaches 2]).2.1 ⟨1, [(parts, [part])]⟩ typed).2.2 all
  exact ⟨g, ⟨1, [(parts, [part])]⟩, named, found.mpr oversized⟩

/-- `M` declares a bigint and `N` does not; both hold a wide one in an extension only. That of `M`
is reported, though no declared field leads to it, and that of `N` is not. -/
theorem extension_walked :
    ∃ (g : Descriptors (Fin 3)) (m n : Message (Fin 3)), Named g ∧
      Typed g (.message m.desc) m.value ∧ Typed g (.message n.desc) n.value ∧
      (checkCustomTypes g m fun _ => none).1 = .error (.wide 33) ∧
      ¬ Oversized g (declared g) m.value ∧
      (checkCustomTypes g n fun _ => none).1 = .ok () ∧
      Oversized g (fun _ _ => True) n.value := by
  let extension : Field (Fin 3) := ⟨100, .singular, .message 0⟩
  let g : Descriptors (Fin 3) := ![⟨bigintName, [⟨1, .singular, .bytes⟩]⟩,
    ⟨lit "M", [⟨1, .singular, .message 0⟩]⟩, ⟨lit "N", []⟩]
  have named : Named g := ⟨by decide +kernel, by decide +kernel⟩
  have wide : Typed g (.message 0) overlong := by
    refine .message (by simp) ?_ (by simp [g])
    simpa using Typed.bytes _
  have typed {d : Fin 3} (other : fullName g d ≠ bigintName) :
      Typed g (.message d) (.message d [(extension, [overlong])]) := by
    refine .message (by simp) ?_ (by simp [other])
    simpa [extension] using wide
  refine ⟨g, ⟨1, [(extension, [overlong])]⟩, ⟨2, [(extension, [overlong])]⟩, named,
    typed (by decide +kernel), typed (by decide +kernel), by decide +kernel, fun oversized => ?_,
    by decide +kernel, ?_⟩
  · cases oversized with
    | here bigint => exact absurd bigint (by decide +kernel)
    | within mem own =>
      cases List.mem_singleton.mp mem
      simp [declared, g, extension] at own
  · exact .within (List.mem_singleton_self _) trivial (List.mem_singleton_self _)
      (.here rfl rfl (by decide))

end Verdict

end Protobus.Customtypes
