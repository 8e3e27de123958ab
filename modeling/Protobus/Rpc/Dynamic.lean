import Protobus.Rpc.Registration
import Mathlib.Data.List.Perm.Basic
import Mathlib.Data.List.Nodup

/-!
# Services and clients without generated code

`RegisterDynamic` turns two maps of handlers into a descriptor. It goes through each map twice, in
whatever order the runtime chooses each time. `ResolveClient` is given a runtime name and looks for
the contract in it, from the whole name down to its first word.
-/
namespace Protobus.Rpc
open Library Consumer Topic
open Wire hiding Event

/-! ## Registering maps of handlers -/

/-- The maps `Unary` and `Streams`. -/
structure DynamicHandlers where
  unary : List (Bytes × Nat)
  streams : List (Bytes × Nat)
  unary_distinct : (unary.map (·.1)).Nodup
  streams_distinct : (streams.map (·.1)).Nodup

/-- The orders in which the four loops go through the maps. -/
structure Orders (h : DynamicHandlers) where
  unary : List (Bytes × Nat)
  streams : List (Bytes × Nat)
  unaryAgain : List (Bytes × Nat)
  streamsAgain : List (Bytes × Nat)
  unary_perm : unary.Perm h.unary
  streams_perm : streams.Perm h.streams
  unaryAgain_perm : unaryAgain.Perm h.unary
  streamsAgain_perm : streamsAgain.Perm h.streams

section
variable (sd : ServiceDescriptor)

/-- Methods that the contract does not declare come last, without a handler, for `Register` to
report. -/
def dynamicEntries (first again : List (Bytes × Nat)) : List MethodDesc :=
  (first.filter fun p => (sd.byName p.1).isSome).map (fun p => ⟨p.1, p.2⟩) ++
    (again.filter fun p => (sd.byName p.1).isNone).map (fun p => ⟨p.1, 0⟩)

def dynamicDesc (service : Bytes) {h : DynamicHandlers} (o : Orders h) : ServiceDesc where
  serviceName := service
  handlerType := none
  methods := dynamicEntries sd o.unary o.unaryAgain
  streams := dynamicEntries sd o.streams o.streamsAgain

end

/-- The implementation is the maps themselves, whose type has no methods. -/
def registerDynamic (b : Bus) (service : Bytes) {h : DynamicHandlers} (o : Orders h)
    (opts : List ServiceOption) : Except RegisterError Service :=
  match b.files.find service with
  | none => .error (.unknownService service)
  | some sd => register b (some (dynamicDesc sd service o)) (some ⟨[], none⟩) opts

variable {sd : ServiceDescriptor} {wrong : MethodDescriptor → Bool} {pw : Protowire}

theorem mem_dynamicEntries {first again fs : List (Bytes × Nat)} (perm : first.Perm fs)
    (perm' : again.Perm fs) {name : Bytes} :
    name ∈ (dynamicEntries sd first again).map (·.name) ↔ name ∈ fs.map (·.1) := by
  have known : ∀ p : Bytes × Nat, (p ∈ fs ∧ (sd.byName p.1).isSome = true) ∨
      (p ∈ fs ∧ (sd.byName p.1).isNone = true) ↔ p ∈ fs := by
    intro p
    cases sd.byName p.1 <;> simp
  simp only [dynamicEntries, List.map_append, List.map_map, List.mem_append, List.mem_map,
    List.mem_filter, perm.mem_iff, perm'.mem_iff, Function.comp_def]
  constructor
  · rintro (⟨p, ⟨mem, -⟩, rfl⟩ | ⟨p, ⟨mem, -⟩, rfl⟩) <;> exact ⟨p, mem, rfl⟩
  · rintro ⟨p, mem, rfl⟩
    exact ((known p).mpr mem).imp (⟨p, ·, rfl⟩) (⟨p, ·, rfl⟩)

/-- If the contract has them all, the entries are those of the map. -/
theorem dynamicEntries_eq {first again fs : List (Bytes × Nat)} (perm : first.Perm fs)
    (perm' : again.Perm fs) (admits : ∀ p ∈ fs, Admits sd wrong p.1) :
    dynamicEntries sd first again = first.map fun p => ⟨p.1, p.2⟩ := by
  have some : ∀ p ∈ fs, (sd.byName p.1).isSome = true := by
    intro p mem
    obtain ⟨md, declared, -⟩ := admits p mem
    simp [declared]
  unfold dynamicEntries
  rw [List.filter_eq_self.mpr fun p mem => some p (perm.mem_iff.mp mem),
    List.filter_eq_nil_iff.mpr, List.map_nil, List.append_nil]
  intro p mem
  simp [Option.isSome_iff_ne_none.mp (some p (perm'.mem_iff.mp mem))]

theorem find_dynamicEntries {first again fs : List (Bytes × Nat)} (perm : first.Perm fs)
    (perm' : again.Perm fs) (distinct : (fs.map (·.1)).Nodup)
    (admits : ∀ p ∈ fs, Admits sd wrong p.1) (name : Bytes) :
    ((dynamicEntries sd first again).foldl Handlers.insert .empty).find name =
      (fs.lookup name).map (⟨name, ·⟩) := by
  have names : ((dynamicEntries sd first again).map (·.name)).Nodup := by
    rw [dynamicEntries_eq perm perm' admits, List.map_map]
    exact (perm.map _).nodup_iff.mpr distinct
  cases held : fs.lookup name with
  | none =>
    have absent : name ∉ fs.map (·.1) := by
      intro mem
      obtain ⟨p, listed, rfl⟩ := List.mem_map.mp mem
      simpa using List.lookup_eq_none_iff.mp held p listed
    exact Handlers.find_of_not_mem names ((mem_dynamicEntries perm perm').not.mpr absent)
  | some f =>
    obtain ⟨before, behind, eq, -⟩ := List.lookup_eq_some_iff.mp held
    have mem : (name, f) ∈ first := perm.mem_iff.mpr (by simp [eq])
    have there : ⟨name, f⟩ ∈ dynamicEntries sd first again := by
      rw [dynamicEntries_eq perm perm' admits]
      exact List.mem_map.mpr ⟨_, mem, rfl⟩
    exact Handlers.find_of_mem names there

variable {b : Bus} {service : Bytes} {h : DynamicHandlers} {o : Orders h}

/-- The contract has all that the maps name, in their kinds. -/
structure Implements (sd : ServiceDescriptor) (h : DynamicHandlers) : Prop where
  unary : ∀ p ∈ h.unary, Admits sd notUnary p.1
  streams : ∀ p ∈ h.streams, Admits sd notServerStreaming p.1

theorem admitsAll_dynamicDesc : AdmitsAll sd (dynamicDesc sd service o) ↔ Implements sd h := by
  have same : ∀ {first again fs : List (Bytes × Nat)} {wrong : MethodDescriptor → Bool},
      first.Perm fs → again.Perm fs →
      ((∀ m ∈ dynamicEntries sd first again, Admits sd wrong m.name) ↔
        ∀ p ∈ fs, Admits sd wrong p.1) := by
    intro first again fs wrong perm perm'
    constructor
    · intro all p mem
      obtain ⟨m, there, eq⟩ := List.mem_map.mp
        ((mem_dynamicEntries perm perm').mpr (List.mem_map_of_mem mem))
      rw [← eq]
      exact all m there
    · intro all m there
      obtain ⟨p, mem, eq⟩ := List.mem_map.mp
        ((mem_dynamicEntries perm perm').mp (List.mem_map_of_mem there))
      rw [← eq]
      exact all p mem
  constructor
  · rintro ⟨methods, streams⟩
    exact ⟨(same o.unary_perm o.unaryAgain_perm).mp methods,
      (same o.streams_perm o.streamsAgain_perm).mp streams⟩
  · rintro ⟨unary, streams⟩
    exact ⟨(same o.unary_perm o.unaryAgain_perm).mpr unary,
      (same o.streams_perm o.streamsAgain_perm).mpr streams⟩

/-- What can be wrong, and the error that says so. -/
inductive Fault (b : Bus) (service : Bytes) (h : DynamicHandlers) (opts : ServiceOptions) :
    RegisterError → Prop
  | service (unknown : b.files.find service = none) :
      Fault b service h opts (.unknownService service)
  | options {err : OptionError} (wrong : opts.Wrong err) : Fault b service h opts (.options err)
  | undeclared {sd : ServiceDescriptor} (found : b.files.find service = some sd) {name : Bytes}
      (mem : name ∈ (h.unary ++ h.streams).map (·.1)) (unknown : sd.byName name = none) :
      Fault b service h opts (.noMethod service name)
  | streaming {sd : ServiceDescriptor} (found : b.files.find service = some sd) {name : Bytes}
      (mem : name ∈ h.unary.map (·.1)) {md : MethodDescriptor}
      (declared : sd.byName name = some md) (kind : notUnary md = true) :
      Fault b service h opts (.streaming service name)
  | notStreaming {sd : ServiceDescriptor} (found : b.files.find service = some sd) {name : Bytes}
      (mem : name ∈ h.streams.map (·.1)) {md : MethodDescriptor}
      (declared : sd.byName name = some md) (kind : notServerStreaming md = true) :
      Fault b service h opts (.notStreaming service name)

theorem fault_of_mismatch (found : b.files.find service = some sd) {opts : ServiceOptions}
    {err : RegisterError} (mismatch : Mismatch sd (dynamicDesc sd service o) err) :
    Fault b service h opts err := by
  have unary {m : MethodDesc} (mem : m ∈ dynamicEntries sd o.unary o.unaryAgain) :
      m.name ∈ h.unary.map (·.1) :=
    (mem_dynamicEntries o.unary_perm o.unaryAgain_perm).mp (List.mem_map_of_mem mem)
  have streams {m : MethodDesc} (mem : m ∈ dynamicEntries sd o.streams o.streamsAgain) :
      m.name ∈ h.streams.map (·.1) :=
    (mem_dynamicEntries o.streams_perm o.streamsAgain_perm).mp (List.mem_map_of_mem mem)
  cases mismatch with
  | undeclared mem unknown =>
    refine .undeclared found ?_ unknown
    rw [List.map_append]
    obtain mem | mem := List.mem_append.mp mem
    · exact List.mem_append_left _ (unary mem)
    · exact List.mem_append_right _ (streams mem)
  | streaming mem declared kind => exact .streaming found (unary mem) declared kind
  | notStreaming mem declared kind => exact .notStreaming found (streams mem) declared kind

theorem fault_of_refuses (found : b.files.find service = some sd) {opts : ServiceOptions}
    {got : GoType} {err : RegisterError}
    (refuses : Refuses b (some (dynamicDesc sd service o)) (some got) opts err) :
    Fault b service h opts err := by
  cases refuses with
  | options wrong => exact .options wrong
  | nilImpl none => cases none
  | nilDesc none => cases none
  | handlerType given typed _ | notImplemented given _ typed _ _ =>
    -- the descriptor has no handler type
    cases given
    cases typed
  | unknownService given unknown =>
    cases given
    exact .service unknown
  | mismatch given found' mismatch =>
    cases given
    cases found.symm.trans found'
    exact fault_of_mismatch found mismatch

/-- The service that a registration leads to does not depend on the orders. -/
theorem handler_dynamic {s : Service} (implements : Implements sd h)
    {opts : ServiceOptions} (registers : Registers sd (dynamicDesc sd service o) opts s)
    (md : MethodDescriptor) (method : Bytes) (env : Request) :
    s.handler md method env = if md.streamingServer
      then (h.streams.lookup method).map fun f => .stream ⟨method, f⟩ env
      else (h.unary.lookup method).map fun f => .unary ⟨method, f⟩ env := by
  unfold Service.handler
  rw [registers.unary, registers.streams]
  cases md.streamingServer with
  | true =>
    simp only [dynamicDesc, find_dynamicEntries o.streams_perm o.streamsAgain_perm
      h.streams_distinct implements.streams, Option.map_map]
    rfl
  | false =>
    simp only [dynamicDesc, find_dynamicEntries o.unary_perm o.unaryAgain_perm
      h.unary_distinct implements.unary, Option.map_map]
    rfl

theorem accepts_dynamic {opts : ServiceOptions} {got : GoType} :
    Accepts b (dynamicDesc sd service o) got opts sd ↔
      opts.Valid ∧ b.files.find service = some sd ∧ Implements sd h := by
  constructor
  · rintro ⟨valid, -, found, admits⟩
    exact ⟨valid, found, admitsAll_dynamicDesc.mp admits⟩
  · rintro ⟨valid, found, implements⟩
    exact ⟨valid, by simp [dynamicDesc], found, admitsAll_dynamicDesc.mpr implements⟩

/-- In whatever orders the maps are gone through: the registration succeeds exactly if the options
are valid, the service is known and the contract has all that the maps name, in their kinds;
otherwise the error names something that is wrong. A request of a client of the instance for a
declared method then runs the handler that the map of its kind holds, and is answered with an error
if it holds none. -/
theorem registerDynamic_exact (laws : pw.Lawful) (b : Bus) (service : Bytes)
    (opts : List ServiceOption) {h : DynamicHandlers} (o : Orders h) :
    ((∃ s, registerDynamic b service o opts = .ok s) ↔ (b.options opts).Valid ∧
      ∃ sd, b.files.find service = some sd ∧ (∀ p ∈ h.unary, Admits sd notUnary p.1) ∧
        ∀ p ∈ h.streams, Admits sd notServerStreaming p.1) ∧
    (∀ err, registerDynamic b service o opts = .error err →
      Fault b service h (b.options opts) err) ∧
    ∀ s, registerDynamic b service o opts = .ok s →
    ∀ (method : Bytes) (md : MethodDescriptor) (actor data : Bytes) (env : Request),
      s.contract.byName method = some md → env = ⟨service ++ lit "." ++ method, actor, data⟩ →
      validUTF8 actor = true → env.Fits →
    ∃ body, (newClient service s.opts.inst).envelope pw method actor data = some body ∧
    ∀ d : Delivery, d.routingKey = (newClient service s.opts.inst).routingKey method →
      d.body = body →
      s.dispatch pw d =
        match (if md.streamingServer then h.streams else h.unary).lookup method with
        | some f => .ok (if md.streamingServer then .stream ⟨method, f⟩ env
            else .unary ⟨method, f⟩ env)
        | none => .error ⟨env.method, lit "invalid service method " ++ method⟩ := by
  unfold registerDynamic
  cases found : b.files.find service with
  | none =>
    refine ⟨iff_of_false (by simp) (by simp), fun err eq => ?_, by simp⟩
    cases eq
    exact .service found
  | some sd =>
    simp only
    refine ⟨?_, ?_, ?_⟩
    · rw [exists_register_iff found]
      simp only [accepts_dynamic]
      constructor
      · rintro ⟨got, -, valid, -, implements⟩
        exact ⟨valid, sd, rfl, implements.unary, implements.streams⟩
      · rintro ⟨valid, sd', ⟨⟩, unary, streams⟩
        exact ⟨_, rfl, valid, found, unary, streams⟩
    · intro err eq
      obtain ⟨-, -, -, s, -, -, -, ok, -⟩ | ⟨err', eq', refuses⟩ :=
        register_cases b (some (dynamicDesc sd service o)) (some ⟨[], none⟩) opts
      · cases ok.symm.trans eq
      · cases eq'.symm.trans eq
        exact fault_of_refuses found refuses
    · rintro s ok method md actor data env declared rfl text fits
      obtain ⟨got, -, accepts, registers⟩ := registers_of_register found ok
      obtain ⟨valid, -, implements⟩ := accepts_dynamic.mp accepts
      have named : s.contract.fullName = service := by
        rw [registers.contract]
        exact b.files.named _ _ found
      subst named
      obtain ⟨body, built, dispatched⟩ := dispatch_own laws declared text fits
      refine ⟨body, built, fun d key same => ?_⟩
      rw [dispatched d key same, Service.served, handler_dynamic implements registers]
      cases md.streamingServer with
      | true => cases held : h.streams.lookup method <;> simp [held]
      | false => cases held : h.unary.lookup method <;> simp [held]

/-- A bus that knows the contract `a.b`, and nothing else. -/
def oneContract : Bus where
  files := {
    find name := if name = lit "a.b" then some (contractOf (lit "a.b") ab_isFullName) else none
    named := by simp [contractOf] }
  defaultPrefetch := 1
  prefetch_valid := one_valid

theorem oneContract_instance : (oneContract.options [.withInstance (lit "c")]).Valid :=
  ServiceOptions.defaults_valid oneContract.prefetch_valid (by decide)

theorem registerDynamic_exact_sample :
    let h : DynamicHandlers := ⟨[(lit "m", 5)], [], by decide, by decide⟩
    let o : Orders h := ⟨h.unary, [], h.unary, [], .refl _, .refl _, .refl _, .refl _⟩
    ∃ s body, registerDynamic oneContract (lit "a.b") o [.withInstance (lit "c")] = .ok s ∧
      (newClient (lit "a.b") s.opts.inst).envelope .reference (lit "m") [] [7] = some body ∧
      s.dispatch .reference
          { routingKey := (newClient (lit "a.b") s.opts.inst).routingKey (lit "m"), body } =
        .ok (.unary ⟨lit "m", 5⟩ ⟨lit "a.b.m", [], [7]⟩) := by
  intro h o
  have declared : (contractOf (lit "a.b") ab_isFullName).byName (lit "m") =
      some ⟨lit "m", false, false⟩ := rfl
  obtain ⟨accepts, -, serves⟩ := registerDynamic_exact Protowire.reference_lawful oneContract
    (lit "a.b") [.withInstance (lit "c")] o
  obtain ⟨s, ok⟩ := accepts.mpr ⟨oneContract_instance, _, rfl,
    by simpa [h] using ⟨_, declared, rfl⟩, by simp [h]⟩
  have contract : s.contract = contractOf (lit "a.b") ab_isFullName := by
    have registered : register oneContract (some (dynamicDesc
      (contractOf (lit "a.b") ab_isFullName) (lit "a.b") o)) (some ⟨[], none⟩)
      [.withInstance (lit "c")] = .ok s := ok
    obtain ⟨got, -, -, registers⟩ := registers_of_register rfl registered
    exact registers.contract
  obtain ⟨body, built, dispatched⟩ := serves s ok (lit "m") _ [] [7] _
    (by rw [contract]; exact declared) rfl (by decide) ⟨by decide, by decide, by decide⟩
  exact ⟨s, body, ok, built, dispatched { routingKey := _, body } rfl rfl⟩

/-! ## Resolving a runtime name -/

theorem length_take_lastDot {name : Bytes} {i : Nat} (h : lastDot name = some i) :
    (name.take i).length < name.length := by
  obtain ⟨a, b, rfl, rfl, -⟩ := exists_of_lastDot h
  simp

/-- Trims trailing segments until one names a service. -/
def resolveContract (files : Files) (name : Bytes) : Option ServiceDescriptor :=
  match files.find name with
  | some sd => some sd
  | none => match _cut : lastDot name with
    | none => none
    | some i => if i = 0 then none else resolveContract files (name.take i)
termination_by name.length
decreasing_by exact length_take_lastDot ‹_›

def resolveClient (files : Files) (name : Bytes) : Option Client :=
  (resolveContract files name).map fun sd => ⟨sd.fullName, name, false⟩

/-- The names that `resolveContract` may come to: the whole, or what is before a dot of it. -/
def Leads (p name : Bytes) : Prop := p = name ∨ p ≠ [] ∧ ∃ rest, name = p ++ dot :: rest

/-- The service is found under `p`, and under no longer name. -/
structure Longest (files : Files) (name p : Bytes) (sd : ServiceDescriptor) : Prop where
  leads : Leads p name
  found : files.find p = some sd
  longest : ∀ q, Leads q name → p.length < q.length → files.find q = none

theorem Leads.length_le {p name : Bytes} (h : Leads p name) : p.length ≤ name.length := by
  obtain rfl | ⟨-, rest, rfl⟩ := h
  · exact le_rfl
  · simp

/-- The shorter names of `a.b` with the last dot there are those of `a`. -/
theorem leads_append_iff {a b q : Bytes} (word : dot ∉ b) (some : a ≠ []) :
    Leads q (a ++ dot :: b) ↔ q = a ++ dot :: b ∨ Leads q a := by
  refine or_congr_right ⟨?_, ?_⟩
  · rintro ⟨nonempty, rest, eq⟩
    obtain ⟨mid, rfl, eq'⟩ | ⟨mid, rfl, eq'⟩ := List.append_eq_append_iff.mp eq
    · cases mid with
      | nil => exact .inl (by simp)
      | cons c mid =>
        -- the dot behind `q` would be in `b`
        cases eq'
        exact absurd (by simp) word
    · cases mid with
      | nil => exact .inl (by simp)
      | cons c mid =>
        cases eq'
        exact .inr ⟨nonempty, mid, rfl⟩
  · rintro (rfl | ⟨nonempty, rest, rfl⟩)
    · exact ⟨some, b, rfl⟩
    · exact ⟨nonempty, rest ++ dot :: b, by simp⟩

/-- Nothing is longer than the whole. -/
theorem longest_of_found {files : Files} {name p : Bytes} {sd sd' : ServiceDescriptor}
    (found : files.find name = some sd) : Longest files name p sd' ↔ p = name ∧ sd' = sd := by
  constructor
  · rintro ⟨leads, found', longest⟩
    obtain rfl | ⟨-, rest, rfl⟩ := leads
    · exact ⟨rfl, Option.some.inj (found'.symm.trans found)⟩
    · have := longest _ (.inl rfl) (by simp)
      simp [found] at this
  · rintro ⟨rfl, rfl⟩
    exact ⟨.inl rfl, found, fun q leads longer => absurd longer (by simpa using leads.length_le)⟩

/-- With no word before it, only the whole name is looked up. -/
theorem not_longest {files : Files} {name p : Bytes} {sd : ServiceDescriptor}
    (unknown : files.find name = none) (single : ∀ rest, p ≠ [] → name ≠ p ++ dot :: rest) :
    ¬ Longest files name p sd := by
  rintro ⟨rfl | ⟨nonempty, rest, eq⟩, found, -⟩
  · simp [unknown] at found
  · exact single rest nonempty eq

theorem resolveContract_eq_some {files : Files} {name : Bytes} {sd : ServiceDescriptor} :
    resolveContract files name = some sd ↔ ∃ p, Longest files name p sd := by
  fun_induction resolveContract files name with
  | case1 name sd' found => simp [longest_of_found found, eq_comm]
  | case2 name unknown cut =>
    refine iff_of_false (by simp) fun ⟨p, h⟩ => ?_
    refine not_longest unknown (fun rest _ eq => ?_) h
    exact lastDot_eq_none.mp cut (by simp [eq])
  | case3 name unknown cut =>
    refine iff_of_false (by simp) fun ⟨p, h⟩ => ?_
    refine not_longest unknown (fun rest nonempty eq => ?_) h
    obtain ⟨a, b, rfl, empty, word⟩ := exists_of_lastDot cut
    obtain rfl := List.length_eq_zero_iff.mp empty
    cases p with
    | nil => exact nonempty rfl
    | cons c p =>
      cases eq
      exact word (by simp)
  | case4 name unknown i cut pos ih =>
    obtain ⟨a, b, rfl, rfl, word⟩ := exists_of_lastDot cut
    have some : a ≠ [] := by
      rintro rfl
      exact pos rfl
    rw [ih, List.take_left]
    refine exists_congr fun p => ⟨fun h => ?_, fun h => ?_⟩
    · refine ⟨(leads_append_iff word some).mpr (.inr h.leads), h.found, fun q leads longer => ?_⟩
      obtain rfl | leads := (leads_append_iff word some).mp leads
      · exact unknown
      · exact h.longest q leads longer
    · obtain rfl | leads := (leads_append_iff word some).mp h.leads
      · simp [h.found] at unknown
      · exact ⟨leads, h.found, fun q shorter longer =>
          h.longest q ((leads_append_iff word some).mpr (.inr shorter)) longer⟩

theorem resolveClient_eq_some {files : Files} {name : Bytes} {c : Client} :
    resolveClient files name = some c ↔
      ∃ p sd, Longest files name p sd ∧ c = ⟨sd.fullName, name, false⟩ := by
  simp only [resolveClient, Option.map_eq_some_iff, resolveContract_eq_some]
  constructor
  · rintro ⟨sd, ⟨p, longest⟩, rfl⟩
    exact ⟨p, sd, longest, rfl⟩
  · rintro ⟨p, sd, longest, rfl⟩
    exact ⟨sd, ⟨p, longest⟩, rfl⟩

theorem dot_not_mem_of_validInstance {inst : Bytes} (valid : validInstance inst = true) :
    dot ∉ inst := by
  intro mem
  have nonempty : inst ≠ [] := List.ne_nil_of_mem mem
  have bad : inst.any (· ∈ lit ".*# \t\r\n") = true :=
    List.any_eq_true.mpr ⟨dot, mem, by decide⟩
  simp [validInstance, nonempty, bad] at valid

theorem register_found {b : Bus} {desc : Option ServiceDesc} {impl : Option GoType}
    {opts : List ServiceOption} {s : Service} (ok : register b desc impl opts = .ok s) :
    b.files.find s.contract.fullName = some s.contract := by
  obtain ⟨d, got, sd, -, -, accepts, registers⟩ := accepts_of_register ok
  rw [s.contract_named, registers.serviceName, registers.contract]
  exact accepts.found

/-- A contract found under the instance's name hides the instance. -/
theorem longest_registered {files : Files} {s : Service}
    (found : files.find s.contract.fullName = some s.contract) :
    (s.opts.inst = [] ∨ files.find s.name = none → ∃ p, Longest files s.name p s.contract) ∧
    ∀ other, files.find s.name = some other → Longest files s.name s.name other := by
  refine ⟨fun h => ?_, fun other hidden => (longest_of_found hidden).mpr ⟨rfl, rfl⟩⟩
  have named := s.name_eq
  by_cases empty : s.opts.inst = []
  · rw [runtimeName, if_pos empty] at named
    rw [named]
    exact ⟨_, (longest_of_found found).mpr ⟨rfl, rfl⟩⟩
  · have unknown := h.resolve_left empty
    rw [runtimeName, if_neg empty, append_lit_dot] at named
    rw [named] at unknown ⊢
    have some : s.contract.fullName ≠ [] := by
      intro eq
      have := s.contract.fullName_valid
      rw [eq] at this
      cases this
    refine ⟨s.contract.fullName, .inr ⟨some, s.opts.inst, rfl⟩, found, fun q leads longer => ?_⟩
    have word := dot_not_mem_of_validInstance s.opts_valid.inst
    obtain rfl | leads := (leads_append_iff word some).mp leads
    · exact unknown
    · exact absurd leads.length_le (by omega)

/-- `ResolveClient` finds the contract of the longest name that a runtime name leads to. For the
name of a registered service it always finds one. That is the contract of the service, and a request
for a method that it declares is dispatched to the method's handler, or answered with an error if it
has none, unless another contract has the instance's full name; then the client is one of that
contract and the service refuses whatever method it asks for. The actor is valid UTF-8. -/
theorem resolveClient_exact (laws : pw.Lawful) (b : Bus) :
    (∀ name c, resolveClient b.files name = some c ↔
      ∃ p sd, Longest b.files name p sd ∧ c = ⟨sd.fullName, name, false⟩) ∧
    ∀ desc impl opts s, register b desc impl opts = .ok s →
    ∃ c, resolveClient b.files s.name = some c ∧
    (s.opts.inst = [] ∨ b.files.find s.name = none →
      ∀ (method actor data : Bytes) (env : Request) md, s.contract.byName method = some md →
      env = ⟨s.contract.fullName ++ lit "." ++ method, actor, data⟩ →
      validUTF8 actor = true → env.Fits →
      ∃ body, c.envelope pw method actor data = some body ∧
      ∀ d : Delivery, d.routingKey = c.routingKey method → d.body = body →
        s.dispatch pw d = s.served md method env) ∧
    (s.opts.inst ≠ [] ∧ b.files.find s.name ≠ none →
      ∀ (method actor data : Bytes) (env : Request), isIdent method = true →
      env = ⟨s.name ++ lit "." ++ method, actor, data⟩ → validUTF8 actor = true → env.Fits →
      ∃ body, c.envelope pw method actor data = some body ∧
      ∀ d : Delivery, d.routingKey = c.routingKey method → d.body = body →
        s.dispatch pw d = .error ⟨s.contract.fullName ++ lit "." ++ method,
          lit "request method " ++ env.method ++ lit " is not a method of " ++
            s.contract.fullName⟩) := by
  refine ⟨fun name c => resolveClient_eq_some, fun desc impl opts s ok => ?_⟩
  obtain ⟨own, hidden⟩ := longest_registered (register_found ok)
  by_cases visible : s.opts.inst = [] ∨ b.files.find s.name = none
  · obtain ⟨p, longest⟩ := own visible
    refine ⟨_, resolveClient_eq_some.mpr ⟨p, _, longest, rfl⟩, ?_, ?_⟩
    · rintro - method actor data env md declared rfl text fits
      exact dispatch_declared laws rfl rfl rfl declared text fits
    · rintro ⟨named, known⟩
      exact absurd visible (by simp [named, known])
  · obtain ⟨named, known⟩ := not_or.mp visible
    obtain ⟨other, found⟩ := Option.ne_none_iff_exists'.mp known
    refine ⟨_, resolveClient_eq_some.mpr ⟨_, other, hidden other found, rfl⟩,
      fun h => absurd h visible, ?_⟩
    rintro - method actor data env ident rfl text fits
    have full : other.fullName = s.name := b.files.named _ _ found
    have foreign : other.fullName ≠ s.contract.fullName := by
      rw [full, s.name_eq, runtimeName, if_neg named, append_lit_dot]
      simp
    rw [← full] at fits ⊢
    exact dispatch_foreign laws rfl rfl foreign full.symm ident text fits

theorem resolveClient_exact_sample :
    ∃ s c body, register oneContract (some ⟨lit "a.b", none, [⟨lit "m", 5⟩], []⟩) (some ⟨[], none⟩)
        [.withInstance (lit "c")] = .ok s ∧
      resolveClient oneContract.files (lit "a.b.c") = some c ∧
      c.envelope .reference (lit "m") [] [7] = some body ∧
      s.dispatch .reference { routingKey := c.routingKey (lit "m"), body } =
        .ok (.unary ⟨lit "m", 5⟩ ⟨lit "a.b.m", [], [7]⟩) := by
  have declared : (contractOf (lit "a.b") ab_isFullName).byName (lit "m") =
      some ⟨lit "m", false, false⟩ := rfl
  have accepts : Accepts oneContract ⟨lit "a.b", none, [⟨lit "m", 5⟩], []⟩ ⟨[], none⟩
      (oneContract.options [.withInstance (lit "c")]) (contractOf (lit "a.b") ab_isFullName) :=
    ⟨oneContract_instance, by simp, rfl, by simpa using ⟨_, declared, rfl⟩, by simp⟩
  obtain ⟨s, ok, registers⟩ := register_of_accepts accepts
  obtain ⟨c, resolved, serves, -⟩ :=
    (resolveClient_exact Protowire.reference_lawful oneContract).2 _ _ _ s ok
  rw [registers.name] at resolved serves
  obtain ⟨body, built, dispatched⟩ := serves (.inr (by decide)) (lit "m") [] [7] _ _
    (by rw [registers.contract]; exact declared) rfl (by decide)
    (by rw [registers.contract]; exact ⟨by decide, by decide, by decide⟩)
  refine ⟨s, c, body, ok, resolved, built, (dispatched _ rfl rfl).trans ?_⟩
  rw [Service.served, Service.handler, registers.contract, registers.unary]
  rfl

end Protobus.Rpc
