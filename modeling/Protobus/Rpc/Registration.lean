import Protobus.Rpc.Addressing
import Mathlib.Data.List.Nodup

/-!
# What registration accepts

`Register` checks the options and the implementation, goes through the methods of a descriptor one
by one and stops at the first that the contract does not have or has in another kind. If it comes to
the end, its tables hold what the descriptor lists, and a request of a client finds the entry of its
method there.
-/
namespace Protobus.Rpc
open Library Consumer Topic
open Wire hiding Event

/-! ## Tables -/

@[simp] theorem Handlers.find_empty (name : Bytes) : Handlers.empty.find name = none := rfl

theorem Handlers.find_insert (h : Handlers) (desc : MethodDesc) (name : Bytes) :
    (h.insert desc).find name = if name = desc.name then some desc else h.find name :=
  Function.update_apply ..

/-- Entries with names of their own are found under them. -/
theorem Handlers.find_insertAll {descs : List MethodDesc} (distinct : (descs.map (·.name)).Nodup)
    (h : Handlers) (name : Bytes) :
    (descs.foldl Handlers.insert h).find name =
      (descs.find? (·.name = name)).or (h.find name) := by
  induction descs generalizing h with
  | nil => rfl
  | cons desc descs ih =>
    obtain ⟨fresh, distinct⟩ := List.nodup_cons.mp distinct
    rw [List.foldl_cons, ih distinct, Handlers.find_insert]
    by_cases same : desc.name = name
    · -- nothing behind the entry replaces it
      have absent : descs.find? (·.name = name) = none := by
        refine List.find?_eq_none.mpr fun other mem => ?_
        intro eq
        exact fresh (List.mem_map.mpr ⟨other, mem, by simp_all⟩)
      simp [absent, same]
    · simp [same, Ne.symm same]

theorem Handlers.find_of_mem {descs : List MethodDesc} (distinct : (descs.map (·.name)).Nodup)
    {desc : MethodDesc} (mem : desc ∈ descs) :
    (descs.foldl Handlers.insert .empty).find desc.name = some desc := by
  rw [Handlers.find_insertAll distinct]
  cases found : descs.find? (·.name = desc.name) with
  | none => simpa using List.find?_eq_none.mp found desc mem
  | some other =>
    have same : other.name = desc.name := by simpa using List.find?_some found
    have eq := List.inj_on_of_nodup_map distinct (List.mem_of_find?_eq_some found) mem same
    simp [eq]

theorem Handlers.find_of_not_mem {descs : List MethodDesc}
    (distinct : (descs.map (·.name)).Nodup) {name : Bytes} (absent : name ∉ descs.map (·.name)) :
    (descs.foldl Handlers.insert .empty).find name = none := by
  rw [Handlers.find_insertAll distinct, List.find?_eq_none.mpr]
  · rfl
  · intro desc mem same
    exact absent (List.mem_map.mpr ⟨desc, mem, by simpa using same⟩)

/-! ## Registering -/

variable {sd : ServiceDescriptor} {service : Bytes} {wrong : MethodDescriptor → Bool}

/-- The contract has the method, in the right kind. -/
def Admits (sd : ServiceDescriptor) (wrong : MethodDescriptor → Bool) (name : Bytes) : Prop :=
  ∃ md, sd.byName name = some md ∧ wrong md = false

theorem enroll_ok {err : RegisterError} {h : Handlers} {desc : MethodDesc}
    (admitted : Admits sd wrong desc.name) :
    enroll sd service wrong err h desc = .ok (h.insert desc) := by
  obtain ⟨md, declared, right⟩ := admitted
  simp [enroll, declared, right]

theorem enroll_error {err : RegisterError} {h : Handlers} {desc : MethodDesc}
    (refused : ¬ Admits sd wrong desc.name) :
    enroll sd service wrong err h desc =
      .error (if sd.byName desc.name = none then .noMethod service desc.name else err) := by
  unfold enroll
  cases declared : sd.byName desc.name with
  | none => simp
  | some md =>
    have : wrong md = true := by
      cases kind : wrong md with
      | true => rfl
      | false => exact absurd ⟨md, declared, kind⟩ refused
    simp [this]

/-- All of them are entered, or the first that is refused ends it. -/
theorem enrollAll (sd : ServiceDescriptor) (service : Bytes) (wrong : MethodDescriptor → Bool)
    (err : MethodDesc → RegisterError) (h : Handlers) (descs : List MethodDesc) :
    ((∀ desc ∈ descs, Admits sd wrong desc.name) ∧
      descs.foldlM (fun h desc => enroll sd service wrong (err desc) h desc) h =
        .ok (descs.foldl Handlers.insert h)) ∨
    ∃ desc ∈ descs, ¬ Admits sd wrong desc.name ∧
      descs.foldlM (fun h desc => enroll sd service wrong (err desc) h desc) h =
        .error (if sd.byName desc.name = none then .noMethod service desc.name else err desc) := by
  induction descs generalizing h with
  | nil => exact .inl ⟨by simp, rfl⟩
  | cons desc descs ih =>
    rw [List.foldlM_cons]
    by_cases admitted : Admits sd wrong desc.name
    · rw [enroll_ok admitted]
      obtain ⟨all, ok⟩ | ⟨bad, mem, refused, error⟩ := ih (h.insert desc)
      · exact .inl ⟨by simpa [admitted] using all, ok⟩
      · exact .inr ⟨bad, List.mem_cons_of_mem _ mem, refused, error⟩
    · rw [enroll_error admitted]
      exact .inr ⟨desc, List.mem_cons_self, admitted, rfl⟩

/-- The contract has all methods of the descriptor, in their kinds. -/
def AdmitsAll (sd : ServiceDescriptor) (desc : ServiceDesc) : Prop :=
  (∀ m ∈ desc.methods, Admits sd notUnary m.name) ∧
    ∀ m ∈ desc.streams, Admits sd notServerStreaming m.name

/-- A method of a descriptor that the contract does not have so, and the error that says it. -/
inductive Mismatch (sd : ServiceDescriptor) (desc : ServiceDesc) : RegisterError → Prop
  | undeclared {m : MethodDesc} (mem : m ∈ desc.methods ++ desc.streams)
      (unknown : sd.byName m.name = none) : Mismatch sd desc (.noMethod desc.serviceName m.name)
  | streaming {m : MethodDesc} (mem : m ∈ desc.methods) {md : MethodDescriptor}
      (declared : sd.byName m.name = some md) (kind : notUnary md = true) :
      Mismatch sd desc (.streaming desc.serviceName m.name)
  | notStreaming {m : MethodDesc} (mem : m ∈ desc.streams) {md : MethodDescriptor}
      (declared : sd.byName m.name = some md) (kind : notServerStreaming md = true) :
      Mismatch sd desc (.notStreaming desc.serviceName m.name)

variable {b : Bus} {desc : ServiceDesc} {got : GoType} {o : ServiceOptions}

theorem Mismatch.not_admitsAll {err : RegisterError} (h : Mismatch sd desc err) :
    ¬ AdmitsAll sd desc := by
  rintro ⟨methods, streams⟩
  cases h with
  | undeclared mem unknown =>
    obtain mem | mem := List.mem_append.mp mem
    · obtain ⟨md, declared, -⟩ := methods _ mem
      simp [unknown] at declared
    · obtain ⟨md, declared, -⟩ := streams _ mem
      simp [unknown] at declared
  | streaming mem declared kind =>
    obtain ⟨md, declared', right⟩ := methods _ mem
    grind
  | notStreaming mem declared kind =>
    obtain ⟨md, declared', right⟩ := streams _ mem
    grind

theorem exists_of_not_admits {name : Bytes} (refused : ¬ Admits sd wrong name)
    (known : sd.byName name ≠ none) : ∃ md, sd.byName name = some md ∧ wrong md = true := by
  obtain ⟨md, declared⟩ := Option.ne_none_iff_exists'.mp known
  refine ⟨md, declared, ?_⟩
  cases kind : wrong md with
  | true => rfl
  | false => exact absurd ⟨md, declared, kind⟩ refused

/-- What `Register` demands of a descriptor, an implementation and the options. -/
structure Accepts (b : Bus) (desc : ServiceDesc) (got : GoType) (o : ServiceOptions)
    (sd : ServiceDescriptor) : Prop where
  options : o.Valid
  handlerType : ∀ ht ∈ desc.handlerType, ∃ iface ∈ ht.iface, got.implements iface = true
  found : b.files.find desc.serviceName = some sd
  methods : AdmitsAll sd desc

/-- The service that a registration leads to. -/
structure Registers (sd : ServiceDescriptor) (desc : ServiceDesc) (o : ServiceOptions)
    (s : Service) : Prop where
  contract : s.contract = sd
  serviceName : s.serviceName = desc.serviceName
  opts : s.opts = o
  unary : s.unary = desc.methods.foldl Handlers.insert .empty
  streams : s.streams = desc.streams.foldl Handlers.insert .empty

theorem Service.name_eq (s : Service) :
    s.name = runtimeName s.contract.fullName s.opts.inst := by
  rw [Service.name, s.contract_named]

theorem Registers.name {s : Service} (h : Registers sd desc o s) :
    s.name = runtimeName desc.serviceName o.inst := by
  rw [Service.name, h.serviceName, h.opts]

/-- A reason to refuse a registration, and the error that says so. -/
inductive Refuses (b : Bus) (desc : Option ServiceDesc) (impl : Option GoType)
    (o : ServiceOptions) : RegisterError → Prop
  | options {err : OptionError} (wrong : o.Wrong err) : Refuses b desc impl o (.options err)
  | nilImpl (none : impl = none) : Refuses b desc impl o .nilImpl
  | nilDesc (none : desc = none) : Refuses b desc impl o .nilDesc
  | handlerType {d : ServiceDesc} (given : desc = some d) {ht : GoType}
      (typed : d.handlerType = some ht) (other : ht.iface = none) :
      Refuses b desc impl o (.handlerType ht)
  | notImplemented {d : ServiceDesc} (given : desc = some d) {got : GoType}
      (made : impl = some got) {ht : GoType} (typed : d.handlerType = some ht)
      {iface : List Bytes} (pointer : ht.iface = some iface)
      (lacks : got.implements iface = false) : Refuses b desc impl o (.notImplemented got iface)
  | unknownService {d : ServiceDesc} (given : desc = some d)
      (unknown : b.files.find d.serviceName = none) :
      Refuses b desc impl o (.unknownService d.serviceName)
  | mismatch {d : ServiceDesc} (given : desc = some d) {sd : ServiceDescriptor}
      (found : b.files.find d.serviceName = some sd) {err : RegisterError}
      (mismatch : Mismatch sd d err) : Refuses b desc impl o err

theorem Refuses.not_accepts {err : RegisterError}
    (refuses : Refuses b (some desc) (some got) o err) : ¬ Accepts b desc got o sd := by
  intro accepts
  cases refuses with
  | options wrong => exact wrong.not_valid accepts.options
  | nilImpl none => cases none
  | nilDesc none => cases none
  | handlerType given typed other =>
    cases given
    obtain ⟨iface, pointer, -⟩ := accepts.handlerType _ typed
    simp [other] at pointer
  | notImplemented given made typed pointer lacks =>
    cases given
    cases made
    obtain ⟨iface, pointer', implements⟩ := accepts.handlerType _ typed
    grind
  | unknownService given unknown =>
    cases given
    simp [accepts.found] at unknown
  | mismatch given found mismatch =>
    cases given
    cases accepts.found.symm.trans found
    exact mismatch.not_admitsAll accepts.methods

theorem checkHandlerType_cases (b : Bus) (desc : ServiceDesc) (got : GoType)
    (o : ServiceOptions) :
    checkHandlerType desc.handlerType got = none ∧
      (∀ ht ∈ desc.handlerType, ∃ iface ∈ ht.iface, got.implements iface = true) ∨
    ∃ err, checkHandlerType desc.handlerType got = some err ∧
      Refuses b (some desc) (some got) o err := by
  unfold checkHandlerType
  cases typed : desc.handlerType with
  | none => exact .inl ⟨rfl, by simp⟩
  | some ht =>
    cases pointer : ht.iface with
    | none => exact .inr ⟨_, by simp [pointer], .handlerType rfl typed pointer⟩
    | some iface =>
      cases implements : got.implements iface with
      | true => exact .inl ⟨by simp [pointer, implements], by simp [pointer, implements]⟩
      | false =>
        exact .inr ⟨_, by simp [pointer, implements],
          .notImplemented rfl rfl typed pointer implements⟩

/-- The two loops come to the end, or a method that does not match ends one of them. -/
theorem enroll_cases (sd : ServiceDescriptor) (desc : ServiceDesc) :
    let unary := desc.methods.foldlM (fun h m => enroll sd desc.serviceName notUnary
      (.streaming desc.serviceName m.name) h m) Handlers.empty
    let streams := desc.streams.foldlM (fun h m => enroll sd desc.serviceName notServerStreaming
      (.notStreaming desc.serviceName m.name) h m) Handlers.empty
    AdmitsAll sd desc ∧ unary = .ok (desc.methods.foldl Handlers.insert .empty) ∧
      streams = .ok (desc.streams.foldl Handlers.insert .empty) ∨
    ∃ err, Mismatch sd desc err ∧
      (unary = .error err ∨ ∃ h, unary = .ok h ∧ streams = .error err) := by
  intro unary streams
  obtain ⟨methods, ok⟩ | ⟨m, mem, refused, error⟩ := enrollAll sd desc.serviceName notUnary
    (fun m => .streaming desc.serviceName m.name) .empty desc.methods
  · obtain ⟨streams, ok'⟩ | ⟨m, mem, refused, error⟩ := enrollAll sd desc.serviceName
      notServerStreaming (fun m => .notStreaming desc.serviceName m.name) .empty desc.streams
    · exact .inl ⟨⟨methods, streams⟩, ok, ok'⟩
    · refine .inr ⟨_, ?_, .inr ⟨_, ok, error⟩⟩
      split
      · next unknown => exact .undeclared (List.mem_append_right _ mem) unknown
      · next known =>
        obtain ⟨md, declared, kind⟩ := exists_of_not_admits refused known
        exact .notStreaming mem declared kind
  · refine .inr ⟨_, ?_, .inl error⟩
    split
    · next unknown => exact .undeclared (List.mem_append_left _ mem) unknown
    · next known =>
      obtain ⟨md, declared, kind⟩ := exists_of_not_admits refused known
      exact .streaming mem declared kind

/-- A registration succeeds with what is accepted, or its error says why it was refused. -/
theorem register_cases (b : Bus) (desc : Option ServiceDesc) (impl : Option GoType)
    (opts : List ServiceOption) :
    (∃ d got sd s, desc = some d ∧ impl = some got ∧ Accepts b d got (b.options opts) sd ∧
      register b desc impl opts = .ok s ∧ Registers sd d (b.options opts) s) ∨
    ∃ err, register b desc impl opts = .error err ∧ Refuses b desc impl (b.options opts) err := by
  unfold register
  split
  · next err invalid =>
    obtain ⟨none, -⟩ | ⟨err', eq, wrong⟩ := (b.options opts).validate_cases
    · simp [none] at invalid
    · cases invalid.symm.trans eq
      exact .inr ⟨_, rfl, .options wrong⟩
  next checked =>
  have valid := ServiceOptions.validate_eq_none.mp checked
  split
  · exact .inr ⟨_, rfl, .nilImpl rfl⟩
  · exact .inr ⟨_, rfl, .nilDesc rfl⟩
  next got d =>
  obtain ⟨fine, typed⟩ | ⟨err, wrong, refuses⟩ :=
    checkHandlerType_cases b d got (b.options opts)
  · simp only [fine]
    split
    · next unknown => exact .inr ⟨_, rfl, .unknownService rfl unknown⟩
    · next sd found =>
      obtain ⟨admits, unary, streams⟩ | ⟨err, mismatch, error | ⟨h, unary, error⟩⟩ :=
        enroll_cases sd d
      · rw [unary, streams]
        exact .inl ⟨d, got, sd, _, rfl, rfl, ⟨valid, typed, found, admits⟩, rfl,
          rfl, rfl, rfl, rfl, rfl⟩
      · rw [error]
        exact .inr ⟨_, rfl, .mismatch rfl found mismatch⟩
      · rw [unary, error]
        exact .inr ⟨_, rfl, .mismatch rfl found mismatch⟩
  · simp only [wrong]
    exact .inr ⟨_, rfl, refuses⟩

theorem register_of_accepts {opts : List ServiceOption}
    (accepts : Accepts b desc got (b.options opts) sd) :
    ∃ s, register b (some desc) (some got) opts = .ok s ∧ Registers sd desc (b.options opts) s := by
  obtain ⟨d, t, sd', s, eq, eq', accepts', ok, registers⟩ | ⟨err, -, refuses⟩ :=
    register_cases b (some desc) (some got) opts
  · cases eq
    cases eq'
    cases accepts.found.symm.trans accepts'.found
    exact ⟨s, ok, registers⟩
  · exact absurd accepts refuses.not_accepts

theorem accepts_of_register {desc : Option ServiceDesc} {impl : Option GoType}
    {opts : List ServiceOption} {s : Service} (ok : register b desc impl opts = .ok s) :
    ∃ d got sd, desc = some d ∧ impl = some got ∧ Accepts b d got (b.options opts) sd ∧
      Registers sd d (b.options opts) s := by
  obtain ⟨d, got, sd, s', eq, eq', accepts, ok', registers⟩ | ⟨err, error, -⟩ :=
    register_cases b desc impl opts
  · cases ok.symm.trans ok'
    exact ⟨d, got, sd, eq, eq', accepts, registers⟩
  · cases ok.symm.trans error

section
variable {impl : Option GoType} {opts : List ServiceOption}

theorem registers_of_register {s : Service} (found : b.files.find desc.serviceName = some sd)
    (ok : register b (some desc) impl opts = .ok s) :
    ∃ got, impl = some got ∧ Accepts b desc got (b.options opts) sd ∧
      Registers sd desc (b.options opts) s := by
  obtain ⟨d, got, sd', given, made, accepts, registers⟩ := accepts_of_register ok
  cases given
  cases found.symm.trans accepts.found
  exact ⟨got, made, accepts, registers⟩

/-- On a bus that knows the service of the descriptor. -/
theorem exists_register_iff (found : b.files.find desc.serviceName = some sd) :
    (∃ s, register b (some desc) impl opts = .ok s) ↔
      ∃ got, impl = some got ∧ Accepts b desc got (b.options opts) sd := by
  constructor
  · rintro ⟨s, ok⟩
    obtain ⟨got, made, accepts, -⟩ := registers_of_register found ok
    exact ⟨got, made, accepts⟩
  · rintro ⟨got, rfl, accepts⟩
    obtain ⟨s, ok, -⟩ := register_of_accepts accepts
    exact ⟨s, ok⟩

end

/-! ## Requests for what is registered -/

/-- A declared method without a handler is answered with an error. -/
def Service.served (s : Service) (md : MethodDescriptor) (method : Bytes) (env : Request) :
    Except Rejection Invocation :=
  match s.handler md method env with
  | some inv => .ok inv
  | none => .error ⟨env.method, lit "invalid service method " ++ method⟩

theorem resolve_declared {s : Service} {label method : Bytes} {env : Request}
    {md : MethodDescriptor}
    (split : splitMethodName env.method = some (s.contract.fullName, method))
    (declared : s.contract.byName method = some md) :
    s.resolve label env = s.served md method env := by
  unfold Service.resolve Service.served Service.handler
  simp only [split, declared, ne_eq, not_true_eq_false, if_false]
  cases md.streamingServer with
  | true => cases s.streams.find method <;> rfl
  | false => cases s.unary.find method <;> rfl

/-- A client that knows a service by its runtime name sends it a request for a method of some
contract. -/
theorem dispatch_request {pw : Protowire} (laws : pw.Lawful) {s : Service} {c : Client}
    {sd : ServiceDescriptor} (sound : c.err = false) (contract : c.contract = sd.fullName)
    (runtime : s.name = c.runtime) {method actor data : Bytes} (ident : isIdent method = true)
    (text : validUTF8 actor = true)
    (fits : Request.Fits ⟨sd.fullName ++ lit "." ++ method, actor, data⟩) :
    splitMethodName (sd.fullName ++ lit "." ++ method) = some (sd.fullName, method) ∧
    ∃ body, c.envelope pw method actor data = some body ∧
      ∀ d : Delivery, d.routingKey = c.routingKey method → d.body = body →
        s.dispatch pw d = s.resolve (s.contract.fullName ++ lit "." ++ method)
          ⟨sd.fullName ++ lit "." ++ method, actor, data⟩ := by
  have word := dot_not_mem_of_isIdent ident
  rw [← contract] at fits ⊢
  constructor
  · refine splitMethodName_eq_some.mpr ⟨append_lit_dot .., ?_, ?_, word⟩
    · intro empty
      have valid := sd.fullName_valid
      rw [← contract, empty] at valid
      cases valid
    · rintro rfl
      cases ident
  have built : c.envelope pw method actor data =
      some (appendRequest pw .nil ⟨c.contract ++ lit "." ++ method, actor, data⟩).data := by
    simp [Client.envelope, sound]
  refine ⟨_, built, fun d key body => ?_⟩
  have envText : Request.Text ⟨c.contract ++ lit "." ++ method, actor, data⟩ := by
    refine ⟨?_, text⟩
    change validUTF8 (c.contract ++ lit "." ++ method) = true
    rw [append_lit_dot, contract]
    exact validUTF8_concat sd.fullName_valid ident
  have decoded := decodeRequest_envelope laws built fits envText
  rw [← body] at decoded
  exact dispatch_routingKey word runtime key decoded rfl

variable {pw : Protowire} {s : Service} {c : Client} {method actor data : Bytes}

/-- A request for a method that the contract of the service declares. -/
theorem dispatch_declared (laws : pw.Lawful) (sound : c.err = false)
    (contract : c.contract = s.contract.fullName) (runtime : s.name = c.runtime)
    {md : MethodDescriptor} (declared : s.contract.byName method = some md)
    (text : validUTF8 actor = true)
    (fits : Request.Fits ⟨s.contract.fullName ++ lit "." ++ method, actor, data⟩) :
    ∃ body, c.envelope pw method actor data = some body ∧
      ∀ d : Delivery, d.routingKey = c.routingKey method → d.body = body →
        s.dispatch pw d =
          s.served md method ⟨s.contract.fullName ++ lit "." ++ method, actor, data⟩ := by
  have ident := s.contract.isIdent_of_byName declared
  obtain ⟨split, body, built, dispatched⟩ :=
    dispatch_request laws sound contract runtime ident text fits
  exact ⟨body, built, fun d key same =>
    (dispatched d key same).trans (resolve_declared split declared)⟩

/-- The client of the service's own instance. -/
theorem dispatch_own (laws : pw.Lawful) {md : MethodDescriptor}
    (declared : s.contract.byName method = some md) (text : validUTF8 actor = true)
    (fits : Request.Fits ⟨s.contract.fullName ++ lit "." ++ method, actor, data⟩) :
    ∃ body, (newClient s.contract.fullName s.opts.inst).envelope pw method actor data =
        some body ∧
      ∀ d : Delivery,
        d.routingKey = (newClient s.contract.fullName s.opts.inst).routingKey method →
        d.body = body → s.dispatch pw d =
          s.served md method ⟨s.contract.fullName ++ lit "." ++ method, actor, data⟩ := by
  have sound : (newClient s.contract.fullName s.opts.inst).err = false := by
    simp [newClient, s.opts_valid.inst]
  exact dispatch_declared laws sound rfl s.name_eq declared text fits

/-- A request for a method of another contract is refused. -/
theorem dispatch_foreign (laws : pw.Lawful) (sound : c.err = false)
    (contract : c.contract = sd.fullName) (foreign : sd.fullName ≠ s.contract.fullName)
    (runtime : s.name = c.runtime) (ident : isIdent method = true)
    (text : validUTF8 actor = true)
    (fits : Request.Fits ⟨sd.fullName ++ lit "." ++ method, actor, data⟩) :
    ∃ body, c.envelope pw method actor data = some body ∧
      ∀ d : Delivery, d.routingKey = c.routingKey method → d.body = body →
        s.dispatch pw d = .error ⟨s.contract.fullName ++ lit "." ++ method,
          lit "request method " ++ (sd.fullName ++ lit "." ++ method) ++
            lit " is not a method of " ++ s.contract.fullName⟩ := by
  obtain ⟨split, body, built, dispatched⟩ :=
    dispatch_request laws sound contract runtime ident text fits
  refine ⟨body, built, fun d key same => (dispatched d key same).trans ?_⟩
  simp only [Service.resolve, split, ne_eq, foreign, not_false_eq_true, if_true]

theorem ab_isFullName : isFullName (lit "a.b") = true := by decide

end Protobus.Rpc
