import Protobus.Generator.GoName
import Protobus.Rpc.Registration

/-!
# Generated bindings

For each service of a file the generator writes a descriptor for `Register`, whose handlers call
the methods of a Go interface, and a client with methods of the same names. The names meet in two
places: the descriptor lists the methods under the names of the contract, in two lists by their
kind, and the Go names are made from those by `GoCamelCase`, which can take two names to one.
-/
namespace Protobus.Generator
open Library Rpc Consumer Wire

/-! ## What is generated -/

/-- An entry of `Methods` or `Streams`: the name it is registered under, the method of the server
interface that its handler calls, and the `FullMethod` that interceptors are shown. -/
structure Entry where
  methodName : Bytes
  goName : Bytes
  fullMethod : Bytes

/-- A method of the client, which invokes `method`, as a stream if it is one. -/
structure Stub where
  goName : Bytes
  method : Bytes
  streaming : Bool

/-- `server` are the methods of the server interface; a method's signature goes with its Go name. -/
structure Bindings where
  serviceName : Bytes
  server : List Bytes
  methods : List Entry
  streams : List Entry
  stubs : List Stub

def entryOf (sd : ServiceDescriptor) (m : MethodDescriptor) : Entry :=
  ⟨m.name, goCamelCase m.name, sd.fullName ++ lit "." ++ m.name⟩

def stubOf (m : MethodDescriptor) : Stub := ⟨goCamelCase m.name, m.name, m.streamingServer⟩

def genService (sd : ServiceDescriptor) : Bindings where
  serviceName := sd.fullName
  server := sd.methods.map (goCamelCase ·.name)
  methods := (sd.methods.filter (!·.streamingServer)).map (entryOf sd)
  streams := (sd.methods.filter (·.streamingServer)).map (entryOf sd)
  stubs := sd.methods.map stubOf

/-- The loop of `checkNameClashes`; `seen` maps Go names to the methods that have them. -/
def nameClash (service : Bytes) (seen : Bytes → Option Bytes) :
    List MethodDescriptor → Option Bytes
  | [] => none
  | m :: ms => match seen (goCamelCase m.name) with
    | some prev => some (lit "methods " ++ prev ++ lit " and " ++ m.name ++ lit " of " ++ service ++
        lit " both map to the Go name " ++ goCamelCase m.name)
    | none => nameClash service (Function.update seen (goCamelCase m.name) (some m.name)) ms

def checkNameClashes (sd : ServiceDescriptor) : Option Bytes :=
  nameClash sd.fullName (fun _ => none) sd.methods

/-- What `GenerateFileWith` has against a service of the file. -/
def checkService (path : Bytes) (sd : ServiceDescriptor) : Option Bytes :=
  match sd.methods.find? (·.streamingClient) with
  | some m => some (path ++ lit ": protobus does not support client streaming (method " ++
      sd.fullName ++ lit "." ++ m.name ++ lit ")")
  | none => (checkNameClashes sd).map fun err => path ++ lit ": " ++ err

/-- Nothing is generated for a file without services. -/
def generateFileWith (path : Bytes) (services : List ServiceDescriptor) :
    Except Bytes (Option (List Bindings)) :=
  if services.isEmpty then .ok none
  else match services.findSome? (checkService path) with
    | some err => .error err
    | none => .ok (some (services.map genService))

def numbered : Nat → List Entry → List MethodDesc
  | _, [] => []
  | i, e :: es => ⟨e.methodName, i⟩ :: numbered (i + 1) es

namespace Bindings
variable (b : Bindings)

/-- The descriptor for `Register`, with a pointer to the server interface. Its handlers are numbered
through both lists. -/
def desc : ServiceDesc where
  serviceName := b.serviceName
  handlerType := some ⟨[], some b.server⟩
  methods := numbered 0 b.methods
  streams := numbered b.methods.length b.streams

/-- The entry that a handler was registered from. -/
def entry (desc : MethodDesc) : Option Entry := (b.methods ++ b.streams)[desc.handler]?

end Bindings

/-! ## What is accepted -/

theorem nameClash_eq_none {service : Bytes} {seen : Bytes → Option Bytes}
    {ms : List MethodDescriptor} :
    nameClash service seen ms = none ↔ (ms.map (goCamelCase ·.name)).Nodup ∧
      ∀ m ∈ ms, seen (goCamelCase m.name) = none := by
  induction ms generalizing seen with
  | nil => simp [nameClash]
  | cons m ms ih =>
    rw [nameClash]
    cases taken : seen (goCamelCase m.name) with
    | some prev => simp [taken]
    | none =>
      simp only [ih, List.map_cons, List.nodup_cons, List.mem_cons, forall_eq_or_imp, taken,
        Function.update_apply]
      constructor
      · rintro ⟨distinct, free⟩
        refine ⟨⟨?_, distinct⟩, trivial, fun m' mem => ?_⟩
        · intro mem
          obtain ⟨m', mem, same⟩ := List.mem_map.mp mem
          have := free m' mem
          simp [same] at this
        · have := free m' mem
          split at this
          · cases this
          · exact this
      · rintro ⟨⟨fresh, distinct⟩, -, free⟩
        refine ⟨distinct, fun m' mem => ?_⟩
        rw [if_neg fun same => fresh (List.mem_map.mpr ⟨m', mem, same⟩)]
        exact free m' mem

/-- No method streams from the client, and no two have the same Go name. -/
structure Bindable (sd : ServiceDescriptor) : Prop where
  noClientStreams : ∀ m ∈ sd.methods, m.streamingClient = false
  goNames : (sd.methods.map (goCamelCase ·.name)).Nodup

theorem checkService_eq_none {path : Bytes} {sd : ServiceDescriptor} :
    checkService path sd = none ↔ Bindable sd := by
  unfold checkService
  cases streams : sd.methods.find? (·.streamingClient) with
  | some m =>
    refine iff_of_false (by simp) fun bindable => ?_
    have := bindable.noClientStreams m (List.mem_of_find?_eq_some streams)
    simp [List.find?_some streams] at this
  | none =>
    have none : ∀ m ∈ sd.methods, m.streamingClient = false := by
      simpa using List.find?_eq_none.mp streams
    simp only [Option.map_eq_none_iff, checkNameClashes, nameClash_eq_none]
    exact ⟨fun h => ⟨none, h.1⟩, fun h => ⟨h.goNames, by simp⟩⟩

theorem generateFileWith_eq_ok {path : Bytes} {services : List ServiceDescriptor}
    {bs : List Bindings} :
    generateFileWith path services = .ok (some bs) ↔
      services ≠ [] ∧ (∀ sd ∈ services, Bindable sd) ∧ bs = services.map genService := by
  unfold generateFileWith
  split
  · next empty => simp [List.isEmpty_iff.mp empty]
  · next nonempty =>
    have : services ≠ [] := fun eq => nonempty (by simp [eq])
    cases found : services.findSome? (checkService path) with
    | some err =>
      refine iff_of_false (by simp) fun h => ?_
      obtain ⟨sd, mem, eq⟩ := List.exists_of_findSome?_eq_some found
      simp [checkService_eq_none.mpr (h.2.1 sd mem)] at eq
    | none =>
      have all : ∀ sd ∈ services, Bindable sd := fun sd mem =>
        checkService_eq_none.mp (List.findSome?_eq_none_iff.mp found sd mem)
      simp only [Except.ok.injEq, Option.some.injEq]
      exact ⟨fun eq => ⟨this, all, eq.symm⟩, fun h => h.2.2.symm⟩

/-! ## Calls through the bindings -/

theorem map_name_numbered (i : Nat) (es : List Entry) :
    (numbered i es).map (·.name) = es.map (·.methodName) := by
  induction es generalizing i with
  | nil => rfl
  | cons e es ih => simp [numbered, ih]

theorem exists_numbered {es : List Entry} {e : Entry} (mem : e ∈ es) (i : Nat) :
    ∃ j, es[j]? = some e ∧ ⟨e.methodName, i + j⟩ ∈ numbered i es := by
  induction es generalizing i with
  | nil => cases mem
  | cons e' es ih =>
    obtain rfl | mem := List.mem_cons.mp mem
    · exact ⟨0, rfl, List.mem_cons_self⟩
    · obtain ⟨j, get, there⟩ := ih mem (i + 1)
      refine ⟨j + 1, get, List.mem_cons_of_mem _ ?_⟩
      rwa [Nat.add_right_comm] at there

variable {sd : ServiceDescriptor}

theorem Bindable.names (h : Bindable sd) : (sd.methods.map (·.name)).Nodup := by
  have distinct : ((sd.methods.map (·.name)).map goCamelCase).Nodup := by
    simpa [List.map_map, Function.comp_def] using h.goNames
  exact distinct.of_map _

/-- A method that a service has is registered with the handler that was generated for it. -/
theorem find_entry {s : Service} {o : ServiceOptions} (bindable : Bindable sd)
    (registers : Registers sd (genService sd).desc o s) {m : MethodDescriptor}
    (mem : m ∈ sd.methods) :
    ∃ i, (genService sd).entry ⟨m.name, i⟩ = some (entryOf sd m) ∧
      (if m.streamingServer then s.streams else s.unary).find m.name = some ⟨m.name, i⟩ := by
  have distinct : ∀ p : MethodDescriptor → Bool, ∀ i,
      ((numbered i ((sd.methods.filter p).map (entryOf sd))).map (·.name)).Nodup := by
    intro p i
    rw [map_name_numbered, List.map_map]
    exact bindable.names.sublist (List.filter_sublist.map _)
  cases kind : m.streamingServer with
  | true =>
    have here : entryOf sd m ∈ (genService sd).streams :=
      List.mem_map_of_mem (List.mem_filter.mpr ⟨mem, kind⟩)
    obtain ⟨j, get, there⟩ := exists_numbered here (genService sd).methods.length
    refine ⟨(genService sd).methods.length + j, ?_, ?_⟩
    · rw [Bindings.entry, List.getElem?_append_right (by simp)]
      simpa using get
    · rw [if_pos rfl, registers.streams]
      exact Handlers.find_of_mem (distinct _ _) there
  | false =>
    have here : entryOf sd m ∈ (genService sd).methods :=
      List.mem_map_of_mem (List.mem_filter.mpr ⟨mem, by simp [kind]⟩)
    obtain ⟨j, get, there⟩ := exists_numbered here 0
    rw [Nat.zero_add] at there
    obtain ⟨bound, -⟩ := List.getElem?_eq_some_iff.mp get
    refine ⟨j, ?_, ?_⟩
    · rwa [Bindings.entry, List.getElem?_append_left bound]
    · rw [if_neg (by simp), registers.unary]
      exact Handlers.find_of_mem (distinct _ _) there

theorem byName_of_mem (bindable : Bindable sd) {m : MethodDescriptor} (mem : m ∈ sd.methods) :
    sd.byName m.name = some m := by
  unfold ServiceDescriptor.byName
  cases found : sd.methods.find? (·.name = m.name) with
  | none => simpa using List.find?_eq_none.mp found m mem
  | some other =>
    have same : other.name = m.name := by simpa using List.find?_some found
    rw [List.inj_on_of_nodup_map bindable.names (List.mem_of_find?_eq_some found) mem same]

/-- The descriptor lists each method in its kind. -/
theorem admitsAll_desc (bindable : Bindable sd) : AdmitsAll sd (genService sd).desc := by
  have admits : ∀ {p wrong : MethodDescriptor → Bool} {i : Nat},
      (∀ m ∈ sd.methods, p m = true → wrong m = false) →
      ∀ desc ∈ numbered i ((sd.methods.filter p).map (entryOf sd)), Admits sd wrong desc.name := by
    intro p wrong i right desc mem
    have named : desc.name ∈ (sd.methods.filter p).map (·.name) := by
      have := List.mem_map_of_mem (f := (·.name)) mem
      rwa [map_name_numbered, List.map_map] at this
    obtain ⟨m, listed, same⟩ := List.mem_map.mp named
    obtain ⟨mem, kind⟩ := List.mem_filter.mp listed
    rw [← same]
    exact ⟨m, byName_of_mem bindable mem, right m mem kind⟩
  refine ⟨admits fun m mem kind => ?_, admits fun m mem kind => ?_⟩
  · simpa [notUnary, bindable.noClientStreams m mem] using kind
  · simpa [notServerStreaming, bindable.noClientStreams m mem] using kind

theorem accepts_genService {bus : Bus} {got : GoType} {o : ServiceOptions} (bindable : Bindable sd)
    (found : bus.files.find sd.fullName = some sd) :
    Accepts bus (genService sd).desc got o sd ↔
      o.Valid ∧ ∀ m ∈ (genService sd).server, m ∈ got.methods := by
  constructor
  · rintro ⟨valid, typed, -, -⟩
    obtain ⟨iface, ⟨⟩, implements⟩ := typed _ rfl
    exact ⟨valid, by simpa [GoType.implements] using implements⟩
  · rintro ⟨valid, implements⟩
    refine ⟨valid, ?_, found, admitsAll_desc bindable⟩
    rintro ht ⟨⟩
    exact ⟨_, rfl, by simpa [GoType.implements] using implements⟩

/-- A file is refused exactly if a method of its services streams from the client or two methods of
one service have the same Go name. On a bus that knows the contract the bindings of an accepted file
register exactly if the options are valid and there is an implementation that has the methods of the
server interface. Every method of the generated client, for a valid actor, then reaches the handler
that calls the method of the server interface with the same Go name, and no other method of the
client has that name; the handler is of the right kind and shows interceptors the method that the
request names. -/
theorem client_method_calls_server_method {pw : Protowire} (laws : pw.Lawful) (path : Bytes)
    {services : List ServiceDescriptor} (some_service : services ≠ []) :
    ((∃ bs, generateFileWith path services = .ok (some bs)) ↔ ∀ sd ∈ services,
      (∀ m ∈ sd.methods, m.streamingClient = false) ∧
        (sd.methods.map (goCamelCase ·.name)).Nodup) ∧
    ∀ bs, generateFileWith path services = .ok (some bs) →
    ∀ b ∈ bs, ∃ sd ∈ services, b.serviceName = sd.fullName ∧
    ∀ (bus : Bus) (impl : Option GoType) (opts : List ServiceOption),
      bus.files.find sd.fullName = some sd →
    ((∃ s, register bus (some b.desc) impl opts = .ok s) ↔
      (bus.options opts).Valid ∧ ∃ got, impl = some got ∧ ∀ m ∈ b.server, m ∈ got.methods) ∧
    ∀ s, register bus (some b.desc) impl opts = .ok s → b.stubs.length = sd.methods.length ∧
    ∀ stub ∈ b.stubs, (∀ other ∈ b.stubs, other.goName = stub.goName → other = stub) ∧
    ∀ (actor data : Bytes) (env : Request),
      env = ⟨b.serviceName ++ lit "." ++ stub.method, actor, data⟩ →
      validUTF8 actor = true → env.Fits →
    ∃ body, (newClient b.serviceName s.opts.inst).envelope pw stub.method actor data = some body ∧
    ∀ d : Delivery,
      d.routingKey = (newClient b.serviceName s.opts.inst).routingKey stub.method →
      d.body = body →
    ∃ desc e, s.dispatch pw d = .ok (if stub.streaming then .stream desc env else .unary desc env) ∧
      b.entry desc = some e ∧ e.goName = stub.goName ∧ e.goName ∈ b.server ∧
      e.fullMethod = env.method := by
  constructor
  · constructor
    · rintro ⟨bs, ok⟩ sd mem
      obtain ⟨-, bindable, -⟩ := generateFileWith_eq_ok.mp ok
      exact ⟨(bindable sd mem).noClientStreams, (bindable sd mem).goNames⟩
    · intro bindable
      exact ⟨_, generateFileWith_eq_ok.mpr
        ⟨some_service, fun sd mem => ⟨(bindable sd mem).1, (bindable sd mem).2⟩, rfl⟩⟩
  intro bs ok b mem
  obtain ⟨-, all, rfl⟩ := generateFileWith_eq_ok.mp ok
  obtain ⟨sd, listed, rfl⟩ := List.mem_map.mp mem
  have bindable := all sd listed
  refine ⟨sd, listed, rfl, fun bus impl opts found => ⟨?_, fun s registered => ?_⟩⟩
  · rw [exists_register_iff found]
    simp only [accepts_genService bindable found]
    grind
  obtain ⟨got, -, -, registers⟩ := registers_of_register found registered
  refine ⟨List.length_map _, fun stub mem => ?_⟩
  obtain ⟨m, declared, rfl⟩ := List.mem_map.mp mem
  refine ⟨fun other mem same => ?_, ?_⟩
  · obtain ⟨m', declared', rfl⟩ := List.mem_map.mp mem
    rw [List.inj_on_of_nodup_map bindable.goNames declared' declared same]
  rintro actor data env rfl text fits
  obtain ⟨i, entry, held⟩ := find_entry bindable registers declared
  have contract := registers.contract
  subst contract
  obtain ⟨body, built, dispatched⟩ :=
    dispatch_own laws (byName_of_mem bindable declared) text fits
  refine ⟨body, built, fun d key same => ⟨⟨m.name, i⟩, _, ?_, entry, rfl, ?_, rfl⟩⟩
  · rw [dispatched d key same, Service.served]
    cases kind : m.streamingServer <;> simp_all [Service.handler, stubOf, genService]
  · exact List.mem_map_of_mem declared

/-- A contract with a method of either kind. -/
def shop : ServiceDescriptor where
  fullName := lit "a.b"
  methods := [⟨lit "get_all", false, false⟩, ⟨lit "watch", false, true⟩]
  fullName_valid := ab_isFullName
  methods_valid := by decide

def shopBus : Bus where
  files := { find name := if name = lit "a.b" then some shop else none, named := by simp [shop] }
  defaultPrefetch := 1
  prefetch_valid := one_valid

theorem client_method_calls_server_method_shop :
    ∃ b s body desc e, generateFileWith (lit "a.proto") [shop] = .ok (some [b]) ∧
      register shopBus (some b.desc) (some ⟨[lit "GetAll", lit "Watch", lit "Close"], none⟩)
        [.withInstance (lit "c"), .withMaxConcurrent 4] = .ok s ∧
      (newClient (lit "a.b") s.opts.inst).envelope .reference (lit "get_all") [] [7] = some body ∧
      s.dispatch .reference
        { routingKey := (newClient (lit "a.b") s.opts.inst).routingKey (lit "get_all"), body } =
          .ok (.unary desc ⟨lit "a.b.get_all", [], [7]⟩) ∧
      b.entry desc = some e ∧ e.goName = lit "GetAll" := by
  have generated : generateFileWith (lit "a.proto") [shop] = .ok (some [genService shop]) :=
    generateFileWith_eq_ok.mpr ⟨by simp, by
      intro sd mem
      obtain rfl := List.mem_singleton.mp mem
      exact ⟨by decide, by decide⟩, rfl⟩
  have valid : (shopBus.options [.withInstance (lit "c"), .withMaxConcurrent 4]).Valid :=
    { ServiceOptions.defaults_valid shopBus.prefetch_valid (by decide) with
      maxConcurrent := by decide }
  obtain ⟨sd, mem, -, registers⟩ := (client_method_calls_server_method
    Protowire.reference_lawful (lit "a.proto") (by simp)).2 _ generated
    (genService shop) (by simp)
  obtain rfl := List.mem_singleton.mp mem
  obtain ⟨accepts, calls⟩ := registers shopBus
    (some ⟨[lit "GetAll", lit "Watch", lit "Close"], none⟩)
    [.withInstance (lit "c"), .withMaxConcurrent 4] rfl
  obtain ⟨s, registered⟩ := accepts.mpr ⟨valid, _, rfl, by decide⟩
  obtain ⟨-, calls⟩ := calls s registered
  obtain ⟨-, reaches⟩ := calls (stubOf ⟨lit "get_all", false, false⟩) (by simp [genService, shop])
  obtain ⟨body, built, dispatched⟩ := reaches [] [7] _ rfl (by decide)
    ⟨by decide, by decide, by decide⟩
  obtain ⟨desc, e, eq, entry, named, -, -⟩ := dispatched { routingKey := _, body } rfl rfl
  exact ⟨_, s, body, desc, e, generated, registered, built, eq, entry, named.trans (by decide)⟩

end Protobus.Generator
