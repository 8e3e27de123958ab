import Protobus.Rpc.Dispatch
import Protobus.Wire.Codec

/-!
# Client and service agree on addresses

The client's key, the binding of the queue and the checks of `handle` are put together from names
in different places. A key is for the services of one runtime name only, whatever the numbers of
dots. The runtime name does not tell where the contract ends and the instance begins: the
instance `c` of the contract `a.b` and the contract `a.b.c` share a queue, and a service refuses
the requests for the other.
-/
namespace Protobus.Rpc
open Library Consumer Topic
open Wire hiding Event

/-- The key of a client is for the services that run under its name. -/
theorem binding_routingKey (t : Service) (c : Client) {method : Bytes} (word : dot ∉ method) :
    topicMatch (splitDots t.binding) (splitDots (c.routingKey method)) = true ↔
      t.name = c.runtime := by
  rw [t.binding_iff]
  unfold Client.routingKey
  constructor
  · rintro ⟨w, absent, eq⟩
    rw [append_lit_dot, append_lit_dot] at eq
    exact (List.append_cancel_left (append_dot_inj word absent eq).1).symm
  · intro eq
    exact ⟨method, word, by rw [eq]⟩

/-- The envelope of a client is read back as it was built. -/
theorem decodeRequest_envelope {pw : Protowire} (laws : pw.Lawful) {c : Client}
    {method actor data body : Bytes} (built : c.envelope pw method actor data = some body)
    (fits : Request.Fits ⟨c.contract ++ lit "." ++ method, actor, data⟩)
    (text : Request.Text ⟨c.contract ++ lit "." ++ method, actor, data⟩) :
    decodeRequest pw body = (⟨c.contract ++ lit "." ++ method, actor, data⟩, none) := by
  simp only [Client.envelope, Option.ite_none_left_eq_some, Option.some.injEq] at built
  obtain ⟨-, rfl⟩ := built
  rw [appendRequest_data laws _ _ fits]
  exact decodeRequest_fields laws _ fits text

/-- A request that a client sends to a service of its runtime name. -/
theorem dispatch_routingKey {pw : Protowire} {t : Service} {c : Client} {d : Delivery}
    {env : Request} {method : Bytes} (word : dot ∉ method)
    (named : t.name = c.runtime) (key : d.routingKey = c.routingKey method)
    (decoded : decodeRequest pw d.body = (env, none))
    (full : env.method = c.contract ++ lit "." ++ method) :
    t.dispatch pw d = t.resolve (t.contract.fullName ++ lit "." ++ method) env := by
  have keyed : d.routingKey ≠ [] := by
    rw [key, Client.routingKey, append_lit_dot]
    simp
  have last : lastSegment d.routingKey = method := by
    rw [key, Client.routingKey, append_lit_dot, lastSegment_append _ word]
  have same : lastSegment env.method = method := by
    rw [full, append_lit_dot, lastSegment_append _ word]
  have begins : (lit "REQUEST." ++ t.name ++ lit ".").isPrefixOf d.routingKey = true := by
    have front : lit "REQUEST." ++ t.name ++ lit "." <+: d.routingKey := by
      rw [key, Client.routingKey, named]
      exact List.prefix_append _ _
    exact List.isPrefixOf_iff_prefix.mpr front
  unfold Service.dispatch
  rw [decoded]
  simp only [keyed, if_false, last, same, begins, Bool.not_true, Bool.false_eq_true, ne_eq,
    not_true_eq_false]

/-- What such a service makes of the request: it runs the method if it serves the client's
contract and has a handler for it. -/
theorem resolve_eq_ok_iff {t : Service} {sd : ServiceDescriptor} {label method : Bytes}
    {env : Request} {inv : Invocation} (ident : isIdent method = true)
    (full : env.method = sd.fullName ++ lit "." ++ method) :
    t.resolve label env = .ok inv ↔ t.contract.fullName = sd.fullName ∧
      ∃ md, t.contract.byName method = some md ∧ t.handler md method env = some inv := by
  have word := dot_not_mem_of_isIdent ident
  have split : splitMethodName env.method = some (sd.fullName, method) := by
    refine splitMethodName_eq_some.mpr ⟨?_, ?_, ?_, word⟩
    · rw [full, append_lit_dot]
    · intro empty
      have valid := sd.fullName_valid
      rw [empty] at valid
      cases valid
    · rintro rfl
      cases ident
  rw [Service.resolve_eq_ok, split]
  simp only [Option.some.injEq, Prod.mk.injEq]
  constructor
  · rintro ⟨_, md, ⟨same, rfl⟩, declared, found⟩
    exact ⟨same.symm, md, declared, found⟩
  · rintro ⟨same, md, declared, found⟩
    exact ⟨method, md, ⟨same.symm, rfl⟩, declared, found⟩

theorem ServiceDescriptor.isIdent_of_byName {sd : ServiceDescriptor} {method : Bytes}
    {md : MethodDescriptor} (declared : sd.byName method = some md) : isIdent method = true := by
  have named : md.name = method := by simpa using List.find?_some declared
  rw [← named]
  exact sd.methods_valid md (List.mem_of_find?_eq_some declared)

/-- For a client of the contract `sd`, with a valid instance name or none, and a method that the
contract declares: the binding of a service matches the client's key exactly if the service runs
under the client's runtime name. Such a service reads the client's envelope and runs its handler
of the method, if it serves that contract and has one, and refuses the request otherwise. -/
theorem addressing_exact {pw : Protowire} (laws : pw.Lawful) (sd : ServiceDescriptor)
    {inst method : Bytes} {md : MethodDescriptor} (valid : validInstance inst = true)
    (declared : sd.byName method = some md) :
    (∀ t : Service, topicMatch (splitDots t.binding)
        (splitDots ((newClient sd.fullName inst).routingKey method)) = true ↔
      t.name = (newClient sd.fullName inst).runtime) ∧
    (∀ actor data, validUTF8 actor = true →
      Request.Fits ⟨sd.fullName ++ lit "." ++ method, actor, data⟩ →
      ∃ body, (newClient sd.fullName inst).envelope pw method actor data = some body ∧
        ∀ (t : Service) (d : Delivery), t.name = (newClient sd.fullName inst).runtime →
          d.routingKey = (newClient sd.fullName inst).routingKey method → d.body = body →
          ∀ inv, t.dispatch pw d = .ok inv ↔ t.contract.fullName = sd.fullName ∧
            ∃ md, t.contract.byName method = some md ∧
              t.handler md method ⟨sd.fullName ++ lit "." ++ method, actor, data⟩ = some inv) := by
  have ident := sd.isIdent_of_byName declared
  have word := dot_not_mem_of_isIdent ident
  refine ⟨fun t => binding_routingKey t _ word, ?_⟩
  intro actor data actorText fits
  have built : (newClient sd.fullName inst).envelope pw method actor data =
      some (appendRequest pw .nil ⟨sd.fullName ++ lit "." ++ method, actor, data⟩).data := by
    simp [Client.envelope, newClient, valid]
  have text : Request.Text ⟨sd.fullName ++ lit "." ++ method, actor, data⟩ := by
    refine ⟨?_, actorText⟩
    change validUTF8 (sd.fullName ++ lit "." ++ method) = true
    rw [append_lit_dot]
    exact validUTF8_concat sd.fullName_valid ident
  refine ⟨_, built, ?_⟩
  intro t d named key body inv
  have decoded := decodeRequest_envelope laws built fits text
  rw [← body] at decoded
  rw [dispatch_routingKey word named key decoded rfl]
  exact resolve_eq_ok_iff ident rfl

theorem one_valid : 1 ≤ (1 : Int) ∧ (1 : Int) ≤ 65535 := by decide

/-- A contract with the unary method `m`. -/
def contractOf (fullName : Bytes) (valid : isFullName fullName = true) : ServiceDescriptor where
  fullName
  methods := [⟨lit "m", false, false⟩]
  fullName_valid := valid
  methods_valid := by
    intro md mem
    obtain rfl := List.mem_singleton.mp mem
    decide

/-- A service of that contract, with a handler for `m`. -/
def serviceOf (sd : ServiceDescriptor) (inst : Bytes) (valid : validInstance inst = true) :
    Service where
  serviceName := sd.fullName
  contract := sd
  opts := { ServiceOptions.defaults 1 with inst }
  unary := Handlers.empty.insert ⟨lit "m", 0⟩
  streams := .empty
  contract_named := rfl
  opts_valid := ServiceOptions.defaults_valid one_valid valid

theorem addressing_exact_instance :
    validInstance (lit "c") = true ∧
    ∃ body, (newClient (lit "a.b") (lit "c")).envelope .reference (lit "m") [] [7] = some body ∧
      (serviceOf (contractOf (lit "a.b") (by decide)) (lit "c") (by decide)).dispatch .reference
          { routingKey := (newClient (lit "a.b") (lit "c")).routingKey (lit "m"), body } =
        .ok (.unary ⟨lit "m", 0⟩ ⟨lit "a.b" ++ lit "." ++ lit "m", [], [7]⟩) := by
  have valid : validInstance (lit "c") = true := by decide
  have declared : (contractOf (lit "a.b") (by decide)).byName (lit "m") =
      some ⟨lit "m", false, false⟩ := rfl
  obtain ⟨body, built, served⟩ := (addressing_exact Protowire.reference_lawful
    (contractOf (lit "a.b") (by decide)) valid declared).2 [] [7] (by decide)
    ⟨by decide, by decide, by decide⟩
  refine ⟨valid, body, built, ?_⟩
  exact (served (serviceOf _ (lit "c") valid) { routingKey := _, body } rfl rfl rfl _).mpr
    ⟨rfl, _, declared, rfl⟩

/-- The instance `c` of the contract `a.b` hears the clients of the contract `a.b.c`, and
refuses their requests for a method that it has a handler for. -/
theorem overheard_contract_refused :
    ∃ (t : Service) (sd : ServiceDescriptor) (md : MethodDescriptor) (d : Delivery),
      sd.byName (lit "m") = some md ∧ t.unary.find (lit "m") = some ⟨lit "m", 0⟩ ∧
      t.name = (newClient sd.fullName []).runtime ∧
      topicMatch (splitDots t.binding)
        (splitDots ((newClient sd.fullName []).routingKey (lit "m"))) = true ∧
      d.routingKey = (newClient sd.fullName []).routingKey (lit "m") ∧
      (newClient sd.fullName []).envelope .reference (lit "m") [] [] = some d.body ∧
      t.dispatch .reference d = .error ⟨lit "a.b.m",
        lit "request method a.b.c.m is not a method of a.b"⟩ := by
  refine ⟨serviceOf (contractOf (lit "a.b") (by decide)) (lit "c") (by decide),
    contractOf (lit "a.b.c") (by decide), ⟨lit "m", false, false⟩,
    { routingKey := lit "REQUEST.a.b.c.m"
      body := (appendRequest .reference .nil ⟨lit "a.b.c.m", [], []⟩).data }, ?_⟩
  refine ⟨rfl, rfl, by decide, ?_, by decide, rfl, rfl⟩
  exact (binding_routingKey _ _ (by decide)).mpr (by decide)

end Protobus.Rpc
