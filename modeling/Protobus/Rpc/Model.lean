import Protobus.Consumer.Model
import Protobus.Errors.Model
import Protobus.Library.Names
import Protobus.Rpc.Options
import Protobus.Wire.Envelope
import Mathlib.Logic.Function.Basic

/-!
# Services and clients

A service is registered under its contract's name, with an instance name behind it if it has one.
Its queue is bound to `REQUEST.<name>.*`, and `handle` decides from the routing key and the
envelope of a request whether one of its methods runs. A client builds both from the names it was
made with. What a method does is a parameter.
-/
namespace Protobus.Rpc
open Library Consumer Wire
open Errors (codeProtocol)

/-! ## Contracts -/

structure MethodDescriptor where
  name : Bytes
  streamingClient : Bool
  streamingServer : Bool

/-- A service as its `.proto` declares it. The library that reads it checks the names. -/
structure ServiceDescriptor where
  fullName : Bytes
  methods : List MethodDescriptor
  fullName_valid : isFullName fullName = true
  methods_valid : ∀ m ∈ methods, isIdent m.name = true

def ServiceDescriptor.byName (sd : ServiceDescriptor) (method : Bytes) : Option MethodDescriptor :=
  sd.methods.find? (·.name = method)

/-- The registry of files: what is found under a name has it. -/
structure Files where
  find : Bytes → Option ServiceDescriptor
  named : ∀ name sd, find name = some sd → sd.fullName = name

/-! ## Names -/

def runtimeName (service inst : Bytes) : Bytes :=
  if inst = [] then service else service ++ lit "." ++ inst

/-- The method is the final segment, so dotted packages work. -/
def splitMethodName (full : Bytes) : Option (Bytes × Bytes) :=
  match lastDot full with
  | none => none
  | some i => if i = 0 || i = full.length - 1 then none else some (full.take i, full.drop (i + 1))

def lastSegment (s : Bytes) : Bytes :=
  match lastDot s with
  | none => s
  | some i => s.drop (i + 1)

/-! ## Registration -/

/-- A method's name and what runs it. -/
structure MethodDesc where
  name : Bytes
  handler : Nat

/-- A Go type as far as `Register` looks at it: its methods, each with its signature, and for a
pointer to an interface those of the interface. -/
structure GoType where
  methods : List Bytes
  iface : Option (List Bytes) := none

def GoType.implements (t : GoType) (iface : List Bytes) : Bool := iface.all t.methods.contains

structure ServiceDesc where
  serviceName : Bytes
  handlerType : Option GoType
  methods : List MethodDesc
  streams : List MethodDesc

/-- The maps `unary` and `streams`. -/
structure Handlers where
  find : Bytes → Option MethodDesc
  named : ∀ method desc, find method = some desc → desc.name = method

def Handlers.empty : Handlers := ⟨fun _ => none, by simp⟩

def Handlers.insert (h : Handlers) (desc : MethodDesc) : Handlers where
  find := Function.update h.find desc.name (some desc)
  named := by
    intro method found eq
    rw [Function.update_apply] at eq
    split at eq
    · next same =>
      obtain rfl := Option.some.inj eq
      exact same.symm
    · exact h.named method found eq

structure Service where
  serviceName : Bytes
  contract : ServiceDescriptor
  opts : ServiceOptions
  unary : Handlers
  streams : Handlers
  contract_named : contract.fullName = serviceName
  opts_valid : opts.Valid

/-- The bus that a service is registered with; `Dial` has checked its configuration. -/
structure Bus where
  files : Files
  defaultPrefetch : Int
  prefetch_valid : 1 ≤ defaultPrefetch ∧ defaultPrefetch ≤ 65535

inductive RegisterError
  | options (err : OptionError)
  /-- `nil implementation` -/
  | nilImpl
  /-- `nil ServiceDesc` -/
  | nilDesc
  /-- `HandlerType must be a nil pointer to an interface, got %v` -/
  | handlerType (got : GoType)
  /-- `%v does not implement %v` -/
  | notImplemented (got : GoType) (iface : List Bytes)
  /-- `unknown service %q` -/
  | unknownService (name : Bytes)
  /-- `%s declares no method %q` -/
  | noMethod (service method : Bytes)
  /-- `%s.%s is streaming but registered as unary` -/
  | streaming (service method : Bytes)
  /-- `%s.%s is not server-streaming` -/
  | notStreaming (service method : Bytes)

/-- The options of a registration. -/
def Bus.options (b : Bus) (opts : List ServiceOption) : ServiceOptions :=
  opts.foldl ServiceOptions.applyService (.defaults b.defaultPrefetch)

def checkHandlerType (handlerType : Option GoType) (got : GoType) : Option RegisterError :=
  match handlerType with
  | none => none
  | some ht => match ht.iface with
    | none => some (.handlerType ht)
    | some iface => if got.implements iface then none else some (.notImplemented got iface)

/-- The kinds that `Register` refuses for an entry of `Methods`. -/
def notUnary (md : MethodDescriptor) : Bool := md.streamingServer || md.streamingClient

/-- The kinds that `Register` refuses for an entry of `Streams`. -/
def notServerStreaming (md : MethodDescriptor) : Bool := !md.streamingServer || md.streamingClient

def enroll (sd : ServiceDescriptor) (service : Bytes) (wrong : MethodDescriptor → Bool)
    (err : RegisterError) (h : Handlers) (desc : MethodDesc) : Except RegisterError Handlers :=
  match sd.byName desc.name with
  | none => .error (.noMethod service desc.name)
  | some md => if wrong md then .error err else .ok (h.insert desc)

def register (b : Bus) (desc : Option ServiceDesc) (impl : Option GoType)
    (opts : List ServiceOption) : Except RegisterError Service :=
  match checked : (b.options opts).validate with
  | some err => .error (.options err)
  | none => match impl, desc with
    | none, _ => .error .nilImpl
    | some _, none => .error .nilDesc
    | some got, some desc => match checkHandlerType desc.handlerType got with
      | some err => .error err
      | none => match found : b.files.find desc.serviceName with
        | none => .error (.unknownService desc.serviceName)
        | some sd => do
          let unary ← desc.methods.foldlM (fun h m => enroll sd desc.serviceName notUnary
            (.streaming desc.serviceName m.name) h m) .empty
          let streams ← desc.streams.foldlM (fun h m => enroll sd desc.serviceName
            notServerStreaming (.notStreaming desc.serviceName m.name) h m) .empty
          .ok {
            serviceName := desc.serviceName
            contract := sd
            opts := b.options opts
            unary
            streams
            contract_named := b.files.named _ _ found
            opts_valid := ServiceOptions.validate_eq_none.mp checked }

namespace Service
variable (s : Service)

def name : Bytes := runtimeName s.serviceName s.opts.inst

/-- The pattern of `requestSpec`. -/
def binding : Bytes := lit "REQUEST." ++ s.name ++ lit ".*"

def requestSpec (timeoutReply : Delivery → Failure → Bytes) : Spec where
  queue := s.name
  lateAck := !s.opts.earlyAck
  retry := if s.opts.retries then some (.of s.name s.opts.retry.maxRetries.toNat) else none
  dlqHandled := false
  timeoutReply := some timeoutReply

end Service

/-! ## Requests -/

structure Rejection where
  label : Bytes
  reason : Bytes

/-- The handler that is going to run, and the request it is given. -/
inductive Invocation
  | unary (desc : MethodDesc) (env : Request)
  | stream (desc : MethodDesc) (env : Request)

def Invocation.desc : Invocation → MethodDesc
  | unary desc _ | stream desc _ => desc

def Invocation.env : Invocation → Request
  | unary _ env | stream _ env => env

/-- The part of `handle` that finds the method, after the envelope has been decoded. -/
def Service.resolve (s : Service) (label : Bytes) (env : Request) : Except Rejection Invocation :=
  let contract := s.contract.fullName
  match splitMethodName env.method with
  | none => .error ⟨label, lit "request method " ++ env.method ++
      lit " is not a qualified method name"⟩
  | some (service, method) =>
    if service ≠ contract then .error ⟨label, lit "request method " ++ env.method ++
      lit " is not a method of " ++ contract⟩
    else match s.contract.byName method with
      | none => .error ⟨label, contract ++ lit " declares no method " ++ method⟩
      | some md =>
        let invalid : Rejection := ⟨env.method, lit "invalid service method " ++ method⟩
        if md.streamingServer then
          match s.streams.find method with
          | none => .error invalid
          | some desc => .ok (.stream desc env)
        else match s.unary.find method with
          | none => .error invalid
          | some desc => .ok (.unary desc env)

section
variable (pw : Protowire)

/-- The part of `handle` before a handler runs. -/
def Service.dispatch (s : Service) (d : Delivery) : Except Rejection Invocation :=
  match decodeRequest pw d.body with
  | (_, some _) => .error ⟨if d.routingKey = [] then lit "unknown" else d.routingKey,
      lit "request envelope did not decode"⟩
  | (env, none) =>
    let keyMethod := lastSegment (if d.routingKey = [] then env.method else d.routingKey)
    let label := s.contract.fullName ++ lit "." ++ keyMethod
    if d.routingKey = [] then s.resolve label env
    else if !(lit "REQUEST." ++ s.name ++ lit ".").isPrefixOf d.routingKey then
      .error ⟨label, lit "routing key " ++ d.routingKey ++ lit " does not belong to service " ++
        s.name⟩
    else if keyMethod ≠ lastSegment env.method then
      .error ⟨label, lit "request method " ++ env.method ++ lit " contradicts routing key " ++
        d.routingKey⟩
    else s.resolve label env

def encodeError (method code message : Bytes) : Bytes :=
  (appendResponse pw .nil ⟨none, some ⟨method, message, code⟩⟩).1.data

def rejection (r : Rejection) : HandlerResult :=
  { reply := some (encodeError pw r.label codeProtocol r.reason) }

/-- An error of a handler, as `failure` and `sanitizeForCaller` see it. -/
inductive CallError
  | payload
  | unimplemented
  | answerable (code message : Bytes)
  | internal (err : Failure) (code message : Bytes)

def failure (method : Bytes) : CallError → HandlerResult
  | .payload =>
    rejection pw ⟨method, lit "payload did not decode as the request type of " ++ method⟩
  | .unimplemented =>
    rejection pw ⟨method, lit "invalid service method " ++ lastSegment method⟩
  | .answerable code message => { reply := some (encodeError pw method code message) }
  | .internal err code message =>
    { err := some err, errReply := some (encodeError pw method code message) }

def Service.handle (s : Service) (unary : MethodDesc → Request → Except CallError Bytes)
    (serveStream : MethodDesc → Request → HandlerResult) (d : Delivery) : HandlerResult :=
  match s.dispatch pw d with
  | .error r => rejection pw r
  | .ok (.stream desc env) => serveStream desc env
  | .ok (.unary desc env) => match unary desc env with
    | .error err => failure pw env.method err
    | .ok data => { reply := some (appendResponse pw .nil ⟨some ⟨env.method, data⟩, none⟩).1.data }

/-! ## Clients -/

/-- `err` says that the instance name is not valid. -/
structure Client where
  contract : Bytes
  runtime : Bytes
  err : Bool

def newClient (service inst : Bytes) : Client :=
  ⟨service, runtimeName service inst, !validInstance inst⟩

namespace Client
variable (c : Client)

def routingKey (method : Bytes) : Bytes := lit "REQUEST." ++ c.runtime ++ lit "." ++ method

/-- The request for a message that was marshalled to `data`. -/
def envelope (method actor data : Bytes) : Option Bytes :=
  if c.err then none
  else some (appendRequest pw .nil ⟨c.contract ++ lit "." ++ method, actor, data⟩).data

end Client

end

end Protobus.Rpc
