import Protobus.Library.Bytes
import Mathlib.Data.List.Basic

/-!
# Errors

The errors a handler may return are trees: an error may wrap another or join several. Some nodes
are the library's own (`HandledError`, `RemoteError`, `processingTimeoutError`, `PublishError` and
its sentinels), the others are known by what their type shows. The library reads such a tree in
four ways: `errors.As` looks through it in preorder, `ErrorCode` has a walk of its own over joins,
`innermostNamed` follows single wrappers only, and `Error` prints the node at the top.
-/
namespace Protobus.Errors
open Library

def codeHandled : Bytes := lit "HANDLED_ERROR"
def codeProtocol : Bytes := lit "PROTOCOL_ERROR"
def codeInternal : Bytes := lit "INTERNAL_ERROR"
def codeProcessingTimeout : Bytes := lit "PROCESSING_TIMEOUT"

/-! ## Durations as text -/

def decimal (n : Nat) : Bytes := (Nat.toDigits 10 n).map fun c => UInt8.ofNat c.toNat

/-- `fmtFrac` of package time: the fraction `v / 10 ^ prec` without its trailing zeros in front of
`out`, and the whole part. -/
def fmtFrac : Nat → Nat → Bool → Bytes → Bytes × Nat
  | 0, v, print, out => (if print then 46 :: out else out, v)
  | prec + 1, v, print, out =>
    let print := print || v % 10 ≠ 0
    fmtFrac prec (v / 10) print (if print then UInt8.ofNat (48 + v % 10) :: out else out)

/-- `time.Duration.String` of a number of nanoseconds. -/
def durationString (d : Int) : Bytes :=
  let u := d.natAbs
  let sign := if d < 0 then lit "-" else []
  if u = 0 then lit "0s"
  else if u < 1000000000 then
    let (prec, unit) :=
      if u < 1000 then (0, lit "ns")
      -- the micro sign is two bytes
      else if u < 1000000 then (3, [0xC2, 0xB5, 115])
      else (6, lit "ms")
    let (frac, whole) := fmtFrac prec u false unit
    sign ++ decimal whole ++ frac
  else
    let (frac, secs) := fmtFrac 9 u false (lit "s")
    let tail := decimal (secs % 60) ++ frac
    let mins := secs / 60
    if mins = 0 then sign ++ tail
    else
      let tail := decimal (mins % 60) ++ lit "m" ++ tail
      let hours := mins / 60
      if hours = 0 then sign ++ tail else sign ++ decimal hours ++ lit "h" ++ tail

/-! ## The trees -/

/-- The sentinels that have a code. -/
inductive Sentinel
  | rpcTimeout
  | notReady
  | publishNacked
  | unroutable
  | publishConfirmTimeout
  | channelClosed
deriving DecidableEq

def Sentinel.code : Sentinel → Bytes
  | .rpcTimeout => lit "RPC_TIMEOUT"
  | .notReady => lit "NOT_READY"
  | .publishNacked => lit "PUBLISH_NACKED"
  | .unroutable => lit "UNROUTABLE"
  | .publishConfirmTimeout => lit "PUBLISH_CONFIRM_TIMEOUT"
  | .channelClosed => lit "CHANNEL_CLOSED"

def Sentinel.text : Sentinel → Bytes
  | .rpcTimeout => lit "protobus: rpc timed out"
  | .notReady => lit "protobus: connection not ready"
  | .publishNacked => lit "protobus: broker nacked the publish"
  | .unroutable => lit "protobus: message was unroutable"
  | .publishConfirmTimeout => lit "protobus: no broker confirm in time"
  | .channelClosed => lit "protobus: channel closed before the broker confirmed"

/-- What the type of an error from elsewhere shows: its name without pointers (empty for a type
that has none), and the answers of `errorName`, `ErrorCode` and `Code` if it has these methods. -/
structure Kind where
  typeName : Bytes
  className : Option Bytes := none
  coder : Option Bytes := none
  foreignCoder : Option Bytes := none
deriving DecidableEq

/-- The fields of a `PublishError` beside the error. -/
structure PublishInfo where
  messageId : Bytes := []
  exchange : Bytes := []
  routingKey : Bytes := []
  detail : Bytes := []
deriving DecidableEq

/-- An error. A wrapper of nothing is a `plain` one, and the nil members of a join, which every
reader skips, are left out. -/
inductive Err
  | handled (code message : Bytes)
  | remote (method code message : Bytes)
  | timeout (correlationId : Bytes) (limit : Int)
  | sentinel (s : Sentinel)
  | publish (err : Err) (info : PublishInfo)
  | plain (kind : Kind) (text : Bytes)
  | wrap (kind : Kind) (text : Bytes) (inner : Err)
  | join (kind : Kind) (text : Bytes) (inner : List Err)

def newHandledError (code message : Bytes) : Err :=
  .handled (if code = [] then codeHandled else code) message

namespace Err

/-- Induction over a tree, with the hypothesis for each member of a join. -/
theorem induct {P : Err → Prop} (handled : ∀ code message, P (.handled code message))
    (remote : ∀ method code message, P (.remote method code message))
    (timeout : ∀ correlationId limit, P (.timeout correlationId limit))
    (sentinel : ∀ s, P (.sentinel s))
    (publish : ∀ err info, P err → P (.publish err info))
    (plain : ∀ kind text, P (.plain kind text))
    (wrap : ∀ kind text inner, P inner → P (.wrap kind text inner))
    (join : ∀ kind text inner, (∀ e ∈ inner, P e) → P (.join kind text inner)) (e : Err) : P e := by
  refine @Err.rec P (fun es => ∀ e ∈ es, P e) handled remote timeout sentinel publish plain wrap
    join ?_ ?_ e
  · intro e mem
    cases mem
  · intro head tail hhead htail e mem
    rcases List.mem_cons.mp mem with rfl | mem
    · exact hhead
    · exact htail e mem

def publishErrorText (err : Bytes) (info : PublishInfo) : Bytes :=
  let dest := if info.exchange ≠ [] then info.exchange ++ lit " -> " ++ info.routingKey
    else info.routingKey
  let msg := err ++ lit " (" ++ dest ++ lit ", messageId " ++ info.messageId ++ lit ")"
  if info.detail ≠ [] then msg ++ lit ": " ++ info.detail else msg

/-- `err.Error()`. -/
def error : Err → Bytes
  | .handled _ message => message
  | .remote method code message =>
    if code = [] then lit "protobus: " ++ method ++ lit ": " ++ message
    else lit "protobus: " ++ method ++ lit ": " ++ code ++ lit ": " ++ message
  | .timeout correlationId limit =>
    lit "message " ++ correlationId ++ lit " exceeded the " ++ durationString limit
      ++ lit " processing timeout"
  | .sentinel s => s.text
  | .publish err info => publishErrorText err.error info
  | .plain _ text => text
  | .wrap _ text _ => text
  | .join _ text _ => text

/-! ## `errors.As` -/

mutual
/-- `errors.As`: the first node in preorder that is a target. -/
def as {α : Type} (target : Err → Option α) : Err → Option α
  | .publish err info => (target (.publish err info)).or (as target err)
  | .wrap kind text inner => (target (.wrap kind text inner)).or (as target inner)
  | .join kind text inner => (target (.join kind text inner)).or (asAny target inner)
  | e => target e

def asAny {α : Type} (target : Err → Option α) : List Err → Option α
  | [] => none
  | e :: es => (as target e).or (asAny target es)
end

/-- The target `*HandledError`, as code and message. -/
def toHandled : Err → Option (Bytes × Bytes)
  | .handled code message => some (code, message)
  | _ => none

/-- The target `*RemoteError`. -/
def toRemote : Err → Option (Bytes × Bytes)
  | .remote _ code message => some (code, message)
  | _ => none

/-- The target `*processingTimeoutError`, as its text. -/
def toTimeout : Err → Option Bytes
  | .timeout correlationId limit => some (error (.timeout correlationId limit))
  | _ => none

def asHandled (err : Err) : Option (Bytes × Bytes) := err.as toHandled

/-- The codes of a `RemoteError` that is not an answer. -/
def unanswerable (code : Bytes) : Bool :=
  code = [] || code = codeInternal || code = codeProcessingTimeout

/-- What to answer the caller with rather than retry. -/
def asAnswerable (err : Err) : Option (Bytes × Bytes) :=
  match err.asHandled with
  | some h => some h
  | none => match err.as toRemote with
    | some (code, message) => if unanswerable code then none else some (code, message)
    | none => none

/-! ## Codes -/

def sentinelCode : Err → Option Bytes
  | .sentinel s => some s.code
  | _ => none

/-- The code a node carries itself: `ErrorCode()` if its type has it, else `Code()`. -/
def ownCode : Err → Bytes
  | .handled code _ => code
  | .remote _ code _ => code
  | .timeout _ _ => codeProcessingTimeout
  | .sentinel s => s.code
  | .publish err _ => (sentinelCode err).getD []
  | .plain kind _ | .wrap kind _ _ | .join kind _ _ =>
    match kind.coder with
    | some code => code
    | none => kind.foreignCoder.getD []

mutual
def errorCode : Err → Bytes
  | .publish err info =>
    if ownCode (.publish err info) ≠ [] then ownCode (.publish err info) else errorCode err
  | .wrap kind text inner =>
    if ownCode (.wrap kind text inner) ≠ [] then ownCode (.wrap kind text inner)
    else errorCode inner
  | .join kind text inner =>
    if ownCode (.join kind text inner) ≠ [] then ownCode (.join kind text inner)
    else errorCodeAny inner
  | e => ownCode e

def errorCodeAny : List Err → Bytes
  | [] => []
  | e :: es => if errorCode e ≠ [] then errorCode e else errorCodeAny es
end

/-! ## Names -/

/-- The class name of an error that has one. -/
def className : Err → Option Bytes
  | .handled _ _ => some (lit "HandledError")
  | .timeout _ _ => some (lit "TimeoutError")
  | .publish (.sentinel .publishNacked) _ => some (lit "PublishNackedError")
  | .publish (.sentinel .unroutable) _ => some (lit "UnroutableError")
  | .publish (.sentinel .publishConfirmTimeout) _ => some (lit "PublishConfirmTimeoutError")
  | .publish (.sentinel .channelClosed) _ => some (lit "ChannelClosedError")
  | .publish _ _ => some (lit "PublishError")
  | .remote _ _ _ | .sentinel _ => none
  | .plain kind _ | .wrap kind _ _ | .join kind _ _ => kind.className

/-- The name of the Go type. -/
def typeName : Err → Bytes
  | .handled _ _ => lit "HandledError"
  | .remote _ _ _ => lit "RemoteError"
  | .timeout _ _ => lit "processingTimeoutError"
  | .sentinel _ => lit "errorString"
  | .publish _ _ => lit "PublishError"
  | .plain kind _ | .wrap kind _ _ | .join kind _ _ => kind.typeName

def errorName (err : Err) : Bytes :=
  match err.className with
  | some name => name
  | none =>
    if err.typeName ∈ [[], lit "errorString", lit "wrapError", lit "wrapErrors", lit "joinError"]
    then lit "Error" else err.typeName

/-- The first error of the chain of single wrappers that is not an anonymous one. -/
def innermostNamed : Err → Err
  | .wrap kind text inner =>
    if (className (.wrap kind text inner)).isSome then .wrap kind text inner
    else if errorName (.wrap kind text inner) ≠ lit "Error" then .wrap kind text inner
    else innermostNamed inner
  -- a `PublishError` has a name, and nothing else here has an inner error of its own
  | e => e

/-! ## What others are told -/

def safeErrorSummary : Option Err → Bytes
  | none => lit "UnknownError"
  | some err => match err.asHandled with
    | some (code, message) => lit "HandledError[" ++ code ++ lit "]: " ++ message
    | none =>
      let name := err.innermostNamed.errorName
      if err.errorCode ≠ [] then name ++ lit "[" ++ err.errorCode ++ lit "]" else name

structure CallerError where
  code : Bytes
  message : Bytes
deriving DecidableEq

def genericMessage : Bytes := lit "internal service error"

def sanitizeForCaller (err : Err) (expose : Bool) : CallerError :=
  match err.asAnswerable with
  | some (code, message) => ⟨code, message⟩
  | none => match err.as toTimeout with
    | some text => ⟨codeProcessingTimeout, text⟩
    | none => if !expose then ⟨codeInternal, genericMessage⟩ else ⟨err.errorCode, err.error⟩

/-! ## Preorder -/

mutual
/-- All nodes of a tree, in preorder. -/
def nodes : Err → List Err
  | .publish err info => .publish err info :: nodes err
  | .wrap kind text inner => .wrap kind text inner :: nodes inner
  | .join kind text inner => .join kind text inner :: nodesAll inner
  | e => [e]

def nodesAll : List Err → List Err
  | [] => []
  | e :: es => nodes e ++ nodesAll es
end

end Err
end Protobus.Errors
