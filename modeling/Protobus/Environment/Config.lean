import Protobus.Amqp.Integers
import Protobus.Stream.Accounting
import Protobus.Topology.Deployment

/-!
# The configuration that an environment gives

`ConfigFromEnv` starts from the defaults and takes what it can read, and `Validate` lists what is
wrong with a configuration. A variable that is not a number in range leaves the default, so what is
read cannot be wrong, except where the two differ: exchanges may be given the same name, and two of
the limits are read up to `2^31` and accepted up to `2^16`.
-/
namespace Protobus.Environment
open Library Amqp

/-! ## Configurations -/

def millisecond : Nat := 10 ^ 6

def second : Nat := 10 ^ 9

structure ReconnectPolicy where
  maxRetries : Int
  initialDelay : Int
  maxDelay : Int
  /-- `none` is not a number. -/
  multiplier : Option Rat

/-- Durations are in nanoseconds. -/
structure Config where
  busExchange : Bytes
  callbacksExchange : Bytes
  eventsExchange : Bytes
  cancelExchange : Bytes
  processingTimeout : Int
  rpcTimeout : Int
  streamIdleTimeout : Int
  defaultPrefetch : Int
  publishConfirmTimeout : Int
  heartbeat : Int
  connectionReadyTimeout : Int
  maxOutstandingConfirms : Int
  streamMaxBufferedChunks : Int
  streamMaxBufferedBytes : Int
  streamMaxTotalBufferedBytes : Int
  exposeInternalErrors : Bool
  shutdownDrainTimeout : Int
  reconnect : ReconnectPolicy

def defaultConfig : Config where
  busExchange := lit "proto.bus"
  callbacksExchange := lit "proto.bus.callback"
  eventsExchange := lit "proto.bus.events"
  cancelExchange := lit "proto.bus.cancel"
  processingTimeout := 600 * second
  rpcTimeout := 600 * second
  streamIdleTimeout := 60 * second
  defaultPrefetch := 1
  publishConfirmTimeout := 30 * second
  heartbeat := 30 * second
  connectionReadyTimeout := 30 * second
  maxOutstandingConfirms := 256
  streamMaxBufferedChunks := 1024
  streamMaxBufferedBytes := 64 * 2 ^ 20
  streamMaxTotalBufferedBytes := 256 * 2 ^ 20
  exposeInternalErrors := true
  shutdownDrainTimeout := 30 * second
  reconnect := ⟨10, second, 30 * second, some 2⟩

/-! ## Reading the environment -/

section
-- `os.Getenv`, which answers the empty text for a variable that is not set
variable (env : Bytes → Bytes) (name : Bytes)

def envString (dst : Bytes) : Bytes := if env name = [] then dst else env name

def envPositive (max : Nat) : Option Nat :=
  let raw := trimSpace (env name)
  if raw = [] then none
  else if raw.all fun b => 48 ≤ b && b ≤ 57 then
    -- `strconv.ParseUint(raw, 10, 64)`
    match (parseDigits raw).filter (· < 2 ^ 64) with
    | none => none
    | some v => if v = 0 || max < v then none else some v
  else none

/-- `envInt`, `envInt64` and `envDuration`: numbers of a unit, up to a largest one. -/
def envNumber (max unit : Nat) (dst : Int) : Int :=
  match envPositive env name max with
  | some v => v * unit
  | none => dst

def maxInt32 : Nat := 2 ^ 31 - 1

def maxInt64 : Nat := 2 ^ 63 - 1

def envInt (dst : Int) : Int := envNumber env name maxInt32 1 dst

def envInt64 (dst : Int) : Int := envNumber env name maxInt64 1 dst

def envDuration (unit : Nat) (dst : Int) : Int := envNumber env name (maxInt64 / unit) unit dst

/-- Only the letters of these words matter to `strings.ToLower`, and they are ASCII letters. -/
def envBool (dst : Bool) : Bool :=
  let word := trimSpace (env name)
  if [lit "1", lit "true", lit "yes", lit "on"].any (equalFold word) then true
  else if [lit "0", lit "false", lit "no", lit "off"].any (equalFold word) then false
  else dst

end

def configFromEnv (env : Bytes → Bytes) : Config :=
  let c := defaultConfig
  { c with
    busExchange := envString env (lit "BUS_EXCHANGE_NAME") c.busExchange
    callbacksExchange := envString env (lit "CALLBACKS_EXCHANGE_NAME") c.callbacksExchange
    eventsExchange := envString env (lit "EVENTS_EXCHANGE_NAME") c.eventsExchange
    cancelExchange := envString env (lit "CANCEL_EXCHANGE_NAME") c.cancelExchange
    processingTimeout :=
      envDuration env (lit "MESSAGE_PROCESSING_TIMEOUT") millisecond c.processingTimeout
    rpcTimeout := envDuration env (lit "RPC_CALL_TIMEOUT_MS") millisecond c.rpcTimeout
    streamIdleTimeout :=
      envDuration env (lit "STREAM_IDLE_TIMEOUT_MS") millisecond c.streamIdleTimeout
    defaultPrefetch := envInt env (lit "DEFAULT_PREFETCH") c.defaultPrefetch
    publishConfirmTimeout :=
      envDuration env (lit "PUBLISH_CONFIRM_TIMEOUT_MS") millisecond c.publishConfirmTimeout
    heartbeat := envDuration env (lit "AMQP_HEARTBEAT_SECONDS") second c.heartbeat
    connectionReadyTimeout :=
      envDuration env (lit "CONNECTION_READY_TIMEOUT_MS") millisecond c.connectionReadyTimeout
    maxOutstandingConfirms := envInt env (lit "MAX_OUTSTANDING_CONFIRMS") c.maxOutstandingConfirms
    streamMaxBufferedChunks :=
      envInt env (lit "STREAM_MAX_BUFFERED_CHUNKS") c.streamMaxBufferedChunks
    streamMaxBufferedBytes :=
      envInt64 env (lit "STREAM_MAX_BUFFERED_BYTES") c.streamMaxBufferedBytes
    streamMaxTotalBufferedBytes :=
      envInt64 env (lit "STREAM_MAX_TOTAL_BUFFERED_BYTES") c.streamMaxTotalBufferedBytes
    exposeInternalErrors :=
      envBool env (lit "PROTOBUS_EXPOSE_INTERNAL_ERRORS") c.exposeInternalErrors
    shutdownDrainTimeout :=
      envDuration env (lit "SHUTDOWN_DRAIN_TIMEOUT_MS") millisecond c.shutdownDrainTimeout }

/-! ## Validation -/

inductive Arg
  | text (s : Bytes)
  | number (n : Int)
  | duration (d : Int)
  | float (x : Option Rat)

/-- An error of `Validate`, as `bad` is given it. -/
structure Invalid where
  format : Bytes
  args : List Arg

/-- The loop over the exchanges; `names` maps the names to the last field that has them. -/
def exchangeErrors (names : Bytes → Option Bytes) : List (Bytes × Bytes) → List Invalid
  | [] => []
  | (field, name) :: rest =>
    if name = [] then ⟨lit "%s is empty", [.text field]⟩ :: exchangeErrors names rest
    else
      let again := exchangeErrors (Function.update names name (some field)) rest
      match names name with
      | some other =>
        ⟨lit "%s and %s are both %q", [.text other, .text field, .text name]⟩ :: again
      | none => again

def errorIf (wrong : Bool) (format : Bytes) (args : List Arg) : List Invalid :=
  if wrong then [⟨format, args⟩] else []

def maxUint16 : Int := 2 ^ 16 - 1

namespace Config
variable (c : Config)

def exchanges : List (Bytes × Bytes) :=
  [(lit "BusExchange", c.busExchange), (lit "CallbacksExchange", c.callbacksExchange),
    (lit "EventsExchange", c.eventsExchange), (lit "CancelExchange", c.cancelExchange)]

def positives : List (Bytes × Int) :=
  [(lit "ProcessingTimeout", c.processingTimeout), (lit "RPCTimeout", c.rpcTimeout),
    (lit "StreamIdleTimeout", c.streamIdleTimeout),
    (lit "PublishConfirmTimeout", c.publishConfirmTimeout),
    (lit "ConnectionReadyTimeout", c.connectionReadyTimeout),
    (lit "Reconnect.InitialDelay", c.reconnect.initialDelay)]

/-- The orders in which the two maps are gone through. -/
structure Orders where
  exchanges : List (Bytes × Bytes)
  positives : List (Bytes × Int)
  exchanges_perm : exchanges.Perm c.exchanges
  positives_perm : positives.Perm c.positives

/-- The errors that `Validate` joins. -/
def validate (o : c.Orders) : List Invalid :=
  exchangeErrors (fun _ => none) o.exchanges ++
  o.positives.flatMap (fun (field, d) =>
    errorIf (d ≤ 0) (lit "%s must be positive, got %v") [.text field, .duration d]) ++
  errorIf (c.heartbeat < 0) (lit "Heartbeat must not be negative, got %v")
    [.duration c.heartbeat] ++
  errorIf (c.shutdownDrainTimeout < 0) (lit "ShutdownDrainTimeout must not be negative, got %v")
    [.duration c.shutdownDrainTimeout] ++
  errorIf (c.defaultPrefetch < 1 || maxUint16 < c.defaultPrefetch)
    (lit "DefaultPrefetch must be within 1..%d, got %d")
    [.number maxUint16, .number c.defaultPrefetch] ++
  errorIf (c.maxOutstandingConfirms < 1 || maxUint16 < c.maxOutstandingConfirms)
    (lit "MaxOutstandingConfirms must be within 1..%d, got %d")
    [.number maxUint16, .number c.maxOutstandingConfirms] ++
  errorIf (c.streamMaxBufferedChunks < 1) (lit "StreamMaxBufferedChunks must be positive, got %d")
    [.number c.streamMaxBufferedChunks] ++
  errorIf (c.streamMaxBufferedBytes < 1) (lit "StreamMaxBufferedBytes must be positive, got %d")
    [.number c.streamMaxBufferedBytes] ++
  errorIf (c.streamMaxTotalBufferedBytes < 1)
    (lit "StreamMaxTotalBufferedBytes must be positive, got %d")
    [.number c.streamMaxTotalBufferedBytes] ++
  errorIf (c.reconnect.maxRetries < 0) (lit "Reconnect.MaxRetries must not be negative, got %d")
    [.number c.reconnect.maxRetries] ++
  errorIf (c.reconnect.maxDelay < c.reconnect.initialDelay)
    (lit "Reconnect.MaxDelay (%v) must be at least InitialDelay (%v)")
    [.duration c.reconnect.maxDelay, .duration c.reconnect.initialDelay] ++
  -- not a number is not less than 1
  errorIf (c.reconnect.multiplier.any (· < 1))
    (lit "Reconnect.Multiplier must be at least 1, got %v") [.float c.reconnect.multiplier]

/-- The exchanges as they are declared. -/
def topology : Topology.Config :=
  ⟨c.busExchange, c.callbacksExchange, c.eventsExchange, c.cancelExchange⟩

/-- The limits that `newStream` gives a stream. -/
def limits : Stream.Limits :=
  ⟨c.streamMaxBufferedChunks, c.streamMaxBufferedBytes, c.streamMaxTotalBufferedBytes⟩

end Config

/-! ## What is valid -/

@[simp] theorem errorIf_eq_nil {wrong : Bool} {format : Bytes} {args : List Arg} :
    errorIf wrong format args = [] ↔ wrong = false := by
  cases wrong <;> simp [errorIf]

/-- No error for the exchanges: none is empty, and none has the name of another or of one before. -/
theorem exchangeErrors_eq_nil {names : Bytes → Option Bytes} {fields : List (Bytes × Bytes)} :
    exchangeErrors names fields = [] ↔ (fields.map Prod.snd).Nodup ∧
      ∀ p ∈ fields, p.2 ≠ [] ∧ names p.2 = none := by
  induction fields generalizing names with
  | nil => simp [exchangeErrors]
  | cons p rest ih =>
    obtain ⟨field, name⟩ := p
    by_cases empty : name = []
    · simp [exchangeErrors, empty]
    · cases before : names name with
      | some other => simp [exchangeErrors, empty, before]
      | none =>
        simp only [exchangeErrors, empty, if_false, before, ih, List.map_cons, List.nodup_cons,
          List.forall_mem_cons, Function.update_apply]
        grind

/-- What `Validate` demands. -/
structure Config.Valid (c : Config) : Prop where
  distinct : ((Topology.coreExchanges c.topology).map Prod.fst).Nodup
  named : ∀ p ∈ Topology.coreExchanges c.topology, p.1 ≠ []
  positive : ∀ p ∈ c.positives, 0 < p.2
  heartbeat : 0 ≤ c.heartbeat
  shutdownDrainTimeout : 0 ≤ c.shutdownDrainTimeout
  defaultPrefetch : 1 ≤ c.defaultPrefetch ∧ c.defaultPrefetch ≤ maxUint16
  maxOutstandingConfirms : 1 ≤ c.maxOutstandingConfirms ∧ c.maxOutstandingConfirms ≤ maxUint16
  chunks : 0 < c.limits.chunks
  bytes : 0 < c.limits.bytes
  total : 0 < c.limits.total
  maxRetries : 0 ≤ c.reconnect.maxRetries
  maxDelay : c.reconnect.initialDelay ≤ c.reconnect.maxDelay
  multiplier : ∀ x ∈ c.reconnect.multiplier, 1 ≤ x

theorem exchangeErrors_orders {c : Config} (o : c.Orders) :
    exchangeErrors (fun _ => none) o.exchanges = [] ↔
      ((Topology.coreExchanges c.topology).map Prod.fst).Nodup ∧
        ∀ p ∈ Topology.coreExchanges c.topology, p.1 ≠ [] := by
  have same : (Topology.coreExchanges c.topology).map Prod.fst = c.exchanges.map Prod.snd := rfl
  rw [exchangeErrors_eq_nil, (o.exchanges_perm.map Prod.snd).nodup_iff, same]
  refine and_congr_right fun _ => ?_
  simp only [o.exchanges_perm.mem_iff, and_true]
  simp [Config.exchanges, Topology.coreExchanges, Config.topology]

theorem validate_eq_nil {c : Config} (o : c.Orders) : c.validate o = [] ↔ c.Valid := by
  have positives : o.positives.flatMap (fun (field, d) =>
      errorIf (d ≤ 0) (lit "%s must be positive, got %v") [.text field, .duration d]) = [] ↔
      ∀ p ∈ c.positives, 0 < p.2 := by
    simp [List.flatMap_eq_nil_iff, o.positives_perm.mem_iff]
  have multiplier : c.reconnect.multiplier.any (· < 1) = false ↔
      ∀ x ∈ c.reconnect.multiplier, 1 ≤ x := by
    cases c.reconnect.multiplier <;> simp
  simp only [Config.validate, List.append_eq_nil_iff, exchangeErrors_orders, positives, multiplier,
    errorIf_eq_nil, Bool.or_eq_false_iff, decide_eq_false_iff_not, Int.not_lt]
  constructor
  · rintro ⟨⟨⟨⟨⟨⟨⟨⟨⟨⟨⟨⟨distinct, named⟩, positive⟩, heartbeat⟩, drain⟩, prefetch⟩, confirms⟩,
      chunks⟩, bytes⟩, total⟩, maxRetries⟩, maxDelay⟩, multiplier⟩
    exact ⟨distinct, named, positive, heartbeat, drain, prefetch, confirms, chunks, bytes, total,
      maxRetries, maxDelay, multiplier⟩
  · rintro ⟨distinct, named, positive, heartbeat, drain, prefetch, confirms, chunks, bytes, total,
      maxRetries, maxDelay, multiplier⟩
    exact ⟨⟨⟨⟨⟨⟨⟨⟨⟨⟨⟨⟨distinct, named⟩, positive⟩, heartbeat⟩, drain⟩, prefetch⟩, confirms⟩,
      chunks⟩, bytes⟩, total⟩, maxRetries⟩, maxDelay⟩, multiplier⟩

/-! ## What is read -/

/-- A text stands for a number if it is the number's digits, in white space. -/
def Stands (s : Bytes) (v : Nat) : Prop :=
  ∃ a t b, s = a ++ t ++ b ∧ Blank a ∧ Blank b ∧ numeral 10 t = some v

theorem stands_iff {s : Bytes} {v : Nat} : Stands s v ↔ numeral 10 (trimSpace s) = some v := by
  constructor
  · rintro ⟨a, t, b, rfl, before, after, digits⟩
    have decimal := (Decimal.plain digits).bytes
    rwa [trimSpace_decimal before after decimal.1 decimal.2]
  · intro digits
    obtain ⟨a, b, eq, before, after⟩ := blank_trimSpace s
    exact ⟨a, _, b, eq, before, after, digits⟩

theorem all_digits_of_numeral {s : Bytes} {v : Nat} (h : numeral 10 s = some v) :
    s ≠ [] ∧ (s.all fun b => 48 ≤ b && b ≤ 57) = true := by
  have digits := isSome_numeral.mp (Option.isSome_of_eq_some h)
  refine ⟨digits.1, List.all_eq_true.mpr fun b mem => ?_⟩
  have digit := digits.2 b mem
  rw [digitOf_ten] at digit
  grind

variable {env : Bytes → Bytes} {name : Bytes} {max unit : Nat} {dst : Int}

theorem envPositive_eq_some (bound : max < 2 ^ 64) {v : Nat} :
    envPositive env name max = some v ↔ Stands (env name) v ∧ 0 < v ∧ v ≤ max := by
  rw [stands_iff, envPositive, parseDigits_eq]
  cases digits : numeral 10 (trimSpace (env name)) with
  | none => simp
  | some w =>
    obtain ⟨some, all⟩ := all_digits_of_numeral digits
    simp only [some, if_false, all, if_true, Option.filter_some, decide_eq_true_eq]
    grind

/-- The setting that a variable gives: so many units, or else the default. -/
def Reads (s : Bytes) (max unit : Nat) (dst n : Int) : Prop :=
  (∃ v, Stands s v ∧ 0 < v ∧ v ≤ max ∧ n = v * unit) ∨
    (∀ v, Stands s v → v = 0 ∨ max < v) ∧ n = dst

theorem envNumber_reads (bound : max < 2 ^ 64) :
    Reads (env name) max unit dst (envNumber env name max unit dst) := by
  unfold envNumber
  cases read : envPositive env name max with
  | some v =>
    obtain ⟨stands, pos, le⟩ := (envPositive_eq_some bound).mp read
    exact .inl ⟨v, stands, pos, le, rfl⟩
  | none =>
    refine .inr ⟨fun v stands => ?_, rfl⟩
    by_contra inRange
    have found : envPositive env name max = some v :=
      (envPositive_eq_some bound).mpr ⟨stands, by omega, by omega⟩
    simp [read] at found

/-- No overflow: a setting is what a `time.Duration` or an `int64` can hold. -/
theorem Reads.inRange {s : Bytes} {n : Int} (reads : Reads s max unit dst n) (pos : 0 < unit)
    (fits : max * unit < 2 ^ 63) (dst_pos : 0 < dst) (dst_lt : dst < 2 ^ 63) :
    0 < n ∧ n < 2 ^ 63 := by
  obtain ⟨v, -, v_pos, le, rfl⟩ | ⟨-, rfl⟩ := reads
  · have : 0 < v * unit := Nat.mul_pos v_pos pos
    have : v * unit ≤ max * unit := Nat.mul_le_mul_right unit le
    omega
  · exact ⟨dst_pos, dst_lt⟩

/-- A numeric setting: its variable, the largest number and the unit. -/
structure Setting where
  name : Bytes
  max : Nat
  unit : Nat
  field : Config → Int

def Setting.duration (name : Bytes) (unit : Nat) (field : Config → Int) : Setting :=
  ⟨name, maxInt64 / unit, unit, field⟩

def settings : List Setting :=
  [.duration (lit "MESSAGE_PROCESSING_TIMEOUT") millisecond Config.processingTimeout,
    .duration (lit "RPC_CALL_TIMEOUT_MS") millisecond Config.rpcTimeout,
    .duration (lit "STREAM_IDLE_TIMEOUT_MS") millisecond Config.streamIdleTimeout,
    ⟨lit "DEFAULT_PREFETCH", maxInt32, 1, Config.defaultPrefetch⟩,
    .duration (lit "PUBLISH_CONFIRM_TIMEOUT_MS") millisecond Config.publishConfirmTimeout,
    .duration (lit "AMQP_HEARTBEAT_SECONDS") second Config.heartbeat,
    .duration (lit "CONNECTION_READY_TIMEOUT_MS") millisecond Config.connectionReadyTimeout,
    ⟨lit "MAX_OUTSTANDING_CONFIRMS", maxInt32, 1, Config.maxOutstandingConfirms⟩,
    ⟨lit "STREAM_MAX_BUFFERED_CHUNKS", maxInt32, 1, Config.streamMaxBufferedChunks⟩,
    ⟨lit "STREAM_MAX_BUFFERED_BYTES", maxInt64, 1, Config.streamMaxBufferedBytes⟩,
    ⟨lit "STREAM_MAX_TOTAL_BUFFERED_BYTES", maxInt64, 1, Config.streamMaxTotalBufferedBytes⟩,
    .duration (lit "SHUTDOWN_DRAIN_TIMEOUT_MS") millisecond Config.shutdownDrainTimeout]

/-- What the settings share: units that are not zero, bounds that fit, defaults in range. -/
def Setting.Sound (x : Setting) : Prop :=
  0 < x.unit ∧ x.max * x.unit < 2 ^ 63 ∧ 0 < x.field defaultConfig ∧
    x.field defaultConfig < 2 ^ 63

theorem settings_sound : ∀ x ∈ settings, x.Sound := by
  simp only [settings, List.forall_mem_cons, Setting.Sound, Setting.duration]
  decide

theorem field_configFromEnv (env : Bytes → Bytes) : ∀ x ∈ settings,
    x.field (configFromEnv env) = envNumber env x.name x.max x.unit (x.field defaultConfig) := by
  simp only [settings, List.forall_mem_cons]
  exact ⟨rfl, rfl, rfl, rfl, rfl, rfl, rfl, rfl, rfl, rfl, rfl, rfl, by simp⟩

theorem setting_reads (env : Bytes → Bytes) {x : Setting} (mem : x ∈ settings) :
    Reads (env x.name) x.max x.unit (x.field defaultConfig) (x.field (configFromEnv env)) ∧
      0 < x.field (configFromEnv env) ∧ x.field (configFromEnv env) < 2 ^ 63 := by
  obtain ⟨unit_pos, fits, dst_pos, dst_lt⟩ := settings_sound x mem
  have bound : x.max < 2 ^ 64 := by
    have : x.max * 1 ≤ x.max * x.unit := Nat.mul_le_mul_left x.max unit_pos
    omega
  have reads : Reads (env x.name) x.max x.unit (x.field defaultConfig)
      (x.field (configFromEnv env)) := by
    rw [field_configFromEnv env x mem]
    exact envNumber_reads bound
  exact ⟨reads, reads.inRange unit_pos fits dst_pos dst_lt⟩

theorem envString_ne_nil {env : Bytes → Bytes} {name dst : Bytes} (default : dst ≠ []) :
    envString env name dst ≠ [] := by
  unfold envString
  split <;> assumption

theorem configFromEnv_named (env : Bytes → Bytes) :
    ∀ p ∈ Topology.coreExchanges (configFromEnv env).topology, p.1 ≠ [] := by
  simp only [Topology.coreExchanges, List.forall_mem_cons]
  exact ⟨envString_ne_nil (by decide), envString_ne_nil (by decide),
    envString_ne_nil (by decide), envString_ne_nil (by decide), by simp⟩

/-- A limit that is read up to `2^31` passes the check up to `2^16` unless it is between them. -/
theorem Reads.within_iff {s : Bytes} {dst n : Int} (reads : Reads s maxInt32 1 dst n)
    (default : 1 ≤ dst ∧ dst ≤ maxUint16) :
    (1 ≤ n ∧ n ≤ maxUint16) ↔ ∀ v, Stands s v → v < 2 ^ 16 ∨ 2 ^ 31 ≤ v := by
  unfold maxUint16 at *
  obtain ⟨v, stands, pos, le, rfl⟩ | ⟨outside, rfl⟩ := reads
  · constructor
    · rintro ⟨-, small⟩ w stands'
      have same : v = w := Option.some_inj.mp ((stands_iff.mp stands).symm.trans
        (stands_iff.mp stands'))
      omega
    · intro apart
      have := apart v stands
      unfold maxInt32 at le
      omega
  · refine iff_of_true default fun v stands => ?_
    have := outside v stands
    unfold maxInt32 at this
    omega

/-- Every numeric setting is so many units for the number that its variable's text stands for, if
that is positive and not too large, and otherwise the default; it never overflows. The limits of
streams are a quota. In whatever orders the maps are gone through, `Validate` accepts the
configuration exactly if the exchanges have different names and the two limits that AMQP holds in 16
bits are not given a number above that which is still read. -/
theorem validate_configFromEnv (env : Bytes → Bytes) (o : (configFromEnv env).Orders) :
    (∀ x ∈ settings,
      Reads (env x.name) x.max x.unit (x.field defaultConfig) (x.field (configFromEnv env)) ∧
        0 < x.field (configFromEnv env) ∧ x.field (configFromEnv env) < 2 ^ 63) ∧
    (∃ q : Stream.Quota, q.toLimits = (configFromEnv env).limits) ∧
    ((configFromEnv env).validate o = [] ↔
      ((Topology.coreExchanges (configFromEnv env).topology).map Prod.fst).Nodup ∧
        ∀ name ∈ [lit "DEFAULT_PREFETCH", lit "MAX_OUTSTANDING_CONFIRMS"],
          ∀ v, Stands (env name) v → v < 2 ^ 16 ∨ 2 ^ 31 ≤ v) := by
  have all := fun x (mem : x ∈ settings) => setting_reads env mem
  refine ⟨all, ?_⟩
  simp only [settings, List.forall_mem_cons, Setting.duration] at all
  obtain ⟨processing, rpc, idle, prefetch, confirm, heartbeat, ready, confirms, chunks, bytes,
    total, drain, -⟩ := all
  -- no variable changes how the session reconnects
  have reconnect : 0 ≤ defaultConfig.reconnect.maxRetries ∧
      defaultConfig.reconnect.initialDelay ≤ defaultConfig.reconnect.maxDelay ∧
      0 < defaultConfig.reconnect.initialDelay := by decide
  have prefetch_iff := prefetch.1.within_iff (by decide)
  have confirms_iff := confirms.1.within_iff (by decide)
  refine ⟨⟨⟨(configFromEnv env).limits, chunks.2.1, bytes.2.1, total.2.1, total.2.2⟩, rfl⟩, ?_⟩
  rw [validate_eq_nil]
  simp only [List.forall_mem_cons, List.not_mem_nil, false_implies, implies_true, and_true,
    ← prefetch_iff, ← confirms_iff]
  constructor
  · intro valid
    exact ⟨valid.distinct, valid.defaultPrefetch, valid.maxOutstandingConfirms⟩
  · rintro ⟨distinct, prefetch', confirms'⟩
    refine ⟨distinct, configFromEnv_named env, ?_, heartbeat.2.1.le, drain.2.1.le, prefetch',
      confirms', chunks.2.1, bytes.2.1, total.2.1, reconnect.1, reconnect.2.1, ?_⟩
    · simp only [Config.positives, List.forall_mem_cons]
      exact ⟨processing.2.1, rpc.2.1, idle.2.1, confirm.2.1, ready.2.1, reconnect.2.2, by simp⟩
    · intro x mem
      cases mem
      norm_num

end Protobus.Environment
