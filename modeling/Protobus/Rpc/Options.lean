import Protobus.Library.Bytes

/-!
# The options of a service

`Register` starts from the defaults and applies the options one after the other, so the last one of
a kind counts. `validate` reports the first thing that is wrong with what comes out.
-/
namespace Protobus.Rpc
open Library

/-- Durations are in nanoseconds. -/
structure RetryPolicy where
  maxRetries : Int
  delay : Int
  messageTTL : Int

def defaultRetryPolicy : RetryPolicy := ⟨3, 5000000000, 0⟩

structure EventRetryPolicy where
  maxRetries : Int
  delay : Int

structure ServiceOptions where
  inst : Bytes := []
  maxConcurrent : Int := 0
  retry : RetryPolicy := ⟨0, 0, 0⟩
  earlyAck : Bool := false
  processingTimeout : Int := 0
  maxPriority : Option UInt8 := none
  eventRetry : EventRetryPolicy := ⟨0, 0⟩
  eventConcurrency : Int := 0

/-- The options by the names of the functions that make them. -/
inductive ServiceOption
  | withInstance (name : Bytes)
  | withMaxConcurrent (n : Int)
  | withRetry (p : RetryPolicy)
  | withEarlyAck
  | withProcessingTimeout (d : Int)
  | withMaxPriority (n : UInt8)
  | withEventRetry (p : EventRetryPolicy)
  | withEventConcurrency (n : Int)

inductive OptionError
  /-- `WithMaxConcurrent must be within 1..65535, got %d` -/
  | maxConcurrent (got : Int)
  /-- `WithEventConcurrency must be within 1..65535, got %d` -/
  | eventConcurrency (got : Int)
  /-- `invalid RetryPolicy %+v` -/
  | retryPolicy (p : RetryPolicy)
  /-- `invalid EventRetryPolicy %+v` -/
  | eventRetryPolicy (p : EventRetryPolicy)
  /-- `negative processing timeout %v` -/
  | processingTimeout (d : Int)
  /-- `instance name %q must be a single routing-key word` -/
  | inst (name : Bytes)
  /-- `WithMaxPriority must be within 1..255, got 0`, an `ErrInvalidPriority` -/
  | maxPriority
  /-- `WithMaxPriority requires late ack`, an `ErrInvalidPriority` -/
  | earlyAck

def validInstance (name : Bytes) : Bool :=
  !(name ≠ [] && name.any fun b => b ∈ lit ".*# \t\r\n")

namespace ServiceOptions
variable (o : ServiceOptions)

/-- Where `Register` starts from. -/
def defaults (defaultPrefetch : Int) : ServiceOptions where
  maxConcurrent := 1
  retry := defaultRetryPolicy
  eventConcurrency := defaultPrefetch

def applyService : ServiceOption → ServiceOptions
  | .withInstance name => { o with inst := name }
  | .withMaxConcurrent n => { o with maxConcurrent := n }
  | .withRetry p => { o with retry := p }
  | .withEarlyAck => { o with earlyAck := true }
  | .withProcessingTimeout d => { o with processingTimeout := d }
  | .withMaxPriority n => { o with maxPriority := some n }
  | .withEventRetry p => { o with eventRetry := p }
  | .withEventConcurrency n => { o with eventConcurrency := n }

def validate : Option OptionError :=
  if o.maxConcurrent < 1 ∨ 65535 < o.maxConcurrent then some (.maxConcurrent o.maxConcurrent)
  else if o.eventConcurrency < 1 ∨ 65535 < o.eventConcurrency then
    some (.eventConcurrency o.eventConcurrency)
  else if o.retry.maxRetries < 0 ∨ 0 < o.retry.maxRetries ∧ o.retry.delay ≤ 0 ∨
      o.retry.messageTTL < 0 then some (.retryPolicy o.retry)
  else if o.eventRetry.maxRetries < 0 ∨ 0 < o.eventRetry.maxRetries ∧ o.eventRetry.delay ≤ 0 then
    some (.eventRetryPolicy o.eventRetry)
  else if o.processingTimeout < 0 then some (.processingTimeout o.processingTimeout)
  else if !validInstance o.inst then some (.inst o.inst)
  else match o.maxPriority with
    | none => none
    | some p => if p < 1 then some .maxPriority else if o.earlyAck then some .earlyAck else none

/-- Whether `requestSpec` sets up retries. -/
def retries : Bool := 0 < o.retry.maxRetries && !o.earlyAck

end ServiceOptions

/-! ## What is valid -/

structure RetryPolicy.Valid (p : RetryPolicy) : Prop where
  maxRetries : 0 ≤ p.maxRetries
  delay : 0 < p.maxRetries → 0 < p.delay
  messageTTL : 0 ≤ p.messageTTL

structure EventRetryPolicy.Valid (p : EventRetryPolicy) : Prop where
  maxRetries : 0 ≤ p.maxRetries
  delay : 0 < p.maxRetries → 0 < p.delay

namespace ServiceOptions
variable {o : ServiceOptions}

/-- What `validate` demands. -/
structure Valid (o : ServiceOptions) : Prop where
  maxConcurrent : 1 ≤ o.maxConcurrent ∧ o.maxConcurrent ≤ 65535
  eventConcurrency : 1 ≤ o.eventConcurrency ∧ o.eventConcurrency ≤ 65535
  retry : o.retry.Valid
  eventRetry : o.eventRetry.Valid
  processingTimeout : 0 ≤ o.processingTimeout
  inst : validInstance o.inst = true
  maxPriority : ∀ p ∈ o.maxPriority, 1 ≤ p ∧ o.earlyAck = false

/-- What an error of `validate` says. -/
inductive Wrong (o : ServiceOptions) : OptionError → Prop
  | maxConcurrent : ¬ (1 ≤ o.maxConcurrent ∧ o.maxConcurrent ≤ 65535) →
      Wrong o (.maxConcurrent o.maxConcurrent)
  | eventConcurrency : ¬ (1 ≤ o.eventConcurrency ∧ o.eventConcurrency ≤ 65535) →
      Wrong o (.eventConcurrency o.eventConcurrency)
  | retryPolicy : ¬ o.retry.Valid → Wrong o (.retryPolicy o.retry)
  | eventRetryPolicy : ¬ o.eventRetry.Valid → Wrong o (.eventRetryPolicy o.eventRetry)
  | processingTimeout : o.processingTimeout < 0 → Wrong o (.processingTimeout o.processingTimeout)
  | inst : validInstance o.inst = false → Wrong o (.inst o.inst)
  | maxPriority : o.maxPriority = some 0 → Wrong o .maxPriority
  | earlyAck : o.maxPriority ≠ none → o.earlyAck = true → Wrong o .earlyAck

theorem Wrong.not_valid {err : OptionError} (wrong : o.Wrong err) : ¬ o.Valid := by
  intro valid
  cases wrong with
  | maxConcurrent h => exact h valid.maxConcurrent
  | eventConcurrency h => exact h valid.eventConcurrency
  | retryPolicy h => exact h valid.retry
  | eventRetryPolicy h => exact h valid.eventRetry
  | processingTimeout h =>
    have := valid.processingTimeout
    omega
  | inst h => simp [valid.inst] at h
  | maxPriority h => exact absurd (valid.maxPriority 0 h).1 (by decide)
  | earlyAck some early =>
    obtain ⟨p, eq⟩ := Option.ne_none_iff_exists'.mp some
    simp [(valid.maxPriority p eq).2] at early

/-- An error says what is wrong, and there is none exactly if nothing is. -/
theorem validate_cases (o : ServiceOptions) :
    o.validate = none ∧ o.Valid ∨ ∃ err, o.validate = some err ∧ o.Wrong err := by
  unfold validate
  split
  · next h => exact .inr ⟨_, rfl, .maxConcurrent (by omega)⟩
  split
  · next h => exact .inr ⟨_, rfl, .eventConcurrency (by omega)⟩
  split
  · next h =>
    refine .inr ⟨_, rfl, .retryPolicy fun ⟨maxRetries, delay, ttl⟩ => ?_⟩
    omega
  split
  · next h =>
    refine .inr ⟨_, rfl, .eventRetryPolicy fun ⟨maxRetries, delay⟩ => ?_⟩
    omega
  split
  · next h => exact .inr ⟨_, rfl, .processingTimeout h⟩
  split
  · next h => exact .inr ⟨_, rfl, .inst (by simpa using h)⟩
  next concurrent events retry eventRetry timeout inst =>
  have valid (priority : ∀ p ∈ o.maxPriority, 1 ≤ p ∧ o.earlyAck = false) : o.Valid := by
    refine ⟨by omega, by omega, ⟨by omega, by omega, by omega⟩, ⟨by omega, by omega⟩, by omega,
      by simpa using inst, priority⟩
  cases priority : o.maxPriority with
  | none => exact .inl ⟨rfl, valid (by simp [priority])⟩
  | some p =>
    by_cases zero : p < 1
    · have : p = 0 := by simpa [UInt8.lt_one_iff] using zero
      exact .inr ⟨_, by simp [zero], .maxPriority (by rw [priority, this])⟩
    · by_cases early : o.earlyAck = true
      · exact .inr ⟨_, by simp [zero, early], .earlyAck (by simp [priority]) early⟩
      · refine .inl ⟨by simp [zero, early], valid ?_⟩
        simp only [priority, Option.mem_some_iff, forall_eq', Bool.not_eq_true] at early ⊢
        exact ⟨UInt8.not_lt.mp zero, early⟩

theorem validate_eq_none : o.validate = none ↔ o.Valid := by
  obtain ⟨none, valid⟩ | ⟨err, some, wrong⟩ := o.validate_cases
  · exact iff_of_true none valid
  · exact iff_of_false (by simp [some]) wrong.not_valid

theorem defaultRetryPolicy_valid : defaultRetryPolicy.Valid := ⟨by decide, by decide, by decide⟩

/-- The defaults are valid, with any valid instance name. -/
theorem defaults_valid {prefetch : Int} (range : 1 ≤ prefetch ∧ prefetch ≤ 65535) {inst : Bytes}
    (named : validInstance inst = true) :
    Valid { defaults prefetch with inst } where
  maxConcurrent := by simp [defaults]
  eventConcurrency := range
  retry := defaultRetryPolicy_valid
  eventRetry := ⟨Int.le_refl _, by simp [defaults]⟩
  processingTimeout := by simp [defaults]
  inst := named
  maxPriority := by simp [defaults]

end ServiceOptions

end Protobus.Rpc
