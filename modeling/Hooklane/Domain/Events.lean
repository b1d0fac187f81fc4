import Hooklane.Domain.Json
import Hooklane.Domain.Uuid
import Hooklane.Support.Double
import Mathlib.Algebra.Order.Field.Basic
import Mathlib.Data.Nat.Cast.Order.Field

/-!
# Event requests, statuses and failure classes

The models of `domain/events.py`, `delivery/retry.py` and
`delivery/dead_letter.py`, which the Cloudflare backend repeats in
`contract.py` and `core.py`.  Times that the source keeps as floats are exact
rationals here, and floats with their exceptional values where a computation
can reach these.
-/

namespace Hooklane

open Support

/-- Delivery states exposed by the HTTP API. -/
inductive EventStatus where
  | queued
  | delivering
  | retryScheduled
  | delivered
  | deadLetter
deriving DecidableEq, Repr

namespace EventStatus

def value : EventStatus → String
  | .queued => "queued"
  | .delivering => "delivering"
  | .retryScheduled => "retry_scheduled"
  | .delivered => "delivered"
  | .deadLetter => "dead_letter"

/-- `EventStatus(text)`. -/
def ofValue (text : String) : Option EventStatus :=
  [queued, delivering, retryScheduled, delivered, deadLetter].find?
    fun status => status.value = text

theorem value_injective : Function.Injective value := by
  intro a b
  cases a <;> cases b <;> simp [value]

@[simp]
theorem value_inj {a b : EventStatus} : a.value = b.value ↔ a = b :=
  value_injective.eq_iff

@[simp]
theorem ofValue_value (status : EventStatus) :
    ofValue status.value = some status := by
  cases status <;> decide

/-- The two states in which an event is finished. -/
def Terminal (status : EventStatus) : Prop :=
  status = .delivered ∨ status = .deadLetter

instance : DecidablePred Terminal := fun status =>
  inferInstanceAs (Decidable (status = .delivered ∨ status = .deadLetter))

end EventStatus

/-- The checks of `EventRequest` on its `event_type`. -/
def ValidEventType (text : String) : Prop :=
  1 ≤ text.length ∧ text.length ≤ 128 ∧ strip text.toList ≠ []

instance : DecidablePred ValidEventType := fun text =>
  inferInstanceAs (Decidable
    (1 ≤ text.length ∧ text.length ≤ 128 ∧ strip text.toList ≠ []))

/-- Validated event accepted by Hooklane. -/
structure EventRequest where
  eventType : String
  payload : List (String × Json)
  valid : ValidEventType eventType

namespace EventRequest

/-- `EventRequest(event_type=..., payload=...)`: a payload that is not an
object, or an invalid type, raises `ValueError`. -/
def validate (eventType : String) (payload : Json) : Option EventRequest :=
  match payload with
  | .obj fields =>
      if h : ValidEventType eventType then some ⟨eventType, fields, h⟩
      else none
  | _ => none

/-- The text under which a payload is stored. -/
def payloadJson (event : EventRequest) : String :=
  Json.dumps (.obj event.payload)

/-- `canonical_request`: the text compared by idempotency keys. -/
def canonicalRequest (event : EventRequest) : String :=
  Json.dumps (.obj
    [("event_type", .str event.eventType), ("payload", .obj event.payload)])

/-- `request_fingerprint`. -/
def fingerprint (lib : Stdlib) (event : EventRequest) : String :=
  lib.sha256 event.canonicalRequest

end EventRequest

/-- Stable delivery failure classes. -/
inductive DeliveryErrorClass where
  | timeout
  | connection
  | http1xx
  | http3xx
  | http429
  | http5xx
  | http4xx
deriving DecidableEq, Repr

namespace DeliveryErrorClass

def value : DeliveryErrorClass → String
  | .timeout => "timeout"
  | .connection => "connection_error"
  | .http1xx => "http_1xx"
  | .http3xx => "http_3xx"
  | .http429 => "http_429"
  | .http5xx => "http_5xx"
  | .http4xx => "http_4xx"

/-- `RetryPolicy.is_retryable`, and the same test in `DeliveryService`. -/
def isRetryable (cls : DeliveryErrorClass) : Bool :=
  cls ∈ [timeout, connection, http429, http5xx]

end DeliveryErrorClass

/-- How a call of the sink ends. -/
inductive SinkReply where
  | success
  | failed (errorClass : DeliveryErrorClass)
  | raised
deriving DecidableEq, Repr

/-- Python's `min` of two floats. -/
def pyMin (a b : Double) : Double := if b.lt a then b else a

@[simp]
theorem pyMin_finite (a b : ℚ) :
    pyMin (.finite a) (.finite b) = .finite (min a b) := by
  rcases lt_or_ge b a with h | h
  · rw [min_eq_right h.le]
    exact if_pos (decide_eq_true h)
  · rw [min_eq_left h]
    exact if_neg (by simpa using h)

/-- Exponential backoff with bounded jitter.  The checks of the two delays let
`nan` and infinities pass. -/
structure RetryPolicy where
  baseDelaySeconds : Double := .finite 1
  maximumDelaySeconds : Double := .finite 60
  jitterRatio : ℚ := 1 / 4
  base_pos : baseDelaySeconds.le (.finite 0) = false := by decide
  base_le : maximumDelaySeconds.lt baseDelaySeconds = false := by decide
  jitter_nonneg : 0 ≤ jitterRatio := by norm_num
  jitter_le_one : jitterRatio ≤ 1 := by norm_num

namespace RetryPolicy

/-- `delay_seconds`, given the multiplier drawn by `random_source.uniform`;
`none` where the attempt count is rejected. -/
def delaySeconds (policy : RetryPolicy) (attemptCount : ℤ)
    (jitterMultiplier : ℚ) : Option Double :=
  if attemptCount < 1 then none
  else
    let exponent := min (attemptCount - 1) 62
    let uncappedDelay :=
      policy.baseDelaySeconds.mul (.finite (2 ^ exponent.toNat))
    let backoff := pyMin uncappedDelay policy.maximumDelaySeconds
    some (pyMin (backoff.mul (.finite jitterMultiplier))
      policy.maximumDelaySeconds)

end RetryPolicy

/-- When a failed delivery must not be retried again. -/
structure DeadLetterPolicy where
  maximumAttempts : ℤ := 5
  positive : 1 ≤ maximumAttempts := by norm_num

namespace DeadLetterPolicy

/-- `should_dead_letter`; `none` where the attempt count is rejected. -/
def shouldDeadLetter (policy : DeadLetterPolicy) (cls : DeliveryErrorClass)
    (attemptCount : ℤ) : Option Bool :=
  if attemptCount < 1 then none
  else some (!cls.isRetryable || decide (policy.maximumAttempts ≤ attemptCount))

end DeadLetterPolicy

/-- `int(x)` on a rational: truncation towards zero. -/
def truncate (x : ℚ) : ℤ := x.num.tdiv x.den

theorem natAbs_truncate_le (x : ℚ) : ((truncate x).natAbs : ℚ) ≤ |x| := by
  have hquotient : (truncate x).natAbs = x.num.natAbs / x.den := by
    rw [truncate, Int.natAbs_tdiv, Int.natAbs_natCast]
    rfl
  have habs : |x| = (x.num.natAbs : ℚ) / x.den := by
    conv_lhs => rw [← Rat.num_div_den x]
    rw [abs_div, Nat.abs_cast, ← Int.cast_abs, Int.abs_eq_natAbs,
      Int.cast_natCast]
  rw [hquotient, habs]
  exact Nat.cast_div_le

/-- `int(x)` on a float; `none` where it raises. -/
def intOfFloat : Double → Option ℤ
  | .finite x => some (truncate x)
  | .nan | .infinite _ => none

end Hooklane
