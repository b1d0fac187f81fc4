import Hooklane.Domain.Observability
import Hooklane.Support.Counter

/-!
# The registry of `HooklaneMetrics`

What the calls of the store and the worker record.  A counter is kept by its
labels, less the constant `service`; a histogram is kept as the list of its
observations.
-/

namespace Hooklane

open Support

/-- The instruments that the store and the worker write. -/
structure HooklaneMetrics where
  enqueue : Counter (String × String) := ∅
  queueDepth : ℕ := 0
  oldestQueuedAge : ℚ := 0
  pendingMessages : ℕ := 0
  deliveryAttempts : ℕ := 0
  deliveryOutcomes : Counter (String × String) := ∅
  deliveryDuration : List (String × ℚ) := []
  deliveryEndToEndDuration : List ℚ := []
  deliveryCompletion : Counter String := ∅
  retryScheduled : Counter String := ∅
  deadLetter : Counter String := ∅
  queueQuarantined : Counter String := ∅
  workerInFlight : ℤ := 0
  redisFailures : Counter String := ∅

namespace HooklaneMetrics

variable (m : HooklaneMetrics)

/-- The SLI boundary that an end-to-end duration falls into. -/
def completionWindow (duration : ℚ) : String :=
  if duration ≤ 60 then "within_60_seconds" else "over_60_seconds"

def startDelivery : HooklaneMetrics :=
  { m with
    deliveryAttempts := m.deliveryAttempts + 1
    workerInFlight := m.workerInFlight + 1 }

/-- The end of `finish_delivery`, for an event delivered end to end. -/
def complete : Option ℚ → HooklaneMetrics
  | none => m
  | some endToEnd =>
      { m with
        deliveryEndToEndDuration :=
          m.deliveryEndToEndDuration ++ [max 0 endToEnd]
        deliveryCompletion :=
          m.deliveryCompletion.inc (completionWindow (max 0 endToEnd)) }

def finishDelivery (outcome reasonCode : String) (duration : ℚ)
    (endToEnd : Option ℚ) : HooklaneMetrics :=
  complete
    { m with
      workerInFlight := m.workerInFlight - 1
      deliveryOutcomes := m.deliveryOutcomes.inc (outcome, reasonCode)
      deliveryDuration := m.deliveryDuration ++ [(outcome, max 0 duration)] }
    endToEnd

/-- What an accepted call does to the registry. -/
def record : MetricCall → HooklaneMetrics
  | .recordEnqueue outcome reasonCode =>
      { m with enqueue := m.enqueue.inc (outcome, reasonCode) }
  | .setQueueState depth oldestAgeSeconds pending =>
      { m with
        queueDepth := depth
        oldestQueuedAge := oldestAgeSeconds
        pendingMessages := pending }
  | .startDelivery => m.startDelivery
  | .finishDelivery outcome reasonCode duration endToEnd =>
      m.finishDelivery outcome reasonCode duration endToEnd
  | .recordRetry reasonCode =>
      { m with retryScheduled := m.retryScheduled.inc reasonCode }
  | .recordDeadLetter reasonCode =>
      { m with deadLetter := m.deadLetter.inc reasonCode }
  | .recordQueueQuarantine reasonCode =>
      { m with queueQuarantined := m.queueQuarantined.inc reasonCode }
  | .recordRedisFailure operation =>
      { m with redisFailures := m.redisFailures.inc operation }

end HooklaneMetrics

/-- Whether the call counts an event as completed or dead-lettered. -/
def MetricCall.closes : MetricCall → Bool
  | .finishDelivery _ _ _ endToEnd => endToEnd.isSome
  | .recordDeadLetter _ => true
  | _ => false

end Hooklane
