import Hooklane.Domain.Events

/-!
# Metrics and structured logs

The calls of `HooklaneMetrics` and `StructuredLogger` that the store and the
worker make.  Both reject label values outside fixed sets, which `accepted`
reproduces.
-/

namespace Hooklane

def deliveryOutcomes : List String :=
  ["success", "failure", "retry_scheduled", "dead_lettered", "pending"]

def logOutcomes : List String :=
  ["success", "failure", "rejected", "retry_scheduled", "dead_lettered",
    "pending"]

def reasonCodes : List String :=
  ["none", "validation_error", "storage_unavailable", "idempotency_conflict",
    "not_found", "shutting_down", "internal_error", "redis_error", "timeout",
    "connection_error", "http_1xx", "http_3xx", "http_429", "http_5xx",
    "http_4xx", "invariant_violation", "invalid_message"]

def redisOperations : List String :=
  ["enqueue", "enqueue_idempotent", "get_status", "ping",
    "ensure_consumer_group", "read_next", "claim_pending",
    "mark_delivery_started", "mark_delivered", "schedule_retry",
    "release_retry", "dead_letter", "quarantine_message", "queue_snapshot"]

def eventStatusNames : List String :=
  ["queued", "delivering", "retry_scheduled", "delivered", "dead_letter"]

/-- A call of `HooklaneMetrics`. -/
inductive MetricCall where
  | recordEnqueue (outcome reasonCode : String)
  | setQueueState (depth : ℕ) (oldestAgeSeconds : ℚ) (pending : ℕ)
  | startDelivery
  | finishDelivery (outcome reasonCode : String) (durationSeconds : ℚ)
      (endToEndSeconds : Option ℚ)
  | recordRetry (reasonCode : String)
  | recordDeadLetter (reasonCode : String)
  | recordQueueQuarantine (reasonCode : String)
  | recordRedisFailure (operation : String)

/-- Whether the call accepts its label values instead of raising
`ValueError`. -/
def MetricCall.accepted : MetricCall → Bool
  | .recordEnqueue outcome reason =>
      ["success", "failure"].contains outcome && reasonCodes.contains reason
  | .setQueueState _ age _ => decide (0 ≤ age)
  | .startDelivery => true
  | .finishDelivery outcome reason _ _ =>
      deliveryOutcomes.contains outcome && reasonCodes.contains reason
  | .recordRetry reason => reasonCodes.contains reason
  | .recordDeadLetter reason => reasonCodes.contains reason
  | .recordQueueQuarantine reason => reasonCodes.contains reason
  | .recordRedisFailure operation => redisOperations.contains operation

inductive LogEvent where
  | eventAccepted
  | eventStatusRead
  | redisOperationFailed
  | deliveryStarted
  | deliveryCompleted
  | deliveryFailed
  | retryScheduled
  | deadLettered
  | queueRecordQuarantined
deriving DecidableEq, Repr

inductive LogLevel where
  | info
  | warning
  | error
deriving DecidableEq, Repr

/-- A call of `StructuredLogger.emit`. -/
structure LogCall where
  event : LogEvent
  level : LogLevel := .info
  eventId : Option UUID := none
  attempt : Option ℤ := none
  status : Option String := none
  outcome : Option String := none
  reasonCode : Option String := none
  durationMs : Option ℚ := none

/-- Whether `emit` accepts the values instead of raising `ValueError`. -/
def LogCall.accepted (call : LogCall) : Bool :=
  call.attempt.all (fun n => decide (0 ≤ n)) &&
    call.durationMs.all (fun d => decide (0 ≤ d)) &&
    call.outcome.all (logOutcomes.contains ·) &&
    call.reasonCode.all (reasonCodes.contains ·) &&
    call.status.all (eventStatusNames.contains ·)

/-- Whether a component was given a metrics registry and a logger. -/
structure Observers where
  metrics : Bool
  logger : Bool

end Hooklane
