import Hooklane.Queue.Store

/-!
# `EventWorker`

One iteration of the worker: release a due retry, take a stale or a new
message, deliver it, and record the outcome.
-/

namespace Hooklane

open Support

/-- Observable result of a single worker iteration. -/
inductive WorkerResult where
  | noMessage
  | delivered
  | failedPending
  | retryScheduled
  | deadLettered
deriving DecidableEq, Repr

structure EventWorker where
  store : RedisEventStore
  group : String := "hooklane-workers"
  consumer : String := "worker-1"
  retryPolicy : Option RetryPolicy := none
  deadLetterPolicy : Option DeadLetterPolicy := none
  pendingIdleMs : ℕ := 60000
  observers : Observers

namespace EventWorker

variable (worker : EventWorker)

def refreshQueueMetrics : App Unit := do
  let _ ← worker.store.refreshQueueMetrics worker.group
  return ()

/-- The time since acceptance, measured for a success whose acceptance time is
known. -/
def endToEndSeconds (queuedEvent : QueuedEvent) (outcome : String) :
    App (Option ℚ) := do
  if outcome = "success" ∧ 0 < queuedEvent.acceptedAtMs then
    let now ← App.request .clock
    match Double.ofRat ((queuedEvent.acceptedAtMs : ℚ) / 1000) with
    | .finite acceptedAt => return some (max 0 (now.seconds - acceptedAt))
    -- The division of two integers raises `OverflowError`.
    | .nan | .infinite _ => throw .floatConversion
  else return none

theorem callsOnly_endToEndSeconds {P : Op → Prop} (hclock : P .clock)
    (queuedEvent : QueuedEvent) (outcome : String) :
    ProgE.CallsOnly P (endToEndSeconds queuedEvent outcome) := by
  unfold endToEndSeconds
  split
  · refine ProgE.callsOnly_bind (ProgE.callsOnly_perform hclock) fun now => ?_
    split
    · exact ProgE.callsOnly_pure _
    · exact ProgE.callsOnly_throw _
    · exact ProgE.callsOnly_throw _
  · exact ProgE.callsOnly_pure _

/-- `_finish_observation`. -/
def finishObservation (queuedEvent : QueuedEvent) (attemptCount : ℤ)
    (outcome reasonCode status : String) (startedAt : ℚ) (event : LogEvent)
    (level : LogLevel) : App Unit := do
  let finishedAt ← App.request .perfCounter
  let duration := finishedAt - startedAt
  let endToEnd ← endToEndSeconds queuedEvent outcome
  App.metric worker.observers
    (.finishDelivery outcome reasonCode duration endToEnd)
  App.emit worker.observers
    { event := event, level := level, eventId := queuedEvent.eventId,
      attempt := attemptCount, status := status, outcome := outcome,
      reasonCode := reasonCode, durationMs := some (duration * 1000) }

/-- The `except EventStoreUnavailable` clause around the three recording
calls: the failure is observed and raised again. -/
def observingFailure (queuedEvent : QueuedEvent) (attemptCount : ℤ)
    (startedAt : ℚ) (record : App Unit) : App Unit :=
  tryCatch record fun raised => do
    if raised = .eventStoreUnavailable then
      worker.finishObservation queuedEvent attemptCount "failure" "redis_error"
        "delivering" startedAt .deliveryFailed .error
    throw raised

/-- The dead-letter branch of a failed delivery. -/
def deadLetter (queuedEvent : QueuedEvent) (attemptCount : ℤ) (startedAt : ℚ)
    (errorClass : DeliveryErrorClass) : App WorkerResult := do
  worker.observingFailure queuedEvent attemptCount startedAt
    (worker.store.moveToDeadLetter queuedEvent worker.group errorClass)
  App.metric worker.observers (.recordDeadLetter errorClass.value)
  worker.finishObservation queuedEvent attemptCount "dead_lettered"
    errorClass.value "dead_letter" startedAt .deadLettered .error
  worker.refreshQueueMetrics
  return .deadLettered

/-- `int((clock() + delay) * 1000)`; `none` where it raises. -/
def dueAtMs (now : WallTime) (delay : Double) : Option ℤ :=
  intOfFloat (((Double.finite now.seconds).add delay).mul (.finite 1000))

/-- The retry branch of a failed delivery. -/
def retry (queuedEvent : QueuedEvent) (attemptCount : ℤ) (startedAt : ℚ)
    (policy : RetryPolicy) (errorClass : DeliveryErrorClass) :
    App WorkerResult := do
  let multiplier ← App.request
    (.uniform (1 - policy.jitterRatio) (1 + policy.jitterRatio))
  match policy.delaySeconds attemptCount multiplier with
  | none => throw .valueError
  | some delay =>
      let now ← App.request .clock
      match dueAtMs now delay with
      | none => throw .floatConversion
      | some dueAtMs =>
          worker.observingFailure queuedEvent attemptCount startedAt
            (worker.store.scheduleRetry queuedEvent dueAtMs errorClass)
          App.metric worker.observers (.recordRetry errorClass.value)
          worker.finishObservation queuedEvent attemptCount "retry_scheduled"
            errorClass.value "retry_scheduled" startedAt .retryScheduled
            .warning
          worker.refreshQueueMetrics
          return .retryScheduled

/-- A failed delivery that is neither dead-lettered nor retried. -/
def leavePending (queuedEvent : QueuedEvent) (attemptCount : ℤ)
    (startedAt : ℚ) (errorClass : DeliveryErrorClass) : App WorkerResult := do
  worker.finishObservation queuedEvent attemptCount "pending"
    errorClass.value "delivering" startedAt .deliveryFailed .error
  worker.refreshQueueMetrics
  return .failedPending

/-- The decision of the dead-letter policy, if there is one. -/
def shouldDeadLetter (errorClass : DeliveryErrorClass) (attemptCount : ℤ) :
    App Bool :=
  match worker.deadLetterPolicy with
  | none => pure false
  | some policy =>
      match policy.shouldDeadLetter errorClass attemptCount with
      | none => throw .valueError
      | some decision => pure decision

/-- The `except DeliveryFailed` clause. -/
def afterFailure (queuedEvent : QueuedEvent) (attemptCount : ℤ)
    (startedAt : ℚ) (errorClass : DeliveryErrorClass) : App WorkerResult := do
  if ← worker.shouldDeadLetter errorClass attemptCount then
    worker.deadLetter queuedEvent attemptCount startedAt errorClass
  else
    match worker.retryPolicy with
    | some policy =>
        if errorClass.isRetryable then
          worker.retry queuedEvent attemptCount startedAt policy errorClass
        else
          worker.leavePending queuedEvent attemptCount startedAt errorClass
    | none => worker.leavePending queuedEvent attemptCount startedAt errorClass

/-- The end of an iteration whose delivery succeeded. -/
def afterSuccess (queuedEvent : QueuedEvent) (attemptCount : ℤ)
    (startedAt : ℚ) : App WorkerResult := do
  worker.observingFailure queuedEvent attemptCount startedAt
    (worker.store.markDelivered queuedEvent worker.group)
  worker.finishObservation queuedEvent attemptCount "success" "none"
    "delivered" startedAt .deliveryCompleted .info
  worker.refreshQueueMetrics
  return .delivered

/-- The iteration once a message is in hand. -/
def deliverMessage (queuedEvent : QueuedEvent) : App WorkerResult := do
  let attemptCount ← worker.store.markDeliveryStarted queuedEvent
  let startedAt ← App.request .perfCounter
  App.metric worker.observers .startDelivery
  App.emit worker.observers
    { event := .deliveryStarted, eventId := queuedEvent.eventId,
      attempt := attemptCount, status := "delivering", outcome := "success",
      reasonCode := "none" }
  match ← App.request (.deliver queuedEvent) with
  | .success => worker.afterSuccess queuedEvent attemptCount startedAt
  | .failed errorClass =>
      worker.afterFailure queuedEvent attemptCount startedAt errorClass
  | .raised =>
      worker.finishObservation queuedEvent attemptCount "failure"
        "internal_error" "delivering" startedAt .deliveryFailed .error
      throw .other

/-- A stale pending message, or else a new one. -/
def takeMessage : App (Option QueuedEvent) := do
  match ← worker.store.claimStalePending worker.group worker.consumer
      worker.pendingIdleMs with
  | some queuedEvent => return some queuedEvent
  | none => worker.store.readNext worker.group worker.consumer

/-- `run_once`. -/
def runOnce : App WorkerResult := do
  worker.store.ensureConsumerGroup worker.group
  let now ← App.request .clock
  let _ ← worker.store.releaseDueRetry worker.group (truncate (now.seconds * 1000))
  match ← worker.takeMessage with
  | none =>
      worker.refreshQueueMetrics
      return .noMessage
  | some queuedEvent => worker.deliverMessage queuedEvent

end EventWorker

end Hooklane
