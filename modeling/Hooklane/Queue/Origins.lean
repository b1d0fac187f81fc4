import Hooklane.Queue.Alone
import Hooklane.Queue.Incidental

/-!
# Only the API enqueues

No call of a worker's iteration is an enqueue script.
-/

namespace Hooklane

open Redis Support ProgE

/-- A call that is not an enqueue script. -/
def Op.Work : Op → Prop
  | .redis (.enqueue ..) | .redis (.idempotentEnqueue ..) => False
  | _ => True

variable (store : RedisEventStore)

theorem work_metric (observers : Observers) (call : MetricCall) :
    CallsOnly Op.Work (App.metric observers call) :=
  callsOnly_metric (fun _ => trivial) observers call

theorem work_emit (observers : Observers) (call : LogCall) :
    CallsOnly Op.Work (App.emit observers call) :=
  callsOnly_emit (fun _ => trivial) observers call

theorem work_recordRedisFailure (operation : String) (eventId : Option UUID) :
    CallsOnly Op.Work (store.recordRedisFailure operation eventId) :=
  callsOnly_recordRedisFailure (fun _ => trivial) (fun _ => trivial) store _ _

theorem work_recordQueueQuarantine (reasonCode : String) :
    CallsOnly Op.Work (store.recordQueueQuarantine reasonCode) :=
  callsOnly_recordQueueQuarantine (fun _ => trivial) (fun _ => trivial) store _

theorem work_attempt {operation : String} {eventId : Option UUID}
    {call : RedisCall} (hcall : Op.Work (.redis call)) :
    CallsOnly Op.Work (store.attempt operation eventId call) :=
  callsOnly_attempt (fun _ => trivial) (fun _ => trivial) store hcall

theorem work_query {call : RedisCall} (hcall : Op.Work (.redis call)) :
    CallsOnly Op.Work (RedisEventStore.query call) := by
  refine callsOnly_bind (callsOnly_perform hcall) fun reply => ?_
  cases reply with
  | ok value => exact callsOnly_pure _
  | error err => exact callsOnly_throw _

section Messages

theorem work_quarantine (m group reasonCode : String) :
    CallsOnly Op.Work (store.quarantineMalformedMessage m group reasonCode) :=
  callsOnly_bind (work_attempt store trivial) fun _ =>
    work_recordQueueQuarantine store _

theorem work_readNext (group consumer : String) :
    CallsOnly Op.Work (store.readNext group consumer) := by
  refine callsOnly_bind (work_attempt store trivial) fun message => ?_
  cases message with
  | none => exact callsOnly_pure _
  | some message =>
      exact store.callsOnly_orQuarantine (work_quarantine store _ _ _) _

theorem work_claimStalePending (group consumer : String) (minIdle : ℕ) :
    CallsOnly Op.Work (store.claimStalePending group consumer minIdle) := by
  refine callsOnly_bind (work_attempt store trivial) fun claimed => ?_
  cases claimed with
  | none => exact callsOnly_pure _
  | some claimed =>
      refine callsOnly_bind (work_attempt store trivial) fun messages => ?_
      split
      · split
        · exact callsOnly_bind (work_quarantine store _ _ _) fun _ =>
            callsOnly_pure _
        · exact store.callsOnly_orQuarantine (work_quarantine store _ _ _) _
      · exact callsOnly_bind (work_recordRedisFailure store _ _)
          fun _ => callsOnly_throw _

theorem work_ensureConsumerGroup (group : String) :
    CallsOnly Op.Work (store.ensureConsumerGroup group) := by
  have hfail : CallsOnly Op.Work (do
      store.recordRedisFailure "ensure_consumer_group" none
      throw Raised.eventStoreUnavailable : App Unit) :=
    callsOnly_bind (work_recordRedisFailure store _ _)
      fun _ => callsOnly_throw _
  refine callsOnly_bind (callsOnly_perform trivial) fun reply => ?_
  split
  · exact callsOnly_pure _
  · split
    · exact callsOnly_pure _
    · exact hfail
  · exact hfail

theorem work_releaseDueRetry (group : String) (nowMs : ℤ) :
    CallsOnly Op.Work (store.releaseDueRetry group nowMs) := by
  refine callsOnly_bind (work_attempt store trivial) fun released => ?_
  split
  · exact callsOnly_bind (work_recordQueueQuarantine store _)
      fun _ => callsOnly_pure _
  · exact callsOnly_pure _

end Messages

section Snapshot

theorem work_oldestPending (group : String) (info : GroupInfo) :
    CallsOnly Op.Work (RedisEventStore.oldestPending group info) := by
  unfold RedisEventStore.oldestPending
  split
  · exact callsOnly_pure _
  · exact callsOnly_bind (work_query trivial) fun _ => callsOnly_pure _

theorem work_oldestUnread (info : GroupInfo) :
    CallsOnly Op.Work (RedisEventStore.oldestUnread info) := by
  unfold RedisEventStore.oldestUnread
  split
  · exact callsOnly_pure _
  · exact callsOnly_bind (work_query trivial) fun _ => callsOnly_pure _

theorem work_queueSnapshot (group : String) :
    CallsOnly Op.Work (RedisEventStore.queueSnapshot group) := by
  refine callsOnly_bind (work_query trivial) fun groups => ?_
  split
  · refine callsOnly_bind (work_query trivial) fun depth => ?_
    split
    · exact callsOnly_pure _
    · exact callsOnly_bind (work_query trivial) fun _ => callsOnly_pure _
  · exact callsOnly_bind (work_oldestPending _ _) fun _ =>
      callsOnly_bind (work_oldestUnread _) fun _ => callsOnly_pure _

theorem work_refreshQueueMetrics (group : String) :
    CallsOnly Op.Work (store.refreshQueueMetrics group) := by
  unfold RedisEventStore.refreshQueueMetrics
  split
  · exact callsOnly_pure _
  · refine callsOnly_tryCatch ?_ fun _ =>
      callsOnly_bind (work_recordRedisFailure store _ _)
        fun _ => callsOnly_pure _
    refine callsOnly_bind (work_query trivial) fun present => ?_
    split
    · exact callsOnly_bind (work_metric _ _) fun _ => callsOnly_pure _
    · refine callsOnly_bind (work_queueSnapshot group) fun snapshot => ?_
      obtain ⟨depth, pending, oldest⟩ := snapshot
      dsimp only
      split
      · exact callsOnly_bind (work_metric _ _) fun _ => callsOnly_pure _
      · split
        · exact callsOnly_throw _
        · exact callsOnly_bind (callsOnly_perform trivial) fun _ =>
            callsOnly_bind (work_metric _ _) fun _ => callsOnly_pure _

end Snapshot

section Delivery

variable {worker : EventWorker} {queuedEvent : QueuedEvent}
  {attemptCount : ℤ} {startedAt : ℚ}

theorem work_finishObservation (outcome reasonCode status : String)
    (event : LogEvent) (level : LogLevel) :
    CallsOnly Op.Work (worker.finishObservation queuedEvent attemptCount
      outcome reasonCode status startedAt event level) := by
  refine callsOnly_bind (callsOnly_perform trivial) fun finishedAt => ?_
  exact callsOnly_bind (EventWorker.callsOnly_endToEndSeconds trivial _ _)
    fun endToEnd => callsOnly_bind (work_metric _ _) fun _ => work_emit _ _

theorem work_observingFailure {record : App Unit}
    (hrecord : CallsOnly Op.Work record) :
    CallsOnly Op.Work (worker.observingFailure queuedEvent attemptCount
      startedAt record) := by
  refine callsOnly_tryCatch hrecord fun raised => ?_
  dsimp only
  split
  · exact callsOnly_bind (work_finishObservation ..) fun _ =>
      callsOnly_throw _
  · exact callsOnly_throw _

/-- An observation at the end of an iteration, and its result. -/
theorem work_wrapUp {α : Type} {p : App Unit} {result : α}
    (hp : CallsOnly Op.Work p) :
    CallsOnly Op.Work (do p; worker.refreshQueueMetrics; return result) := by
  refine callsOnly_bind hp fun _ => callsOnly_bind ?_ fun _ => callsOnly_pure _
  exact callsOnly_bind (work_refreshQueueMetrics _ _) fun _ => callsOnly_pure _

theorem work_recorded {operation : String} {call : RedisCall}
    (hcall : Op.Work (.redis call)) :
    CallsOnly Op.Work (worker.observingFailure queuedEvent attemptCount
      startedAt (do
        let _ ← worker.store.attempt operation queuedEvent.eventId call
        return ())) :=
  work_observingFailure (callsOnly_bind (work_attempt _ hcall) fun _ =>
    callsOnly_pure _)

theorem work_retry {policy : RetryPolicy} {errorClass : DeliveryErrorClass} :
    CallsOnly Op.Work
      (worker.retry queuedEvent attemptCount startedAt policy errorClass) := by
  refine callsOnly_bind (callsOnly_perform trivial) fun multiplier => ?_
  split
  · exact callsOnly_throw _
  · refine callsOnly_bind (callsOnly_perform trivial) fun now => ?_
    split
    · exact callsOnly_throw _
    · refine callsOnly_bind (work_recorded trivial) fun _ => ?_
      exact callsOnly_bind (work_metric _ _) fun _ =>
        work_wrapUp (work_finishObservation ..)

theorem work_afterFailure {errorClass : DeliveryErrorClass} :
    CallsOnly Op.Work
      (worker.afterFailure queuedEvent attemptCount startedAt errorClass) := by
  have hdecision : CallsOnly Op.Work
      (worker.shouldDeadLetter errorClass attemptCount) := by
    unfold EventWorker.shouldDeadLetter
    split
    · exact callsOnly_pure _
    · split
      · exact callsOnly_throw _
      · exact callsOnly_pure _
  refine callsOnly_bind hdecision fun decision => ?_
  split
  · refine callsOnly_bind (work_recorded trivial) fun _ => ?_
    exact callsOnly_bind (work_metric _ _) fun _ =>
      work_wrapUp (work_finishObservation ..)
  · split
    · split
      · exact work_retry
      · exact work_wrapUp (work_finishObservation ..)
    · exact work_wrapUp (work_finishObservation ..)

theorem work_deliverMessage :
    CallsOnly Op.Work (worker.deliverMessage queuedEvent) := by
  refine callsOnly_bind (work_attempt _ trivial) fun attemptCount => ?_
  refine callsOnly_bind (callsOnly_perform trivial) fun startedAt => ?_
  refine callsOnly_bind (work_metric _ _) fun _ => ?_
  refine callsOnly_bind (work_emit _ _) fun _ => ?_
  refine callsOnly_bind (callsOnly_perform trivial) fun reply => ?_
  cases reply with
  | success =>
      exact callsOnly_bind (work_recorded trivial) fun _ =>
        work_wrapUp (work_finishObservation ..)
  | failed errorClass => exact work_afterFailure
  | raised =>
      exact callsOnly_bind (work_finishObservation ..)
        fun _ => callsOnly_throw _

theorem work_runOnce : CallsOnly Op.Work worker.runOnce := by
  refine callsOnly_bind (work_ensureConsumerGroup _ _) fun _ => ?_
  refine callsOnly_bind (callsOnly_perform trivial) fun now => ?_
  refine callsOnly_bind (work_releaseDueRetry _ _ _) fun _ => ?_
  have htake : CallsOnly Op.Work worker.takeMessage := by
    refine callsOnly_bind (work_claimStalePending _ _ _ _) fun message => ?_
    cases message with
    | some queuedEvent => exact callsOnly_pure _
    | none => exact work_readNext _ _ _
  refine callsOnly_bind htake fun taken => ?_
  cases taken with
  | none =>
      refine callsOnly_bind ?_ fun _ => callsOnly_pure _
      exact callsOnly_bind (work_refreshQueueMetrics _ _)
        fun _ => callsOnly_pure _
  | some queuedEvent => exact work_deliverMessage

end Delivery

/-- The programs of the requests other than an enqueue. -/
theorem work_getEventStatus (observers : Observers) (eventId : UUID) :
    CallsOnly Op.Work (getEventStatus store observers eventId) := by
  have hstatus : CallsOnly Op.Work (store.getStatus eventId) := by
    refine callsOnly_bind (work_attempt store trivial) fun record => ?_
    split
    · exact callsOnly_pure _
    · split
      · exact callsOnly_bind (work_recordRedisFailure store _ _)
          fun _ => callsOnly_throw _
      · split
        · exact callsOnly_bind (work_recordRedisFailure store _ _)
            fun _ => callsOnly_throw _
        · exact callsOnly_pure _
  refine callsOnly_bind hstatus fun record => ?_
  cases record with
  | none => exact callsOnly_throw _
  | some record =>
      exact callsOnly_bind (work_emit _ _) fun _ => callsOnly_pure _

end Hooklane
