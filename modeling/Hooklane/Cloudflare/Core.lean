import Hooklane.Cloudflare.Store

/-!
# Acceptance, outbox repair and the delivery state machine

The services of `core.py`.  A `try` block that catches some exceptions is
`App.orElseNone`, whose result is `none` where the source enters the handler.
-/

namespace Hooklane.Cloudflare

/-- Run `p`; an exception that `caught` accepts gives `none`. -/
def App.orElseNone {α : Type} (caught : Raised → Bool) (p : App α) :
    App (Option α) :=
  tryCatch
    (do
      let value ← p
      return some value)
    fun raised => if caught raised then return none else throw raised

/-- `OUTBOX_LEASE_MS`. -/
def outboxLeaseMs : ℤ := 30000

/-- Persist before 202 and bridge the gap between D1 and the queue. -/
structure AcceptanceService where
  store : D1EventStore

namespace AcceptanceService

/-- `accept` after the event is stored: send its reference and mark the outbox
row. -/
def dispatch (record : AcceptanceRecord) : App AcceptanceRecord := do
  App.emit "accepted" record.eventId 0 "none"
  if !(← App.request (.queueSend record.eventId)) then
    App.emit "outbox_pending" record.eventId 0 "queue_unavailable"
    return record
  else
    match ← App.orElseNone (· = .persistenceUnavailable)
        (D1EventStore.markDispatched record.eventId none) with
    | none =>
        App.emit "outbox_pending" record.eventId 0 "dispatch_transition_failed"
        return record
    | some dispatched =>
        if !dispatched then
          App.emit "outbox_pending" record.eventId 0 "dispatch_claimed"
          return record
        else
          App.emit "queued" record.eventId 0 "none"
          return record

/-- `proposed_event_id or uuid4()`. -/
def proposedOrNew : Option UUID → App UUID
  | some id => return id
  | none => App.request .uuid4

def accept (service : AcceptanceService) (event : EventRequest)
    (idempotencyKey : Option String) (proposedEventId : Option UUID) :
    App AcceptanceRecord := do
  let eventId ← proposedOrNew proposedEventId
  let record ← D1EventStore.accept eventId event
    (idempotencyKeyHash service.store.lib idempotencyKey)
    (event.fingerprint service.store.lib)
  if !record.created then
    App.emit "idempotent_reuse" record.eventId record.attemptCount "none"
    return record
  else dispatch record

/-- One round of the loop of `repair`: whether the row was dispatched. -/
def repairOne (claimToken : String) (outbox : OutboxRecord) : App Bool := do
  if !(← App.request (.queueSend outbox.eventId)) then
    let _ ← App.orElseNone (· = .persistenceUnavailable)
      (D1EventStore.releaseOutboxClaim outbox.eventId claimToken)
    App.emit "repair_deferred" outbox.eventId outbox.sendAttemptCount
      "dependency_unavailable"
    return false
  else
    match ← App.orElseNone (· = .persistenceUnavailable)
        (D1EventStore.markDispatched outbox.eventId (some claimToken)) with
    | none =>
        App.emit "repair_deferred" outbox.eventId outbox.sendAttemptCount
          "dispatch_transition_failed"
        return false
    | some dispatched =>
        if !dispatched then
          App.emit "repair_deferred" outbox.eventId outbox.sendAttemptCount
            "claim_lost"
          return false
        else
          App.emit "repair_dispatched" outbox.eventId
            (outbox.sendAttemptCount + 1) "none"
          return true

/-- The loop of `repair`, with its two counters. -/
def repairAll (claimToken : String) :
    List OutboxRecord → ℕ → ℕ → App (ℕ × ℕ)
  | [], repaired, deferred => return (repaired, deferred)
  | outbox :: rest, repaired, deferred => do
      if ← repairOne claimToken outbox then
        repairAll claimToken rest (repaired + 1) deferred
      else repairAll claimToken rest repaired (deferred + 1)

/-- Claim and resend pending references. -/
def repair (limit : ℤ) : App (ℕ × ℕ) := do
  let claimToken ← App.uuid4Hex
  let outboxes ← D1EventStore.claimOutbox limit claimToken outboxLeaseMs
  repairAll claimToken outboxes 0 0

end AcceptanceService

inductive DeliveryDisposition where
  | ack
  | retry
deriving DecidableEq, Repr

structure DeliveryResult where
  disposition : DeliveryDisposition
  eventId : UUID
  attemptCount : ℕ
  status : EventStatus
  retryDelaySeconds : Option ℤ := none
deriving DecidableEq

/-- `round(x)`: to the nearest integer, and to the even one of two. -/
def pyRound (x : ℚ) : ℤ :=
  let low := x.floor
  let part := x - low
  if part < 1 / 2 then low
  else if 1 / 2 < part then low + 1
  else if low % 2 = 0 then low else low + 1

/-- Run one at-least-once delivery attempt for a queue reference. -/
structure DeliveryService where
  store : D1EventStore
  maximumAttempts : ℕ := 5
  positive : 1 ≤ maximumAttempts := by decide

namespace DeliveryService

def retryDelaySeconds (attemptCount : ℕ) : App ℤ := do
  if attemptCount < 1 then throw .valueError
  else
    let backoff : ℚ := min (2 ^ min (attemptCount - 1) 62) 60
    let multiplier ← App.request (.uniform (3 / 4) (5 / 4))
    return max 1 (min (pyRound (backoff * multiplier)) 60)

/-- `_current_result`. -/
def currentResult (service : DeliveryService) (eventId : UUID) :
    App DeliveryResult := do
  match ← service.store.getStatus eventId with
  | none => throw .eventNotFound
  | some current =>
      if current.status.Terminal then
        return { disposition := .ack, eventId,
                 attemptCount := current.attemptCount,
                 status := current.status }
      else
        return { disposition := .retry, eventId,
                 attemptCount := current.attemptCount,
                 status := current.status, retryDelaySeconds := some 1 }

/-- What `process` does when its attempt has lost the row. -/
def staleResult (service : DeliveryService) (eventId : UUID)
    (attemptCount : ℕ) : App DeliveryResult := do
  App.emit "delivery_stale" eventId attemptCount "ownership_lost"
  service.currentResult eventId

/-- `process` after the sink has failed. -/
def afterFailure (service : DeliveryService) (eventId : UUID)
    (record : EventRecord) (deliveryToken : String)
    (errorClass : DeliveryErrorClass) : App DeliveryResult := do
  if !errorClass.isRetryable ∨
      service.maximumAttempts ≤ record.attemptCount then
    let transitioned ← D1EventStore.markDeadLetter eventId errorClass
      deliveryToken
    if !transitioned then service.staleResult eventId record.attemptCount
    else
      App.emit "dead_letter" eventId record.attemptCount errorClass.value
      return { disposition := .ack, eventId,
               attemptCount := record.attemptCount, status := .deadLetter }
  else
    let transitioned ← D1EventStore.markRetry eventId errorClass deliveryToken
    if !transitioned then service.staleResult eventId record.attemptCount
    else
      let delay ← retryDelaySeconds record.attemptCount
      App.emit "retry_scheduled" eventId record.attemptCount errorClass.value
      return { disposition := .retry, eventId,
               attemptCount := record.attemptCount,
               status := .retryScheduled, retryDelaySeconds := some delay }

/-- `process` after the sink has accepted the event. -/
def afterSuccess (service : DeliveryService) (eventId : UUID)
    (record : EventRecord) (deliveryToken : String) : App DeliveryResult := do
  let transitioned ← D1EventStore.markDelivered eventId deliveryToken
  if !transitioned then service.staleResult eventId record.attemptCount
  else
    App.emit "delivered" eventId record.attemptCount "none"
    return { disposition := .ack, eventId,
             attemptCount := record.attemptCount, status := .delivered }

/-- `process` with a started attempt. -/
def deliverStarted (service : DeliveryService) (eventId : UUID)
    (record : EventRecord) (deliveryToken : String) : App DeliveryResult := do
  App.emit "delivering" eventId record.attemptCount "none"
  match ← App.request (.deliver record) with
  | .success => service.afterSuccess eventId record deliveryToken
  | .failed errorClass =>
      service.afterFailure eventId record deliveryToken errorClass
  | .raised => throw .other

def process (service : DeliveryService) (eventId : UUID) :
    App DeliveryResult := do
  let start ← service.store.markDeliveryStarted eventId
    service.maximumAttempts
  if start.disposition = .terminal then
    App.emit "terminal_duplicate" eventId start.attemptCount "terminal_state"
    return { disposition := .ack, eventId, attemptCount := start.attemptCount,
             status := start.status }
  else if start.disposition = .busy then
    App.emit "delivery_deferred" eventId start.attemptCount "active_attempt"
    return { disposition := .retry, eventId,
             attemptCount := start.attemptCount, status := start.status,
             retryDelaySeconds := some 1 }
  else
    match start.record, start.deliveryToken with
    | some record, some deliveryToken =>
        service.deliverStarted eventId record deliveryToken
    | _, _ => throw .persistenceUnavailable

end DeliveryService

end Hooklane.Cloudflare
