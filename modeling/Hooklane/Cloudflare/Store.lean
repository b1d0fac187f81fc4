import Hooklane.Cloudflare.Tables
import Hooklane.Support.Program

/-!
# `D1EventStore`

The methods of the store as programs over atomic calls.  A call to D1 is one
statement or one batch; it may fail, and its reply may be lost although it was
executed, and in both cases the method raises `PersistenceUnavailable`.  The
clock, the random source, the queue, the sink and the trace are calls as well,
so that the environment decides their results.

The flags by which the tests make a method fail are left out: a failing call
covers them.
-/

namespace Hooklane.Cloudflare

open Support

/-- One statement or batch sent to D1. -/
inductive D1Call where
  | acceptBatch (proposed : UUID) (eventType : String) (chunks : List String)
      (fingerprint : String) (keyHash : Option String) (nowMs : ℤ)
  | selectEvent (eventId : UUID)
  | selectPayloadChunks (eventId : UUID)
  | selectState (eventId : UUID)
  | selectOutbox (eventId : UUID)
  | claimOutbox (claimToken : String) (leaseUntilMs nowMs limit : ℤ)
  | markDispatched (eventId : UUID) (nowMs : ℤ) (claimToken : Option String)
  | releaseOutboxClaim (eventId : UUID) (claimToken : String) (nowMs : ℤ)
  | claimDelivery (eventId : UUID) (deliveryToken : String)
      (leaseUntilMs nowMs : ℤ) (maximumAttempts : ℕ)
  | deadLetterExhausted (eventId : UUID) (nowMs : ℤ) (maximumAttempts : ℕ)
  | updateTerminal (eventId : UUID) (status : EventStatus) (nowMs : ℤ)
      (reason : Option String) (deliveryToken : String)

namespace D1Call

@[reducible]
def Value : D1Call → Type
  | .acceptBatch .. => Option AcceptedRow
  | .selectEvent _ => Option EventRow
  | .selectPayloadChunks _ => List String
  | .selectState _ => Option (EventStatus × ℕ)
  | .selectOutbox _ => Option (OutboxState × ℕ)
  | .claimOutbox .. => List (UUID × ℕ)
  | .markDispatched .. => ℕ
  | .releaseOutboxClaim .. => ℕ
  | .claimDelivery .. => Option EventRow
  | .deadLetterExhausted .. => ℕ
  | .updateTerminal .. => ℕ

/-- What D1 runs. -/
def statement : (call : D1Call) → Statement call.Value
  | .acceptBatch proposed eventType chunks fingerprint keyHash nowMs =>
      Cloudflare.acceptBatch proposed eventType chunks fingerprint keyHash nowMs
  | .selectEvent eventId => Cloudflare.selectEvent eventId
  | .selectPayloadChunks eventId => Cloudflare.selectPayloadChunks eventId
  | .selectState eventId => Cloudflare.selectState eventId
  | .selectOutbox eventId => Cloudflare.selectOutbox eventId
  | .claimOutbox claimToken leaseUntilMs nowMs limit =>
      Cloudflare.claimOutbox claimToken leaseUntilMs nowMs limit
  | .markDispatched eventId nowMs claimToken =>
      changes <$> Cloudflare.markDispatched eventId nowMs claimToken
  | .releaseOutboxClaim eventId claimToken nowMs =>
      changes <$> Cloudflare.releaseOutboxClaim eventId claimToken nowMs
  | .claimDelivery eventId deliveryToken leaseUntilMs nowMs maximumAttempts =>
      Cloudflare.claimDelivery eventId deliveryToken leaseUntilMs nowMs
        maximumAttempts
  | .deadLetterExhausted eventId nowMs maximumAttempts =>
      changes <$> Cloudflare.deadLetterExhausted eventId nowMs maximumAttempts
  | .updateTerminal eventId status nowMs reason deliveryToken =>
      changes <$>
        Cloudflare.updateTerminal eventId status nowMs reason deliveryToken

end D1Call

/-- An event as the store returns it. -/
structure EventRecord where
  eventId : UUID
  event : EventRequest
  status : EventStatus
  attemptCount : ℕ

/-- A call of `Trace.emit`. -/
structure TraceCall where
  transition : String
  eventId : UUID
  attempt : ℕ
  reason : String
deriving DecidableEq

/-- Everything a service or handler asks its environment to do. -/
inductive Op where
  | d1 (call : D1Call)
  | time
  | uuid4
  | uniform (low high : ℚ)
  | queueSend (eventId : UUID)
  | deliver (record : EventRecord)
  | emit (call : TraceCall)
  | ack (message : ℕ)
  | retry (message : ℕ) (delaySeconds : Option ℤ)

namespace Op

/-- A call to D1 or to the queue that is not confirmed has raised. -/
@[reducible]
def Reply : Op → Type
  | .d1 call => Option call.Value
  | .time => ℚ
  | .uuid4 => UUID
  | .uniform _ _ => ℚ
  | .queueSend _ => Bool
  | .deliver _ => SinkReply
  | .emit _ => Unit
  | .ack _ => Unit
  | .retry _ _ => Unit

end Op

/-- Python exceptions that leave a method. -/
inductive Raised where
  | persistenceUnavailable
  | idempotencyConflict
  | eventNotFound
  | valueError
  | other
deriving DecidableEq, Repr

/-- Programs of the Worker. -/
abbrev App := ProgE Op Op.Reply Raised

namespace App

def request (op : Op) : App op.Reply := ProgE.perform op

/-- A call to D1, with `except Exception: raise PersistenceUnavailable`. -/
def execute (call : D1Call) : App call.Value := do
  match ← request (.d1 call) with
  | some value => return value
  | none => throw .persistenceUnavailable

def emit (transition : String) (eventId : UUID) (attempt : ℕ)
    (reason : String) : App Unit :=
  request (.emit ⟨transition, eventId, attempt, reason⟩)

/-- `_now_ms`. -/
def nowMs : App ℤ := do
  let now ← request .time
  return truncate (now * 1000)

/-- `uuid4().hex`. -/
def uuid4Hex : App String := do
  let id ← request .uuid4
  return String.ofList (id.digits.map UUID.hexDigit)

end App

structure AcceptanceRecord where
  eventId : UUID
  created : Bool
  status : EventStatus
  attemptCount : ℕ
deriving DecidableEq

structure OutboxRecord where
  eventId : UUID
  sendAttemptCount : ℕ
  claimToken : String
deriving DecidableEq

/-- Describe the result of claiming a delivery attempt. -/
inductive DeliveryStartDisposition where
  | started
  | busy
  | terminal
deriving DecidableEq, Repr

/-- D1-backed delivery claim or a safe duplicate disposition. -/
structure DeliveryStart where
  disposition : DeliveryStartDisposition
  status : EventStatus
  attemptCount : ℕ
  record : Option EventRecord := none
  deliveryToken : Option String := none

/-- The store and the standard library it runs on. -/
structure D1EventStore where
  lib : Stdlib

namespace D1EventStore

def accept (proposedEventId : UUID) (event : EventRequest)
    (keyHash : Option String) (fingerprint : String) :
    App AcceptanceRecord := do
  let nowMs ← App.nowMs
  match payloadJsonChunks payloadChunkLimitBytes event with
  | none => throw .valueError
  | some chunks =>
      match ← App.execute (.acceptBatch proposedEventId event.eventType chunks
          fingerprint keyHash nowMs) with
      | none => throw .persistenceUnavailable
      | some row =>
          if keyHash ≠ none ∧ row.requestFingerprint ≠ fingerprint then
            throw .idempotencyConflict
          else
            return { eventId := row.eventId,
                     created := decide (row.eventId = proposedEventId),
                     status := row.status, attemptCount := row.attemptCount }

/-- `_load_payload_json`. -/
def loadPayloadJson (eventId : UUID) (legacyPayloadJson : String) :
    App String := do
  let chunks ← App.execute (.selectPayloadChunks eventId)
  if chunks ≠ [] then return String.join chunks
  else if legacyPayloadJson ≠ "" then return legacyPayloadJson
  else throw .persistenceUnavailable

/-- The record of a selected row: its payload is loaded, parsed and
validated. -/
def loadRecord (store : D1EventStore) (eventId : UUID) (row : EventRow) :
    App EventRecord := do
  let payloadJson ← loadPayloadJson eventId row.payloadJson
  let event := do
    let payload ← store.lib.readJson payloadJson
    EventRequest.validate row.eventType payload
  match event with
  | some event =>
      return { eventId, event, status := row.status,
               attemptCount := row.attemptCount }
  | none => throw .persistenceUnavailable

def getStatus (store : D1EventStore) (eventId : UUID) :
    App (Option EventRecord) := do
  match ← App.execute (.selectEvent eventId) with
  | none => return none
  | some row =>
      let record ← store.loadRecord eventId row
      return some record

def claimOutbox (limit : ℤ) (claimToken : String) (leaseMs : ℤ) :
    App (List OutboxRecord) := do
  let nowMs ← App.nowMs
  let rows ← App.execute
    (.claimOutbox claimToken (nowMs + leaseMs) nowMs limit)
  return rows.map fun (eventId, sendAttemptCount) =>
    { eventId, sendAttemptCount, claimToken }

def markDispatched (eventId : UUID) (claimToken : Option String) :
    App Bool := do
  let nowMs ← App.nowMs
  let changed ← App.execute (.markDispatched eventId nowMs claimToken)
  return changed = 1

def releaseOutboxClaim (eventId : UUID) (claimToken : String) : App Unit := do
  let nowMs ← App.nowMs
  let _ ← App.execute (.releaseOutboxClaim eventId claimToken nowMs)
  return ()

/-- How `mark_delivery_started` answers for a row that it did not claim, when
the state it reads decides that. -/
def unclaimed (state : EventStatus × ℕ) : Option DeliveryStart :=
  if state.1.Terminal then
    some { disposition := .terminal, status := state.1,
           attemptCount := state.2 }
  else if state.1 = .delivering then
    some { disposition := .busy, status := state.1, attemptCount := state.2 }
  else none

/-- `SELECT status, attempt_count`, where the event must exist. -/
def readState (eventId : UUID) : App (EventStatus × ℕ) := do
  match ← App.execute (.selectState eventId) with
  | some state => return state
  | none => throw .eventNotFound

/-- `mark_delivery_started` after its claim selected no row. -/
def startUnclaimed (eventId : UUID) (nowMs : ℤ) (maximumAttempts : ℕ) :
    App DeliveryStart := do
  let snapshot ← readState eventId
  match unclaimed snapshot with
  | some start => return start
  | none =>
      if maximumAttempts ≤ snapshot.2 then
        let changed ← App.execute
          (.deadLetterExhausted eventId nowMs maximumAttempts)
        if changed = 1 then
          return { disposition := .terminal, status := .deadLetter,
                   attemptCount := snapshot.2 }
        else
          -- Another claimant changed the row after the snapshot.
          let current ← readState eventId
          match unclaimed current with
          | some start => return start
          | none => throw .persistenceUnavailable
      else throw .persistenceUnavailable

def markDeliveryStarted (store : D1EventStore) (eventId : UUID)
    (maximumAttempts : ℕ) : App DeliveryStart := do
  if maximumAttempts < 1 then throw .valueError
  else
    let nowMs ← App.nowMs
    let deliveryToken ← App.uuid4Hex
    match ← App.execute (.claimDelivery eventId deliveryToken (nowMs + 30000)
        nowMs maximumAttempts) with
    | some row =>
        let record ← store.loadRecord eventId row
        return { disposition := .started, status := row.status,
                 attemptCount := row.attemptCount, record := some record,
                 deliveryToken := some deliveryToken }
    | none => startUnclaimed eventId nowMs maximumAttempts

/-- `_update_terminal`. -/
def updateTerminal (eventId : UUID) (status : EventStatus)
    (reason : Option String) (deliveryToken : String) : App Bool := do
  let nowMs ← App.nowMs
  let changed ← App.execute
    (.updateTerminal eventId status nowMs reason deliveryToken)
  return changed = 1

def markDelivered (eventId : UUID) (deliveryToken : String) : App Bool :=
  updateTerminal eventId .delivered none deliveryToken

def markRetry (eventId : UUID) (reason : DeliveryErrorClass)
    (deliveryToken : String) : App Bool :=
  updateTerminal eventId .retryScheduled (some reason.value)
    deliveryToken

def markDeadLetter (eventId : UUID) (reason : DeliveryErrorClass)
    (deliveryToken : String) : App Bool :=
  updateTerminal eventId .deadLetter (some reason.value) deliveryToken

def getOutboxState (eventId : UUID) : App (Option (OutboxState × ℕ)) :=
  App.execute (.selectOutbox eventId)

end D1EventStore

end Hooklane.Cloudflare
