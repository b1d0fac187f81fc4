import Hooklane.Queue.Store

/-!
# The HTTP API

The two event routes of `api/app.py`.
-/

namespace Hooklane

/-- `POST /v1/events`: a fresh event id, then the plain or the idempotent
enqueue. -/
def acceptEvent (store : RedisEventStore) (observers : Observers)
    (event : EventRequest) (idempotencyKey : Option String) : App UUID := do
  let eventId ← App.request .uuid4
  let accepted ← tryCatch
    (match idempotencyKey with
    | none => do
        store.enqueue eventId event
        pure eventId
    | some key => store.enqueueIdempotent eventId event key)
    fun raised => do
      if raised = .idempotencyConflict then
        App.metric observers (.recordEnqueue "failure" "idempotency_conflict")
      else if raised = .eventStoreUnavailable then
        App.metric observers (.recordEnqueue "failure" "storage_unavailable")
      throw raised
  App.metric observers (.recordEnqueue "success" "none")
  App.emit observers
    { event := .eventAccepted, eventId := accepted, attempt := some 0,
      status := some EventStatus.queued.value, outcome := some "success",
      reasonCode := some "none" }
  return accepted

/-- `GET /v1/events/{event_id}`. -/
def getEventStatus (store : RedisEventStore) (observers : Observers)
    (eventId : UUID) : App RedisEventStore.EventStatusRecord := do
  match ← store.getStatus eventId with
  | none => throw .notFound
  | some record => do
      App.emit observers
        { event := .eventStatusRead, eventId := record.eventId,
          attempt := record.attemptCount, status := record.status.value,
          outcome := some "success", reasonCode := some "none" }
      return record

end Hooklane
