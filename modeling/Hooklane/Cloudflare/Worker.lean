import Hooklane.Cloudflare.Core

/-!
# The Worker's entry points

The queue consumer and the scheduled repair of `worker.py`.  The routes for
local tests are left out.
-/

namespace Hooklane.Cloudflare

/-- A queue message: its place in the queue and the `event_id` of its body. -/
structure Message where
  id : ℕ
  eventId : String
deriving DecidableEq, Repr

namespace Worker

/-- One round of the loop of `queue`. -/
def handleMessage (service : DeliveryService) (message : Message) :
    App Unit := do
  match UUID.parse message.eventId with
  | none => throw .valueError
  | some eventId =>
      match ← App.orElseNone
          (fun raised => raised = .persistenceUnavailable ∨
            raised = .eventNotFound)
          (service.process eventId) with
      | none => App.request (.retry message.id none)
      | some result =>
          if result.disposition = .ack then App.request (.ack message.id)
          else App.request (.retry message.id result.retryDelaySeconds)

/-- `Default.queue`: the messages of a batch, one after the other. -/
def queue (service : DeliveryService) : List Message → App Unit
  | [] => return ()
  | message :: rest => do
      handleMessage service message
      queue service rest

/-- `Default.scheduled`. -/
def scheduled : App Unit := do
  let _ ← AcceptanceService.repair 100
  return ()

end Worker

end Hooklane.Cloudflare
