import Hooklane.Cloudflare.Journal
import Hooklane.Cloudflare.Worker
import Hooklane.Support.Schedule

/-!
# The Cloudflare backend as a system

Any number of acceptances, repairs, deliveries and queue batches share one D1
database and one queue.  A statement or batch is one atomic step; its reply may
be lost after it ran, and it may fail without effect.  A send may be confirmed,
fail, or store the message without being confirmed.  The clock, the sink and
the random source answer as they like.

The queue is the list of all messages that were ever stored, in the order of
their arrival, and a message is named by its place in that list.  The history,
newest first, records every executed statement with the tables it started
from, every confirmed send and every call of the sink.  No program reads it.
-/

namespace Hooklane.Cloudflare

open Support

/-- One entry of the history. -/
inductive Record where
  | executed (before : Database) (call : D1Call) (value : call.Value)
  | sent (eventId : UUID)
  | delivered (record : EventRecord) (reply : SinkReply)

/-- The tables, the queue and what has happened so far. -/
structure World where
  db : Database := {}
  messages : List String := []
  acked : List ℕ := []
  retried : List ℕ := []
  history : List Record := []

/-- The rows that `RETURNING` gives come in any order. -/
def D1Call.Agrees : (call : D1Call) → call.Value → call.Value → Prop
  | .claimOutbox .., returned, value => returned.Perm value
  | _, returned, value => returned = value

namespace World

/-- A statement ends with `value` and leaves the tables `db`. -/
def ran (w : World) (call : D1Call) (value : call.Value) (db : Database) :
    World :=
  { w with db := db, history := .executed w.db call value :: w.history }

/-- The queue stores a reference. -/
def stored (w : World) (eventId : UUID) : World :=
  { w with messages := w.messages ++ [eventId.text] }

/-- The queue stores a reference and confirms it. -/
def sent (w : World) (eventId : UUID) : World :=
  { w with messages := w.messages ++ [eventId.text]
           history := .sent eventId :: w.history }

/-- The sink answers a call. -/
def delivered (w : World) (record : EventRecord) (reply : SinkReply) : World :=
  { w with history := .delivered record reply :: w.history }

def ack (w : World) (message : ℕ) : World :=
  { w with acked := message :: w.acked }

def retry (w : World) (message : ℕ) : World :=
  { w with retried := message :: w.retried }

/-- How the environment answers each call. -/
inductive Exec (w : World) : (op : Op) → op.Reply → World → Prop where
  | answered (call : D1Call) (value returned : call.Value) (db : Database)
      (run : call.statement w.db = some (value, db))
      (agrees : call.Agrees returned value) :
      Exec w (.d1 call) (some returned) (w.ran call value db)
  | replyLost (call : D1Call) (value : call.Value) (db : Database)
      (run : call.statement w.db = some (value, db)) :
      Exec w (.d1 call) none (w.ran call value db)
  | failed (call : D1Call) : Exec w (.d1 call) none w
  | sendConfirmed (eventId : UUID) :
      Exec w (.queueSend eventId) true (w.sent eventId)
  | sendUnconfirmed (eventId : UUID) :
      Exec w (.queueSend eventId) false (w.stored eventId)
  | sendFailed (eventId : UUID) : Exec w (.queueSend eventId) false w
  | delivered (record : EventRecord) (reply : SinkReply) :
      Exec w (.deliver record) reply (w.delivered record reply)
  | time (now : ℚ) : Exec w .time now w
  | uuid4 (id : UUID) : Exec w .uuid4 id w
  | uniform (low high value : ℚ) (above : low ≤ value) (below : value ≤ high) :
      Exec w (.uniform low high) value w
  | emit (call : TraceCall) : Exec w (.emit call) () w
  | ack (message : ℕ) : Exec w (.ack message) () (w.ack message)
  | retry (message : ℕ) (delaySeconds : Option ℤ) :
      Exec w (.retry message delaySeconds) () (w.retry message)

/-- The event is delivered or given up. -/
def Finished (w : World) (eventId : UUID) : Prop :=
  ∃ row, w.db.events.lookup eventId = some row ∧ row.status.Terminal

end World

/-- The shared environment. -/
@[reducible]
def d1Machine : Machine Op Op.Reply where
  State := World
  Init := fun w => w = {}
  exec := World.Exec

/-- What clients, the scheduler and the queue start.  A start of
`mark_delivery_started` on its own says whether the event was finished by
then. -/
inductive Request where
  | accept (service : AcceptanceService) (event : EventRequest)
      (idempotencyKey : Option String) (proposedEventId : Option UUID)
  | repair (limit : ℤ)
  | process (service : DeliveryService) (eventId : UUID)
  | queue (service : DeliveryService) (batch : List Message)
  | getStatus (store : D1EventStore) (eventId : UUID)
  | markDeliveryStarted (service : DeliveryService) (eventId : UUID)
      (finished : Bool)

namespace Request

@[reducible]
def Result : Request → Type
  | .accept .. => Except Raised AcceptanceRecord
  | .repair _ => Except Raised (ℕ × ℕ)
  | .process .. => Except Raised DeliveryResult
  | .queue .. => Except Raised Unit
  | .getStatus .. => Except Raised (Option EventRecord)
  | .markDeliveryStarted .. => Except Raised DeliveryStart

def body : (request : Request) → Prog Op Op.Reply request.Result
  | .accept service event key proposed =>
      (service.accept event key proposed).run
  | .repair limit => (AcceptanceService.repair limit).run
  | .process service eventId => (service.process eventId).run
  | .queue service batch => (Worker.queue service batch).run
  | .getStatus store eventId => (store.getStatus eventId).run
  | .markDeliveryStarted service eventId _ =>
      (service.store.markDeliveryStarted eventId
        service.maximumAttempts).run

/-- When a request can start: its bound on the attempts is among `maxima`, and
a batch consists of messages of the queue. -/
def Enabled (maxima : ℕ → Prop) (w : World) : Request → Prop
  | .process service _ => maxima service.maximumAttempts
  | .queue service batch => maxima service.maximumAttempts ∧
      ∀ m ∈ batch, w.messages[m.id]? = some m.eventId
  | .markDeliveryStarted service eventId finished =>
      maxima service.maximumAttempts ∧ (finished = true → w.Finished eventId)
  | _ => True

end Request

/-- The requests on one database and one queue, where every delivery service
has a bound among `maxima`. -/
def d1Service (maxima : ℕ → Prop) : Service d1Machine where
  Call := Request
  Result := Request.Result
  Enabled := Request.Enabled maxima
  body := Request.body

/-- The answers that a schedule can ask for. -/
inductive Answer where
  | ran
  | lost
  | fails
  | sink (reply : SinkReply)
  | number (value : ℚ)
  | uuid (id : UUID)
  | done

/-- The environment's step for a chosen answer. -/
def World.answer (w : World) : (op : Op) → Answer → Option (op.Reply × World)
  | .d1 call, .ran =>
      (call.statement w.db).map fun (value, db) =>
        (some value, w.ran call value db)
  | .d1 call, .lost =>
      (call.statement w.db).map fun (value, db) =>
        (none, w.ran call value db)
  | .d1 _, .fails => some (none, w)
  | .queueSend eventId, .ran => some (true, w.sent eventId)
  | .queueSend eventId, .lost => some (false, w.stored eventId)
  | .queueSend _, .fails => some (false, w)
  | .deliver record, .sink reply => some (reply, w.delivered record reply)
  | .time, .number now => some (now, w)
  | .uuid4, .uuid id => some (id, w)
  | .uniform low high, .number value =>
      if low ≤ value ∧ value ≤ high then some (value, w) else none
  | .emit _, .done => some ((), w)
  | .ack message, .done => some ((), w.ack message)
  | .retry message _, .done => some ((), w.retry message)
  | _, _ => none

theorem D1Call.agrees_refl (call : D1Call) (value : call.Value) :
    call.Agrees value value := by
  cases call with
  | claimOutbox => exact List.Perm.refl _
  | _ => rfl

theorem World.exec_of_answer {w w' : World} {op : Op} {answer : Answer}
    {reply : op.Reply} (h : w.answer op answer = some (reply, w')) :
    Exec w op reply w' := by
  unfold World.answer at h
  split at h
  case h_1 call =>
    obtain ⟨⟨value, db⟩, hrun, heq⟩ := Option.map_eq_some_iff.mp h
    obtain ⟨rfl, rfl⟩ := Prod.mk.inj heq
    exact .answered call value value db hrun (call.agrees_refl value)
  case h_2 call =>
    obtain ⟨⟨value, db⟩, hrun, heq⟩ := Option.map_eq_some_iff.mp h
    obtain ⟨rfl, rfl⟩ := Prod.mk.inj heq
    exact .replyLost call value db hrun
  case h_10 =>
    split at h
    · next hrange =>
      obtain ⟨rfl, rfl⟩ := Prod.mk.inj (Option.some.inj h)
      exact .uniform _ _ _ hrange.1 hrange.2
    · exact absurd h (by simp)
  case h_14 => exact absurd h (by simp)
  all_goals obtain ⟨rfl, rfl⟩ := Prod.mk.inj (Option.some.inj h)
  · exact .failed _
  · exact .sendConfirmed _
  · exact .sendUnconfirmed _
  · exact .sendFailed _
  · exact .delivered _ _
  · exact .time _
  · exact .uuid4 _
  · exact .emit _
  · exact .ack _
  · exact .retry _ _

/-- Concrete schedules of the Cloudflare backend. -/
def d1Oracle : Oracle d1Machine where
  Answer := Answer
  answer := World.answer
  sound := fun _ _ _ _ _ h => World.exec_of_answer h

/-- What an executed statement did to an event. -/
def D1Call.entry (before : Database) :
    (call : D1Call) → call.Value → Option (UUID × Entry)
  | .acceptBatch proposed _ _ _ _ _, value =>
      if proposed ∉ before.events ∧
          value.any fun row => row.eventId = proposed then
        some (proposed, .accepted)
      else none
  | .claimDelivery eventId deliveryToken _ _ _, value =>
      value.map fun row => (eventId, .claimed deliveryToken row.attemptCount)
  | .deadLetterExhausted eventId _ _, changed =>
      if changed = 1 then some (eventId, .exhausted) else none
  | .updateTerminal eventId status _ _ deliveryToken, changed =>
      if changed = 1 then some (eventId, .settled status deliveryToken)
      else none
  | _, _ => none

namespace Record

/-- What a step did to one event. -/
def entry (eventId : UUID) : Record → Option Entry
  | .executed before call value =>
      (call.entry before value).bind fun (e, entry) =>
        if e = eventId then some entry else none
  | .sent _ => none
  | .delivered _ _ => none

/-- The event whose delivery was tried. -/
def sinkCall : Record → Option UUID
  | .delivered record _ => some record.eventId
  | .executed .. => none
  | .sent _ => none

end Record

namespace World

/-- Everything that happened to an event, newest first. -/
def journal (w : World) (eventId : UUID) : List Entry :=
  w.history.filterMap (Record.entry eventId)

/-- How often the sink was called for an event. -/
def sinkCalls (w : World) (eventId : UUID) : ℕ :=
  w.history.countP fun record => record.sinkCall = some eventId

/-- The sink has accepted an event. -/
def Succeeded (w : World) (eventId : UUID) : Prop :=
  ∃ record, .delivered record .success ∈ w.history ∧
    record.eventId = eventId

/-- A reference to the event was sent, and the send was confirmed. -/
def Sent (w : World) (eventId : UUID) : Prop :=
  .sent eventId ∈ w.history

end World

end Hooklane.Cloudflare
