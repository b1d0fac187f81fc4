import Hooklane.Api.App
import Hooklane.Queue.Handover
import Hooklane.Support.Schedule
import Hooklane.Worker.Service

/-!
# The Redis backend as a system

Any number of API requests and worker iterations share one Redis server.  A
script or command is one atomic step at any server time.  Its reply may be
lost after it ran, and the request may be lost before it ran.  The sink, the
clocks and the random source answer as they like.  The start of a delivery
replies the exact count, which Lua would round from 2^53 attempts on
(`evaluated_startDelivery`).

The history records every executed script with the keyspace it started from,
and every call of the sink.  No program reads it.
-/

namespace Hooklane

open Redis Support

/-- One entry of the history. -/
inductive Record where
  | executed (before : Store) (call : RedisCall)
      (result : Except String call.Value)
  | delivered (event : QueuedEvent) (reply : SinkReply)

/-- The server's keyspace and what has happened so far. -/
structure World where
  store : Store
  history : List Record

namespace World

/-- The empty store. -/
def initial : World := ⟨fun _ => none, []⟩

/-- A script runs to its end at server time `now`. -/
def run (w : World) (call : RedisCall) (now : UInt64) : World where
  store := (call.script now w.store).2
  history := w.history ++
    [.executed w.store call (call.script now w.store).1]

/-- The sink answers a call. -/
def deliver (w : World) (event : QueuedEvent) (reply : SinkReply) : World :=
  { w with history := w.history ++ [.delivered event reply] }

/-- What the client sees of a script that ran. -/
def reply (call : RedisCall) :
    Except String call.Value → Except RedisError call.Received
  | .ok value => .ok (call.receive value)
  | .error message => .error (.response message)

/-- How the environment answers each call. -/
inductive Exec (w : World) : (op : Op) → op.Reply → World → Prop where
  | answered (call : RedisCall) (now : UInt64) :
      Exec w (.redis call) (reply call (call.script now w.store).1)
        (w.run call now)
  | replyLost (call : RedisCall) (now : UInt64) :
      Exec w (.redis call) (.error .connection) (w.run call now)
  | requestLost (call : RedisCall) :
      Exec w (.redis call) (.error .connection) w
  | delivered (event : QueuedEvent) (reply : SinkReply) :
      Exec w (.deliver event) reply (w.deliver event reply)
  | clock (time : WallTime) : Exec w .clock time w
  | perfCounter (time : ℚ) : Exec w .perfCounter time w
  | uniform (low high value : ℚ) (above : low ≤ value) (below : value ≤ high) :
      Exec w (.uniform low high) value w
  | uuid4 (id : UUID) : Exec w .uuid4 id w
  | metrics (call : MetricCall) : Exec w (.metrics call) () w
  | log (call : LogCall) : Exec w (.log call) () w

end World

/-- The shared environment. -/
@[reducible]
def redisMachine : Machine Op Op.Reply where
  State := World
  Init := fun w => w = World.initial
  exec := World.Exec

/-- What clients and worker processes start. -/
inductive Request where
  | acceptEvent (store : RedisEventStore) (observers : Observers)
      (event : EventRequest) (idempotencyKey : Option String)
  | enqueue (store : RedisEventStore) (eventId : UUID) (event : EventRequest)
  | enqueueIdempotent (store : RedisEventStore) (eventId : UUID)
      (event : EventRequest) (idempotencyKey : String)
  | getEventStatus (store : RedisEventStore) (observers : Observers)
      (eventId : UUID)
  | runOnce (worker : EventWorker)

namespace Request

@[reducible]
def Result : Request → Type
  | .acceptEvent .. => Except Raised UUID
  | .enqueue .. => Except Raised Unit
  | .enqueueIdempotent .. => Except Raised UUID
  | .getEventStatus .. => Except Raised RedisEventStore.EventStatusRecord
  | .runOnce _ => Except Raised WorkerResult

def body : (request : Request) → Prog Op Op.Reply request.Result
  | .acceptEvent store observers event key =>
      (Hooklane.acceptEvent store observers event key).run
  | .enqueue store eventId event => (store.enqueue eventId event).run
  | .enqueueIdempotent store eventId event key =>
      (store.enqueueIdempotent eventId event key).run
  | .getEventStatus store observers eventId =>
      (Hooklane.getEventStatus store observers eventId).run
  | .runOnce worker => worker.runOnce.run

end Request

/-- The requests on one Redis server whose workers share the consumer group
`group` and the standard library `lib`. -/
def redisService (lib : Stdlib) (group : String) : Service redisMachine where
  Call := Request
  Result := Request.Result
  Enabled := fun _ request =>
    match request with
    | .runOnce worker => worker.group = group ∧ worker.store.lib = lib
    | _ => True
  body := Request.body

/-- The answers that a schedule can ask for. -/
inductive Answer where
  | ran (now : UInt64)
  | sink (reply : SinkReply)
  | number (value : ℚ)
  | uuid (id : UUID)
  | done

/-- The environment's step for a chosen answer. -/
def World.answer (w : World) : (op : Op) → Answer → Option (op.Reply × World)
  | .redis call, .ran now =>
      some (reply call (call.script now w.store).1, w.run call now)
  | .deliver event, .sink reply => some (reply, w.deliver event reply)
  | .clock, .number seconds =>
      if h : -2 ^ 63 < seconds ∧ seconds < 2 ^ 63 then some (⟨seconds, h⟩, w)
      else none
  | .perfCounter, .number time => some (time, w)
  | .uniform low high, .number value =>
      if low ≤ value ∧ value ≤ high then some (value, w) else none
  | .uuid4, .uuid id => some (id, w)
  | .metrics _, .done => some ((), w)
  | .log _, .done => some ((), w)
  | _, _ => none

theorem World.exec_of_answer {w w' : World} {op : Op} {answer : Answer}
    {reply : op.Reply} (h : w.answer op answer = some (reply, w')) :
    Exec w op reply w' := by
  unfold World.answer at h
  split at h
  case h_3 =>
    split at h
    · obtain ⟨rfl, rfl⟩ := Prod.mk.inj (Option.some.inj h)
      exact .clock _
    · exact absurd h (by simp)
  case h_5 =>
    split at h
    · next hrange =>
      obtain ⟨rfl, rfl⟩ := Prod.mk.inj (Option.some.inj h)
      exact .uniform _ _ _ hrange.1 hrange.2
    · exact absurd h (by simp)
  case h_9 => exact absurd h (by simp)
  all_goals obtain ⟨rfl, rfl⟩ := Prod.mk.inj (Option.some.inj h)
  · exact .answered _ _
  · exact .delivered _ _
  · exact .perfCounter _
  · exact .uuid4 _
  · exact .metrics _
  · exact .log _

/-- Concrete schedules of the Redis backend. -/
def redisOracle : Oracle redisMachine where
  Answer := Answer
  answer := World.answer
  sound := fun _ _ _ _ _ h => World.exec_of_answer h

/-- The event that a call accepts. -/
def accepted : (call : RedisCall) → Except String call.Value → Option UUID
  | .enqueue e _ _ _, result => onOk result (some e)
  | .idempotentEnqueue e _ _ _ _ _, result => createdBy result e
  | _, _ => none

/-- The event that a call finishes, and how. -/
def finished (db : Store) :
    (call : RedisCall) → Except String call.Value → Option (UUID × Ending)
  | .completeDelivery e _ _, result => onOk result (some (e, .complete))
  | .moveToDeadLetter e _ _ _, result => onOk result (some (e, .deadLetter))
  | .quarantineMessage m _ _, result =>
      onOk result ((eventOf db m).map fun e => (e, .quarantine))
  | _, _ => none

namespace Record

/-- The event whose enqueue script committed in this step. -/
def accepted : Record → Option UUID
  | .executed _ call result => Hooklane.accepted call result
  | .delivered _ _ => none

/-- The event whose `mark_delivered`, `move_to_dead_letter` or quarantine
script committed in this step. -/
def finished : Record → Option (UUID × Ending)
  | .executed before call result => Hooklane.finished before call result
  | .delivered _ _ => none

end Record

namespace World

/-- The enqueue script of an event committed. -/
def Accepted (w : World) (e : UUID) : Prop :=
  ∃ record ∈ w.history, record.accepted = some e

/-- The executions that finished some event, in order. -/
def finished (w : World) : List (UUID × Ending) :=
  w.history.filterMap Record.finished

/-- The sink has accepted an event. -/
def Succeeded (w : World) (e : UUID) : Prop :=
  ∃ event, .delivered event .success ∈ w.history ∧ event.eventId = e

end World

end Hooklane
