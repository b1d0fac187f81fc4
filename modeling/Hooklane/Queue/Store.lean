import Hooklane.Domain.Observability
import Hooklane.Queue.Scripts
import Hooklane.Support.Program
import Mathlib.Data.List.Infix

/-!
# `RedisEventStore`

The methods of the store as programs over atomic calls.  A call to the server
is one script or one command; its reply may be lost, in which case the client
sees a connection error although the script has run.  Everything else a method
uses (clock, random source, sink, metrics, log) is a call as well, so that the
environment decides its result.
-/

namespace Hooklane

open Redis Support

/-- What redis-py raises. -/
inductive RedisError where
  | response (message : String)
  | connection
deriving DecidableEq, Repr

/-- A reply of the server as redis-py gives it: `None`, an `int`, a `str` or a
`list`. -/
inductive ServerReply where
  | nil
  | integer (value : ℤ)
  | text (value : String)
  | array (items : List ServerReply)

/-- A validated event claimed from the stream. -/
structure QueuedEvent where
  streamId : String
  eventId : UUID
  event : EventRequest
  acceptedAtMs : ℤ

/-- One script or command sent to the server. -/
inductive RedisCall where
  | xgroupCreate (group : String)
  | enqueue (eventId : UUID) (eventType payload acceptedAt : String)
  | idempotentEnqueue (eventId : UUID)
      (keyDigest eventType payload fingerprint acceptedAt : String)
  | hgetall (eventId : UUID)
  | xreadgroup (group consumer : String)
  | claimStalePending (group consumer : String) (minIdleMs : ℕ)
  | xrange (streamId : String)
  | startDelivery (eventId : UUID) (streamId : String)
  | completeDelivery (eventId : UUID) (streamId group : String)
  | scheduleRetry (eventId : UUID) (streamId errorClass : String) (dueAtMs : ℤ)
  | releaseDueRetry (group : String) (nowMs : ℤ)
  | quarantineMessage (streamId group reasonCode : String)
  | moveToDeadLetter (eventId : UUID) (streamId group errorClass : String)
  | existsStream
  | xinfoGroups
  | xlen
  | xrangeFirst
  | xpendingFirst (group : String)
  | xrangeAfter (streamId : String)

namespace RedisCall

@[reducible]
def Value : RedisCall → Type
  | .xgroupCreate _ => Unit
  | .enqueue .. => String
  | .idempotentEnqueue .. => Decision × String
  | .hgetall _ => Hash
  | .xreadgroup .. => Option (String × Fields)
  | .claimStalePending .. => Option (String × Disposition)
  | .xrange _ => List (String × Fields)
  | .startDelivery .. => ℤ
  | .completeDelivery .. => ℕ
  | .scheduleRetry .. => ℕ
  | .releaseDueRetry .. => ℕ
  | .quarantineMessage .. => String
  | .moveToDeadLetter .. => String
  | .existsStream => Bool
  | .xinfoGroups => List GroupInfo
  | .xlen => ℕ
  | .xrangeFirst => Option String
  | .xpendingFirst _ => Option String
  | .xrangeAfter _ => Option String

/-- What the server runs, at server time `now`.  The count of a start is the
one that `HINCRBY` replies. -/
def script (now : UInt64) : (call : RedisCall) → StoreScript call.Value
  | .xgroupCreate group => Redis.xgroupCreate .events group
  | .enqueue id eventType payload acceptedAt =>
      enqueueScript now id eventType payload acceptedAt
  | .idempotentEnqueue id digest eventType payload fingerprint acceptedAt =>
      idempotentEnqueueScript now id digest eventType payload fingerprint
        acceptedAt
  | .hgetall id => Redis.hgetall (.event id.text)
  | .xreadgroup group consumer => Redis.xreadgroup now .events group consumer
  | .claimStalePending group consumer minIdle =>
      claimStalePendingScript now group consumer minIdle
  | .xrange streamId => Redis.xrange .events streamId
  | .startDelivery id streamId => countDelivery id streamId
  | .completeDelivery id streamId group =>
      completeDeliveryScript id streamId group
  | .scheduleRetry id streamId errorClass dueAt =>
      scheduleRetryScript id streamId errorClass dueAt
  | .releaseDueRetry group nowMs => releaseDueRetryScript now group nowMs
  | .quarantineMessage streamId group reason =>
      quarantineMessageScript now streamId group reason
  | .moveToDeadLetter id streamId group errorClass =>
      moveToDeadLetterScript now id streamId group errorClass
  | .existsStream => Redis.existsKey .events
  | .xinfoGroups => Redis.xinfoGroups .events
  | .xlen => Redis.xlen .events
  | .xrangeFirst => Redis.xrangeFirst .events
  | .xpendingFirst group => Redis.xpendingFirst .events group
  | .xrangeAfter streamId => Redis.xrangeAfter .events streamId

/-- The call with its reply as Lua returns it. -/
def evaluated (now : UInt64) : (call : RedisCall) → StoreScript call.Value
  | .startDelivery id streamId => startDeliveryScript id streamId
  | call => call.script now

/-- The type in which the store receives a reply.  It unpacks that of the
idempotent enqueue script without knowing its shape. -/
@[reducible]
def Received : RedisCall → Type
  | .idempotentEnqueue .. => ServerReply
  | call => call.Value

/-- What the store receives where the script returns a value. -/
@[reducible]
def receive : (call : RedisCall) → call.Value → call.Received
  | .idempotentEnqueue .., (decision, storedEventId) =>
      .array [.text decision.text, .text storedEventId]
  | .xgroupCreate _, value | .enqueue .., value | .hgetall _, value
  | .xreadgroup .., value | .claimStalePending .., value | .xrange _, value
  | .startDelivery .., value | .completeDelivery .., value
  | .scheduleRetry .., value | .releaseDueRetry .., value
  | .quarantineMessage .., value | .moveToDeadLetter .., value
  | .existsStream, value | .xinfoGroups, value | .xlen, value
  | .xrangeFirst, value | .xpendingFirst _, value
  | .xrangeAfter _, value => value

end RedisCall

/-- Everything a client or worker asks its environment to do. -/
inductive Op where
  | redis (call : RedisCall)
  | deliver (event : QueuedEvent)
  | clock
  | perfCounter
  | uniform (low high : ℚ)
  | uuid4
  | metrics (call : MetricCall)
  | log (call : LogCall)

/-- What `time.time()` returns: the seconds of a 64-bit clock. -/
structure WallTime where
  seconds : ℚ
  inRange : -2 ^ 63 < seconds ∧ seconds < 2 ^ 63

namespace Op

@[reducible]
def Reply : Op → Type
  | .redis call => Except RedisError call.Received
  | .deliver _ => SinkReply
  | .clock => WallTime
  | .perfCounter => ℚ
  | .uniform _ _ => ℚ
  | .uuid4 => UUID
  | .metrics _ => Unit
  | .log _ => Unit

end Op

/-- Python exceptions that leave a method.  `floatConversion` is the
`ValueError` or `OverflowError` of a conversion from or to a float, and
`unexpectedReply` the `TypeError`, `ValueError` or `AttributeError` of a reply
that has not the expected shape. -/
inductive Raised where
  | eventStoreUnavailable
  | idempotencyConflict
  | notFound
  | valueError
  | recursionError
  | floatConversion
  | unexpectedReply
  | other
deriving DecidableEq, Repr

/-- Programs of the API and the workers. -/
abbrev App := ProgE Op Op.Reply Raised

namespace App

def request (op : Op) : App op.Reply := ProgE.perform op

def metric (observers : Observers) (call : MetricCall) : App Unit :=
  if observers.metrics then
    if call.accepted then request (.metrics call) else throw .valueError
  else pure ()

def emit (observers : Observers) (call : LogCall) : App Unit :=
  if observers.logger then
    if call.accepted then request (.log call) else throw .valueError
  else pure ()

end App

/-- The store: its standard library and its observers. -/
structure RedisEventStore where
  lib : Stdlib
  observers : Observers

namespace RedisEventStore

variable (store : RedisEventStore)

def recordRedisFailure (operation : String) (eventId : Option UUID) :
    App Unit := do
  App.metric store.observers (.recordRedisFailure operation)
  App.emit store.observers
    { event := .redisOperationFailed, level := .error, eventId := eventId,
      outcome := some "failure", reasonCode := some "redis_error" }

def recordQueueQuarantine (reasonCode : String) : App Unit := do
  App.metric store.observers (.recordQueueQuarantine reasonCode)
  App.emit store.observers
    { event := .queueRecordQuarantined, level := .warning,
      outcome := some "failure", reasonCode := some reasonCode }

/-- Send a call; a Redis error is recorded and raised as
`EventStoreUnavailable`. -/
def attempt (operation : String) (eventId : Option UUID) (call : RedisCall) :
    App call.Received := do
  match ← App.request (.redis call) with
  | .ok value => return value
  | .error _ =>
      store.recordRedisFailure operation eventId
      throw .eventStoreUnavailable

/-- `int(time.time() * 1000)` as text. -/
def acceptedAt : App String := do
  let now ← App.request .clock
  return toString (truncate (now.seconds * 1000))

def enqueue (eventId : UUID) (event : EventRequest) : App Unit := do
  let acceptedAt ← acceptedAt
  let _ ← store.attempt "enqueue" eventId
    (.enqueue eventId event.eventType event.payloadJson acceptedAt)
  return ()

/-- `decision, stored_event_id = result`; a text of two characters is unpacked
into them. -/
def unpackPair : ServerReply → Option (ServerReply × ServerReply)
  | .array [first, second] => some (first, second)
  | .text value =>
      match value.toList with
      | [first, second] =>
          some (.text (String.singleton first), .text (String.singleton second))
      | _ => none
  | _ => none

/-- What `enqueue_idempotent` makes of the two values of its reply. -/
def decideIdempotent (eventId : UUID) :
    (decision storedEventId : ServerReply) → App UUID
  | .text "conflict", _ => throw .idempotencyConflict
  | .text "created", .text storedEventId
  | .text "reused", .text storedEventId =>
      match UUID.parse storedEventId with
      | some id => return id
      | none => do
          store.recordRedisFailure "enqueue_idempotent" eventId
          throw .eventStoreUnavailable
  -- Here `UUID` is given something that is no text.
  | .text "created", _ | .text "reused", _ => throw .unexpectedReply
  -- A list has no hash value, by which a set finds its members.
  | .array _, _ => throw .unexpectedReply
  | .text _, _ | .integer _, _ | .nil, _ => throw .eventStoreUnavailable

/-- The part of `enqueue_idempotent` after its script. -/
def readIdempotent (eventId : UUID) (result : ServerReply) : App UUID :=
  match unpackPair result with
  | none => throw .unexpectedReply
  | some (decision, storedEventId) =>
      store.decideIdempotent eventId decision storedEventId

/-- On an answer of the script only the stored id can be unreadable. -/
theorem readIdempotent_answer (eventId : UUID) (decision : Decision)
    (storedEventId : String) :
    store.readIdempotent eventId
        (.array [.text decision.text, .text storedEventId]) =
      if decision = .conflict then throw .idempotencyConflict
      else
        (match UUID.parse storedEventId with
        | some id => return id
        | none => do
            store.recordRedisFailure "enqueue_idempotent" eventId
            throw .eventStoreUnavailable) := by
  cases decision <;>
    simp only [readIdempotent, unpackPair, Decision.text, decideIdempotent,
      reduceCtorEq, if_true, if_false]

def enqueueIdempotent (eventId : UUID) (event : EventRequest)
    (idempotencyKey : String) : App UUID := do
  let acceptedAt ← acceptedAt
  let result ← store.attempt "enqueue_idempotent" eventId
    (.idempotentEnqueue eventId (store.lib.sha256 idempotencyKey)
      event.eventType event.payloadJson (event.fingerprint store.lib)
      acceptedAt)
  store.readIdempotent eventId result

/-- The public state of an event: `EventStatusRecord`. -/
structure EventStatusRecord where
  eventId : UUID
  status : EventStatus
  attemptCount : ℤ
deriving DecidableEq

/-- The parsing of `get_status`; `none` where it raises `KeyError` or
`ValueError`. -/
def parseRecord (record : Hash) : Option EventStatusRecord := do
  let eventId ← UUID.parse (← record.lookup "event_id")
  let status ← EventStatus.ofValue (← record.lookup "status")
  let attemptCount ← pyInt 10 (← record.lookup "attempt_count").toList
  return { eventId, status, attemptCount }

def getStatus (eventId : UUID) : App (Option EventStatusRecord) := do
  let record ← store.attempt "get_status" eventId (.hgetall eventId)
  if record.keys = [] then return none
  else
    match parseRecord record with
    | none =>
        store.recordRedisFailure "get_status" eventId
        throw .eventStoreUnavailable
    | some parsed =>
        if parsed.eventId ≠ eventId ∨ parsed.attemptCount < 0 then
          store.recordRedisFailure "get_status" eventId
          throw .eventStoreUnavailable
        else return some parsed

/-- `"BUSYGROUP" in str(exc)`. -/
def isBusyGroup (message : String) : Bool :=
  decide ("BUSYGROUP".toList <:+: message.toList)

def ensureConsumerGroup (group : String) : App Unit := do
  match ← App.request (.redis (.xgroupCreate group)) with
  | .ok _ => return ()
  | .error (.response message) =>
      if isBusyGroup message then return ()
      else
        store.recordRedisFailure "ensure_consumer_group" none
        throw .eventStoreUnavailable
  | .error .connection =>
      store.recordRedisFailure "ensure_consumer_group" none
      throw .eventStoreUnavailable

def quarantineMalformedMessage (streamId group reasonCode : String) :
    App Unit := do
  let _ ← store.attempt "quarantine_message" none
    (.quarantineMessage streamId group reasonCode)
  store.recordQueueQuarantine reasonCode

/-- `fields[name]`.  A repeated field keeps its last value. -/
def fieldOf (fields : Fields) (name : String) : Except ParseError String :=
  (lastFieldValue fields name).elim (.error .malformed) .ok

/-- The part of the parsing that `read_next` and `claim_stale_pending` share. -/
def buildMessage (streamId : String) (fields : Fields) (eventType : String)
    (payload : Json) : Except ParseError QueuedEvent := do
  let event ← orMalformed (EventRequest.validate eventType payload)
  let eventId ← orMalformed (UUID.parse (← fieldOf fields "event_id"))
  let acceptedAt ← fieldOf fields "accepted_at_ms"
  let acceptedAtMs ← orMalformed (pyInt 10 acceptedAt.toList)
  return { streamId, eventId, event, acceptedAtMs }

/-- The parsing of `read_next`, which loads the payload first. -/
def parseNext (lib : Stdlib) (streamId : String) (fields : Fields) :
    Except ParseError QueuedEvent := do
  let payload ← lib.jsonLoads (← fieldOf fields "payload")
  let eventType ← fieldOf fields "event_type"
  buildMessage streamId fields eventType payload

/-- The parsing of `claim_stale_pending`, which takes the type first. -/
def parseClaimed (lib : Stdlib) (streamId : String) (fields : Fields) :
    Except ParseError QueuedEvent := do
  let eventType ← fieldOf fields "event_type"
  let payload ← lib.jsonLoads (← fieldOf fields "payload")
  buildMessage streamId fields eventType payload

/-- What either of them returns, where it does. -/
def parseMessage (lib : Stdlib) (streamId : String) (fields : Fields) :
    Option QueuedEvent :=
  (parseNext lib streamId fields).toOption

theorem parseClaimed_toOption (lib : Stdlib) (streamId : String)
    (fields : Fields) : (parseClaimed lib streamId fields).toOption =
      parseMessage lib streamId fields := by
  rw [parseMessage, parseClaimed, parseNext]
  cases fieldOf fields "event_type" with
  | ok eventType => rfl
  | error error =>
      cases fieldOf fields "payload" with
      | error _ => rfl
      | ok text =>
          cases hloads : lib.jsonLoads text <;>
            simp [Except.toOption, bind, Except.bind, hloads]

/-- The `except (KeyError, TypeError, ValueError)` clause around the parsing. -/
def orQuarantine (streamId group : String) :
    Except ParseError QueuedEvent → App (Option QueuedEvent)
  | .ok queuedEvent => return some queuedEvent
  | .error .malformed => do
      store.quarantineMalformedMessage streamId group "invalid_message"
      return none
  | .error .recursion => throw .recursionError

theorem callsOnly_orQuarantine {P : Op → Prop} {streamId group : String}
    (h : ProgE.CallsOnly P
      (store.quarantineMalformedMessage streamId group "invalid_message"))
    (parsed : Except ParseError QueuedEvent) :
    ProgE.CallsOnly P (store.orQuarantine streamId group parsed) := by
  rcases parsed with (_ | _) | queuedEvent
  · exact ProgE.callsOnly_bind h fun _ => ProgE.callsOnly_pure _
  · exact ProgE.callsOnly_throw _
  · exact ProgE.callsOnly_pure _

def readNext (group consumer : String) : App (Option QueuedEvent) := do
  match ← store.attempt "read_next" none (.xreadgroup group consumer) with
  | none => return none
  | some (streamId, fields) =>
      store.orQuarantine streamId group (parseNext store.lib streamId fields)

def claimStalePending (group consumer : String) (minIdleMs : ℕ) :
    App (Option QueuedEvent) := do
  match ← store.attempt "claim_pending" none
      (.claimStalePending group consumer minIdleMs) with
  | none => return none
  | some (streamId, disposition) =>
      match ← store.attempt "claim_pending" none (.xrange streamId) with
      | [(claimedStreamId, fields)] =>
          if disposition ≠ .delivery then
            store.quarantineMalformedMessage claimedStreamId group
              "invariant_violation"
            return none
          else
            store.orQuarantine claimedStreamId group
              (parseClaimed store.lib claimedStreamId fields)
      | _ =>
          store.recordRedisFailure "claim_pending" none
          throw .eventStoreUnavailable

def markDeliveryStarted (queuedEvent : QueuedEvent) : App ℤ :=
  store.attempt "mark_delivery_started" queuedEvent.eventId
    (.startDelivery queuedEvent.eventId queuedEvent.streamId)

def markDelivered (queuedEvent : QueuedEvent) (group : String) :
    App Unit := do
  let _ ← store.attempt "mark_delivered" queuedEvent.eventId
    (.completeDelivery queuedEvent.eventId queuedEvent.streamId group)
  return ()

def scheduleRetry (queuedEvent : QueuedEvent) (dueAtMs : ℤ)
    (errorClass : DeliveryErrorClass) : App Unit := do
  let _ ← store.attempt "schedule_retry" queuedEvent.eventId
    (.scheduleRetry queuedEvent.eventId queuedEvent.streamId errorClass.value
      dueAtMs)
  return ()

def releaseDueRetry (group : String) (nowMs : ℤ) : App Bool := do
  let released ← store.attempt "release_retry" none
    (.releaseDueRetry group nowMs)
  if released = 2 then
    store.recordQueueQuarantine "invariant_violation"
    return false
  else return decide (released = 1)

def moveToDeadLetter (queuedEvent : QueuedEvent) (group : String)
    (errorClass : DeliveryErrorClass) : App Unit := do
  let _ ← store.attempt "dead_letter" queuedEvent.eventId
    (.moveToDeadLetter queuedEvent.eventId queuedEvent.streamId group
      errorClass.value)
  return ()

/-- A read of the queue snapshot; a Redis error leaves to the handler of
`refresh_queue_metrics`. -/
def query (call : RedisCall) : App call.Received := do
  match ← App.request (.redis call) with
  | .ok value => return value
  | .error _ => throw .other

/-- The first pending id, asked for only when something is pending. -/
def oldestPending (group : String) (info : GroupInfo) : App (List String) := do
  if info.pending = 0 then return []
  else
    let first ← query (.xpendingFirst group)
    return first.toList

/-- The first unread id, asked for only when the group lags. -/
def oldestUnread (info : GroupInfo) : App (List String) := do
  if info.lag = 0 then return []
  else
    let first ← query (.xrangeAfter info.lastDeliveredId)
    return first.toList

/-- The queue snapshot of `refresh_queue_metrics`: depth, pending count and
the ids among which the oldest is chosen. -/
def queueSnapshot (group : String) : App (ℕ × ℕ × List String) := do
  let groups ← query .xinfoGroups
  match groups.find? (fun info => info.name = group) with
  | none =>
      let depth ← query .xlen
      if depth = 0 then return (depth, 0, [])
      else
        let first ← query .xrangeFirst
        return (depth, 0, first.toList)
  | some info =>
      let pending ← oldestPending group info
      let unread ← oldestUnread info
      return (info.pending + info.lag, info.pending, pending ++ unread)

/-- `min(ids, key=_stream_id_key)`, as its millisecond part; `none` where an
id does not parse. -/
def oldestMs (ids : List String) : Option ℕ :=
  match ids.mapM parsePair with
  | none => none
  | some [] => none
  | some (pair :: rest) =>
      some (rest.foldl (fun best p =>
        if p.1 < best.1 ∨ p.1 = best.1 ∧ p.2 < best.2 then p else best) pair).1

def refreshQueueMetrics (group : String) : App Bool := do
  if !store.observers.metrics then return false
  else
    tryCatch
      (do
        if !(← query .existsStream) then
          App.metric store.observers (.setQueueState 0 0 0)
          return true
        else
          let (depth, pending, oldest) ← queueSnapshot group
          if oldest = [] then
            App.metric store.observers (.setQueueState depth 0 pending)
            return true
          else
            match oldestMs oldest with
            | none => throw .valueError
            | some ms =>
                let now ← App.request .clock
                App.metric store.observers
                  (.setQueueState depth (max 0 (now.seconds - (ms : ℚ) / 1000))
                    pending)
                return true)
      (fun _ => do
        store.recordRedisFailure "queue_snapshot" none
        return false)

end RedisEventStore

end Hooklane
