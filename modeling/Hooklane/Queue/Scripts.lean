import Hooklane.Domain.Events
import Hooklane.Redis.Keyspace
import Hooklane.Redis.Lua

/-!
# The Lua scripts of `RedisEventStore`

Each definition below is one script of `queue/events.py`, command by command
and with its error replies.  `KEYS` and `ARGV` are the parameters of the
definition, under the meaning the script gives them; status names and the
window of the claim scan, which the store passes as constants, are written in
place.
-/

namespace Hooklane

open Redis

/-- The keys the store uses inside its namespace. -/
inductive Key where
  | events
  | event (id : String)
  | retries
  | deadLetter
  | quarantine
  | idempotency (digest : String)
deriving DecidableEq

namespace Key

/-- The key text inside a namespace. -/
def text (ns : String) : Key → String
  | .events => ns ++ ":events"
  | .event id => ns ++ ":event:" ++ id
  | .retries => ns ++ ":retries"
  | .deadLetter => ns ++ ":dead-letter"
  | .quarantine => ns ++ ":quarantine"
  | .idempotency digest => ns ++ ":idempotency:" ++ digest

/-- Distinct keys have distinct texts, so the typed keys lose nothing. -/
theorem text_injective (ns : String) : Function.Injective (text ns) := by
  intro a b h
  have hlist := congrArg String.toList h
  cases a <;> cases b <;>
    simp [text, String.toList_append, String.toList_inj] at hlist ⊢
  all_goals exact hlist

end Key

abbrev Store := Keyspace Key

abbrev StoreScript (α : Type) := Script Key α

abbrev Fields := List (String × String)

/-- `field_value`: the first value under a name. -/
def fieldValue (fields : Fields) (name : String) : Option String :=
  (fields.find? fun field => field.1 = name).map Prod.snd

/-- The last value under a name, as the dead-letter script's loop finds it. -/
def lastFieldValue (fields : Fields) (name : String) : Option String :=
  fieldValue fields.reverse name

/-- `_ENQUEUE_SCRIPT`. -/
def enqueueScript (now : UInt64) (eventId : UUID)
    (eventType payload acceptedAt : String) : StoreScript String := do
  let statusKey := Key.event eventId.text
  let streamType ← typeOf .events
  let statusType ← typeOf statusKey
  if streamType ≠ .none ∧ streamType ≠ .stream then
    Script.fail "ERR event stream has incompatible type"
  else if statusType ≠ .none then
    Script.fail "ERR event status already exists"
  else
    let streamId ← xadd now .events
      [("event_id", eventId.text), ("event_type", eventType),
        ("payload", payload), ("accepted_at_ms", acceptedAt)]
    hset statusKey
      [("event_id", eventId.text), ("status", EventStatus.queued.value),
        ("attempt_count", "0"), ("stream_id", streamId)]
    return streamId

/-- The three answers of the idempotent enqueue script. -/
inductive Decision where
  | created
  | reused
  | conflict
deriving DecidableEq, Repr

/-- The text of an answer. -/
def Decision.text : Decision → String
  | .created => "created"
  | .reused => "reused"
  | .conflict => "conflict"

/-- `_IDEMPOTENT_ENQUEUE_SCRIPT`. -/
def idempotentEnqueueScript (now : UInt64) (eventId : UUID)
    (keyDigest eventType payload fingerprint acceptedAt : String) :
    StoreScript (Decision × String) := do
  let statusKey := Key.event eventId.text
  let idempotencyKey := Key.idempotency keyDigest
  let streamType ← typeOf .events
  let statusType ← typeOf statusKey
  let idempotencyType ← typeOf idempotencyKey
  if streamType ≠ .none ∧ streamType ≠ .stream then
    Script.fail "ERR event stream has incompatible type"
  else if idempotencyType ≠ .none ∧ idempotencyType ≠ .hash then
    Script.fail "ERR idempotency record has incompatible type"
  else if idempotencyType = .hash then
    let existingFingerprint ← hget idempotencyKey "fingerprint"
    let existingEventId ← hget idempotencyKey "event_id"
    match existingFingerprint, existingEventId with
    | some existing, some id =>
        if existing = fingerprint then return (.reused, id)
        else return (.conflict, id)
    | _, _ => Script.fail "ERR idempotency record is incomplete"
  else if statusType ≠ .none then
    Script.fail "ERR event status already exists"
  else
    let streamId ← xadd now .events
      [("event_id", eventId.text), ("event_type", eventType),
        ("payload", payload), ("accepted_at_ms", acceptedAt)]
    hset statusKey
      [("event_id", eventId.text), ("status", EventStatus.queued.value),
        ("attempt_count", "0"), ("stream_id", streamId)]
    hset idempotencyKey
      [("event_id", eventId.text), ("fingerprint", fingerprint)]
    return (.created, eventId.text)

/-- The commands of the start script, with the count that `HINCRBY` replies. -/
def countDelivery (eventId : UUID) (streamId : String) : StoreScript ℤ := do
  let statusKey := Key.event eventId.text
  if (← hget statusKey "stream_id") ≠ some streamId then
    Script.fail "ERR event status does not match stream message"
  else
    hset statusKey [("status", EventStatus.delivering.value)]
    hincrby statusKey "attempt_count" 1

/-- `_START_DELIVERY_SCRIPT`: the count is returned as a number of Lua. -/
def startDeliveryScript (eventId : UUID) (streamId : String) :
    StoreScript ℤ := do
  return luaInteger (← countDelivery eventId streamId)

/-- Lua changes at most the count of a start. -/
theorem startDeliveryScript_eq (eventId : UUID) (streamId : String)
    (db : Store) : startDeliveryScript eventId streamId db =
      ((countDelivery eventId streamId db).1.map luaInteger,
        (countDelivery eventId streamId db).2) := by
  rw [startDeliveryScript, Script.bind_apply]
  rcases hrun : countDelivery eventId streamId db with ⟨r, db'⟩
  cases r <;> rfl

/-- The count is returned as `HINCRBY` replies it unless Lua rounds it. -/
theorem startDeliveryScript_exact {eventId : UUID} {streamId : String}
    {db db' : Store} {n : ℤ} (hrun : countDelivery eventId streamId db =
      (.ok n, db')) (hn : n.natAbs ≤ 2 ^ 53) :
    startDeliveryScript eventId streamId db =
      countDelivery eventId streamId db := by
  rw [startDeliveryScript, Script.bind_ok hrun, luaInteger_eq hn, hrun]
  rfl

/-- `_COMPLETE_DELIVERY_SCRIPT`. -/
def completeDeliveryScript (eventId : UUID) (streamId group : String) :
    StoreScript ℕ := do
  let statusKey := Key.event eventId.text
  if (← hget statusKey "stream_id") ≠ some streamId then
    Script.fail "ERR event status does not match stream message"
  else
    let acknowledged ← xack .events group streamId
    if acknowledged ≠ 1 then
      Script.fail "ERR stream message was not pending"
    else
      hset statusKey [("status", EventStatus.delivered.value)]
      return acknowledged

/-- `_SCHEDULE_RETRY_SCRIPT`. -/
def scheduleRetryScript (eventId : UUID) (streamId errorClass : String)
    (dueAtMs : ℤ) : StoreScript ℕ := do
  let statusKey := Key.event eventId.text
  let statusType ← typeOf statusKey
  let retryType ← typeOf .retries
  if statusType ≠ .hash then
    Script.fail "ERR event status has incompatible type"
  else if retryType ≠ .none ∧ retryType ≠ .zset then
    Script.fail "ERR retry schedule has incompatible type"
  else if (← hget statusKey "stream_id") ≠ some streamId then
    Script.fail "ERR event status does not match stream message"
  else
    hset statusKey
      [("status", EventStatus.retryScheduled.value),
        ("last_error_class", errorClass)]
    zadd .retries ((dueAtMs : ℚ) : Score) eventId.text
    return 1

/-- An `attempt_count` text made of digits whose value is at least one. -/
def isPositiveDecimal (text : Option String) : Bool :=
  text.elim false fun t => (decimalValue t).elim false fun n => decide (1 ≤ n)

/-- `string.match(text, '^%d+%-%d+$')` on a value that may be `nil`. -/
def isStreamIdText (text : Option String) : Bool :=
  text.elim false fun t => (parsePair t).isSome

/-- The `safe_status` test of `remove_invalid_record`. -/
def safeToDiscard (eventId : String) : StoreScript Bool := do
  let statusKey := Key.event eventId
  let statusType ← typeOf statusKey
  if statusType ≠ .hash ∨ isUuid eventId = false then
    return false
  else if (← hget statusKey "event_id") ≠ some eventId then
    return false
  else
    let attemptCount ← hget statusKey "attempt_count"
    let streamId ← hget statusKey "stream_id"
    let status ← hget statusKey "status"
    return decide (status = some EventStatus.retryScheduled.value) &&
      isPositiveDecimal attemptCount && isStreamIdText streamId

/-- `remove_invalid_record` of the release script. -/
def removeInvalidRecord (eventId : String) : StoreScript ℕ := do
  let safe ← safeToDiscard eventId
  if safe then
    hset (.event eventId)
      [("status", EventStatus.deadLetter.value),
        ("last_error_class", "invariant_violation")]
    zrem .retries eventId
    return 2
  else
    zrem .retries eventId
    return 2

/-- Lua's stack takes the values of an unpacked list of fields. -/
def Unpackable (fields : Fields) : Prop := 2 * fields.length < 8000

instance (fields : Fields) : Decidable (Unpackable fields) :=
  Nat.decLt _ _

/-- `redis.call('XADD', key, '*', unpack(fields))`. -/
def xaddUnpacked (now : UInt64) (key : Key) (fields : Fields) :
    StoreScript String :=
  if Unpackable fields then xadd now key fields
  else Script.fail "too many results to unpack"

/-- The end of the release script: append a copy of the message, acknowledge
the old one and point the status hash at the copy. -/
def requeueMessage (now : UInt64) (group eventId streamId : String)
    (fields : Fields) : StoreScript ℕ := do
  let newStreamId ← xaddUnpacked now .events fields
  let acknowledged ← xack .events group streamId
  if acknowledged ≠ 1 then
    Script.fail "ERR scheduled stream message was not acknowledged"
  else
    hset (.event eventId)
      [("status", EventStatus.queued.value), ("stream_id", newStreamId)]
    hdel (.event eventId) "last_error_class"
    zrem .retries eventId
    return 1

/-- The release script from the choice of a due member on. -/
def releaseMember (now : UInt64) (group eventId : String) :
    StoreScript ℕ := do
  let statusKey := Key.event eventId
  if (← typeOf statusKey) ≠ .hash then
    removeInvalidRecord eventId
  else if isUuid eventId = false ∨
      (← hget statusKey "event_id") ≠ some eventId then
    removeInvalidRecord eventId
  else if (← hget statusKey "status") ≠
      some EventStatus.retryScheduled.value then
    removeInvalidRecord eventId
  else
    match ← hget statusKey "stream_id" with
    | none => removeInvalidRecord eventId
    | some streamId =>
        if isStreamIdText (some streamId) = false then
          removeInvalidRecord eventId
        else
          let pending ← xpending .events group streamId
          let message ← xrange .events streamId
          match pending, message with
          | [_], [(_, fields)] =>
              if fieldValue fields "event_id" ≠ some eventId then
                removeInvalidRecord eventId
              else
                requeueMessage now group eventId streamId fields
          | _, _ => removeInvalidRecord eventId

/-- `_RELEASE_DUE_RETRY_SCRIPT`: 0 nothing due, 1 requeued, 2 discarded. -/
def releaseDueRetryScript (now : UInt64) (group : String) (nowMs : ℤ) :
    StoreScript ℕ := do
  let streamType ← typeOf .events
  let retryType ← typeOf .retries
  if streamType ≠ .stream then
    Script.fail "ERR event stream has incompatible type"
  else if retryType = .none then
    return 0
  else if retryType ≠ .zset then
    Script.fail "ERR retry schedule has incompatible type"
  else
    match ← zrangebyscore .retries ((nowMs : ℚ) : Score) with
    | eventId :: _ => releaseMember now group eventId
    | [] => return 0

/-- What the claim script finds out about a pending message. -/
inductive Disposition where
  | delivery
  | retryScheduled
  | invariantViolation
deriving DecidableEq, Repr

/-- `pending_disposition`. -/
def pendingDisposition (fields : Fields) (streamId : String) :
    StoreScript Disposition := do
  match fieldValue fields "event_id" with
  | none => return .invariantViolation
  | some eventId =>
      let statusKey := Key.event eventId
      if isUuid eventId = false then
        return .invariantViolation
      else if (← typeOf statusKey) ≠ .hash then
        return .invariantViolation
      else if (← hget statusKey "event_id") ≠ some eventId ∨
          (← hget statusKey "stream_id") ≠ some streamId then
        return .invariantViolation
      else
        let status ← hget statusKey "status"
        if status = some EventStatus.retryScheduled.value then
          return .retryScheduled
        else if status = some EventStatus.queued.value ∨
            status = some EventStatus.delivering.value then
          return .delivery
        else
          return .invariantViolation

/-- The scan loop of the claim script over the idle pending ids. -/
def claimFirst (now : UInt64) (group consumer : String) (minIdle : ℕ) :
    List String → StoreScript (Option (String × Disposition))
  | [] => return none
  | streamId :: rest => do
      let message ← xrange .events streamId
      match message with
      | [(_, fields)] =>
          let disposition ← pendingDisposition fields streamId
          if disposition = .retryScheduled then
            claimFirst now group consumer minIdle rest
          else
            let claimed ← xclaim now .events group consumer minIdle streamId
            if claimed.length = 1 then
              return some (streamId, disposition)
            else
              claimFirst now group consumer minIdle rest
      | _ =>
          claimFirst now group consumer minIdle rest

/-- `_CLAIM_STALE_PENDING_SCRIPT`. -/
def claimStalePendingScript (now : UInt64) (group consumer : String)
    (minIdle : ℕ) : StoreScript (Option (String × Disposition)) := do
  let streamType ← typeOf .events
  if streamType ≠ .stream then
    Script.fail "ERR event stream has incompatible type"
  else
    let pending ← xpendingIdle now .events group minIdle 100
    claimFirst now group consumer minIdle pending

/-- The `safe_status` test of the quarantine script. -/
def safeToQuarantine (eventId streamId : String) : StoreScript Bool := do
  let statusKey := Key.event eventId
  if (← typeOf statusKey) ≠ .hash then
    return false
  else
    let storedId ← hget statusKey "event_id"
    let storedStreamId ← hget statusKey "stream_id"
    let status ← hget statusKey "status"
    return decide (storedId = some eventId) &&
      decide (storedStreamId = some streamId) &&
      (decide (status = some EventStatus.queued.value) ||
        decide (status = some EventStatus.delivering.value))

/-- The writes of the quarantine script. -/
def quarantineWrites (now : UInt64) (streamId group reasonCode : String)
    (eventId : Option String) (safe : Bool) : StoreScript String := do
  -- Six values at most, which can be unpacked.
  let quarantineId ← xadd now .quarantine
    ([("source_stream_id", streamId), ("reason_code", reasonCode)] ++
      (eventId.map fun id => ("event_id", id)).toList)
  let acknowledged ← xack .events group streamId
  if acknowledged ≠ 1 then
    Script.fail "ERR malformed stream message was not acknowledged"
  else
    match eventId, safe with
    | some id, true =>
        hset (.event id)
          [("status", EventStatus.deadLetter.value),
            ("last_error_class", reasonCode)]
        return quarantineId
    | _, _ => return quarantineId

/-- `_QUARANTINE_MESSAGE_SCRIPT`. -/
def quarantineMessageScript (now : UInt64)
    (streamId group reasonCode : String) : StoreScript String := do
  let streamType ← typeOf .events
  let quarantineType ← typeOf .quarantine
  if streamType ≠ .stream then
    Script.fail "ERR event stream has incompatible type"
  else if quarantineType ≠ .none ∧ quarantineType ≠ .stream then
    Script.fail "ERR quarantine stream has incompatible type"
  else
    let pending ← xpending .events group streamId
    let message ← xrange .events streamId
    match pending, message with
    | [_], [(_, fields)] =>
        match (fieldValue fields "event_id").filter isUuid with
        | some eventId =>
            let safe ← safeToQuarantine eventId streamId
            quarantineWrites now streamId group reasonCode (some eventId) safe
        | none => quarantineWrites now streamId group reasonCode none false
    | _, _ => Script.fail "ERR malformed stream message is not pending"

/-- The writes of the dead-letter script. -/
def deadLetterWrites (now : UInt64) (eventKey : Key)
    (eventId streamId group errorClass attemptCount : String)
    (fields : Fields) : StoreScript String := do
  let deadLetterId ← xaddUnpacked now .deadLetter
    (fields ++ [("error_class", errorClass), ("attempt_count", attemptCount),
      ("source_stream_id", streamId)])
  let acknowledged ← xack .events group streamId
  if acknowledged ≠ 1 then
    Script.fail "ERR dead-lettered stream message was not acknowledged"
  else
    hset eventKey
      [("status", EventStatus.deadLetter.value),
        ("last_error_class", errorClass),
        ("dead_letter_stream_id", deadLetterId)]
    zrem .retries eventId
    return deadLetterId

/-- The dead-letter script once the types of its keys are checked. -/
def moveDelivering (now : UInt64) (statusKey : Key)
    (streamId group errorClass : String) : StoreScript String := do
  if (← hget statusKey "stream_id") ≠ some streamId then
    Script.fail "ERR event status does not match stream message"
  else if (← hget statusKey "status") ≠ some EventStatus.delivering.value then
    Script.fail "ERR event is not being delivered"
  else
    let storedId ← hget statusKey "event_id"
    let attemptCount ← hget statusKey "attempt_count"
    match storedId, attemptCount with
    | some storedId, some attemptCount =>
        if (luaNumber attemptCount).elim true lessThanOne then
          Script.fail "ERR event status is incomplete"
        else
          let pending ← xpending .events group streamId
          let message ← xrange .events streamId
          match pending, message with
          | [_], [(_, fields)] =>
              if lastFieldValue fields "event_id" ≠ some storedId then
                Script.fail "ERR stream message has a different event ID"
              else
                deadLetterWrites now statusKey storedId streamId group
                  errorClass attemptCount fields
          | _, _ => Script.fail "ERR stream message is not pending"
    | _, _ => Script.fail "ERR event status is incomplete"

/-- `_MOVE_TO_DEAD_LETTER_SCRIPT`. -/
def moveToDeadLetterScript (now : UInt64) (eventId : UUID)
    (streamId group errorClass : String) : StoreScript String := do
  let statusKey := Key.event eventId.text
  let statusType ← typeOf statusKey
  let streamType ← typeOf .events
  let deadLetterType ← typeOf .deadLetter
  let retryType ← typeOf .retries
  if statusType ≠ .hash then
    Script.fail "ERR event status has incompatible type"
  else if streamType ≠ .stream then
    Script.fail "ERR event stream has incompatible type"
  else if deadLetterType ≠ .none ∧ deadLetterType ≠ .stream then
    Script.fail "ERR dead-letter stream has incompatible type"
  else if retryType ≠ .none ∧ retryType ≠ .zset then
    Script.fail "ERR retry schedule has incompatible type"
  else
    moveDelivering now statusKey streamId group errorClass

end Hooklane
