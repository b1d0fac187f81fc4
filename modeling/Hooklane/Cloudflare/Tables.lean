import Hooklane.Cloudflare.Contract
import Mathlib.Data.List.AList

/-!
# The D1 tables and the statements that run on them

The three tables of the migrations, and each SQL statement of `d1.py` as a
state transformer on them.  A statement that violates a constraint has no
result.  A batch is a sequence of statements: it runs them in order, and when
one of them has no result the tables keep their contents.

A column that the schema restricts to fixed texts has an enumeration for its
type, and `NULL` is `none`.  As in SQL, a comparison with `NULL` selects no
row.
-/

namespace Hooklane.Cloudflare

/-- A row of `events`. -/
structure EventRow where
  eventType : String
  payloadJson : String
  status : EventStatus
  attemptCount : ℕ
  requestFingerprint : String
  idempotencyKeyHash : Option String
  acceptedAtMs : ℤ
  updatedAtMs : ℤ
  lastReason : Option String := none
  deliveryToken : Option String := none
  deliveryLeaseUntilMs : Option ℤ := none

inductive OutboxState where
  | pending
  | sent
deriving DecidableEq, Repr

/-- A row of `outbox`. -/
structure OutboxRow where
  state : OutboxState
  sendAttemptCount : ℕ
  updatedAtMs : ℤ
  lastReason : Option String := none
  claimToken : Option String := none
  leaseUntilMs : Option ℤ := none

/-- The tables `events`, `outbox` and `event_payload_chunks`, by their primary
keys. -/
structure Database where
  events : AList fun _ : UUID => EventRow := ∅
  outbox : AList fun _ : UUID => OutboxRow := ∅
  payloadChunks : AList fun _ : UUID × ℕ => String := ∅

/-- A statement, or a batch of them. -/
abbrev Statement := StateT Database Option

/-- `time <= now`, where `time` may be `NULL`. -/
def expired (time : Option ℤ) (now : ℤ) : Bool :=
  time.any fun t => decide (t ≤ now)

/-- `UPDATE ... WHERE event_id = key AND ...`: the row it writes, if it selects
one, and the table it leaves. -/
def updateWhere {Row : Type} (table : AList fun _ : UUID => Row) (key : UUID)
    (selected : Row → Bool) (update : Row → Row) :
    Option Row × AList fun _ : UUID => Row :=
  match table.lookup key with
  | some row =>
      if selected row then (some (update row), table.insert key (update row))
      else (none, table)
  | none => (none, table)

/-- `meta.changes` of an update by primary key. -/
def changes {Row : Type} : Option Row → ℕ
  | some _ => 1
  | none => 0

section Acceptance

/-- The row that a key hash selects. -/
def eventWithKey (db : Database) (keyHash : String) :
    Option (UUID × EventRow) :=
  (db.events.entries.find? fun entry =>
    entry.2.idempotencyKeyHash = some keyHash).map fun entry =>
      (entry.1, entry.2)

/-- The row that `accept` inserts into `events`. -/
def newEvent (eventType fingerprint : String) (keyHash : Option String)
    (nowMs : ℤ) : EventRow :=
  { eventType, payloadJson := "", status := .queued, attemptCount := 0,
    requestFingerprint := fingerprint, idempotencyKeyHash := keyHash,
    acceptedAtMs := nowMs, updatedAtMs := nowMs }

/-- The row that `accept` inserts into `outbox`. -/
def newOutbox (nowMs : ℤ) : OutboxRow :=
  { state := .pending, sendAttemptCount := 0, updatedAtMs := nowMs }

/-- `INSERT INTO events ... ON CONFLICT(idempotency_key_hash) DO NOTHING`.  The
target of the conflict clause is checked before the primary key. -/
def insertEvent (proposed : UUID) (eventType fingerprint : String)
    (keyHash : Option String) (nowMs : ℤ) : Statement Unit := fun db =>
  if (keyHash.bind (eventWithKey db)).isSome then some ((), db)
  else if proposed ∈ db.events then none
  else
    let row := newEvent eventType fingerprint keyHash nowMs
    some ((), { db with events := db.events.insert proposed row })

/-- `INSERT INTO event_payload_chunks ... ON CONFLICT DO NOTHING`. -/
def insertPayloadChunk (proposed : UUID) (index : ℕ) (chunk : String) :
    Statement Unit := fun db =>
  if proposed ∈ db.events ∧ (proposed, index) ∉ db.payloadChunks then
    some ((), { db with
      payloadChunks := db.payloadChunks.insert (proposed, index) chunk })
  else some ((), db)

def insertPayloadChunks (proposed : UUID) : ℕ → List String → Statement Unit
  | _, [] => pure ()
  | index, chunk :: rest => do
      insertPayloadChunk proposed index chunk
      insertPayloadChunks proposed (index + 1) rest

/-- `INSERT INTO outbox ... ON CONFLICT(event_id) DO NOTHING`. -/
def insertOutbox (proposed : UUID) (nowMs : ℤ) : Statement Unit := fun db =>
  if proposed ∈ db.events ∧ proposed ∉ db.outbox then
    some ((), { db with outbox := db.outbox.insert proposed (newOutbox nowMs) })
  else some ((), db)

/-- What the lookup of the batch selects. -/
structure AcceptedRow where
  eventId : UUID
  requestFingerprint : String
  status : EventStatus
  attemptCount : ℕ
deriving DecidableEq

/-- `SELECT ... LIMIT 1`, by key when there is one and by id otherwise. -/
def lookupAccepted (proposed : UUID) (keyHash : Option String) :
    Statement (Option AcceptedRow) := fun db =>
  let found :=
    match keyHash with
    | none => (db.events.lookup proposed).map fun row => (proposed, row)
    | some key => eventWithKey db key
  some (found.map fun (eventId, row) =>
    ⟨eventId, row.requestFingerprint, row.status, row.attemptCount⟩, db)

/-- The batch of `accept`. -/
def acceptBatch (proposed : UUID) (eventType : String) (chunks : List String)
    (fingerprint : String) (keyHash : Option String) (nowMs : ℤ) :
    Statement (Option AcceptedRow) := do
  insertEvent proposed eventType fingerprint keyHash nowMs
  insertPayloadChunks proposed 0 chunks
  insertOutbox proposed nowMs
  lookupAccepted proposed keyHash

end Acceptance

section Reading

def selectEvent (eventId : UUID) : Statement (Option EventRow) := fun db =>
  some (db.events.lookup eventId, db)

/-- `SELECT status, attempt_count`. -/
def selectState (eventId : UUID) : Statement (Option (EventStatus × ℕ)) :=
  fun db =>
    some ((db.events.lookup eventId).map fun row =>
      (row.status, row.attemptCount), db)

/-- `SELECT payload_chunk ... ORDER BY chunk_index`. -/
def selectPayloadChunks (eventId : UUID) : Statement (List String) := fun db =>
  let rows := db.payloadChunks.entries.filter fun entry => entry.1.1 = eventId
  let sorted := rows.insertionSort fun a b => a.1.2 ≤ b.1.2
  some (sorted.map fun entry => entry.2, db)

/-- `SELECT state, send_attempt_count`. -/
def selectOutbox (eventId : UUID) : Statement (Option (OutboxState × ℕ)) :=
  fun db =>
    some ((db.outbox.lookup eventId).map fun row =>
      (row.state, row.sendAttemptCount), db)

end Reading

section Outbox

/-- Rows that a repair may claim. -/
def OutboxRow.claimable (row : OutboxRow) (nowMs : ℤ) : Bool :=
  row.state = .pending &&
    (row.claimToken.isNone || expired row.leaseUntilMs nowMs)

/-- `ORDER BY updated_at_ms, event_id LIMIT ?4`, where a negative limit is no
limit. -/
def claimableOutbox (db : Database) (nowMs limit : ℤ) :
    List ((_ : UUID) × OutboxRow) :=
  let rows := db.outbox.entries.filter fun entry => entry.2.claimable nowMs
  let sorted := rows.insertionSort fun a b =>
    a.2.updatedAtMs < b.2.updatedAtMs ∨
      a.2.updatedAtMs = b.2.updatedAtMs ∧ a.1.text ≤ b.1.text
  if limit < 0 then sorted else sorted.take limit.toNat

def OutboxRow.claimed (row : OutboxRow) (claimToken : String)
    (leaseUntilMs nowMs : ℤ) : OutboxRow :=
  { row with
    claimToken := some claimToken
    leaseUntilMs := some leaseUntilMs
    updatedAtMs := nowMs }

/-- Give the selected rows to one owner. -/
def claimRows (claimToken : String) (leaseUntilMs nowMs : ℤ)
    (rows : List ((_ : UUID) × OutboxRow)) (db : Database) : Database :=
  rows.foldl (fun db entry => { db with
    outbox := db.outbox.insert entry.1
      (entry.2.claimed claimToken leaseUntilMs nowMs) }) db

/-- `UPDATE outbox SET claim_token = ?1, ... RETURNING`. -/
def claimOutbox (claimToken : String) (leaseUntilMs nowMs limit : ℤ) :
    Statement (List (UUID × ℕ)) := fun db =>
  let rows := claimableOutbox db nowMs limit
  some (rows.map fun entry => (entry.1, entry.2.sendAttemptCount),
    claimRows claimToken leaseUntilMs nowMs rows db)

def updateOutbox (eventId : UUID) (selected : OutboxRow → Bool)
    (update : OutboxRow → OutboxRow) : Statement (Option OutboxRow) := fun db =>
  let (row, outbox) := updateWhere db.outbox eventId selected update
  some (row, { db with outbox })

/-- The update of `mark_dispatched`: without a token it asks for an unclaimed
row. -/
def markDispatched (eventId : UUID) (nowMs : ℤ) (claimToken : Option String) :
    Statement (Option OutboxRow) :=
  updateOutbox eventId
    (fun row => row.state = .pending && row.claimToken = claimToken)
    fun row =>
      { state := .sent, sendAttemptCount := row.sendAttemptCount + 1,
        updatedAtMs := nowMs }

/-- The update of `release_outbox_claim`. -/
def releaseOutboxClaim (eventId : UUID) (claimToken : String) (nowMs : ℤ) :
    Statement (Option OutboxRow) :=
  updateOutbox eventId
    (fun row => row.state = .pending && row.claimToken = some claimToken)
    fun row =>
      { row with
        claimToken := none
        leaseUntilMs := none
        updatedAtMs := nowMs
        lastReason := some "queue_unavailable" }

end Outbox

section Delivery

def updateEvent (eventId : UUID) (selected : EventRow → Bool)
    (update : EventRow → EventRow) : Statement (Option EventRow) := fun db =>
  let (row, events) := updateWhere db.events eventId selected update
  some (row, { db with events })

/-- The condition under which `mark_delivery_started` claims a row. -/
def EventRow.claimable (row : EventRow) (nowMs : ℤ) (maximumAttempts : ℕ) :
    Bool :=
  ((row.status = .queued || row.status = .retryScheduled) &&
      row.attemptCount < maximumAttempts) ||
    (row.status = .delivering &&
      (row.deliveryLeaseUntilMs.isNone ||
        expired row.deliveryLeaseUntilMs nowMs) &&
      row.attemptCount ≤ maximumAttempts)

/-- The `CASE` expression for `attempt_count`. -/
def nextAttempt (status : EventStatus) (attemptCount maximumAttempts : ℕ) :
    ℕ :=
  if status = .delivering ∧ attemptCount < maximumAttempts then
    attemptCount + 1
  else if status = .delivering then attemptCount
  else attemptCount + 1

theorem nextAttempt_of_ne {status : EventStatus} (h : status ≠ .delivering)
    (attemptCount maximumAttempts : ℕ) :
    nextAttempt status attemptCount maximumAttempts = attemptCount + 1 := by
  simp [nextAttempt, h]

theorem nextAttempt_delivering (attemptCount maximumAttempts : ℕ) :
    nextAttempt .delivering attemptCount maximumAttempts =
      if attemptCount < maximumAttempts then attemptCount + 1
      else attemptCount := by
  simp [nextAttempt]

/-- The claiming update of `mark_delivery_started`. -/
def claimDelivery (eventId : UUID) (deliveryToken : String)
    (leaseUntilMs nowMs : ℤ) (maximumAttempts : ℕ) :
    Statement (Option EventRow) :=
  updateEvent eventId (fun row => row.claimable nowMs maximumAttempts)
    fun row =>
      { row with
        status := .delivering
        attemptCount := nextAttempt row.status row.attemptCount maximumAttempts
        deliveryToken := some deliveryToken
        deliveryLeaseUntilMs := some leaseUntilMs
        updatedAtMs := nowMs
        lastReason := none }

/-- The update of `mark_delivery_started` that gives an event up. -/
def deadLetterExhausted (eventId : UUID) (nowMs : ℤ) (maximumAttempts : ℕ) :
    Statement (Option EventRow) :=
  updateEvent eventId
    (fun row =>
      (row.status = .queued || row.status = .retryScheduled) &&
        maximumAttempts ≤ row.attemptCount)
    fun row =>
      { row with
        status := .deadLetter
        updatedAtMs := nowMs
        lastReason := some "maximum_attempts" }

/-- The update of `_update_terminal`. -/
def updateTerminal (eventId : UUID) (status : EventStatus) (nowMs : ℤ)
    (reason : Option String) (deliveryToken : String) :
    Statement (Option EventRow) :=
  updateEvent eventId
    (fun row =>
      row.status = .delivering && row.deliveryToken = some deliveryToken)
    fun row =>
      { row with
        status := status
        updatedAtMs := nowMs
        lastReason := reason
        deliveryToken := none
        deliveryLeaseUntilMs := none }

end Delivery

end Hooklane.Cloudflare
