import Hooklane.Queue.Handover
import Hooklane.Queue.Simulation
import Hooklane.Redis.Writes

/-!
# What each call may write

`RedisCall.MayWrite` lists the writes of every script, whatever the keyspace
holds and however the script ends.  What no write of a call touches is the same
before and after it.
-/

namespace Hooklane

open Redis Script

/-- The writes that a call can make. -/
def RedisCall.MayWrite : RedisCall → Write Key → Prop
  | .xgroupCreate _, w | .xreadgroup _ _, w | .claimStalePending _ _ _, w =>
      w = .regroup .events
  | .enqueue e eventType payload acceptedAt, w =>
      w = .append .events (messageFields e eventType payload acceptedAt) ∨
      ∃ field text, w = .hset (.event e.text) field text ∧
        (field = "status" → text = EventStatus.queued.value)
  | .idempotentEnqueue e digest eventType payload _ acceptedAt, w =>
      w = .append .events (messageFields e eventType payload acceptedAt) ∨
      (∃ field text, w = .hset (.event e.text) field text ∧
        (field = "status" → text = EventStatus.queued.value)) ∨
      ∃ field text, w = .hset (.idempotency digest) field text
  | .startDelivery e _, w =>
      w = .hset (.event e.text) "status" EventStatus.delivering.value ∨
      ∃ text, w = .hset (.event e.text) "attempt_count" text
  | .completeDelivery e _ _, w =>
      w = .regroup .events ∨
      w = .hset (.event e.text) "status" EventStatus.delivered.value
  | .scheduleRetry e _ errorClass dueAtMs, w =>
      w = .hset (.event e.text) "status" EventStatus.retryScheduled.value ∨
      w = .hset (.event e.text) "last_error_class" errorClass ∨
      w = .zadd .retries ((dueAtMs : ℚ) : Score) e.text
  | .releaseDueRetry _ _, w =>
      w = .regroup .events ∨ (∃ fields, w = .append .events fields) ∨
      (∃ m, w = .zrem .retries m) ∨
      (∃ m, w = .hset (.event m) "status" EventStatus.queued.value) ∨
      (∃ m, w = .hset (.event m) "status" EventStatus.deadLetter.value) ∨
      (∃ m, w = .hset (.event m) "last_error_class" "invariant_violation") ∨
      (∃ m text, w = .hset (.event m) "stream_id" text) ∨
      ∃ m, w = .hdel (.event m) "last_error_class"
  | .quarantineMessage _ _ reasonCode, w =>
      w = .regroup .events ∨ (∃ fields, w = .append .quarantine fields) ∨
      (∃ m, w = .hset (.event m) "status" EventStatus.deadLetter.value) ∨
      ∃ m, w = .hset (.event m) "last_error_class" reasonCode
  | .moveToDeadLetter e _ _ errorClass, w =>
      w = .regroup .events ∨ (∃ fields, w = .append .deadLetter fields) ∨
      (∃ m, w = .zrem .retries m) ∨
      w = .hset (.event e.text) "status" EventStatus.deadLetter.value ∨
      w = .hset (.event e.text) "last_error_class" errorClass ∨
      ∃ text, w = .hset (.event e.text) "dead_letter_stream_id" text
  | .hgetall _, _ | .xrange _, _ | .existsStream, _ | .xinfoGroups, _
  | .xlen, _ | .xrangeFirst, _ | .xpendingFirst _, _ | .xrangeAfter _, _ =>
      False

section Scripts

variable {P : Write Key → Prop} {now : UInt64}

theorem writes_ite {c : Prop} [Decidable c] {α : Type}
    {m m' : StoreScript α} (hm : m.Writes P) (hm' : m'.Writes P) :
    (if c then m else m').Writes P := by
  split
  · exact hm
  · exact hm'

theorem writes_xpending {group text : String} :
    (xpending Key.events group text).Writes P :=
  ((readOnly_readId text).bind fun _ =>
    (readOnly_readGroup _ group).bind fun _ => readOnly_pure _).writes

theorem writes_removeInvalidRecord {m : String}
    (hstatus : P (.hset (.event m) "status" EventStatus.deadLetter.value))
    (hclass : P (.hset (.event m) "last_error_class" "invariant_violation"))
    (hzrem : P (.zrem .retries m)) : (removeInvalidRecord m).Writes P := by
  have hsafe : (safeToDiscard m).Writes P := by
    refine writes_typeOf.bind fun _ => writes_ite (writes_pure _) ?_
    refine (writes_hget _).bind fun _ => writes_ite (writes_pure _) ?_
    exact (writes_hget _).bind fun _ => (writes_hget _).bind fun _ =>
      (writes_hget _).bind fun _ => writes_pure _
  refine hsafe.bind fun _ => writes_ite ?_ ?_
  · refine (writes_hset (by simp) ?_).bind fun _ =>
      (writes_zrem hzrem).bind fun _ => writes_pure _
    simp [hstatus, hclass]
  · exact (writes_zrem hzrem).bind fun _ => writes_pure _

theorem writes_xaddUnpacked {P : Write Key → Prop} {key : Key} {fields : Fields}
    (hP : P (.append key fields)) : (xaddUnpacked now key fields).Writes P :=
  writes_ite (writes_xadd hP) (writes_fail _)

theorem writes_releaseDueRetry (group : String) (nowMs : ℤ) :
    (releaseDueRetryScript now group nowMs).Writes
      (RedisCall.releaseDueRetry group nowMs).MayWrite := by
  have hremove : ∀ m, (removeInvalidRecord m).Writes
      (RedisCall.releaseDueRetry group nowMs).MayWrite := fun m =>
    writes_removeInvalidRecord (by simp [RedisCall.MayWrite])
      (by simp [RedisCall.MayWrite]) (by simp [RedisCall.MayWrite])
  have hrequeue : ∀ m text fields, (requeueMessage now group m text
      fields).Writes (RedisCall.releaseDueRetry group nowMs).MayWrite := by
    intro m text fields
    refine (writes_xaddUnpacked (by simp [RedisCall.MayWrite])).bind fun _ =>
      (writes_xack (by simp [RedisCall.MayWrite])).bind fun _ =>
        writes_ite (writes_fail _) ?_
    refine (writes_hset (by simp) ?_).bind fun _ => ?_
    · simp [RedisCall.MayWrite]
    · exact (writes_hdel (by simp [RedisCall.MayWrite])).bind fun _ =>
        (writes_zrem (by simp [RedisCall.MayWrite])).bind fun _ =>
          writes_pure _
  have hmember : ∀ m, (releaseMember now group m).Writes
      (RedisCall.releaseDueRetry group nowMs).MayWrite := by
    intro m
    refine writes_typeOf.bind fun _ => writes_ite (hremove m) ?_
    refine (writes_hget _).bind fun _ => writes_ite (hremove m) ?_
    refine (writes_hget _).bind fun _ => writes_ite (hremove m) ?_
    refine (writes_hget _).bind fun streamId => ?_
    cases streamId with
    | none => exact hremove m
    | some streamId =>
        refine writes_ite (hremove m) ?_
        refine writes_xpending.bind fun _ =>
          (readOnly_xrange _ _).writes.bind fun _ => ?_
        split
        · exact writes_ite (hremove m) (hrequeue m _ _)
        · exact hremove m
  refine writes_typeOf.bind fun _ => writes_typeOf.bind fun _ =>
    writes_ite (writes_fail _) (writes_ite (writes_pure _)
      (writes_ite (writes_fail _) ?_))
  have hrange : (zrangebyscore Key.retries ((nowMs : ℚ) : Score)).Writes
      (RedisCall.releaseDueRetry group nowMs).MayWrite := fun db =>
    wrote_readZSet fun _ _ => .refl
  refine hrange.bind fun members => ?_
  cases members with
  | nil => exact writes_pure _
  | cons m rest => exact hmember m

theorem writes_pendingDisposition {fields : Fields} {m : String} :
    (pendingDisposition fields m).Writes P := by
  rw [pendingDisposition]
  split
  · exact writes_pure _
  · refine writes_ite (writes_pure _) ?_
    refine writes_typeOf.bind fun _ => writes_ite (writes_pure _) ?_
    refine (writes_hget _).bind fun _ => (writes_hget _).bind fun _ =>
      writes_ite (writes_pure _) ?_
    exact (writes_hget _).bind fun _ => writes_ite (writes_pure _)
      (writes_ite (writes_pure _) (writes_pure _))

theorem writes_claimFirst {group consumer : String} {minIdle : ℕ}
    (hP : P (.regroup .events)) (ids : List String) :
    (claimFirst now group consumer minIdle ids).Writes P := by
  induction ids with
  | nil => exact writes_pure _
  | cons id rest ih =>
      refine (readOnly_xrange _ _).writes.bind fun _ => ?_
      split
      · refine writes_pendingDisposition.bind fun _ => writes_ite ih ?_
        exact (writes_xclaim hP).bind fun _ => writes_ite (writes_pure _) ih
      · exact ih

theorem writes_claimStalePending (group consumer : String) (minIdle : ℕ) :
    (claimStalePendingScript now group consumer minIdle).Writes
      (RedisCall.claimStalePending group consumer minIdle).MayWrite := by
  refine writes_typeOf.bind fun _ => writes_ite (writes_fail _) ?_
  have hidle : (xpendingIdle now Key.events group minIdle 100).Writes
      (RedisCall.claimStalePending group consumer minIdle).MayWrite :=
    ((readOnly_readGroup _ group).bind fun _ => readOnly_pure _).writes
  exact hidle.bind fun ids => writes_claimFirst
    (P := (RedisCall.claimStalePending group consumer minIdle).MayWrite) rfl
    ids

theorem writes_quarantineMessage (m group reasonCode : String) :
    (quarantineMessageScript now m group reasonCode).Writes
      (RedisCall.quarantineMessage m group reasonCode).MayWrite := by
  have hwrites : ∀ eventId safe, (quarantineWrites now m group reasonCode
      eventId safe).Writes
        (RedisCall.quarantineMessage m group reasonCode).MayWrite := by
    intro eventId safe
    refine (writes_xadd (by simp [RedisCall.MayWrite])).bind fun _ =>
      (writes_xack (by simp [RedisCall.MayWrite])).bind fun _ =>
        writes_ite (writes_fail _) ?_
    split
    · refine (writes_hset (by simp) ?_).bind fun _ => writes_pure _
      simp [RedisCall.MayWrite]
    · exact writes_pure _
  have hsafe : ∀ text, (safeToQuarantine text m).Writes
      (RedisCall.quarantineMessage m group reasonCode).MayWrite := by
    intro text
    refine writes_typeOf.bind fun _ => writes_ite (writes_pure _) ?_
    exact (writes_hget _).bind fun _ => (writes_hget _).bind fun _ =>
      (writes_hget _).bind fun _ => writes_pure _
  refine writes_typeOf.bind fun _ => writes_typeOf.bind fun _ =>
    writes_ite (writes_fail _) (writes_ite (writes_fail _) ?_)
  refine writes_xpending.bind fun _ =>
    (readOnly_xrange _ _).writes.bind fun _ => ?_
  split
  · split
    · exact (hsafe _).bind fun _ => hwrites _ _
    · exact hwrites _ _
  · exact writes_fail _

theorem writes_moveToDeadLetter (e : UUID) (m group errorClass : String) :
    (moveToDeadLetterScript now e m group errorClass).Writes
      (RedisCall.moveToDeadLetter e m group errorClass).MayWrite := by
  have hwrites : ∀ id attemptCount fields, (deadLetterWrites now
      (.event e.text) id m group errorClass attemptCount fields).Writes
        (RedisCall.moveToDeadLetter e m group errorClass).MayWrite := by
    intro id attemptCount fields
    refine (writes_xaddUnpacked (by simp [RedisCall.MayWrite])).bind fun _ =>
      (writes_xack (by simp [RedisCall.MayWrite])).bind fun _ =>
        writes_ite (writes_fail _) ?_
    refine (writes_hset (by simp) ?_).bind fun _ =>
      (writes_zrem (by simp [RedisCall.MayWrite])).bind fun _ => writes_pure _
    simp [RedisCall.MayWrite]
  refine writes_typeOf.bind fun _ => writes_typeOf.bind fun _ =>
    writes_typeOf.bind fun _ => writes_typeOf.bind fun _ => ?_
  refine writes_ite (writes_fail _) (writes_ite (writes_fail _)
    (writes_ite (writes_fail _) (writes_ite (writes_fail _) ?_)))
  refine (writes_hget _).bind fun _ => writes_ite (writes_fail _) ?_
  refine (writes_hget _).bind fun _ => writes_ite (writes_fail _) ?_
  refine (writes_hget _).bind fun _ => (writes_hget _).bind fun _ => ?_
  split
  · refine writes_ite (writes_fail _) ?_
    refine writes_xpending.bind fun _ =>
      (readOnly_xrange _ _).writes.bind fun _ => ?_
    split
    · exact writes_ite (writes_fail _) (hwrites _ _ _)
    · exact writes_fail _
  · exact writes_fail _

theorem status_initialPair {e : UUID} {id : String} {pair : String × String}
    (hpair : pair ∈ [("event_id", e.text), ("status", EventStatus.queued.value),
      ("attempt_count", "0"), ("stream_id", id)]) (hstatus : pair.1 = "status") :
    pair.2 = EventStatus.queued.value := by
  simp only [List.mem_cons, List.not_mem_nil, or_false] at hpair
  rcases hpair with rfl | rfl | rfl | rfl
  · simp at hstatus
  · rfl
  · simp at hstatus
  · simp at hstatus

/-- Both enqueue scripts write the message and the status hash. -/
theorem writes_enqueue (e : UUID) (eventType payload acceptedAt : String) :
    (enqueueScript now e eventType payload acceptedAt).Writes
      (RedisCall.enqueue e eventType payload acceptedAt).MayWrite := by
  refine writes_typeOf.bind fun _ => writes_typeOf.bind fun _ =>
    writes_ite (writes_fail _) (writes_ite (writes_fail _) ?_)
  refine (writes_xadd (Or.inl rfl)).bind fun _ =>
    (writes_hset (by simp) ?_).bind fun _ => writes_pure _
  refine fun pair hpair => Or.inr ⟨pair.1, pair.2, rfl, fun hstatus => ?_⟩
  exact status_initialPair hpair hstatus

theorem writes_idempotentEnqueue (e : UUID)
    (digest eventType payload fingerprint acceptedAt : String) :
    (idempotentEnqueueScript now e digest eventType payload fingerprint
      acceptedAt).Writes (RedisCall.idempotentEnqueue e digest eventType
        payload fingerprint acceptedAt).MayWrite := by
  refine writes_typeOf.bind fun _ => writes_typeOf.bind fun _ =>
    writes_typeOf.bind fun _ => ?_
  refine writes_ite (writes_fail _) (writes_ite (writes_fail _)
    (writes_ite ?_ (writes_ite (writes_fail _) ?_)))
  · refine (writes_hget _).bind fun _ => (writes_hget _).bind fun _ => ?_
    split
    · exact writes_ite (writes_pure _) (writes_pure _)
    · exact writes_fail _
  · refine (writes_xadd (Or.inl rfl)).bind fun _ =>
      (writes_hset (by simp) ?_).bind fun _ =>
        (writes_hset (by simp) ?_).bind fun _ => writes_pure _
    · refine fun pair hpair =>
        Or.inr (Or.inl ⟨pair.1, pair.2, rfl, fun hstatus => ?_⟩)
      exact status_initialPair hpair hstatus
    · exact fun pair _ => Or.inr (Or.inr ⟨pair.1, pair.2, rfl⟩)

end Scripts

/-- No call writes anything but what `MayWrite` lists. -/
theorem call_writes (call : RedisCall) (now : UInt64) :
    (call.script now).Writes call.MayWrite := by
  cases call with
  | xgroupCreate group => exact writes_xgroupCreate rfl
  | xreadgroup group consumer => exact writes_xreadgroup rfl
  | claimStalePending group consumer minIdle =>
      exact writes_claimStalePending group consumer minIdle
  | enqueue e eventType payload acceptedAt =>
      exact writes_enqueue e eventType payload acceptedAt
  | idempotentEnqueue e digest eventType payload fingerprint acceptedAt =>
      exact writes_idempotentEnqueue e digest eventType payload fingerprint
        acceptedAt
  | startDelivery e m =>
      refine (writes_hget _).bind fun _ => writes_ite (writes_fail _) ?_
      refine (writes_hset (by simp) ?_).bind fun _ => writes_hincrby ?_
      · simp [RedisCall.MayWrite]
      · exact fun text => Or.inr ⟨text, rfl⟩
  | completeDelivery e m group =>
      refine (writes_hget _).bind fun _ => writes_ite (writes_fail _) ?_
      refine (writes_xack (Or.inl rfl)).bind fun _ =>
        writes_ite (writes_fail _) ?_
      refine (writes_hset (by simp) ?_).bind fun _ => writes_pure _
      simp [RedisCall.MayWrite]
  | scheduleRetry e m errorClass dueAtMs =>
      refine writes_typeOf.bind fun _ => writes_typeOf.bind fun _ =>
        writes_ite (writes_fail _) (writes_ite (writes_fail _) ?_)
      refine (writes_hget _).bind fun _ => writes_ite (writes_fail _) ?_
      refine (writes_hset (by simp) ?_).bind fun _ =>
        (writes_zadd (by simp [RedisCall.MayWrite])).bind fun _ =>
          writes_pure _
      simp [RedisCall.MayWrite]
  | releaseDueRetry group nowMs => exact writes_releaseDueRetry group nowMs
  | quarantineMessage m group reasonCode =>
      exact writes_quarantineMessage m group reasonCode
  | moveToDeadLetter e m group errorClass =>
      exact writes_moveToDeadLetter e m group errorClass
  | hgetall e => exact (readOnly_hgetall _).writes
  | xrange m => exact (readOnly_xrange _ m).writes
  | existsStream => exact fun _ => .refl
  | xinfoGroups => exact (readOnly_xinfoGroups _).writes
  | xlen => exact (readOnly_xlen _).writes
  | xrangeFirst => exact (readOnly_xrangeFirst _).writes
  | xpendingFirst group => exact (readOnly_xpendingFirst _ group).writes
  | xrangeAfter m => exact (readOnly_xrangeAfter _ m).writes

section Kept

variable {call : RedisCall} {w : Write Key} {db : Store} {now : UInt64}

/-- Only hash fields are written under a status key. -/
theorem RedisCall.MayWrite.event {m : String} (h : call.MayWrite w)
    (hkey : w.key = .event m) :
    (∃ field text, w = .hset (.event m) field text) ∨
      ∃ field, w = .hdel (.event m) field := by
  cases w with
  | hset key field text =>
      obtain rfl : key = .event m := hkey
      exact Or.inl ⟨field, text, rfl⟩
  | hdel key field =>
      obtain rfl : key = .event m := hkey
      exact Or.inr ⟨field, rfl⟩
  | append key | regroup key | zadd key | zrem key =>
      obtain rfl : key = .event m := hkey
      cases call <;> simp [MayWrite] at h

/-- A field of a status hash keeps its text or takes one that the call may
write. -/
theorem statusField_run (call : RedisCall) (now : UInt64) (db : Store)
    (e : UUID) (field : String) :
    statusField (call.script now db).2 e field = statusField db e field ∨
    (∃ text, call.MayWrite (.hset (.event e.text) field text) ∧
      statusField (call.script now db).2 e field = some text) ∨
    call.MayWrite (.hdel (.event e.text) field) ∧
      statusField (call.script now db).2 e field = none :=
  Wrote.fieldAt_cases (call_writes call now db)
    fun _ hw hkey => hw.event hkey

/-- A field that the call does not write. -/
theorem statusField_kept {e : UUID} {field : String}
    (hset : ∀ text, ¬call.MayWrite (.hset (.event e.text) field text))
    (hdel : ¬call.MayWrite (.hdel (.event e.text) field)) :
    statusField (call.script now db).2 e field = statusField db e field := by
  rcases statusField_run call now db e field with h | ⟨text, h, -⟩ | ⟨h, -⟩
  · exact h
  · exact absurd h (hset text)
  · exact absurd h hdel

/-- The due time of an event stays, is written by a retry of the event, or is
removed. -/
theorem dueTime_run (call : RedisCall) (now : UInt64) (db : Store)
    (m : String) :
    scoreAt (call.script now db).2 .retries m = scoreAt db .retries m ∨
    (∃ score, call.MayWrite (.zadd .retries score m) ∧
      scoreAt (call.script now db).2 .retries m = some score) ∨
    scoreAt (call.script now db).2 .retries m = none := by
  refine (call_writes call now db).scoreAt_cases fun w hw hkey => ?_
  cases w with
  | zadd key score member =>
      obtain rfl : key = .retries := hkey
      exact Or.inl ⟨score, member, rfl⟩
  | zrem key member =>
      obtain rfl : key = .retries := hkey
      exact Or.inr ⟨member, rfl⟩
  | hset key | hdel key | append key | regroup key =>
      obtain rfl : key = .retries := hkey
      cases call <;> simp [RedisCall.MayWrite] at hw

/-- A key that the call does not write. -/
theorem key_kept {key : Key} (hkey : ∀ w, call.MayWrite w → w.key ≠ key) :
    (call.script now db).2 key = db key :=
  (call_writes call now db).untouched hkey

/-- The events stream, when the call appends nothing. -/
theorem entries_kept
    (hcall : ∀ fields, ¬call.MayWrite (.append .events fields)) :
    entriesAt (call.script now db).2 .events = entriesAt db .events := by
  refine (call_writes call now db).entriesAt fun w hw hkey => ?_
  cases w with
  | regroup key => rw [show key = .events from hkey]
  | append key fields =>
      obtain rfl : key = .events := hkey
      exact absurd hw (hcall fields)
  | hset key | hdel key | zadd key | zrem key =>
      obtain rfl : key = .events := hkey
      cases call <;> simp [RedisCall.MayWrite] at hw

theorem entriesAt_eq (db : Store) (key : Key) :
    entriesAt db key = (streamAt db key).entries := by
  rw [entriesAt, streamAt]
  cases db key with
  | none => rfl
  | some v => cases v <;> rfl

end Kept

end Hooklane
