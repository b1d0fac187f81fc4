import Hooklane.Queue.Release
import Hooklane.Queue.Store
import Hooklane.Redis.Failure
import Hooklane.Redis.Writes

/-!
# Failed scripts change nothing

The scripts run on any keyspace here, whatever the keys hold.  A script that
fails has written nothing, except that `_START_DELIVERY_SCRIPT` sets the status
before it counts the attempt, and the counter may hold any text.
-/

namespace Hooklane

open Redis Script

variable {db d : Store} {k : Key} {now : UInt64}

section Kinds

theorem typeOf_eq (k : Key) (db : Store) :
    typeOf k db = (.ok ((db k).elim .none Value.kind), db) :=
  rfl

theorem kind_of_typeOf {kind : Kind} (h : typeOf k db = (.ok kind, db)) :
    (db k).elim .none Value.kind = kind := by
  rw [typeOf, Prod.mk.injEq, Except.ok.injEq] at h
  exact h.1

theorem absent_of_typeOf (h : typeOf k db = (.ok .none, db)) :
    db k = none := by
  have hkind := kind_of_typeOf h
  cases hv : db k with
  | none => rfl
  | some v => cases v <;> simp [hv, Value.kind] at hkind

theorem hash_of_typeOf (h : typeOf k db = (.ok .hash, db)) :
    ∃ f, db k = some (.hash f) := by
  have hkind := kind_of_typeOf h
  cases hv : db k with
  | none => simp [hv] at hkind
  | some v => cases v <;> simp [hv, Value.kind] at hkind ⊢

theorem stream_of_typeOf (h : typeOf k db = (.ok .stream, db)) :
    ∃ st, db k = some (.stream st) := by
  have hkind := kind_of_typeOf h
  cases hv : db k with
  | none => simp [hv] at hkind
  | some v => cases v <;> simp [hv, Value.kind] at hkind ⊢

theorem zset_of_typeOf (h : typeOf k db = (.ok .zset, db)) :
    ∃ z, db k = some (.zset z) := by
  have hkind := kind_of_typeOf h
  cases hv : db k with
  | none => simp [hv] at hkind
  | some v => cases v <;> simp [hv, Value.kind] at hkind ⊢

end Kinds

section Scripts

theorem enqueue_failsClean (e : UUID) (eventType payload acceptedAt : String) :
    (enqueueScript now e eventType payload acceptedAt).FailsClean db := by
  refine (readOnly_typeOf _).bind_failsClean fun streamType _ => ?_
  refine (readOnly_typeOf _).bind_failsClean fun statusType hstatus => ?_
  refine failsClean_ite (fun _ => failsClean_fail _) fun _ => ?_
  refine failsClean_ite (fun _ => failsClean_fail _) fun hfree => ?_
  have hkey := absent_of_typeOf (not_not.mp hfree ▸ hstatus)
  refine (failsClean_xadd _ _ _).bind_succeeds fun id d hrun => ?_
  obtain ⟨st, rfl, -⟩ := xadd_ok hrun
  exact succeeds_bind (hset_absent (by simpa using hkey) _) (succeeds_pure _)

theorem idempotentEnqueue_failsClean (e : UUID)
    (digest eventType payload fingerprint acceptedAt : String) :
    (idempotentEnqueueScript now e digest eventType payload fingerprint
      acceptedAt).FailsClean db := by
  refine (readOnly_typeOf _).bind_failsClean fun streamType _ => ?_
  refine (readOnly_typeOf _).bind_failsClean fun statusType hstatus => ?_
  refine (readOnly_typeOf _).bind_failsClean fun recordType hrecord => ?_
  refine failsClean_ite (fun _ => failsClean_fail _) fun _ => ?_
  refine failsClean_ite (fun _ => failsClean_fail _) fun hkind => ?_
  refine failsClean_ite (fun _ => ?_) fun hnot => ?_
  · refine (readOnly_hget _ _).bind_failsClean fun _ _ => ?_
    refine (readOnly_hget _ _).bind_failsClean fun _ _ => ?_
    split
    · exact failsClean_ite (fun _ => (readOnly_pure _).failsClean)
        fun _ => (readOnly_pure _).failsClean
    · exact failsClean_fail _
  · refine failsClean_ite (fun _ => failsClean_fail _) fun hfree => ?_
    have hkey := absent_of_typeOf (not_not.mp hfree ▸ hstatus)
    have hnone : recordType = .none := by
      by_contra hsome
      exact hkind ⟨hsome, hnot⟩
    have hrecordKey := absent_of_typeOf (hnone ▸ hrecord)
    refine (failsClean_xadd _ _ _).bind_succeeds fun id d hrun => ?_
    obtain ⟨st, rfl, -⟩ := xadd_ok hrun
    refine succeeds_bind (hset_absent (by simpa using hkey) _) ?_
    exact succeeds_bind (hset_absent (by simpa using hrecordKey) _)
      (succeeds_pure _)

/-- A status hash that names the message. -/
theorem hash_of_hget {field m : String}
    (h : hget k field db = (.ok (some m), db)) :
    ∃ f, db k = some (.hash f) ∧ f.lookup field = some m := by
  cases hv : db k with
  | none => simp [hget, bind_apply, readHash, hv] at h
  | some v =>
      cases v with
      | hash f =>
          rw [hget_run hv, Prod.mk.injEq, Except.ok.injEq] at h
          exact ⟨f, rfl, h.1⟩
      | string | list | set | zset | stream =>
          simp [hget, bind_apply, readHash, hv] at h

theorem completeDelivery_failsClean (e : UUID) (m group : String) :
    (completeDeliveryScript e m group).FailsClean db := by
  refine (readOnly_hget _ _).bind_failsClean fun streamId hget => ?_
  refine failsClean_ite (fun _ => failsClean_fail _) fun hnames => ?_
  obtain ⟨f, hkey, -⟩ := hash_of_hget (not_not.mp hnames ▸ hget)
  rcases xack_none_or_one .events group m db with
    ⟨r, hrun, hr⟩ | ⟨_, _, _, -, -, -, hrun⟩
  · cases r with
    | ok n =>
        have hn : n ≠ 1 := fun hn => hr (by rw [hn])
        rw [FailsClean, bind_ok hrun, if_pos hn]
        exact fun _ _ => rfl
    | error message =>
        rw [FailsClean, bind_error hrun]
        exact fun _ _ => rfl
  · refine Succeeds.failsClean (succeeds_bind hrun ?_)
    simp only [ne_eq, not_true_eq_false, if_false]
    exact succeeds_bind (hset_run (h := f) (by simpa using hkey) _)
      (succeeds_pure _)

/-- The retry schedule is a sorted set or absent. -/
theorem holdsZSet_of_typeOf {kind : Kind}
    (h : typeOf .retries db = (.ok kind, db))
    (hkind : ¬(kind ≠ .none ∧ kind ≠ .zset)) :
    HoldsZSet (db .retries) (retrySet db) := by
  by_cases hnone : kind = .none
  · have hkey := absent_of_typeOf (hnone ▸ h)
    exact Or.inl ⟨hkey, by rw [retrySet, hkey]⟩
  · have hzset : kind = .zset := by
      by_contra hne
      exact hkind ⟨hnone, hne⟩
    obtain ⟨z, hz⟩ := zset_of_typeOf (hzset ▸ h)
    exact Or.inr (by rw [retrySet, hz])

theorem scheduleRetry_failsClean (e : UUID) (m errorClass : String)
    (dueAtMs : ℤ) :
    (scheduleRetryScript e m errorClass dueAtMs).FailsClean db := by
  refine (readOnly_typeOf _).bind_failsClean fun statusType hstatus => ?_
  refine (readOnly_typeOf _).bind_failsClean fun retryType hretry => ?_
  refine failsClean_ite (fun _ => failsClean_fail _) fun hhash => ?_
  refine failsClean_ite (fun _ => failsClean_fail _) fun hkind => ?_
  refine (readOnly_hget _ _).bind_failsClean fun streamId _ => ?_
  refine failsClean_ite (fun _ => failsClean_fail _) fun _ => ?_
  obtain ⟨f, hkey⟩ := hash_of_typeOf (not_not.mp hhash ▸ hstatus)
  have hz := holdsZSet_of_typeOf hretry hkind
  refine Succeeds.failsClean (succeeds_bind (hset_run hkey _) ?_)
  exact succeeds_bind (zadd_run (z := retrySet db) (by simpa using hz) _ _)
    (succeeds_pure _)

/-- The hash of a record that is safe to discard. -/
theorem hash_of_safeToDiscard {m : String}
    (h : safeToDiscard m db = (.ok true, db)) :
    ∃ f, db (.event m) = some (.hash f) := by
  rw [safeToDiscard, bind_ok (typeOf_eq (.event m) db)] at h
  by_cases hkind : (db (.event m)).elim .none Value.kind = .hash
  · exact hash_of_typeOf (hkind ▸ typeOf_eq (.event m) db)
  · simp [hkind] at h

theorem readOnly_safeToDiscard (m : String) : (safeToDiscard m).ReadOnly := by
  refine (readOnly_typeOf _).bind fun _ => ?_
  refine readOnly_ite (readOnly_pure _) ?_
  refine (readOnly_hget _ _).bind fun _ => readOnly_ite (readOnly_pure _) ?_
  exact (readOnly_hget _ _).bind fun _ => (readOnly_hget _ _).bind fun _ =>
    (readOnly_hget _ _).bind fun _ => readOnly_pure _

theorem removeInvalidRecord_failsClean {m : String}
    (hz : HoldsZSet (db .retries) (retrySet db)) :
    (removeInvalidRecord m).FailsClean db := by
  refine (readOnly_safeToDiscard m).bind_failsClean fun safe hsafe => ?_
  refine failsClean_ite (fun hyes => Succeeds.failsClean ?_)
    fun _ => Succeeds.failsClean ?_
  · obtain ⟨f, hkey⟩ := hash_of_safeToDiscard (hyes ▸ hsafe)
    refine succeeds_bind (hset_run hkey _) ?_
    obtain ⟨v, hzrem, -⟩ := zrem_run (z := retrySet db)
      (d := Function.update db (.event m) (some (.hash (Hash.setAll f
        [("status", EventStatus.deadLetter.value),
          ("last_error_class", "invariant_violation")]))))
      (by simpa using hz) m
    refine succeeds_bind hzrem ?_
    exact succeeds_pure _
  · obtain ⟨v, hzrem, -⟩ := zrem_run hz m
    refine succeeds_bind hzrem ?_
    exact succeeds_pure _

theorem releaseMember_failsClean (group m : String) {st : Stream}
    (hevents : db .events = some (.stream st))
    (hz : HoldsZSet (db .retries) (retrySet db)) :
    (releaseMember now group m).FailsClean db := by
  have hremove : (removeInvalidRecord m).FailsClean db :=
    removeInvalidRecord_failsClean hz
  refine (readOnly_typeOf _).bind_failsClean fun kind hkind => ?_
  refine failsClean_ite (fun _ => hremove) fun hhash => ?_
  obtain ⟨f, hkey⟩ := hash_of_typeOf (not_not.mp hhash ▸ hkind)
  refine (readOnly_hget _ _).bind_failsClean fun storedId hstored => ?_
  refine failsClean_ite (fun _ => hremove) fun hid => ?_
  refine (readOnly_hget _ _).bind_failsClean fun status _ => ?_
  refine failsClean_ite (fun _ => hremove) fun _ => ?_
  refine (readOnly_hget _ _).bind_failsClean fun streamId _ => ?_
  cases streamId with
  | none => exact hremove
  | some text =>
      refine failsClean_ite (fun _ => hremove) fun _ => ?_
      refine (readOnly_xpending _ _ _).bind_failsClean fun pending hlist => ?_
      refine (readOnly_xrange _ _).bind_failsClean fun message _ => ?_
      split
      · refine failsClean_ite (fun _ => hremove) fun _ => ?_
        obtain ⟨st', g, id, hst', hg, hparse, hpending⟩ :=
          pending_of_xpending hlist
        obtain rfl : st = st' := by simpa [hevents] using hst'
        have hmem : "event_id" ∈ f := by
          rw [hget_run hkey, Prod.mk.injEq, Except.ok.injEq] at hstored
          rw [not_or, not_not] at hid
          rw [← AList.lookup_isSome, hstored.1, hid.2]
          rfl
        rcases requeueMessage_run hevents hg hparse hpending hkey hmem hz now
          _ with ⟨message, -, hrun⟩ | ⟨id', added, v, -, -, -, hrun⟩
        · rw [FailsClean, hrun]
          exact fun _ _ => rfl
        · exact (succeeds_of_run hrun).failsClean
      · exact hremove

theorem releaseDueRetry_failsClean (group : String) (nowMs : ℤ) :
    (releaseDueRetryScript now group nowMs).FailsClean db := by
  refine (readOnly_typeOf _).bind_failsClean fun streamType hstream => ?_
  refine (readOnly_typeOf _).bind_failsClean fun retryType hretry => ?_
  refine failsClean_ite (fun _ => failsClean_fail _) fun hkind => ?_
  refine failsClean_ite (fun _ => (readOnly_pure _).failsClean) fun _ => ?_
  refine failsClean_ite (fun _ => failsClean_fail _) fun hzset => ?_
  obtain ⟨st, hevents⟩ := stream_of_typeOf (not_not.mp hkind ▸ hstream)
  have hz := holdsZSet_of_typeOf hretry fun h => hzset h.2
  have hread : (zrangebyscore (κ := Key) .retries
      ((nowMs : ℚ) : Score)).ReadOnly :=
    (readOnly_readZSet _).bind fun _ => readOnly_pure _
  refine hread.bind_failsClean fun members _ => ?_
  cases members with
  | nil => exact (readOnly_pure _).failsClean
  | cons m rest => exact releaseMember_failsClean group m hevents hz

/-- The verdict on a message is reached on any keyspace. -/
theorem pendingDisposition_succeeds (fields : Fields) (m : String)
    (db : Store) :
    ∃ disposition, pendingDisposition fields m db = (.ok disposition, db) := by
  rw [pendingDisposition]
  cases fieldValue fields "event_id" with
  | none => exact ⟨_, rfl⟩
  | some id =>
      by_cases huuid : isUuid id = false
      · exact ⟨_, congrFun (if_pos huuid) db⟩
      dsimp only
      rw [if_neg huuid, bind_ok (typeOf_eq (.event id) db)]
      by_cases hkind : (db (.event id)).elim .none Value.kind = .hash
      · obtain ⟨f, hkey⟩ := hash_of_typeOf (hkind ▸ typeOf_eq (.event id) db)
        rw [if_neg (not_not.mpr hkind), bind_ok (hget_run hkey _),
          bind_ok (hget_run hkey _)]
        split
        · exact ⟨_, rfl⟩
        · rw [bind_ok (hget_run hkey _)]
          split
          · exact ⟨_, rfl⟩
          · split <;> exact ⟨_, rfl⟩
      · exact ⟨_, congrFun (if_pos hkind) db⟩

/-- `XCLAIM` on a stream that has the group keeps the stream and the group. -/
theorem xclaim_keeps {group : String} {st : Stream} {g : Group}
    (hevents : db .events = some (.stream st))
    (hg : st.groups.lookup group = some g) (now : UInt64) (consumer : String)
    (minIdle : ℕ) (id : StreamId) :
    ∃ ids d st' g', xclaim now .events group consumer minIdle id.text db =
        (.ok ids, d) ∧ d .events = some (.stream st') ∧
      st'.groups.lookup group = some g' := by
  rw [xclaim, bind_ok (readGroup_run hevents hg)]
  dsimp only
  rw [bind_ok (readId_run (StreamId.parse_text id))]
  cases g.pending.lookup id with
  | none => exact ⟨_, db, st, g, rfl, hevents, hg⟩
  | some held =>
      dsimp only
      split
      · exact ⟨_, _, _, _, rfl, Function.update_self ..,
          Stream.lookup_setGroup ..⟩
      · split
        · exact ⟨_, _, _, _, rfl, Function.update_self ..,
            Stream.lookup_setGroup ..⟩
        · exact ⟨_, db, st, g, rfl, hevents, hg⟩

/-- The scan loop never fails on a stream that has the group. -/
theorem claimFirst_succeeds {group : String} {st : Stream} {g : Group}
    (hevents : db .events = some (.stream st))
    (hg : st.groups.lookup group = some g) (consumer : String) (minIdle : ℕ)
    (ids : List StreamId) :
    (claimFirst now group consumer minIdle (ids.map StreamId.text)).Succeeds
      db := by
  induction ids generalizing db st g with
  | nil => exact succeeds_pure _
  | cons id rest ih =>
      refine succeeds_bind (xrange_run hevents id) ?_
      cases st.find id with
      | none => exact ih hevents hg
      | some entry =>
          obtain ⟨disposition, hverdict⟩ :=
            pendingDisposition_succeeds entry.fields id.text db
          refine succeeds_bind hverdict ?_
          by_cases hretry : disposition = .retryScheduled
          · rw [if_pos hretry]
            exact ih hevents hg
          · rw [if_neg hretry]
            obtain ⟨ids, d, st', g', hclaim, hevents', hg'⟩ :=
              xclaim_keeps hevents hg now consumer minIdle id
            refine succeeds_bind hclaim ?_
            by_cases hone : ids.length = 1
            · rw [if_pos hone]
              exact succeeds_pure _
            · rw [if_neg hone]
              exact ih hevents' hg'

theorem claimStalePending_failsClean (group consumer : String)
    (minIdle : ℕ) :
    (claimStalePendingScript now group consumer minIdle).FailsClean db := by
  refine (readOnly_typeOf _).bind_failsClean fun streamType hstream => ?_
  refine failsClean_ite (fun _ => failsClean_fail _) fun hkind => ?_
  obtain ⟨st, hevents⟩ := stream_of_typeOf (not_not.mp hkind ▸ hstream)
  cases hg : st.groups.lookup group with
  | none =>
      have hidle : xpendingIdle now .events group minIdle 100 db =
          (.error noGroup, db) := by
        simp [xpendingIdle, bind_apply, readGroup_absent (Or.inr hevents) hg]
      rw [FailsClean, bind_error hidle]
      exact fun _ _ => rfl
  | some g =>
      have hidle : xpendingIdle now .events group minIdle 100 db =
          (.ok ((g.idlePending now minIdle 100).map StreamId.text), db) := by
        simp [xpendingIdle, bind_apply, readGroup_run hevents hg]
      exact (succeeds_bind hidle
        (claimFirst_succeeds hevents hg consumer minIdle _)).failsClean

/-- An append to another stream leaves a pending message to acknowledge. -/
theorem xack_after_xadd {group text id : String} {key : Key} {fields : Fields}
    (hkey : key ≠ .events) (hlist : xpending .events group text db =
      (.ok [id], db)) {appended : String}
    (hrun : xadd now key fields db = (.ok appended, d)) :
    ∃ st, xack .events group text d =
      (.ok 1, Function.update d .events (some (.stream st))) := by
  obtain ⟨st, g, parsed, hevents, hg, hparse, hpending⟩ :=
    pending_of_xpending hlist
  obtain ⟨added, rfl, -⟩ := xadd_ok hrun
  refine ⟨st.setGroup group (g.ack parsed), ?_⟩
  rw [xack_parsed (by simpa [Ne.symm hkey] using hevents) hg hparse,
    if_pos hpending]

theorem xadd_of_xaddUnpacked {key : Key} {fields : Fields} {id : String}
    (h : xaddUnpacked now key fields db = (.ok id, d)) :
    xadd now key fields db = (.ok id, d) := by
  unfold xaddUnpacked at h
  split at h
  · exact h
  · cases h

theorem quarantineWrites_failsClean {m group id : String}
    (hlist : xpending .events group m db = (.ok [id], db))
    (reasonCode : String) (eventId : Option String) (safe : Bool)
    (hsafe : ∀ e, eventId = some e → safe = true →
      ∃ f, db (.event e) = some (.hash f)) :
    (quarantineWrites now m group reasonCode eventId safe).FailsClean db := by
  refine (failsClean_xadd _ _ _).bind_succeeds fun added d hrun => ?_
  obtain ⟨st, hack⟩ := xack_after_xadd (by simp) hlist hrun
  obtain ⟨st', rfl, -⟩ := xadd_ok hrun
  refine succeeds_bind hack ?_
  simp only [ne_eq, not_true_eq_false, if_false]
  split
  · next e =>
    obtain ⟨f, hkey⟩ := hsafe e rfl rfl
    exact succeeds_bind (hset_run (h := f) (by simpa using hkey) _)
      (succeeds_pure _)
  · exact succeeds_pure _

theorem hash_of_safeToQuarantine {e m : String}
    (h : safeToQuarantine e m db = (.ok true, db)) :
    ∃ f, db (.event e) = some (.hash f) := by
  rw [safeToQuarantine, bind_ok (typeOf_eq (.event e) db)] at h
  by_cases hkind : (db (.event e)).elim .none Value.kind = .hash
  · exact hash_of_typeOf (hkind ▸ typeOf_eq (.event e) db)
  · simp [hkind] at h

theorem readOnly_safeToQuarantine (e m : String) :
    (safeToQuarantine e m).ReadOnly := by
  refine (readOnly_typeOf _).bind fun _ => ?_
  refine readOnly_ite (readOnly_pure _) ?_
  exact (readOnly_hget _ _).bind fun _ => (readOnly_hget _ _).bind fun _ =>
    (readOnly_hget _ _).bind fun _ => readOnly_pure _

theorem quarantineMessage_failsClean (m group reasonCode : String) :
    (quarantineMessageScript now m group reasonCode).FailsClean db := by
  refine (readOnly_typeOf _).bind_failsClean fun streamType _ => ?_
  refine (readOnly_typeOf _).bind_failsClean fun quarantineType _ => ?_
  refine failsClean_ite (fun _ => failsClean_fail _) fun _ => ?_
  refine failsClean_ite (fun _ => failsClean_fail _) fun _ => ?_
  refine (readOnly_xpending _ _ _).bind_failsClean fun pending hlist => ?_
  refine (readOnly_xrange _ _).bind_failsClean fun message _ => ?_
  split
  · split
    · next e _ =>
      refine (readOnly_safeToQuarantine e m).bind_failsClean fun safe hsafe => ?_
      refine quarantineWrites_failsClean hlist reasonCode (some e) safe ?_
      intro e' he hyes
      obtain rfl := Option.some.inj he
      exact hash_of_safeToQuarantine (hyes ▸ hsafe)
    · exact quarantineWrites_failsClean hlist reasonCode none false (by simp)
  · exact failsClean_fail _

theorem deadLetterWrites_failsClean {m group id : String} {f : Hash}
    (hlist : xpending .events group m db = (.ok [id], db))
    (hkey : db k = some (.hash f)) (hk : k ≠ .events ∧ k ≠ .deadLetter ∧
      k ≠ .retries) (hz : HoldsZSet (db .retries) (retrySet db))
    (storedId errorClass attemptCount : String) (fields : Fields) :
    (deadLetterWrites now k storedId m group errorClass attemptCount
      fields).FailsClean db := by
  refine (failsClean_ite (fun _ => failsClean_xadd _ _ _) fun _ =>
    failsClean_fail _).bind_succeeds fun added d happended => ?_
  have hrun := xadd_of_xaddUnpacked happended
  obtain ⟨st, hack⟩ := xack_after_xadd (by simp) hlist hrun
  obtain ⟨st', rfl, -⟩ := xadd_ok hrun
  refine succeeds_bind hack ?_
  simp only [ne_eq, not_true_eq_false, if_false]
  have hhash := hset_run (k := k) (h := f) (d := Function.update
    (Function.update db .deadLetter (some (.stream st'))) .events
    (some (.stream st))) (by simpa [hk] using hkey)
  refine succeeds_bind (hhash _) ?_
  obtain ⟨v, hzrem, -⟩ := zrem_run (z := retrySet db) (d := Function.update
    (Function.update (Function.update db .deadLetter (some (.stream st')))
      .events (some (.stream st))) k (some (.hash (Hash.setAll f
        [("status", EventStatus.deadLetter.value),
          ("last_error_class", errorClass),
          ("dead_letter_stream_id", added)]))))
    (by simpa [Ne.symm hk.2.2] using hz) storedId
  exact succeeds_bind hzrem (succeeds_pure _)

theorem moveToDeadLetter_failsClean (e : UUID) (m group errorClass : String) :
    (moveToDeadLetterScript now e m group errorClass).FailsClean db := by
  refine (readOnly_typeOf _).bind_failsClean fun statusType hstatus => ?_
  refine (readOnly_typeOf _).bind_failsClean fun streamType _ => ?_
  refine (readOnly_typeOf _).bind_failsClean fun deadLetterType _ => ?_
  refine (readOnly_typeOf _).bind_failsClean fun retryType hretry => ?_
  refine failsClean_ite (fun _ => failsClean_fail _) fun hhash => ?_
  refine failsClean_ite (fun _ => failsClean_fail _) fun _ => ?_
  refine failsClean_ite (fun _ => failsClean_fail _) fun _ => ?_
  refine failsClean_ite (fun _ => failsClean_fail _) fun hkind => ?_
  obtain ⟨f, hkey⟩ := hash_of_typeOf (not_not.mp hhash ▸ hstatus)
  have hz := holdsZSet_of_typeOf hretry hkind
  refine (readOnly_hget _ _).bind_failsClean fun streamId _ => ?_
  refine failsClean_ite (fun _ => failsClean_fail _) fun _ => ?_
  refine (readOnly_hget _ _).bind_failsClean fun status _ => ?_
  refine failsClean_ite (fun _ => failsClean_fail _) fun _ => ?_
  refine (readOnly_hget _ _).bind_failsClean fun storedId _ => ?_
  refine (readOnly_hget _ _).bind_failsClean fun attemptCount _ => ?_
  split
  · refine failsClean_ite (fun _ => failsClean_fail _) fun _ => ?_
    refine (readOnly_xpending _ _ _).bind_failsClean fun pending hlist => ?_
    refine (readOnly_xrange _ _).bind_failsClean fun message _ => ?_
    split
    · exact failsClean_ite (fun _ => failsClean_fail _) fun _ =>
        deadLetterWrites_failsClean hlist hkey (by simp) hz _ _ _ _
    · exact failsClean_fail _
  · exact failsClean_fail _

end Scripts

section Start

/-- `_START_DELIVERY_SCRIPT` writes the status and cannot count the attempt:
the counter is no integer, or it is the greatest one. -/
def Uncounted (db : Store) (e : UUID) (m : String) : Prop :=
  fieldAt db (.event e.text) "stream_id" = some m ∧
  fieldAt db (.event e.text) "status" ≠ some EventStatus.delivering.value ∧
  ∃ text, fieldAt db (.event e.text) "attempt_count" = some text ∧
    ∀ n, string2ll text = some n → int64Bound ≤ n + 1

/-- On a hash that names the message, a start writes the status and counts the
attempt if it can. -/
theorem countDelivery_named {e : UUID} {m : String} {f : Hash}
    (hkey : db (.event e.text) = some (.hash f))
    (hnames : f.lookup "stream_id" = some m) :
    countDelivery e m db = hincrby (.event e.text) "attempt_count" 1
      (Function.update db (.event e.text) (some (.hash
        (f.insert "status" EventStatus.delivering.value)))) := by
  rw [countDelivery, bind_ok (hget_run hkey _), if_neg (by simp [hnames]),
    bind_ok (hset_run hkey _)]
  rfl

/-- A hash that does not name the message is left alone. -/
theorem countDelivery_unnamed {e : UUID} {m : String}
    (hnames : fieldAt db (.event e.text) "stream_id" ≠ some m) :
    (countDelivery e m).FailsClean db := by
  refine (readOnly_hget _ _).bind_failsClean fun streamId hget => ?_
  refine failsClean_ite (fun _ => failsClean_fail _) fun hsame => ?_
  obtain ⟨f, hkey, hfield⟩ := hash_of_hget (not_not.mp hsame ▸ hget)
  rw [fieldAt, hkey] at hnames
  exact absurd hfield hnames

/-- `HINCRBY` fails without a write. -/
theorem hincrby_error {h : Hash} (hkey : db k = some (.hash h))
    {field message : String}
    (herror : (hincrby k field 1 db).1 = .error message) :
    (hincrby k field 1 db).2 = db := by
  have hread : readHash k db = (.ok (some h), db) := by rw [readHash, hkey]
  rw [hincrby, bind_ok hread] at herror ⊢
  dsimp only [Option.getD_some] at herror ⊢
  cases hfield : h.lookup field with
  | none => simp [hfield, bind_apply, put] at herror
  | some text =>
      cases hll : string2ll text with
      | none => simp [hll]
      | some n =>
          by_cases hroom : -int64Bound ≤ n + 1 ∧ n + 1 < int64Bound
          · simp [hfield, hll, hroom, bind_apply, put] at herror
          · simp [hll, hroom]

theorem countDelivery_unchanged_iff (e : UUID) (m : String) (db : Store) :
    (∀ message, (countDelivery e m db).1 = .error message →
      SameContents db (countDelivery e m db).2) ↔ ¬Uncounted db e m := by
  by_cases hnames : fieldAt db (.event e.text) "stream_id" = some m
  · obtain ⟨f, hkey⟩ : ∃ f, db (.event e.text) = some (.hash f) := by
      rw [fieldAt] at hnames
      cases hv : db (.event e.text) with
      | none => simp [hv] at hnames
      | some v => cases v <;> simp [hv] at hnames ⊢
    have hfield : ∀ field, fieldAt db (.event e.text) field =
        f.lookup field := fun field => by rw [fieldAt, hkey]
    have hrun := countDelivery_named hkey (hfield _ ▸ hnames)
    have hcount := hincrby_ok_iff "attempt_count"
      (d := Function.update db (.event e.text) (some (.hash
        (f.insert "status" EventStatus.delivering.value))))
      (Function.update_self ..)
    rw [AList.lookup_insert_ne (by decide)] at hcount
    rw [Uncounted, hfield, hfield, hfield, hrun]
    rw [hfield] at hnames
    cases hresult : (hincrby (.event e.text) "attempt_count" 1
        (Function.update db (.event e.text) (some (.hash
          (f.insert "status" EventStatus.delivering.value))))).1 with
    | ok n =>
        have hroom := hcount.mp ⟨n, hresult⟩
        refine iff_of_true (fun message hmessage => ?_) ?_
        · cases hmessage
        · rintro ⟨-, -, text, htext, hfull⟩
          obtain ⟨value, hvalue, hlt⟩ := hroom text htext
          exact absurd (hfull value hvalue) (not_le.mpr hlt)
    | error message =>
        have hfull : ∃ text, f.lookup "attempt_count" = some text ∧
            ∀ n, string2ll text = some n → int64Bound ≤ n + 1 := by
          by_contra hnone
          push Not at hnone
          obtain ⟨n, hn⟩ := hcount.mpr hnone
          rw [hn] at hresult
          cases hresult
        rw [hincrby_error (Function.update_self ..) hresult,
          sameContents_insert_iff hkey]
        simp [hnames, hfull]
  · refine ⟨fun _ h => hnames h.1, fun _ message hmessage => ?_⟩
    rw [countDelivery_unnamed hnames message hmessage]
    exact SameContents.refl db

theorem startDelivery_unchanged_iff (e : UUID) (m : String) (db : Store) :
    (∀ message, (startDeliveryScript e m db).1 = .error message →
      SameContents db (startDeliveryScript e m db).2) ↔ ¬Uncounted db e m := by
  rw [← countDelivery_unchanged_iff, startDeliveryScript_eq]
  cases (countDelivery e m db).1 <;> simp [Except.map]

end Start

/-- Every call but the start of a delivery fails without a write. -/
theorem call_failsClean {call : RedisCall}
    (hcall : ∀ e m, call ≠ .startDelivery e m) (now : UInt64) (db : Store) :
    (call.script now).FailsClean db := by
  cases call with
  | startDelivery e m => exact absurd rfl (hcall e m)
  | enqueue => exact enqueue_failsClean _ _ _ _
  | idempotentEnqueue => exact idempotentEnqueue_failsClean _ _ _ _ _ _
  | completeDelivery => exact completeDelivery_failsClean _ _ _
  | scheduleRetry => exact scheduleRetry_failsClean _ _ _ _
  | releaseDueRetry => exact releaseDueRetry_failsClean _ _
  | claimStalePending => exact claimStalePending_failsClean _ _ _
  | quarantineMessage => exact quarantineMessage_failsClean _ _ _
  | moveToDeadLetter => exact moveToDeadLetter_failsClean _ _ _ _
  | xgroupCreate => exact failsClean_xgroupCreate _ _
  | xreadgroup => exact failsClean_xreadgroup _ _ _ _
  | hgetall => exact (readOnly_hgetall _).failsClean
  | xrange m => exact (readOnly_xrange _ m).failsClean
  | existsStream => exact fun _ _ => rfl
  | xinfoGroups => exact (readOnly_xinfoGroups _).failsClean
  | xlen => exact (readOnly_xlen _).failsClean
  | xrangeFirst => exact (readOnly_xrangeFirst _).failsClean
  | xpendingFirst group => exact (readOnly_xpendingFirst _ group).failsClean
  | xrangeAfter m => exact (readOnly_xrangeAfter _ m).failsClean

theorem RedisCall.evaluated_eq {call : RedisCall}
    (hcall : ∀ e m, call ≠ .startDelivery e m) {now : UInt64} :
    call.evaluated now = call.script now := by
  cases call with
  | startDelivery e m => exact absurd rfl (hcall e m)
  | _ => rfl

/-- Where a failed call leaves a write behind. -/
def RedisCall.LeavesWrite (db : Store) : RedisCall → Prop
  | .startDelivery e m => Uncounted db e m
  | _ => False

/-- A call that fails leaves every key as it was, except for the start of a
delivery whose attempt cannot be counted. -/
theorem failed_call_unchanged_iff (call : RedisCall) (now : UInt64)
    (db : Store) :
    (∀ message, (call.evaluated now db).1 = .error message →
      SameContents db (call.evaluated now db).2) ↔ ¬call.LeavesWrite db := by
  by_cases hcall : ∃ e m, call = .startDelivery e m
  · obtain ⟨e, m, rfl⟩ := hcall
    exact startDelivery_unchanged_iff e m db
  · have hother : ∀ e m, call ≠ .startDelivery e m :=
      fun e m h => hcall ⟨e, m, h⟩
    refine iff_of_true (fun message hmessage => ?_) ?_
    · rw [RedisCall.evaluated_eq hother] at hmessage ⊢
      rw [call_failsClean hother now db message hmessage]
      exact SameContents.refl db
    · cases call with
      | startDelivery e m => exact absurd rfl (hother e m)
      | _ => exact id

/-- The status of an event whose counter holds no number becomes `delivering`
although the start fails. -/
theorem failed_call_leaves_write :
    ¬∀ (call : RedisCall) (now : UInt64) (db : Store) (message : String),
      (call.evaluated now db).1 = .error message →
      SameContents db (call.evaluated now db).2 := by
  intro hunchanged
  let e := UUID.ofNat 1
  let f : Hash := ((AList.singleton "stream_id" "1000-0").insert
    "attempt_count" "one").insert "status" EventStatus.queued.value
  let db : Store := fun key => if key = .event e.text then some (.hash f) else none
  have hkey : db (.event e.text) = some (.hash f) := if_pos rfl
  refine (startDelivery_unchanged_iff e "1000-0" db).mp
    (hunchanged (.startDelivery e "1000-0") 2000 db) ?_
  refine ⟨?_, ?_, "one", ?_, ?_⟩
  · rw [fieldAt, hkey]
    rfl
  · rw [fieldAt, hkey]
    decide
  · rw [fieldAt, hkey]
    rfl
  · have hnone : string2ll "one" = none := by decide
    simp [hnone]

end Hooklane
