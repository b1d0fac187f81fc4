import Hooklane.Queue.Recovery
import Hooklane.Queue.Simulation

/-!
# Claiming a stale message on arbitrary data

The claim script decides by the raw text of the first `event_id` field, the
worker by the id that it parses from the last one.  The lemmas here say what
either of them sees in a message with any content.
-/

namespace Hooklane

open Redis Support ProgE

/-- The claim script hands the message out for delivery. -/
def Deliverable (db : Store) (fields : Fields) (m : String) : Prop :=
  ∃ text, fieldValue fields "event_id" = some text ∧ isUuid text = true ∧
    recordField db text "event_id" = some text ∧
    recordField db text "stream_id" = some m ∧
    (recordField db text "status" = some EventStatus.queued.value ∨
      recordField db text "status" = some EventStatus.delivering.value)

/-- The message was acknowledged, and the quarantine stream gained one entry,
which names it. -/
structure Quarantined (group : String) (id : StreamId) (db db' : Store) :
    Prop where
  acknowledged : pendingEntry db' group id = none
  recorded : ∃ newId fields, (streamAt db' .quarantine).entries =
      (streamAt db .quarantine).entries ++ [⟨newId, fields⟩] ∧
    fieldValue fields "source_stream_id" = some id.text

section Scripts

variable {db : Store} {group consumer : String} {minIdle : ℕ} {st q : Stream}
  {g : Group} {entry : Entry} {m : String} {now : UInt64}

/-- The verdict of the claim script on a message with any content. -/
theorem pendingDisposition_cases (db : Store) (fields : Fields) (m : String) :
    ∃ disposition, pendingDisposition fields m db = (.ok disposition, db) ∧
      (disposition = .delivery ↔ Deliverable db fields m) := by
  cases htext : fieldValue fields "event_id" with
  | none =>
      refine ⟨.invariantViolation, by simp [pendingDisposition, htext], ?_⟩
      simp [Deliverable, htext]
  | some text =>
      by_cases huuid : isUuid text = true
      · rcases hash_or_fieldless db text with ⟨h, hkey⟩ | ⟨hnone, k, hk, htype⟩
        · have htype := typeOf_run _ hkey
          have hfield := recordField_hash hkey
          by_cases hids : h.lookup "event_id" = some text ∧
              h.lookup "stream_id" = some m
          · by_cases hdue : h.lookup "status" =
                some EventStatus.retryScheduled.value
            · refine ⟨.retryScheduled, ?_, ?_⟩
              · simp [pendingDisposition, htext, Script.bind_apply, huuid,
                  htype, Value.kind, hget_run hkey, hids.1, hids.2, hdue]
              · simp [Deliverable, htext, hfield, hdue]
            · by_cases hready : h.lookup "status" =
                  some EventStatus.queued.value ∨
                h.lookup "status" = some EventStatus.delivering.value
              · refine ⟨.delivery, ?_, ?_⟩
                · simp [pendingDisposition, htext, Script.bind_apply, huuid,
                    htype, Value.kind, hget_run hkey, hids.1, hids.2, hdue,
                    hready]
                · simp [Deliverable, htext, huuid, hfield, hids.1, hids.2,
                    hready]
              · refine ⟨.invariantViolation, ?_, ?_⟩
                · simp [pendingDisposition, htext, Script.bind_apply, huuid,
                    htype, Value.kind, hget_run hkey, hids.1, hids.2, hdue,
                    hready]
                · simp [Deliverable, htext, hfield, hready]
          · refine ⟨.invariantViolation, ?_, ?_⟩
            · have hor : h.lookup "event_id" ≠ some text ∨
                  h.lookup "stream_id" ≠ some m := not_and_or.mp hids
              rcases hor with hor | hor <;>
                simp [pendingDisposition, htext, Script.bind_apply, huuid,
                  htype, Value.kind, hget_run hkey, hor]
            · simp only [Deliverable, htext, reduceCtorEq, false_iff]
              rintro ⟨_, ⟨⟩, -, hid, hstream, -⟩
              rw [hfield] at hid hstream
              exact hids ⟨hid, hstream⟩
        · refine ⟨.invariantViolation, ?_, ?_⟩
          · simp [pendingDisposition, htext, Script.bind_apply, huuid, htype,
              hk]
          · simp [Deliverable, htext, hnone]
      · refine ⟨.invariantViolation, ?_, ?_⟩
        · simp [pendingDisposition, htext, huuid]
        · simp [Deliverable, htext, huuid]

/-- The scan claims nothing, or the first pending message that is claimable,
and says what `pending_disposition` said of it. -/
theorem claimFirst_cases (hevents : db .events = some (.stream st))
    (hg : st.groups.lookup group = some g) (ids : List StreamId)
    (hids : ∀ id ∈ ids, id ∈ g.pending) :
    claimFirst now group consumer minIdle (ids.map StreamId.text) db =
      (.ok none, db) ∨
    ∃ entry ∈ st.entries, entry.id ∈ g.pending ∧ ∃ held disposition,
      (disposition = .delivery ↔
        Deliverable db entry.fields entry.id.text) ∧
      claimFirst now group consumer minIdle (ids.map StreamId.text) db =
        (.ok (some (entry.id.text, disposition)), Function.update db .events
          (some (.stream (st.setGroup group
            (g.reassign entry.id consumer now held))))) := by
  obtain rfl : streamAt db .events = st := streamAt_eq (Or.inr hevents)
  induction ids with
  | nil => exact Or.inl rfl
  | cons id rest ih =>
      have hrest := ih fun other hother =>
        hids other (List.mem_cons_of_mem _ hother)
      have hpending := hids id List.mem_cons_self
      have hrange := xrange_run hevents id
      cases hfind : (streamAt db .events).find id with
      | none =>
          rw [hfind] at hrange
          simpa [claimFirst, Script.bind_apply, hrange] using hrest
      | some entry =>
          obtain ⟨hentry, rfl⟩ := Stream.mem_of_find hfind
          rw [hfind] at hrange
          obtain ⟨disposition, hrun, hdelivery⟩ :=
            pendingDisposition_cases db entry.fields entry.id.text
          by_cases hskip : disposition = .retryScheduled
          · simpa [claimFirst, Script.bind_apply, hrange, hrun, hskip]
              using hrest
          · obtain ⟨held, hheld⟩ := Option.isSome_iff_exists.mp
              (AList.lookup_isSome.mpr hpending)
            have hclaim :=
              xclaim_run hevents hg hentry hheld now consumer minIdle
            split at hclaim
            · refine Or.inr ⟨entry, hentry, hpending, held, disposition,
                hdelivery, ?_⟩
              simp [claimFirst, Script.bind_apply, hrange, hrun, hskip, hclaim]
            · simpa [claimFirst, Script.bind_apply, hrange, hrun, hskip, hclaim]
                using hrest

/-- What a claim of the message `m` did. -/
theorem claimStalePending_cases {disposition : Disposition}
    (h : (claimStalePendingScript now group consumer minIdle db).1 =
      .ok (some (m, disposition))) :
    ∃ st g entry held, db .events = some (.stream st) ∧
      st.groups.lookup group = some g ∧ entry ∈ st.entries ∧
      entry.id.text = m ∧ entry.id ∈ g.pending ∧
      (disposition = .delivery ↔ Deliverable db entry.fields m) ∧
      (claimStalePendingScript now group consumer minIdle db).2 =
        Function.update db .events (some (.stream (st.setGroup group
          (g.reassign entry.id consumer now held)))) := by
  by_cases hstream : ∃ st, db .events = some (.stream st)
  · obtain ⟨st, hevents⟩ := hstream
    have htype := typeOf_run _ hevents
    cases hg : st.groups.lookup group with
    | none =>
        have hrun : claimStalePendingScript now group consumer minIdle db =
            (.error noGroup, db) := by
          simp [claimStalePendingScript, Script.bind_apply, htype, Value.kind,
            xpendingIdle, readGroup_absent (Or.inr hevents) hg]
        rw [hrun] at h
        cases h
    | some g =>
        have hrun : claimStalePendingScript now group consumer minIdle db =
            claimFirst now group consumer minIdle
              ((g.idlePending now minIdle 100).map StreamId.text) db := by
          simp [claimStalePendingScript, Script.bind_apply, htype, Value.kind,
            xpendingIdle, readGroup_run hevents hg]
        rw [hrun] at h ⊢
        rcases claimFirst_cases hevents hg (g.idlePending now minIdle 100)
          (fun id hid => Group.mem_of_mem_idlePending hid) with
          hnothing | ⟨entry, hentry, hpending, held, disposition', hdelivery,
            hclaim⟩
        · rw [hnothing] at h
          cases h
        · rw [hclaim] at h ⊢
          obtain ⟨rfl, rfl⟩ :=
            Prod.mk.inj (Option.some.inj (Except.ok.inj h))
          exact ⟨st, g, entry, held, hevents, hg, hentry, rfl, hpending,
            hdelivery, rfl⟩
  · have hrun : ∃ message, claimStalePendingScript now group consumer minIdle
        db = (.error message, db) := by
      cases hv : db .events with
      | none =>
          exact ⟨_, by simp [claimStalePendingScript, Script.bind_apply,
            typeOf_absent hv]; rfl⟩
      | some v =>
          cases v with
          | stream st => exact absurd ⟨st, hv⟩ hstream
          | string | list | set | hash | zset =>
              exact ⟨_, by simp [claimStalePendingScript, Script.bind_apply,
                typeOf_run _ hv, Value.kind]; rfl⟩
    obtain ⟨message, hrun⟩ := hrun
    rw [hrun] at h
    cases h

/-- The `safe_status` test of the quarantine script never fails, and passes
only on a hash. -/
theorem safeToQuarantine_cases (db : Store) (text m : String) :
    ∃ safe, safeToQuarantine text m db = (.ok safe, db) ∧
      (safe = true → ∃ h, db (.event text) = some (.hash h)) := by
  rcases hash_or_fieldless db text with ⟨h, hkey⟩ | ⟨-, k, hk, htype⟩
  · exact ⟨_, by simp [safeToQuarantine, Script.bind_apply, typeOf_run _ hkey,
      Value.kind, hget_run hkey]; rfl, fun _ => ⟨h, hkey⟩⟩
  · exact ⟨false, by simp [safeToQuarantine, Script.bind_apply, htype, hk],
      fun h => absurd h Bool.false_ne_true⟩

/-- The writes of the quarantine script on a pending message. -/
theorem quarantineWrites_cases (hevents : db .events = some (.stream st))
    (hg : st.groups.lookup group = some g) {id : StreamId}
    (hpending : id ∈ g.pending) (hq : HoldsStream (db .quarantine) q)
    (now : UInt64) (reasonCode : String) (eventId : Option String)
    (safe : Bool) (hsafe : ∀ text, eventId = some text → safe = true →
      ∃ h, db (.event text) = some (.hash h)) :
    q.lastId = StreamId.greatest ∧
      quarantineWrites now id.text group reasonCode eventId safe db =
        (.error exhausted, db) ∨
    q.lastId ≠ StreamId.greatest ∧ ∃ text db',
      quarantineWrites now id.text group reasonCode eventId safe db =
        (.ok text, db') ∧ Quarantined group id db db' := by
  let fields : Fields :=
    [("source_stream_id", id.text), ("reason_code", reasonCode)] ++
      (eventId.map fun id => ("event_id", id)).toList
  rcases xadd_run hq now fields with
    ⟨hnone, hfull⟩ | ⟨newId, added, happend, hxadd⟩
  · refine Or.inl ⟨Stream.append_eq_none.mp hnone, ?_⟩
    rw [quarantineWrites, Script.bind_error hfull]
  · right
    have hroom : q.lastId ≠ StreamId.greatest := by
      intro hlast
      rw [Stream.append_eq_none.mpr hlast] at happend
      cases happend
    have hack := xack_run (k := .events)
      (d := Function.update db .quarantine (some (.stream added)))
      (by simpa using hevents) hg id
    rw [if_pos hpending] at hack
    have hdone : ∀ db', db' .events = some (.stream
        (st.setGroup group (g.ack id))) →
        db' .quarantine = some (.stream added) →
        Quarantined group id db db' := by
      intro db' hevents' hq'
      refine ⟨?_, newId, fields, ?_, ?_⟩
      · rw [pendingEntry, streamAt_eq (Or.inr hevents'),
          Stream.lookup_setGroup, Option.bind_some]
        exact AList.lookup_erase _ _
      · obtain ⟨-, hentries, -, -⟩ := Stream.append_eq_some happend
        rw [streamAt_eq (Or.inr hq'), streamAt_eq hq, hentries]
      · simp [fields, fieldValue]
    refine ⟨hroom, newId.text, ?_⟩
    rw [quarantineWrites, Script.bind_ok hxadd, Script.bind_ok hack]
    simp only [ne_eq, not_true_eq_false, if_false]
    cases eventId with
    | none => exact ⟨_, rfl, hdone _ (by simp) (by simp)⟩
    | some text =>
        cases safe with
        | false => exact ⟨_, rfl, hdone _ (by simp) (by simp)⟩
        | true =>
            obtain ⟨h, hkey⟩ := hsafe text rfl rfl
            dsimp only
            rw [Script.bind_ok (hset_run (h := h) (by simpa using hkey) _)]
            exact ⟨_, rfl, hdone _ (by simp) (by simp)⟩

/-- The quarantine script on a pending message with any content: it records
and acknowledges the message, unless the quarantine stream is full. -/
theorem quarantineMessage_cases (hevents : db .events = some (.stream st))
    (hg : st.groups.lookup group = some g) (hentry : entry ∈ st.entries)
    (hpending : entry.id ∈ g.pending)
    (hq : HoldsStream (db .quarantine) q) (now : UInt64)
    (reasonCode : String) :
    q.lastId = StreamId.greatest ∧
      quarantineMessageScript now entry.id.text group reasonCode db =
        (.error exhausted, db) ∨
    q.lastId ≠ StreamId.greatest ∧ ∃ text db',
      quarantineMessageScript now entry.id.text group reasonCode db =
        (.ok text, db') ∧ Quarantined group entry.id db db' := by
  have htype := typeOf_run _ hevents
  have hqtype := holdsStream_typeOf hq
  have hpend := xpending_run hevents hg entry.id
  rw [if_pos hpending] at hpend
  have hrange := xrange_run hevents entry.id
  rw [Stream.find_eq_some_of_mem hentry] at hrange
  cases htext : (fieldValue entry.fields "event_id").filter isUuid with
  | none =>
      have hrun : quarantineMessageScript now entry.id.text group reasonCode
          db = quarantineWrites now entry.id.text group reasonCode none false
            db := by
        rcases hqtype with hqtype | hqtype <;>
          simp [quarantineMessageScript, Script.bind_apply, htype, hqtype,
            Value.kind, hpend, hrange, htext]
      rw [hrun]
      refine quarantineWrites_cases hevents hg hpending hq now reasonCode none
        false ?_
      rintro _ ⟨⟩
  | some text =>
      obtain ⟨safe, hsafe, hhash⟩ :=
        safeToQuarantine_cases db text entry.id.text
      have hrun : quarantineMessageScript now entry.id.text group reasonCode
          db = quarantineWrites now entry.id.text group reasonCode (some text)
            safe db := by
        rcases hqtype with hqtype | hqtype <;>
          simp [quarantineMessageScript, Script.bind_apply, htype, hqtype,
            Value.kind, hpend, hrange, htext, hsafe]
      rw [hrun]
      refine quarantineWrites_cases hevents hg hpending hq now reasonCode
        (some text) safe ?_
      rintro _ ⟨⟩ htrue
      exact hhash htrue

end Scripts

section Methods

variable {w : World} {store : RedisEventStore} {group consumer : String}
  {minIdle : ℕ} {st q : Stream} {g : Group} {entry : Entry} {m : String}

/-- The steps from `w` to `w'` begin with the answer that the claim script
gives at server time `now`. -/
def Begins (group consumer : String) (minIdle : ℕ) (now : UInt64)
    (w w' : World) : Prop :=
  ∃ rest, w'.history = w.history ++
    .executed w.store (.claimStalePending group consumer minIdle)
      (claimStalePendingScript now group consumer minIdle w.store).1 :: rest

/-- In the steps from `w` to `w'`, the claim script claimed `m` first. -/
def Claims (group consumer : String) (minIdle : ℕ) (m : String)
    (w w' : World) : Prop :=
  ∃ disposition rest, w'.history = w.history ++
    .executed w.store (.claimStalePending group consumer minIdle)
      (.ok (some (m, disposition))) :: rest

/-- A claimed message that is not for delivery, or cannot be parsed. -/
def Rejected (lib : Stdlib) (db : Store) (entry : Entry) : Prop :=
  Deliverable db entry.fields entry.id.text →
    RedisEventStore.parseClaimed lib entry.id.text entry.fields =
      .error .malformed

/-- How the claim of a message ends: what the method returns, and what the
keyspace holds then. -/
inductive ClaimEnd (lib : Stdlib) (group : String) (db : Store)
    (entry : Entry) : Except Raised (Option QueuedEvent) → Store → Prop where
  | returned {db' : Store} (queuedEvent : QueuedEvent)
      (deliverable : Deliverable db entry.fields entry.id.text)
      (parsed : RedisEventStore.parseMessage lib entry.id.text entry.fields =
        some queuedEvent)
      (records : ∀ m, db' (.event m) = db (.event m))
      (pending : pendingEntry db' group entry.id ≠ none) :
      ClaimEnd lib group db entry (.ok (some queuedEvent)) db'
  | quarantined {db' : Store}
      (bad : Rejected lib db entry)
      (room : (streamAt db .quarantine).lastId ≠ StreamId.greatest)
      (done : Quarantined group entry.id db db') :
      ClaimEnd lib group db entry (.ok none) db'
  | refused {db' : Store}
      (bad : Rejected lib db entry)
      (full : (streamAt db .quarantine).lastId = StreamId.greatest)
      (pending : pendingEntry db' group entry.id ≠ none) :
      ClaimEnd lib group db entry (.error .eventStoreUnavailable) db'
  | raised {db' : Store}
      (deliverable : Deliverable db entry.fields entry.id.text)
      (nested : RedisEventStore.parseClaimed lib entry.id.text entry.fields =
        .error .recursion)
      (pending : pendingEntry db' group entry.id ≠ none) :
      ClaimEnd lib group db entry (.error .recursionError) db'

theorem pendingEntry_of_mem {db : Store}
    (hevents : db .events = some (.stream st))
    (hg : st.groups.lookup group = some g) {id : StreamId}
    (hpending : id ∈ g.pending) : pendingEntry db group id ≠ none := by
  rw [pendingEntry, streamAt_eq (Or.inr hevents), hg, Option.bind_some,
    ← Option.isSome_iff_ne_none, AList.lookup_isSome]
  exact hpending

/-- The quarantine of a pending message, run alone. -/
theorem alone_quarantine {reasonCode : String}
    (hreason : reasonCodes.contains reasonCode)
    (hevents : w.store .events = some (.stream st))
    (hg : st.groups.lookup group = some g) (hentry : entry ∈ st.entries)
    (hpending : entry.id ∈ g.pending)
    (hq : HoldsStream (w.store .quarantine) q) :
    AloneEnds (store.quarantineMalformedMessage entry.id.text group reasonCode)
      (fun r w' => w.history <+: w'.history ∧
        (q.lastId ≠ StreamId.greatest ∧ r = .ok () ∧
            Quarantined group entry.id w.store w'.store ∨
          q.lastId = StreamId.greatest ∧
            r = .error .eventStoreUnavailable ∧ w'.store = w.store)) w := by
  have hcall : AloneEnds (store.attempt "quarantine_message" none
      (.quarantineMessage entry.id.text group reasonCode)) (fun r w' =>
        w.history <+: w'.history ∧
        (q.lastId ≠ StreamId.greatest ∧ (∃ text, r = .ok text) ∧
            Quarantined group entry.id w.store w'.store ∨
          q.lastId = StreamId.greatest ∧
            r = .error .eventStoreUnavailable ∧ w'.store = w.store)) w := by
    refine alone_attempt (by decide) ?_ ?_ <;> intro now value hvalue <;>
      refine ⟨List.prefix_append _ _, ?_⟩ <;>
      rcases quarantineMessage_cases hevents hg hentry hpending hq now
        reasonCode with ⟨hfull, hrun⟩ | ⟨hroom, text, db', hrun, hdone⟩ <;>
      simp only [RedisCall.script, World.run, hrun] at hvalue ⊢
    · cases hvalue
    · exact Or.inl ⟨hroom, ⟨value, rfl⟩, hdone⟩
    · exact Or.inr ⟨hfull, trivial, trivial⟩
    · cases hvalue
  refine hcall.bind ?_ fun raised w' h => ?_
  · rintro text w' ⟨hpre, ⟨hroom, -, hdone⟩ | ⟨-, h, -⟩⟩
    · refine (alone_recordQueueQuarantine hreason).mono ?_
      rintro _ _ ⟨rfl, rfl⟩
      exact ⟨hpre, Or.inl ⟨hroom, rfl, hdone⟩⟩
    · cases h
  · obtain ⟨hpre, ⟨-, ⟨_, h⟩, -⟩ | ⟨hfull, h, hsame⟩⟩ := h
    · cases h
    · obtain rfl := Except.error.inj h
      exact ⟨hpre, Or.inr ⟨hfull, rfl, hsame⟩⟩

/-- A quarantine relates only the events and the quarantine stream. -/
theorem Quarantined.congr {db db₁ db' : Store} {id : StreamId}
    (h : Quarantined group id db₁ db')
    (hq : streamAt db₁ .quarantine = streamAt db .quarantine) :
    Quarantined group id db db' := by
  obtain ⟨hacknowledged, hrecorded⟩ := h
  rw [hq] at hrecorded
  exact ⟨hacknowledged, hrecorded⟩

/-- A claimed message that is not delivered goes to the quarantine. -/
theorem alone_reject {db : Store} {reasonCode : String}
    (hreason : reasonCodes.contains reasonCode)
    (hevents : w.store .events = some (.stream st))
    (hg : st.groups.lookup group = some g) (hentry : entry ∈ st.entries)
    (hpending : entry.id ∈ g.pending)
    (hq : HoldsStream (db .quarantine) (streamAt db .quarantine))
    (hsame : w.store .quarantine = db .quarantine)
    (hbad : Rejected store.lib db entry) :
    AloneEnds (do
      store.quarantineMalformedMessage entry.id.text group reasonCode
      return none) (fun r w' => w.history <+: w'.history ∧
        ClaimEnd store.lib group db entry r w'.store) w := by
  have hquarantine : streamAt w.store .quarantine = streamAt db .quarantine := by
    rw [streamAt, streamAt, hsame]
  refine (alone_quarantine (q := streamAt db .quarantine) hreason hevents hg
    hentry hpending (hsame ▸ hq)).bind ?_ ?_
  · rintro _ w' ⟨hpre, ⟨hroom, -, hdone⟩ | ⟨-, h, -⟩⟩
    · exact alone_pure ⟨hpre, .quarantined hbad hroom
        (hdone.congr hquarantine)⟩
    · cases h
  · rintro raised w' ⟨hpre, ⟨-, h, -⟩ | ⟨hfull, h, hkept⟩⟩
    · cases h
    · obtain rfl := Except.error.inj h
      refine ⟨hpre, .refused hbad hfull ?_⟩
      rw [hkept]
      exact pendingEntry_of_mem hevents hg hpending

/-- Reading back a message of the stream. -/
theorem alone_xrange (hevents : w.store .events = some (.stream st))
    (hentry : entry ∈ st.entries) :
    AloneEnds (store.attempt "claim_pending" none (.xrange entry.id.text))
      (fun r w' => w.history <+: w'.history ∧ w'.store = w.store ∧
        r = .ok [(entry.id.text, entry.fields)]) w := by
  have hrange := xrange_run hevents entry.id
  rw [Stream.find_eq_some_of_mem hentry] at hrange
  refine alone_attempt (by decide) ?_ ?_ <;> intro now value hvalue <;>
    simp only [RedisCall.script, World.run, hrange] at hvalue ⊢
  · exact ⟨List.prefix_append _ _, trivial,
      congrArg _ (Except.ok.inj hvalue).symm⟩
  · cases hvalue

/-- What the method does with a claimed message. -/
theorem alone_claimed {db : Store} {disposition : Disposition}
    (hevents : w.store .events = some (.stream st))
    (hg : st.groups.lookup group = some g) (hentry : entry ∈ st.entries)
    (hpending : entry.id ∈ g.pending)
    (hsame : ∀ key, key ≠ .events → w.store key = db key)
    (hq : HoldsStream (db .quarantine) (streamAt db .quarantine))
    (hdelivery : disposition = .delivery ↔
      Deliverable db entry.fields entry.id.text) :
    AloneEnds (if disposition ≠ .delivery then do
        store.quarantineMalformedMessage entry.id.text group
          "invariant_violation"
        return none
      else
        store.orQuarantine entry.id.text group (RedisEventStore.parseClaimed
          store.lib entry.id.text entry.fields)) (fun r w' =>
        w.history <+: w'.history ∧
          ClaimEnd store.lib group db entry r w'.store) w := by
  split
  · next hbad =>
    exact alone_reject (by decide) hevents hg hentry hpending hq
      (hsame _ nofun) fun h => absurd (hdelivery.mpr h) hbad
  · next hgood =>
    have hdeliverable := hdelivery.mp (not_not.mp hgood)
    cases hparse : RedisEventStore.parseClaimed store.lib entry.id.text
        entry.fields with
    | ok queuedEvent =>
        have hmessage := RedisEventStore.parseClaimed_toOption store.lib
          entry.id.text entry.fields
        rw [hparse] at hmessage
        exact alone_pure ⟨List.prefix_rfl, .returned queuedEvent hdeliverable
          hmessage.symm (fun m => hsame (.event m) nofun)
          (pendingEntry_of_mem hevents hg hpending)⟩
    | error error =>
        cases error with
        | malformed =>
            exact alone_reject (by decide) hevents hg hentry hpending hq
              (hsame _ nofun) fun _ => hparse
        | recursion =>
            exact alone_throw ⟨List.prefix_rfl, .raised hdeliverable hparse
              (pendingEntry_of_mem hevents hg hpending)⟩

/-- The first call of a claim. -/
theorem alone_claimCall : AloneEnds (store.attempt "claim_pending" none
    (.claimStalePending group consumer minIdle)) (fun r w₁ => ∃ now,
      w₁ = w.run (.claimStalePending group consumer minIdle) now ∧
      ((∃ value, r = .ok value ∧ ((RedisCall.claimStalePending group
          consumer minIdle).script now w.store).1 = .ok value) ∨
        ∃ raised message, r = .error raised ∧
          ((RedisCall.claimStalePending group consumer minIdle).script now
            w.store).1 = .error message)) w := by
  refine alone_attempt (by decide) ?_ ?_
  · exact fun now value h => ⟨now, rfl, Or.inl ⟨value, rfl, h⟩⟩
  · exact fun now message h => ⟨now, rfl, Or.inr ⟨_, message, rfl, h⟩⟩

/-- A claim, run alone: it ends in one of three ways for the message that its
script picks. -/
theorem alone_claimStalePending
    (hq : HoldsStream (w.store .quarantine) (streamAt w.store .quarantine)) :
    AloneEnds (store.claimStalePending group consumer minIdle) (fun r w' =>
      ∀ m, Claims group consumer minIdle m w w' →
        ∃ entry ∈ (streamAt w.store .events).entries, entry.id.text = m ∧
          ClaimEnd store.lib group w.store entry r w'.store) w := by
  -- What the first call answers is what `Claims` says of the history.
  have hfirst : ∀ {now result w'} {m : String},
      (w.run (.claimStalePending group consumer minIdle) now).history <+:
        w'.history →
      ((RedisCall.claimStalePending group consumer minIdle).script now
        w.store).1 = result → Claims group consumer minIdle m w w' →
      ∃ disposition, result = .ok (some (m, disposition)) := by
    rintro now result w' m ⟨extra, hextra⟩ rfl ⟨disposition, rest, hrest⟩
    rw [← hextra, World.run, List.append_assoc] at hrest
    have hhead := List.cons.inj (List.append_cancel_left hrest)
    exact ⟨disposition, eq_of_heq (Record.executed.inj hhead.1).2.2⟩
  refine alone_claimCall.bind ?_ ?_
  · rintro answer _ ⟨now, rfl, ⟨_, ⟨⟩, hscript⟩ | ⟨_, _, h, -⟩⟩
    · cases answer with
      | none =>
          refine alone_pure fun m hclaims => ?_
          obtain ⟨disposition, h⟩ := hfirst List.prefix_rfl hscript hclaims
          cases h
      | some claimed =>
          obtain ⟨m', disposition⟩ := claimed
          obtain ⟨st, g, entry, held, hevents, hg, hentry, rfl, hpending,
            hdelivery, hstore⟩ := claimStalePending_cases hscript
          have hstore' : (w.run (.claimStalePending group consumer minIdle)
              now).store = Function.update w.store .events (some (.stream
                (st.setGroup group (g.reassign entry.id consumer now held)))) :=
            hstore
          have hevents' : (w.run (.claimStalePending group consumer minIdle)
              now).store .events = some (.stream (st.setGroup group
                (g.reassign entry.id consumer now held))) := by
            rw [hstore', Function.update_self]
          refine (alone_xrange hevents' hentry).bind ?_ fun _ _ h =>
            nomatch h.2.2
          rintro _ w₂ ⟨hpre, hsame, h⟩
          obtain rfl := Except.ok.inj h
          rw [← hsame] at hevents' hstore'
          refine (alone_claimed hevents'
            (Stream.lookup_setGroup _ _ _) hentry
            ((Stream.mem_reassign hpending _).mpr hpending)
            (fun key hne => by rw [hstore']; simp [hne]) hq hdelivery).mono ?_
          rintro r w' ⟨hpre', hend⟩ m hclaims
          obtain ⟨_, h⟩ := hfirst (hpre.trans hpre') hscript hclaims
          obtain ⟨rfl, -⟩ := Prod.mk.inj (Option.some.inj (Except.ok.inj h))
          refine ⟨entry, ?_, rfl, hend⟩
          rw [streamAt_eq (Or.inr hevents)]
          exact hentry
    · cases h
  · rintro raised _ ⟨now, rfl, ⟨_, h, -⟩ | ⟨_, message, -, hscript⟩⟩ m hclaims
    · cases h
    · obtain ⟨disposition, h⟩ := hfirst List.prefix_rfl hscript hclaims
      cases h

theorem answerable_quarantine {id reasonCode : String} :
    CallsOnly Answerable
      (store.quarantineMalformedMessage id group reasonCode) :=
  callsOnly_bind (callsOnly_attempt (fun _ => trivial) (fun _ => trivial)
    store trivial) fun _ => callsOnly_recordQueueQuarantine (fun _ => trivial)
      (fun _ => trivial) store _

theorem answerable_claimStalePending :
    CallsOnly Answerable (store.claimStalePending group consumer minIdle) := by
  have hattempt : ∀ call, CallsOnly Answerable
      (store.attempt "claim_pending" none call) := fun call =>
    callsOnly_attempt (fun _ => trivial) (fun _ => trivial) store trivial
  refine callsOnly_bind (hattempt _) fun claimed => ?_
  cases claimed with
  | none => exact callsOnly_pure _
  | some claimed =>
      refine callsOnly_bind (hattempt _) fun messages => ?_
      split
      · split
        · exact callsOnly_bind answerable_quarantine fun _ => callsOnly_pure _
        · exact store.callsOnly_orQuarantine answerable_quarantine _
      · exact callsOnly_bind (callsOnly_recordRedisFailure (fun _ => trivial)
          (fun _ => trivial) store _ _) fun _ => callsOnly_throw _

variable (w store group consumer minIdle) in
/-- A claim can run at any server time. -/
theorem exists_begins (now : UInt64) :
    ∃ r w', Prog.Runs AvailableMachine
        (store.claimStalePending group consumer minIdle).run w r w' ∧
      Begins group consumer minIdle now w w' := by
  let call := RedisCall.claimStalePending group consumer minIdle
  have hanswer : AvailableMachine.exec w (.redis call)
      (World.reply call (call.script now w.store).1) (w.run call now) := by
    refine ⟨.answered call now, ?_⟩
    show World.reply call (call.script now w.store).1 ≠ .error .connection
    cases (call.script now w.store).1 <;> exact nofun
  have hanswerable : CallsOnly Answerable
      (store.claimStalePending group consumer minIdle) :=
    answerable_claimStalePending
  obtain ⟨r, w', hrest⟩ := Prog.exists_runs (M := AvailableMachine)
    exists_answer (hanswerable.run.2 (World.reply call (call.script now w.store).1))
    (w.run call now)
  have hpre : (w.run call now).history <+: w'.history :=
    Prog.Runs.invariant (M := AvailableMachine)
      (I := fun t => (w.run call now).history <+: t.history)
      (fun _ _ _ _ hexec hs => hs.trans hexec.1.history) hrest List.prefix_rfl
  obtain ⟨rest, hrest'⟩ := hpre
  refine ⟨r, w', .call hanswer hrest, rest, ?_⟩
  rw [← hrest', World.run, List.append_assoc]
  rfl

end Methods

end Hooklane
