import Hooklane.Queue.Alone
import Hooklane.Queue.Release

/-!
# The retry release on arbitrary data

What `release_due_retry` does when the events stream and the retry schedule
have the right types and everything else is arbitrary: members that are no
event ids, status keys of any type, hashes with any fields, messages with any
content.  A release looks at the first due member only.
-/

namespace Hooklane

open Redis Support ProgE

/-- A field of the hash under a status key. -/
def recordField (db : Store) (m field : String) : Option String :=
  match db (.event m) with
  | some (.hash h) => h.lookup field
  | _ => none

/-- What a group knows about a pending entry of the events stream. -/
def pendingEntry (db : Store) (group : String) (id : StreamId) :
    Option Delivery :=
  ((streamAt db .events).groups.lookup group).bind fun g => g.pending.lookup id

/-- The first of the members with a score of at most `bound`, in the order of
scores and then of members. -/
def FirstDue (z : ZSet) (bound : Score) (m : String) : Prop :=
  ∃ score, z.lookup m = some score ∧ score ≤ bound ∧
    ∀ m' score', z.lookup m' = some score' → score' ≤ bound →
      score < score' ∨ score = score' ∧ m ≤ m'

section FirstDue

variable {z : ZSet} {bound : Score}

/-- The order in which a sorted set lists its members. -/
def memberOrder (a b : (_ : String) × Score) : Prop :=
  a.2 < b.2 ∨ a.2 = b.2 ∧ a.1 ≤ b.1

instance : DecidableRel memberOrder := fun _ _ => instDecidableOr

instance : Std.Total memberOrder where
  total a b := by
    rcases lt_trichotomy a.2 b.2 with h | h | h
    · exact Or.inl (Or.inl h)
    · exact (le_total a.1 b.1).imp (fun hle => Or.inr ⟨h, hle⟩)
        fun hle => Or.inr ⟨h.symm, hle⟩
    · exact Or.inr (Or.inl h)

instance : IsTrans _ memberOrder where
  trans a b c := by
    rintro (h | ⟨h, hle⟩) (h' | ⟨h', hle'⟩)
    · exact Or.inl (h.trans h')
    · exact Or.inl (h' ▸ h)
    · exact Or.inl (h ▸ h')
    · exact Or.inr ⟨h.trans h', hle.trans hle'⟩

theorem upTo_eq : z.upTo bound = ((z.entries.filter fun entry =>
    decide (entry.2 ≤ bound)).insertionSort memberOrder).map Sigma.fst :=
  rfl

theorem firstDue_of_upTo {m : String} {rest : List String}
    (h : z.upTo bound = m :: rest) : FirstDue z bound m := by
  have hsorted := List.pairwise_insertionSort memberOrder
    (z.entries.filter fun entry => decide (entry.2 ≤ bound))
  have hmem : ∀ m' score', z.lookup m' = some score' → score' ≤ bound →
      ⟨m', score'⟩ ∈ (z.entries.filter fun entry =>
        decide (entry.2 ≤ bound)).insertionSort memberOrder := by
    intro m' score' hlookup hle
    exact (List.mem_insertionSort _).mpr (List.mem_filter.mpr
      ⟨AList.mem_lookup_iff.mp hlookup, decide_eq_true hle⟩)
  rw [upTo_eq] at h
  cases hlist : (z.entries.filter fun entry =>
      decide (entry.2 ≤ bound)).insertionSort memberOrder with
  | nil => rw [hlist] at h; cases h
  | cons first tail =>
      rw [hlist] at h hsorted hmem
      obtain ⟨rfl, -⟩ := List.cons.inj h
      have hfirst : first ∈ (z.entries.filter fun entry =>
          decide (entry.2 ≤ bound)).insertionSort memberOrder :=
        hlist ▸ List.mem_cons_self
      obtain ⟨hentry, hle⟩ :=
        List.mem_filter.mp ((List.mem_insertionSort _).mp hfirst)
      have hlookup := AList.mem_lookup_iff.mpr hentry
      refine ⟨first.2, hlookup, of_decide_eq_true hle, ?_⟩
      intro m' score' hlookup' hle'
      rcases List.mem_cons.mp (hmem m' score' hlookup' hle') with rfl | htail
      · exact Or.inr ⟨rfl, le_rfl⟩
      · exact (List.pairwise_cons.mp hsorted).1 _ htail

end FirstDue

section Release

/-- The record of `m` says that its event waits for a retry of the message
named by `text`. -/
structure Waiting (db : Store) (m text : String) : Prop where
  uuid : isUuid m = true
  eventId : recordField db m "event_id" = some m
  status : recordField db m "status" = some EventStatus.retryScheduled.value
  streamId : recordField db m "stream_id" = some text
  wellFormed : isStreamIdText (some text) = true

/-- Entry `entry` is the pending message that a release of `m` requeues. -/
structure Requeueable (group m : String) (db : Store) (entry : Entry) :
    Prop where
  waiting : ∃ text, Waiting db m text ∧ StreamId.parse text = some entry.id
  pending : pendingEntry db group entry.id ≠ none
  mem : entry ∈ (streamAt db .events).entries
  content : fieldValue entry.fields "event_id" = some m

/-- The message of `m` was replaced by a copy of itself at the end of the
stream, and the record names the copy. -/
def Requeued (group m : String) (db db' : Store) : Prop :=
  ∃ entry newId, Requeueable group m db entry ∧
    (streamAt db' .events).entries =
      (streamAt db .events).entries ++ [⟨newId, entry.fields⟩] ∧
    pendingEntry db' group entry.id = none ∧
    recordField db' m "status" = some EventStatus.queued.value ∧
    recordField db' m "stream_id" = some newId.text

/-- The record of `m` showed a waiting event, and only its status and error
class were changed. -/
structure Discarded (m : String) (db db' : Store) : Prop where
  eventId : recordField db m "event_id" = some m
  status : recordField db m "status" = some EventStatus.retryScheduled.value
  attempts : isPositiveDecimal (recordField db m "attempt_count") = true
  streamId : isStreamIdText (recordField db m "stream_id") = true
  hash : ∃ h, db' (.event m) = some (.hash h)
  others : ∀ field, field ≠ "status" → field ≠ "last_error_class" →
    recordField db' m field = recordField db m field

/-- What a release that answers `released` does with the first due member. -/
structure ReleaseOutcome (group m : String) (db db' : Store)
    (released : Bool) : Prop where
  schedule : HoldsZSet (db' .retries) ((retrySet db).erase m)
  records : ∀ other, other ≠ m → db' (.event other) = db (.event other)
  pending : ∀ group' id,
    pendingEntry db' group' id ≠ pendingEntry db group' id →
    released = true ∧ group' = group ∧
      ∃ entry, Requeueable group m db entry ∧ entry.id = id
  requeued : released = true ↔ Requeued group m db db'
  discarded : released = false →
    db' (.event m) = db (.event m) ∨ Discarded m db db'

variable {db : Store} {group m : String} {st : Stream} {g : Group} {z : ZSet}

theorem recordField_hash {h : Hash} (hkey : db (.event m) = some (.hash h))
    (field : String) : recordField db m field = h.lookup field := by
  rw [recordField, hkey]

/-- A status key holds a hash, or there is no record to read. -/
theorem hash_or_fieldless (db : Store) (m : String) :
    (∃ h, db (.event m) = some (.hash h)) ∨
      (∀ field, recordField db m field = none) ∧
        ∃ k, k ≠ Kind.hash ∧ typeOf (.event m) db = (.ok k, db) := by
  cases hv : db (.event m) with
  | none =>
      exact Or.inr ⟨fun field => by rw [recordField, hv], .none, nofun,
        typeOf_absent hv⟩
  | some v =>
      cases v with
      | hash h => exact Or.inl ⟨h, rfl⟩
      | string | list | set | zset | stream =>
          refine Or.inr ⟨fun field => by rw [recordField, hv], _, ?_,
            typeOf_run _ hv⟩
          simp [Value.kind]

/-- `safe_status` on any record. -/
theorem safeToDiscard_cases (db : Store) (m : String) :
    ∃ safe, safeToDiscard m db = (.ok safe, db) ∧
      (safe = true → (∃ h, db (.event m) = some (.hash h)) ∧
        recordField db m "event_id" = some m ∧
        recordField db m "status" = some EventStatus.retryScheduled.value ∧
        isPositiveDecimal (recordField db m "attempt_count") = true ∧
        isStreamIdText (recordField db m "stream_id") = true) := by
  rcases hash_or_fieldless db m with ⟨h, hkey⟩ | ⟨-, k, hk, htype⟩
  · have htype := typeOf_run _ hkey
    by_cases hid : isUuid m = true ∧ h.lookup "event_id" = some m
    · refine ⟨decide (h.lookup "status" =
            some EventStatus.retryScheduled.value) &&
          isPositiveDecimal (h.lookup "attempt_count") &&
          isStreamIdText (h.lookup "stream_id"), ?_, fun hsafe => ?_⟩
      · simp [safeToDiscard, Script.bind_apply, htype, Value.kind,
          hget_run hkey, hid.1, hid.2]
      · simp only [Bool.and_eq_true, decide_eq_true_eq] at hsafe
        simp only [recordField_hash hkey]
        exact ⟨⟨h, hkey⟩, hid.2, hsafe.1.1, hsafe.1.2, hsafe.2⟩
    · refine ⟨false, ?_, fun h => absurd h Bool.false_ne_true⟩
      by_cases huuid : isUuid m = true
      · have hother : h.lookup "event_id" ≠ some m := fun h => hid ⟨huuid, h⟩
        simp [safeToDiscard, Script.bind_apply, htype, Value.kind,
          hget_run hkey, huuid, hother]
      · simp [safeToDiscard, Script.bind_apply, htype, Value.kind, huuid]
  · exact ⟨false, by simp [safeToDiscard, Script.bind_apply, htype, hk],
      fun h => absurd h Bool.false_ne_true⟩

/-- `remove_invalid_record` drops the member, and changes at most the record
of a waiting event. -/
theorem removeInvalidRecord_run (hz : HoldsZSet (db .retries) z) (m : String) :
    ∃ db', removeInvalidRecord m db = (.ok 2, db') ∧
      HoldsZSet (db' .retries) (z.erase m) ∧
      (∀ key, key ≠ .retries → key ≠ .event m → db' key = db key) ∧
      (db' (.event m) = db (.event m) ∨ Discarded m db db') := by
  obtain ⟨safe, hrun, hsafe⟩ := safeToDiscard_cases db m
  cases safe with
  | false =>
      obtain ⟨v, hzrem, hv⟩ := zrem_run hz m
      refine ⟨Function.update db .retries v, ?_, by simpa using hv, ?_, ?_⟩
      · simp [removeInvalidRecord, Script.bind_apply, hrun, hzrem]
      · intro key hne _
        simp [hne]
      · exact Or.inl (by simp)
  | true =>
      obtain ⟨⟨h, hkey⟩, hid, hstatus, hattempts, hstream⟩ := hsafe rfl
      let h' := (h.insert "status" EventStatus.deadLetter.value).insert
        "last_error_class" "invariant_violation"
      obtain ⟨v, hzrem, hv⟩ := zrem_run (z := z)
        (d := Function.update db (.event m) (some (.hash h')))
        (by simpa using hz) m
      have hkey' : Function.update (Function.update db (.event m)
          (some (.hash h'))) .retries v (.event m) = some (.hash h') := by
        simp
      refine ⟨_, ?_, by simpa using hv, ?_, Or.inr ⟨hid, hstatus, hattempts,
        hstream, ⟨h', hkey'⟩, ?_⟩⟩
      · simp [removeInvalidRecord, Script.bind_apply, hrun, hset_run hkey,
          h', hzrem]
      · intro key hne hne'
        simp [hne, hne']
      · intro field hne hne'
        rw [recordField_hash hkey', recordField_hash hkey]
        simp [h', hne, hne']

/-- A record that does not wait for a retry is dropped. -/
theorem releaseMember_dropped (hnot : ∀ text, ¬Waiting db m text)
    (now : UInt64) :
    releaseMember now group m db = removeInvalidRecord m db := by
  rcases hash_or_fieldless db m with ⟨h, hkey⟩ | ⟨-, k, hk, htype⟩
  · have htype := typeOf_run _ hkey
    have hrun : ∀ field, hget (.event m) field db =
        (.ok (h.lookup field), db) := hget_run hkey
    by_cases huuid : isUuid m = true
    · by_cases hid : h.lookup "event_id" = some m
      · by_cases hdue : h.lookup "status" =
            some EventStatus.retryScheduled.value
        · cases hstream : h.lookup "stream_id" with
          | none =>
              simp [releaseMember, Script.bind_apply, htype, Value.kind, hrun,
                huuid, hid, hdue, hstream]
          | some text =>
              have htext : isStreamIdText (some text) = false := by
                refine Bool.eq_false_iff.mpr fun htext => hnot text ?_
                have hfield := recordField_hash hkey
                exact ⟨huuid, (hfield _).trans hid, (hfield _).trans hdue,
                  (hfield _).trans hstream, htext⟩
              simp [releaseMember, Script.bind_apply, htype, Value.kind, hrun,
                huuid, hid, hdue, hstream, htext]
        · simp [releaseMember, Script.bind_apply, htype, Value.kind, hrun,
            huuid, hid, hdue]
      · simp [releaseMember, Script.bind_apply, htype, Value.kind, hrun, huuid,
          hid]
    · simp [releaseMember, Script.bind_apply, htype, Value.kind, hrun, huuid]
  · simp [releaseMember, Script.bind_apply, htype, hk]

theorem Waiting.hash {text : String} (h : Waiting db m text) :
    ∃ f, db (.event m) = some (.hash f) ∧ f.lookup "event_id" = some m ∧
      f.lookup "status" = some EventStatus.retryScheduled.value ∧
      f.lookup "stream_id" = some text := by
  obtain ⟨f, hkey⟩ : ∃ f, db (.event m) = some (.hash f) := by
    have hid := h.eventId
    unfold recordField at hid
    split at hid
    · exact ⟨_, by assumption⟩
    · cases hid
  have hfield := recordField_hash hkey
  exact ⟨f, hkey, (hfield _).symm.trans h.eventId,
    (hfield _).symm.trans h.status, (hfield _).symm.trans h.streamId⟩

/-- The release of one member, on any data: its message is requeued, or its
message id is refused by the server, or the member is dropped. -/
theorem releaseMember_cases (hevents : db .events = some (.stream st))
    (hg : st.groups.lookup group = some g) (m : String) (now : UInt64) :
    (∃ entry text, Requeueable group m db entry ∧
      recordField db m "stream_id" = some text ∧
      StreamId.parse text = some entry.id ∧ entry.id ∈ g.pending ∧
      releaseMember now group m db =
        requeueMessage now group m text entry.fields db) ∨
    (∃ text, Waiting db m text ∧ StreamId.parse text = none ∧
      releaseMember now group m db = (.error invalidId, db)) ∨
    ((∀ entry, ¬Requeueable group m db entry) ∧
      (∀ text, Waiting db m text → StreamId.parse text ≠ none) ∧
      releaseMember now group m db = removeInvalidRecord m db) := by
  by_cases hnot : ∀ text, ¬Waiting db m text
  · refine Or.inr (Or.inr ⟨fun entry h => ?_, fun text h => absurd h (hnot text),
      releaseMember_dropped hnot now⟩)
    obtain ⟨text, hwaiting, -⟩ := h.waiting
    exact hnot text hwaiting
  · obtain ⟨text, hwaiting⟩ := not_forall_not.mp hnot
    obtain ⟨f, hkey, hid, hstatus, hstream⟩ := hwaiting.hash
    have htype := typeOf_run _ hkey
    have hrun : ∀ field, hget (.event m) field db =
        (.ok (f.lookup field), db) := hget_run hkey
    have hunique : ∀ text', Waiting db m text' → text' = text := fun text' h =>
      Option.some.inj (h.streamId.symm.trans hwaiting.streamId)
    have hst : streamAt db .events = st := streamAt_eq (Or.inr hevents)
    cases hparse : StreamId.parse text with
    | none =>
        have hpending : xpending .events group text db =
            (.error invalidId, db) := by
          have hread : (readId text : StoreScript StreamId) db =
              (.error invalidId, db) := by
            rw [readId, hparse]
          rw [xpending, Script.bind_error hread]
        refine Or.inr (Or.inl ⟨text, hwaiting, hparse, ?_⟩)
        simp [releaseMember, Script.bind_apply, htype, Value.kind, hrun,
          hwaiting.uuid, hid, hstatus, hstream, hwaiting.wellFormed, hpending]
    | some id =>
        have hpending := xpending_parsed hevents hg hparse
        have hrange := xrange_parsed hevents hparse
        have hheld : pendingEntry db group id = g.pending.lookup id := by
          rw [pendingEntry, hst, hg]
          rfl
        have hdropped : (∀ entry, ¬Requeueable group m db entry) →
            releaseMember now group m db = removeInvalidRecord m db →
            (∀ entry, ¬Requeueable group m db entry) ∧
            (∀ text, Waiting db m text → StreamId.parse text ≠ none) ∧
            releaseMember now group m db = removeInvalidRecord m db := by
          refine fun hno hremoved => ⟨hno, fun text' h => ?_, hremoved⟩
          rw [hunique text' h, hparse]
          exact Option.some_ne_none id
        have hentry : ∀ entry, Requeueable group m db entry →
            entry.id = id := by
          rintro entry ⟨⟨text', h, hparse'⟩, -, -, -⟩
          rw [hunique text' h, hparse] at hparse'
          exact (Option.some.inj hparse').symm
        by_cases hmem : id ∈ g.pending
        · rw [if_pos hmem] at hpending
          cases hfind : st.find id with
          | none =>
              refine Or.inr (Or.inr (hdropped (fun entry h => ?_) ?_))
              · have hfound := Stream.find_eq_some_of_mem (hst ▸ h.mem)
                rw [hentry entry h, hfind] at hfound
                cases hfound
              · simp [releaseMember, Script.bind_apply, htype, Value.kind,
                  hrun, hwaiting.uuid, hid, hstatus, hstream,
                  hwaiting.wellFormed, hpending, hrange, hfind]
          | some entry =>
              obtain ⟨hin, rfl⟩ := Stream.mem_of_find hfind
              by_cases hcontent : fieldValue entry.fields "event_id" = some m
              · refine Or.inl ⟨entry, text, ⟨⟨text, hwaiting, hparse⟩, ?_,
                  hst ▸ hin, hcontent⟩, hwaiting.streamId, hparse, hmem, ?_⟩
                · rw [hheld, ← Option.isSome_iff_ne_none, AList.lookup_isSome]
                  exact hmem
                · simp [releaseMember, Script.bind_apply, htype, Value.kind,
                    hrun, hwaiting.uuid, hid, hstatus, hstream,
                    hwaiting.wellFormed, hpending, hrange, hfind, hcontent]
              · refine Or.inr (Or.inr (hdropped (fun other h => ?_) ?_))
                · have hsame := Stream.eq_of_id_eq (hst ▸ h.mem) hin
                    (hentry other h)
                  exact hcontent (hsame ▸ h.content)
                · simp [releaseMember, Script.bind_apply, htype, Value.kind,
                    hrun, hwaiting.uuid, hid, hstatus, hstream,
                    hwaiting.wellFormed, hpending, hrange, hfind, hcontent]
        · rw [if_neg hmem] at hpending
          refine Or.inr (Or.inr (hdropped (fun entry h => ?_) ?_))
          · have hgone := h.pending
            rw [hentry entry h, hheld, ← Option.isSome_iff_ne_none,
              AList.lookup_isSome] at hgone
            exact hmem hgone
          · simp [releaseMember, Script.bind_apply, htype, Value.kind, hrun,
              hwaiting.uuid, hid, hstatus, hstream, hwaiting.wellFormed,
              hpending, hrange]

theorem pendingEntry_eq {db' : Store}
    (h : streamAt db' .events = streamAt db .events) (group : String)
    (id : StreamId) : pendingEntry db' group id = pendingEntry db group id := by
  rw [pendingEntry, pendingEntry, h]

/-- What a requeue does to the pending entries. -/
theorem pendingEntry_requeue {db' : Store} {id newId : StreamId}
    {fields : Fields} {now : UInt64} {added : Stream}
    (hg : (streamAt db .events).groups.lookup group = some g)
    (happend : (streamAt db .events).append now fields = some (newId, added))
    (hevents : db' .events = some (.stream (added.setGroup group (g.ack id))))
    (group' : String) (other : StreamId) :
    pendingEntry db' group' other =
      if group' = group ∧ other = id then none
      else pendingEntry db group' other := by
  obtain ⟨-, -, -, hgroups⟩ := Stream.append_eq_some happend
  rw [pendingEntry, pendingEntry, streamAt_eq (Or.inr hevents)]
  by_cases hgroup : group' = group
  · subst hgroup
    rw [Stream.lookup_setGroup, hg, Option.bind_some, Option.bind_some]
    by_cases hother : other = id
    · rw [if_pos ⟨rfl, hother⟩, hother]
      exact AList.lookup_erase _ _
    · rw [if_neg (by simp [hother])]
      exact AList.lookup_erase_ne hother
  · rw [if_neg (by simp [hgroup]), Stream.setGroup,
      AList.lookup_insert_ne hgroup, hgroups]

/-- A release that dropped the member. -/
theorem releaseOutcome_dropped {db' : Store}
    (hz : HoldsZSet (db' .retries) ((retrySet db).erase m))
    (hsame : ∀ key, key ≠ .retries → key ≠ .event m → db' key = db key)
    (hrecord : db' (.event m) = db (.event m) ∨ Discarded m db db') :
    ReleaseOutcome group m db db' false := by
  have hevents : streamAt db' .events = streamAt db .events := by
    rw [streamAt, streamAt, hsame .events (by simp) (by simp)]
  refine ⟨hz, ?_, ?_, ?_, fun _ => hrecord⟩
  · intro other hne
    exact hsame (.event other) (by simp) (by simpa using hne)
  · intro group' id hchanged
    exact absurd (pendingEntry_eq hevents group' id) hchanged
  · refine ⟨fun h => absurd h Bool.false_ne_true, ?_⟩
    rintro ⟨entry, newId, -, hentries, -⟩
    rw [hevents] at hentries
    have hlength := congrArg List.length hentries
    simp at hlength

/-- A release that requeued the message. -/
theorem releaseOutcome_requeued {db' : Store} {entry : Entry}
    {newId : StreamId} {now : UInt64} {added : Stream} {f : Hash}
    {v : Option Value} (h : Requeueable group m db entry)
    (hg : (streamAt db .events).groups.lookup group = some g)
    (happend : (streamAt db .events).append now entry.fields =
      some (newId, added))
    (hv : HoldsZSet v ((retrySet db).erase m))
    (hdb' : db' = Function.update (Function.update (Function.update db .events
      (some (.stream (added.setGroup group (g.ack entry.id)))))
      (.event m) (some (.hash (requeuedHash f newId)))) .retries v) :
    ReleaseOutcome group m db db' true := by
  have hevents : db' .events =
      some (.stream (added.setGroup group (g.ack entry.id))) := by
    rw [hdb']
    simp
  have hkey : db' (.event m) = some (.hash (requeuedHash f newId)) := by
    rw [hdb']
    simp
  have hpending := pendingEntry_requeue hg happend hevents
  refine ⟨by rw [hdb']; simpa using hv, ?_, ?_, ?_, nofun⟩
  · intro other hne
    rw [hdb']
    simp [hne]
  · intro group' id hchanged
    rw [hpending group' id] at hchanged
    by_cases hid : group' = group ∧ id = entry.id
    · exact ⟨rfl, hid.1, entry, h, hid.2.symm⟩
    · rw [if_neg hid] at hchanged
      exact absurd rfl hchanged
  · refine ⟨fun _ => ⟨entry, newId, h, ?_, ?_, ?_, ?_⟩, fun _ => rfl⟩
    · obtain ⟨-, hentries, -, -⟩ := Stream.append_eq_some happend
      rw [streamAt_eq (Or.inr hevents)]
      exact hentries
    · rw [hpending, if_pos ⟨rfl, rfl⟩]
    · rw [recordField_hash hkey]
      simp [requeuedHash, AList.lookup_erase_ne]
    · rw [recordField_hash hkey]
      simp [requeuedHash, AList.lookup_erase_ne]

/-- The member's message is one that the server can look up; if it has to be
requeued, its fields can be unpacked and there is room for a copy. -/
def Releasable (group m : String) (db : Store) : Prop :=
  (∀ text, Waiting db m text → StreamId.parse text ≠ none) ∧
    ∀ entry, Requeueable group m db entry →
      Unpackable entry.fields ∧
        (streamAt db .events).lastId ≠ StreamId.greatest

/-- The release script on any data: an answer that means what it says when the
member is releasable, and otherwise an error that leaves everything as it
was. -/
theorem releaseDueRetry_cases (hevents : db .events = some (.stream st))
    (hg : st.groups.lookup group = some g) (hz : db .retries = some (.zset z))
    {nowMs : ℤ} {rest : List String}
    (hdue : z.upTo ((nowMs : ℚ) : Score) = m :: rest) (now : UInt64) :
    Releasable group m db ∧ (∃ answer db',
      releaseDueRetryScript now group nowMs db = (.ok answer, db') ∧
      (answer = 1 ∧ ReleaseOutcome group m db db' true ∨
        answer = 2 ∧ ReleaseOutcome group m db db' false)) ∨
    ¬Releasable group m db ∧ ∃ message,
      releaseDueRetryScript now group nowMs db = (.error message, db) := by
  have hst : streamAt db .events = st := streamAt_eq (Or.inr hevents)
  have hset : retrySet db = z := retrySet_eq (Or.inr hz)
  have hrange : zrangebyscore .retries ((nowMs : ℚ) : Score) db =
      (.ok [m], db) := by
    have hread : readZSet .retries db = (.ok (some z), db) := by
      rw [readZSet, hz]
    rw [zrangebyscore, Script.bind_ok hread, Option.getD_some, hdue]
    rfl
  have hrun : releaseDueRetryScript now group nowMs db =
      releaseMember now group m db := by
    simp [releaseDueRetryScript, Script.bind_apply, typeOf_run _ hevents,
      typeOf_run _ hz, Value.kind, hrange]
  rw [hrun]
  rcases releaseMember_cases hevents hg m now with
    ⟨entry, text, h, hstream, hparse, hmem, hmember⟩ |
    ⟨text, hwaiting, hparse, hmember⟩ | ⟨hno, hparses, hmember⟩
  · obtain ⟨text', hwaiting, -⟩ := h.waiting
    obtain ⟨f, hkey, hid, -, -⟩ := hwaiting.hash
    have hin : "event_id" ∈ f := by
      rw [← AList.lookup_isSome, hid]
      rfl
    rw [hmember]
    rcases requeueMessage_run hevents hg hparse hmem hkey hin (Or.inr hz) now
      entry.fields with
      ⟨message, hfull, hrefused⟩ |
      ⟨newId, added, v, hfits, happend, hv, hdone⟩
    · refine Or.inr ⟨fun hreleasable => ?_, _, hrefused⟩
      obtain ⟨hfits, hroom⟩ := hreleasable.2 entry h
      exact hroom (hst ▸ Stream.append_eq_none.mp (hfull hfits))
    · have hroom : (streamAt db .events).lastId ≠ StreamId.greatest := by
        intro hlast
        rw [hst] at hlast
        have hnone : st.append now entry.fields = none :=
          Stream.append_eq_none.mpr hlast
        rw [happend] at hnone
        cases hnone
      have hone : ∀ other, Requeueable group m db other →
          Unpackable other.fields := by
        rintro other ⟨⟨text', h', hparse'⟩, -, hin', -⟩
        have hsame := Option.some.inj (h'.streamId.symm.trans hstream)
        rw [hsame, hparse] at hparse'
        rw [Stream.eq_of_id_eq hin' h.mem (Option.some.inj hparse').symm]
        exact hfits
      refine Or.inl ⟨⟨?_, fun other h' => ⟨hone other h', hroom⟩⟩, 1, _, hdone,
        Or.inl ⟨rfl, ?_⟩⟩
      · intro other hother
        have hsame := Option.some.inj (hother.streamId.symm.trans hstream)
        rw [hsame, hparse]
        exact Option.some_ne_none entry.id
      · exact releaseOutcome_requeued h (hst ▸ hg) (hst ▸ happend)
          (hset ▸ hv) rfl
  · refine Or.inr ⟨fun hreleasable => ?_, _, hmember⟩
    exact hreleasable.1 text hwaiting hparse
  · obtain ⟨db', hremoved, hz', hsame, hrecord⟩ :=
      removeInvalidRecord_run (Or.inr hz) m
    refine Or.inl ⟨⟨hparses, fun entry h => absurd h (hno entry)⟩, 2, db',
      hmember.trans hremoved, Or.inr ⟨rfl, ?_⟩⟩
    exact releaseOutcome_dropped (hset ▸ hz') hsame hrecord

end Release

end Hooklane
