import Hooklane.Queue.Effects

/-!
# The retry release script

`_RELEASE_DUE_RETRY_SCRIPT` takes one due member of the retry schedule.  On a
represented keyspace the member belongs to an event, and three things can
happen: the member is stale and is dropped, the copy was lost and the event is
discarded, or the copy is replaced by a new one.
-/

namespace Hooklane

open Redis

variable {parses : Fields → Prop} {group : String} {late : Prop} {db : Store}
  {L : Ledger} {e : UUID} {a : Account} {f : Hash}

theorem mem_upTo {z : ZSet} {bound : Score} {m : String} :
    m ∈ z.upTo bound ↔ ∃ score, z.lookup m = some score ∧ score ≤ bound := by
  constructor
  · intro h
    obtain ⟨⟨m, score⟩, hentry, rfl⟩ := List.mem_map.mp h
    have hfilter := (List.mem_insertionSort _).mp hentry
    obtain ⟨hmem, hle⟩ := List.mem_filter.mp hfilter
    exact ⟨score, AList.mem_lookup_iff.mpr hmem, of_decide_eq_true hle⟩
  · rintro ⟨score, hlookup, hle⟩
    refine List.mem_map.mpr ⟨⟨m, score⟩, ?_, rfl⟩
    exact (List.mem_insertionSort _).mpr (List.mem_filter.mpr
      ⟨AList.mem_lookup_iff.mp hlookup, decide_eq_true hle⟩)

theorem value_ne {s s' : EventStatus} (h : s ≠ s') : s.value ≠ s'.value := by
  cases s <;> cases s' <;> first | exact absurd rfl h | decide

theorem isStreamIdText_text (id : StreamId) :
    isStreamIdText (some id.text) = true := by
  rw [isStreamIdText, Option.elim_some, StreamId.text, parsePair_natRepr]
  rfl

theorem isPositiveDecimal_natRepr {n : ℕ} (h : 1 ≤ n) :
    isPositiveDecimal (some n.repr) = true := by
  have hvalue : decimalValue n.repr = some n := decimalValue_natRepr n
  simp [isPositiveDecimal, hvalue, h]

/-- `safe_status` holds exactly for an event that waits for its retry. -/
theorem safeToDiscard_run (h : Represents parses group db L)
    (ha : L e = some a) :
    safeToDiscard e.text db =
      (.ok (decide (a.status = .retryScheduled)), db) := by
  obtain ⟨f, hkey, hshow⟩ := h.status.hash e a ha
  have htype := typeOf_run _ hkey
  by_cases hdue : a.status = .retryScheduled
  · have hstarted := ((h.valid e a ha).retry hdue).2
    simp [safeToDiscard, Script.bind_apply, htype, Value.kind, hget_run hkey,
      hshow.eventId, hshow.status, hshow.attempts, hshow.streamId, hdue,
      isStreamIdText_text, isPositiveDecimal_natRepr hstarted]
  · have hne := value_ne hdue
    simp [safeToDiscard, Script.bind_apply, htype, Value.kind, hget_run hkey,
      hshow.eventId, hshow.status, hdue, hne]

/-- The hash of an event that a release discards. -/
theorem hashShows_discard (hshow : HashShows f e a) (errorClass : String) :
    HashShows ((f.insert "status" EventStatus.deadLetter.value).insert
      "last_error_class" errorClass) e
      { a with status := .deadLetter, scheduled := false } := by
  constructor <;> simp [hshow.eventId, hshow.streamId, hshow.attempts,
    hshow.bounded]

/-- `remove_invalid_record` drops a stale member, or discards an event whose
copy is gone. -/
theorem removeInvalidRecord_simulated (h : Represents parses group db L)
    (ha : L e = some a)
    (hlost : a.status = .retryScheduled → a.custody ≠ .pending) :
    Simulated parses group late db (removeInvalidRecord e.text db).2 L
      none none := by
  obtain ⟨f, hkey, hshow⟩ := h.status.hash e a ha
  have hsafe := safeToDiscard_run h ha
  by_cases hdue : a.status = .retryScheduled
  · obtain ⟨v, hzrem, hv⟩ := zrem_run (d := Function.update db (.event e.text)
      (some (.hash ((f.insert "status" EventStatus.deadLetter.value).insert
        "last_error_class" "invariant_violation"))))
      (z := retrySet db) (by simpa using h.retries) e.text
    have hrun : removeInvalidRecord e.text db =
        (.ok 2, Function.update (Function.update db (.event e.text)
          (some (.hash ((f.insert "status" EventStatus.deadLetter.value).insert
            "last_error_class" "invariant_violation")))) .retries v) := by
      simp [removeInvalidRecord, Script.bind_apply, hsafe, hdue,
        hset_run hkey, hzrem]
    have hmove : Account.Transition parses late a
        { a with status := .deadLetter, scheduled := false } :=
      .discard a (hlost hdue) hdue
    rw [hrun]
    refine ⟨L.set e { a with status := .deadLetter, scheduled := false },
      ?_, ?_, .advance e a _ ha hmove ⟨by simp, by simp⟩⟩
    · refine h.set (s := streamAt db .events) (z := (retrySet db).erase e.text)
        (by simpa using h.events) (by simpa using hv)
        ⟨_, by simpa using h.deadLetter⟩ ⟨_, by simpa using h.quarantine⟩
        (by simp; rfl) (hashShows_discard hshow _) ?_ ?_
        (h.schedule.set_erase rfl) ((h.valid e a ha).transition hmove)
      · intro key hne
        simp [hne]
      · exact h.stream.set ha h.stream.tidy rfl rfl rfl
          (h.stream.custody e a ha) fun _ _ _ => rfl
    · simpa using Stream.Grows.refl _
  · obtain ⟨v, hzrem, hv⟩ := zrem_run h.retries e.text
    have hrun : removeInvalidRecord e.text db =
        (.ok 2, Function.update db .retries v) := by
      simp [removeInvalidRecord, Script.bind_apply, hsafe, hdue, hzrem]
    have hmove : Account.Transition parses late a { a with scheduled := false } :=
      .unschedule a hdue
    rw [hrun]
    refine ⟨L.set e { a with scheduled := false },
      ?_, ?_, .advance e a _ ha hmove ⟨by simp, by simp⟩⟩
    · refine h.set (s := streamAt db .events) (z := (retrySet db).erase e.text)
        (f := f) (by simpa using h.events) (by simpa using hv)
        ⟨_, by simpa using h.deadLetter⟩ ⟨_, by simpa using h.quarantine⟩
        (by simpa using hkey) ?_ ?_ ?_
        (h.schedule.set_erase rfl) ((h.valid e a ha).transition hmove)
      · exact ⟨hshow.eventId, hshow.status, hshow.attempts, hshow.streamId,
          hshow.bounded⟩
      · intro key _
        simp
      · exact h.stream.set ha h.stream.tidy rfl rfl rfl
          (h.stream.custody e a ha) fun _ _ _ => rfl
    · simpa using Stream.Grows.refl _

/-- The status hash after a requeue. -/
def requeuedHash (f : Hash) (id : StreamId) : Hash :=
  ((f.insert "status" EventStatus.queued.value).insert "stream_id"
    id.text).erase "last_error_class"

theorem hashShows_requeued (hshow : HashShows f e a) (id : StreamId) :
    HashShows (requeuedHash f id) e
      { a with status := .queued, current := id, custody := .unread,
               scheduled := false } := by
  constructor <;> simp [requeuedHash, AList.lookup_erase_ne, hshow.eventId,
    hshow.attempts, hshow.bounded]

/-- The requeue of a pending message either fails, because it has too many
fields or for want of an id, or writes the new copy, the acknowledgement, the
hash and the schedule. -/
theorem requeueMessage_run {st : Stream} {z : ZSet} {g : Group} {id : StreamId}
    {m text : String} (hevents : db .events = some (.stream st))
    (hg : st.groups.lookup group = some g)
    (hid : StreamId.parse text = some id) (hpending : id ∈ g.pending)
    (hkey : db (.event m) = some (.hash f)) (hmem : "event_id" ∈ f)
    (hz : HoldsZSet (db .retries) z) (now : UInt64) (fields : Fields) :
    (∃ message, (Unpackable fields → st.append now fields = none) ∧
      requeueMessage now group m text fields db = (.error message, db)) ∨
    ∃ newId added v, Unpackable fields ∧
      st.append now fields = some (newId, added) ∧
      HoldsZSet v (z.erase m) ∧
      requeueMessage now group m text fields db =
        (.ok 1, Function.update (Function.update (Function.update db .events
          (some (.stream (added.setGroup group (g.ack id)))))
          (.event m) (some (.hash (requeuedHash f newId)))) .retries v) := by
  rcases xaddUnpacked_run (Or.inr hevents) now fields with
    ⟨message, hnone, hfull⟩ | ⟨newId, added, hfits, happend, hxadd⟩
  · exact Or.inl ⟨message, hnone, Script.bind_error hfull _⟩
  · right
    obtain ⟨-, -, -, hgroups⟩ := Stream.append_eq_some happend
    have hack := xack_parsed (d := Function.update db .events
      (some (.stream added))) (k := .events) (Function.update_self ..)
      (hgroups ▸ hg) hid
    rw [if_pos hpending, Function.update_idem] at hack
    have hset := hset_run (k := .event m) (h := f)
      (d := Function.update db .events
        (some (.stream (added.setGroup group (g.ack id)))))
      (by simpa using hkey)
      [("status", EventStatus.queued.value), ("stream_id", newId.text)]
    have hkept : "event_id" ∈ (f.insert "status"
        EventStatus.queued.value).insert "stream_id" newId.text := by
      simp [hmem]
    have hdel := hdel_run (k := .event m)
      (d := Function.update (Function.update db .events
        (some (.stream (added.setGroup group (g.ack id)))))
        (.event m) (some (.hash ((f.insert "status"
          EventStatus.queued.value).insert "stream_id" newId.text))))
      (Function.update_self ..) "last_error_class" hkept (by decide)
    rw [Function.update_idem] at hdel
    obtain ⟨v, hzrem, hv⟩ := zrem_run (z := z)
      (d := Function.update (Function.update db .events
        (some (.stream (added.setGroup group (g.ack id)))))
        (.event m) (some (.hash (requeuedHash f newId))))
      (by simpa using hz) m
    refine ⟨newId, added, v, hfits, happend, hv, ?_⟩
    rw [requeueMessage, Script.bind_ok hxadd, Script.bind_ok hack]
    simp only [ne_eq, not_true_eq_false, if_false]
    rw [Script.bind_ok hset]
    simp only [setAll_cons, setAll_nil]
    rw [Script.bind_ok hdel]
    exact Script.bind_ok hzrem _

theorem requeueMessage_simulated (h : Represents parses group db L)
    (ha : L e = some a) {g : Group}
    (hg : (streamAt db .events).groups.lookup group = some g)
    (hpending : a.current ∈ g.pending) (hdue : a.status = .retryScheduled)
    (now : UInt64) :
    Simulated parses group late db
      (requeueMessage now group e.text a.current.text a.fields db).2 L
      none none := by
  obtain ⟨f, hkey, hshow⟩ := h.status.hash e a ha
  have hmem : "event_id" ∈ f := by
    rw [← AList.lookup_isSome, hshow.eventId]
    rfl
  rcases requeueMessage_run (h.events_some ha) hg
    (StreamId.parse_text a.current) hpending hkey hmem h.retries now a.fields with
    ⟨message, -, hfull⟩ | ⟨id, added, v, -, happend, hv, hrun⟩
  · rw [hfull]
    exact simulated_same h
  · have hcustody : a.custody = .pending := by
      rw [← h.stream.custody e a ha]
      exact (Stream.custody_eq_pending hg).mpr hpending
    have hmove : Account.Transition parses late a
        { a with status := .queued, current := id, custody := .unread,
                 scheduled := false } :=
      .requeue a id hcustody hdue
    obtain ⟨-, -, -, hgroups⟩ := Stream.append_eq_some happend
    have hgAdded : added.groups.lookup group = some g := hgroups ▸ hg
    have hstream : StreamShows group
        (added.setGroup group (g.ack a.current))
        (L.set e { a with status := .queued, current := id, custody := .unread,
                          scheduled := false }) :=
      h.stream.requeue ha happend hgAdded hpending rfl rfl rfl
    rw [hrun]
    refine ⟨_, ?_, ?_, .advance e a _ ha hmove ⟨by simp, by simp⟩⟩
    · refine h.set (z := (retrySet db).erase e.text) (f := requeuedHash f id)
        (Or.inr (by simp)) (by simpa using hv)
        ⟨_, by simpa using h.deadLetter⟩ ⟨_, by simpa using h.quarantine⟩
        (by simp) (hashShows_requeued hshow id) ?_ hstream
        (h.schedule.set_erase rfl) ((h.valid e a ha).transition hmove)
      intro key hne
      simp [hne]
    · have hadded : Stream.Grows group (streamAt db .events) added :=
        Stream.Grows.append happend
      have hgrows := hadded.trans
        (Stream.Grows.ack (Stream.tidy_append h.stream.tidy happend) hgAdded
          hpending)
      simpa using hgrows

/-- What the release does with one member, whose event has an account: a
pending copy is requeued, and any other member is removed. -/
theorem releaseMember_run (h : Represents parses group db L)
    (ha : L e = some a) (now : UInt64) :
    (∃ g, (streamAt db .events).groups.lookup group = some g ∧
      a.current ∈ g.pending ∧ a.status = .retryScheduled ∧
      releaseMember now group e.text db =
        requeueMessage now group e.text a.current.text a.fields db) ∨
    (a.status = .retryScheduled → a.custody ≠ .pending) ∧
      releaseMember now group e.text db = removeInvalidRecord e.text db := by
  obtain ⟨f, hkey, hshow⟩ := h.status.hash e a ha
  have htype := typeOf_run _ hkey
  by_cases hdue : a.status = .retryScheduled
  · have hheld : a.custody ≠ .unread := by
      intro hunread
      have hqueued := (h.valid e a ha).unread hunread
      rw [hdue] at hqueued
      exact absurd hqueued (by simp)
    rw [← h.stream.custody e a ha] at hheld
    obtain ⟨g, hevents, hg⟩ := h.exists_group hheld
    have hfind := Stream.find_eq_some_of_mem (h.stream.current e a ha)
    by_cases hpending : a.current ∈ g.pending
    · refine Or.inl ⟨g, hg, hpending, hdue, ?_⟩
      simp [releaseMember, Script.bind_apply, htype, Value.kind,
        hget_run hkey, hshow.eventId, hshow.status, hshow.streamId, hdue,
        isStreamIdText_text, xpending_run hevents hg, hpending,
        xrange_run hevents, hfind, (h.stream.content e a ha).1]
    · refine Or.inr ⟨fun _ => ?_, ?_⟩
      · rw [← h.stream.custody e a ha, ne_eq, Stream.custody_eq_pending hg]
        exact hpending
      · simp [releaseMember, Script.bind_apply, htype, Value.kind,
          hget_run hkey, hshow.eventId, hshow.status, hshow.streamId, hdue,
          isStreamIdText_text, xpending_run hevents hg, hpending,
          xrange_run hevents]
  · have hne := value_ne hdue
    refine Or.inr ⟨fun h => absurd h hdue, ?_⟩
    simp [releaseMember, Script.bind_apply, htype, Value.kind, hget_run hkey,
      hshow.eventId, hshow.status, hne]

theorem releaseMember_simulated (h : Represents parses group db L)
    (ha : L e = some a) (now : UInt64) :
    Simulated parses group late db (releaseMember now group e.text db).2 L
      none none := by
  rcases releaseMember_run h ha now with
    ⟨g, hg, hpending, hdue, hrun⟩ | ⟨hlost, hrun⟩
  · rw [hrun]
    exact requeueMessage_simulated h ha hg hpending hdue now
  · rw [hrun]
    exact removeInvalidRecord_simulated h ha hlost

/-- The release has nothing to do, or it works on the first due member. -/
theorem releaseDueRetry_run (h : Represents parses group db L)
    (now : UInt64) (nowMs : ℤ) :
    (∃ r, r ≠ .ok 1 ∧
      releaseDueRetryScript now group nowMs db = (r, db)) ∨
    ∃ e a, ((retrySet db).upTo ((nowMs : ℚ) : Score)).head? = some e.text ∧
      L e = some a ∧ releaseDueRetryScript now group nowMs db =
        releaseMember now group e.text db := by
  rcases h.events with ⟨hnone, -⟩ | hevents
  · refine Or.inl ⟨.error "ERR event stream has incompatible type", nofun, ?_⟩
    simp [releaseDueRetryScript, Script.bind_apply, typeOf, hnone]
  · have htype := typeOf_run _ hevents
    rcases h.retries with ⟨hnone, -⟩ | hretries
    · refine Or.inl ⟨.ok 0, by simp, ?_⟩
      simp [releaseDueRetryScript, Script.bind_apply, htype, Value.kind,
        typeOf_absent hnone]
    · have hretryType := typeOf_run _ hretries
      have hrange : zrangebyscore .retries ((nowMs : ℚ) : Score) db =
          (.ok (((retrySet db).upTo ((nowMs : ℚ) : Score)).take 1), db) := by
        rw [zrangebyscore, Script.bind_ok (a := some (retrySet db)) (d := db)]
        · rfl
        · rw [readZSet, hretries]
      cases hdue : (retrySet db).upTo ((nowMs : ℚ) : Score) with
      | nil =>
          refine Or.inl ⟨.ok 0, by simp, ?_⟩
          simp [releaseDueRetryScript, Script.bind_apply, htype, hretryType,
            Value.kind, hrange, hdue]
      | cons m rest =>
          obtain ⟨score, hlookup, -⟩ :=
            mem_upTo.mp (hdue ▸ List.mem_cons_self :
              m ∈ (retrySet db).upTo ((nowMs : ℚ) : Score))
          have hm : m ∈ retrySet db :=
            AList.lookup_isSome.mp (hlookup ▸ rfl)
          obtain ⟨e, a, rfl, ha⟩ := h.schedule.members m hm
          refine Or.inr ⟨e, a, rfl, ha, ?_⟩
          simp [releaseDueRetryScript, Script.bind_apply, htype, hretryType,
            Value.kind, hrange, hdue]

/-- `_RELEASE_DUE_RETRY_SCRIPT`. -/
theorem releaseDueRetry_simulated (h : Represents parses group db L)
    (now : UInt64) (nowMs : ℤ) :
    Simulated parses group late db (releaseDueRetryScript now group nowMs db).2
      L none none := by
  rcases releaseDueRetry_run h now nowMs with
    ⟨r, -, hrun⟩ | ⟨e, a, -, ha, hrun⟩
  · rw [hrun]
    exact simulated_same h
  · rw [hrun]
    exact releaseMember_simulated h ha now

end Hooklane
