import Hooklane.Queue.Finishing

/-!
# Creating the group, reading, claiming and enqueueing

The calls that put messages into the stream and hand them to workers.
-/

namespace Hooklane

open Redis

variable {parses : Fields → Prop} {group : String} {late : Prop} {db : Store}
  {L : Ledger} {e : UUID} {a : Account} {g : Group}

/-- A message that some worker of the group has received. -/
def HandedOut (group : String) (db : Store) (m : String) (fields : Fields) :
    Prop :=
  ∃ entry ∈ (streamAt db .events).entries, entry.id.text = m ∧
    entry.fields = fields ∧
    (streamAt db .events).custody group entry.id ≠ .unread

/-- A call that only changes the group's bookkeeping in the events stream. -/
theorem represents_setStream (h : Represents parses group db L) {st : Stream}
    (hstream : StreamShows group st L) :
    Represents parses group
      (Function.update db .events (some (.stream st))) L := by
  refine Represents.build (s := st) (z := retrySet db) (Or.inr (by simp))
    (by simpa using h.retries) ⟨_, by simpa using h.deadLetter⟩
    ⟨_, by simpa using h.quarantine⟩ ?_ hstream h.schedule h.valid
  apply h.status.congr
  intro key
  simp

/-- `XGROUP CREATE`. -/
theorem xgroupCreate_simulated (h : Represents parses group db L) :
    Simulated parses group late db (xgroupCreate .events group db).2 L
      none none := by
  have hread : ∃ v, readStream .events db = (.ok v, db) ∧
      v.getD .empty = streamAt db .events := by
    rcases h.events with ⟨hnone, hempty⟩ | hsome
    · exact ⟨none, by rw [readStream, hnone], hempty.symm⟩
    · exact ⟨some (streamAt db .events), by rw [readStream, hsome], rfl⟩
  obtain ⟨v, hv, hst⟩ := hread
  cases hg : (streamAt db .events).groups.lookup group with
  | some g =>
      have hrun : xgroupCreate .events group db = (.error busyGroup, db) := by
        rw [xgroupCreate, Script.bind_ok hv, hst, hg]
        rfl
      rw [hrun]
      exact simulated_same h
  | none =>
      have hrun : xgroupCreate .events group db =
          (.ok (), Function.update db .events
            (some (.stream ((streamAt db .events).createGroup group)))) := by
        rw [xgroupCreate, Script.bind_ok hv, hst, hg]
        rfl
      rw [hrun]
      refine ⟨L, ?_, ?_, .silent ⟨by simp, by simp⟩⟩
      · apply represents_setStream h
        exact h.stream.congr (Stream.tidy_createGroup _ group) rfl
          fun entry hentry => Stream.custody_createGroup hg hentry
      · rw [streamAt_update_self]
        exact Stream.Grows.createGroup hg

/-- An unread entry is the current copy of its event. -/
theorem current_of_unread (h : Represents parses group db L) {entry : Entry}
    (hentry : entry ∈ (streamAt db .events).entries)
    (hunread : (streamAt db .events).custody group entry.id ≠ .acknowledged) :
    ∃ e a, L e = some a ∧ entry = ⟨a.current, a.fields⟩ ∧
      (streamAt db .events).custody group entry.id = a.custody := by
  obtain ⟨e, a, ha, hfields, hid⟩ := h.stream.carried entry hentry
  have hcurrent : entry.id = a.current := by
    by_contra hne
    exact hunread (hid hne)
  refine ⟨e, a, ha, ?_, ?_⟩
  · rw [← hcurrent, ← hfields]
  · rw [hcurrent]
    exact h.stream.custody e a ha

theorem xreadgroup_run (hevents : db .events = some (.stream (streamAt db .events)))
    (hg : (streamAt db .events).groups.lookup group = some g) (now : UInt64)
    (consumer : String) {entry : Entry}
    (hnext : (streamAt db .events).nextUnread g = some entry) :
    xreadgroup now .events group consumer db =
      (.ok (some (entry.id.text, entry.fields)), Function.update db .events
        (some (.stream ((streamAt db .events).setGroup group
          (g.deliver entry.id consumer now))))) := by
  rw [xreadgroup, Script.bind_ok (readGroup_run hevents hg)]
  simp only [hnext]
  rfl

/-- `XREADGROUP` hands out the next unread message. -/
theorem xreadgroup_simulated (late : Prop)
    (h : Represents parses group db L) (now : UInt64) (consumer : String) :
    Simulated parses group late db
      (xreadgroup now .events group consumer db).2 L none none ∧
    ∀ m fields, (xreadgroup now .events group consumer db).1 =
        .ok (some (m, fields)) →
      HandedOut group (xreadgroup now .events group consumer db).2 m fields := by
  cases hg : (streamAt db .events).groups.lookup group with
  | none =>
      have hrun : xreadgroup now .events group consumer db =
          (.error noGroup, db) := by
        rw [xreadgroup, Script.bind_error (readGroup_absent h.events hg)]
      rw [hrun]
      exact ⟨simulated_same h, by simp⟩
  | some g =>
      have hevents : db .events = some (.stream (streamAt db .events)) := by
        rcases h.events with ⟨-, hempty⟩ | hsome
        · rw [hempty] at hg
          exact absurd hg (by simp [Stream.empty])
        · exact hsome
      cases hnext : (streamAt db .events).nextUnread g with
      | none =>
          have hrun : xreadgroup now .events group consumer db =
              (.ok none, db) := by
            rw [xreadgroup, Script.bind_ok (readGroup_run hevents hg)]
            simp only [hnext]
            rfl
          rw [hrun]
          exact ⟨simulated_same h, by simp⟩
      | some entry =>
          rw [xreadgroup_run hevents hg now consumer hnext]
          obtain ⟨hentry, hcursor⟩ := Stream.nextUnread_spec hnext
          have hunread : (streamAt db .events).custody group entry.id =
              .unread := by
            have hfresh : entry.id ∉ g.pending := fun hin =>
              absurd (h.stream.tidy.pending_le g hg _ hin) (not_le.mpr hcursor)
            rw [Stream.custody_eq hg, if_neg hfresh, if_pos hcursor]
          obtain ⟨e, a, ha, rfl, hcustody⟩ :=
            current_of_unread h hentry (by rw [hunread]; simp)
          have hmove : Account.Transition parses late a
              { a with custody := .pending } :=
            .read a (hcustody.symm.trans hunread)
          obtain ⟨f, hkey, hshow⟩ := h.status.hash e a ha
          refine ⟨⟨L.set e { a with custody := .pending }, ?_, ?_,
            .advance e a _ ha hmove ⟨by simp, by simp⟩⟩, ?_⟩
          · refine h.set (z := retrySet db) (f := f)
              (s := (streamAt db .events).setGroup group
                (g.deliver a.current consumer now))
              (Or.inr (by simp))
              (by simpa using h.retries) ⟨_, by simpa using h.deadLetter⟩
              ⟨_, by simpa using h.quarantine⟩ (by simpa using hkey)
              ⟨hshow.eventId, hshow.status, hshow.attempts, hshow.streamId,
                hshow.bounded⟩ (by intro key _; simp) ?_
              (h.schedule.set_same (h.schedule.scheduled e a ha))
              ((h.valid e a ha).transition hmove)
            refine h.stream.set ha (Stream.tidy_deliver h.stream.tidy hg hnext)
              rfl rfl rfl Stream.custody_deliver_self ?_
            intro other hother hne
            exact Stream.custody_deliver_other hg hnext hother hne
          · rw [streamAt_update_self]
            exact Stream.Grows.deliver hg hnext
          · intro m fields hreply
            obtain ⟨rfl, rfl⟩ : a.current.text = m ∧ a.fields = fields := by
              simpa using hreply
            refine ⟨⟨a.current, a.fields⟩, ?_, rfl, rfl, ?_⟩
            · rw [streamAt_update_self]
              exact hentry
            · rw [streamAt_update_self, Stream.custody_deliver_self]
              simp

/-- The claim script's verdict on a pending message: it is ready for delivery
or waits for its retry, and never violates an invariant. -/
theorem pendingDisposition_run (h : Represents parses group db L)
    {entry : Entry} (hentry : entry ∈ (streamAt db .events).entries)
    (hpending : (streamAt db .events).custody group entry.id = .pending) :
    ∃ e a, L e = some a ∧ entry = ⟨a.current, a.fields⟩ ∧
      (a.status = .retryScheduled ∧
          pendingDisposition entry.fields entry.id.text db =
            (.ok .retryScheduled, db) ∨
        (a.status = .queued ∨ a.status = .delivering) ∧
          pendingDisposition entry.fields entry.id.text db =
            (.ok .delivery, db)) := by
  obtain ⟨e, a, ha, rfl, hcustody⟩ :=
    current_of_unread h hentry (by rw [hpending]; simp)
  refine ⟨e, a, ha, rfl, ?_⟩
  obtain ⟨f, hkey, hshow⟩ := h.status.hash e a ha
  have hopen := (h.valid e a ha).pending (hcustody.symm.trans hpending)
  have hcontent := (h.stream.content e a ha).1
  rcases hopen with hstatus | hstatus | hstatus
  · refine Or.inr ⟨Or.inl hstatus, ?_⟩
    simp [pendingDisposition, hcontent, Script.bind_apply, typeOf_run _ hkey,
      Value.kind, hget_run hkey, hshow.eventId, hshow.streamId, hshow.status,
      hstatus, EventStatus.value]
  · refine Or.inr ⟨Or.inr hstatus, ?_⟩
    simp [pendingDisposition, hcontent, Script.bind_apply, typeOf_run _ hkey,
      Value.kind, hget_run hkey, hshow.eventId, hshow.streamId, hshow.status,
      hstatus, EventStatus.value]
  · refine Or.inl ⟨hstatus, ?_⟩
    simp [pendingDisposition, hcontent, Script.bind_apply, typeOf_run _ hkey,
      Value.kind, hget_run hkey, hshow.eventId, hshow.streamId, hshow.status,
      hstatus]

/-- `XCLAIM` of a pending message: it is handed to the consumer if it has been
idle for long enough. -/
theorem xclaim_run (hevents : db .events = some (.stream (streamAt db .events)))
    (hg : (streamAt db .events).groups.lookup group = some g)
    {entry : Entry} (hentry : entry ∈ (streamAt db .events).entries)
    {held : Delivery} (hheld : g.pending.lookup entry.id = some held)
    (now : UInt64) (consumer : String) (minIdle : ℕ) :
    xclaim now .events group consumer minIdle entry.id.text db =
      if minIdle ≤ Group.idle held now then
        (.ok [entry.id.text], Function.update db .events
          (some (.stream ((streamAt db .events).setGroup group
            (g.reassign entry.id consumer now held)))))
      else (.ok [], db) := by
  have hfind : ¬(streamAt db .events).find entry.id = none := by
    rw [Stream.find_eq_some_of_mem hentry]
    simp
  have hread : readId entry.id.text db = (.ok entry.id, db) := by
    rw [readId, StreamId.parse_text]
  by_cases hidle : minIdle ≤ Group.idle held now <;>
    simp [xclaim, Script.bind_apply, readGroup_run hevents hg, hread, hheld,
      hfind, hidle, put]

/-- The account of the pending message `id`. -/
def AccountAt (L : Ledger) (id : StreamId) (a : Account) : Prop :=
  a.current = id ∧ ∃ e, L e = some a

/-- The scan passes over the messages that wait for a retry and claims the
first other message. -/
theorem claimFirst_run (h : Represents parses group db L)
    (hevents : db .events = some (.stream (streamAt db .events)))
    (hg : (streamAt db .events).groups.lookup group = some g) (now : UInt64)
    (consumer : String) (minIdle : ℕ) (ids : List StreamId)
    (hids : ∀ id ∈ ids, ∃ held, g.pending.lookup id = some held ∧
      minIdle ≤ Group.idle held now) :
    (∀ id ∈ ids, ∃ a, AccountAt L id a ∧ a.status = .retryScheduled) ∧
      claimFirst now group consumer minIdle (ids.map StreamId.text) db =
        (.ok none, db) ∨
    ∃ before id after held, ids = before ++ id :: after ∧
      (∀ other ∈ before, ∃ a, AccountAt L other a ∧
        a.status = .retryScheduled) ∧
      (∃ a, AccountAt L id a ∧
        (a.status = .queued ∨ a.status = .delivering)) ∧
      g.pending.lookup id = some held ∧
      claimFirst now group consumer minIdle (ids.map StreamId.text) db =
        (.ok (some (id.text, .delivery)), Function.update db .events
          (some (.stream ((streamAt db .events).setGroup group
            (g.reassign id consumer now held))))) := by
  induction ids with
  | nil => exact Or.inl ⟨nofun, rfl⟩
  | cons id rest ih =>
      obtain ⟨held, hheld, hidle⟩ := hids id List.mem_cons_self
      have hpending := AList.lookup_isSome.mp
        (Option.isSome_of_eq_some hheld)
      obtain ⟨entry, hentry, rfl⟩ :=
        h.stream.tidy.pending_mem g hg id hpending
      have hrange := xrange_run hevents entry.id
      rw [Stream.find_eq_some_of_mem hentry] at hrange
      obtain ⟨e, a, ha, rfl, ⟨hstatus, hskip⟩ | ⟨hstatus, hready⟩⟩ :=
        pendingDisposition_run h hentry
          ((Stream.custody_eq_pending hg).mpr hpending)
      · have hrun : claimFirst now group consumer minIdle
            ((a.current :: rest).map StreamId.text) db =
            claimFirst now group consumer minIdle (rest.map StreamId.text)
              db := by
          simp [claimFirst, Script.bind_apply, hrange, hskip]
        have hfirst : ∃ b, AccountAt L a.current b ∧
            b.status = .retryScheduled := ⟨a, ⟨rfl, e, ha⟩, hstatus⟩
        rw [hrun]
        rcases ih fun other hother => hids other (List.mem_cons_of_mem _ hother)
          with ⟨hall, hnone⟩ | ⟨before, id, after, held, rfl, hbefore, hrest⟩
        · exact Or.inl ⟨List.forall_mem_cons.mpr ⟨hfirst, hall⟩, hnone⟩
        · exact Or.inr ⟨a.current :: before, id, after, held, rfl,
            List.forall_mem_cons.mpr ⟨hfirst, hbefore⟩, hrest⟩
      · refine Or.inr ⟨[], a.current, rest, held, rfl, nofun,
          ⟨a, ⟨rfl, e, ha⟩, hstatus⟩, hheld, ?_⟩
        have hclaim := xclaim_run hevents hg hentry hheld now consumer minIdle
        rw [if_pos hidle] at hclaim
        simp [claimFirst, Script.bind_apply, hrange, hready, hclaim]

/-- `_CLAIM_STALE_PENDING_SCRIPT` moves a pending message to another worker
and never finds a violated invariant. -/
theorem claimStalePending_simulated (late : Prop)
    (h : Represents parses group db L) (now : UInt64) (consumer : String)
    (minIdle : ℕ) : Simulated parses group late db
      (claimStalePendingScript now group consumer minIdle db).2 L none none ∧
    ∀ m disposition, (claimStalePendingScript now group consumer minIdle
        db).1 = .ok (some (m, disposition)) →
      disposition = .delivery ∧ ∃ fields, HandedOut group
        (claimStalePendingScript now group consumer minIdle db).2 m fields := by
  rcases h.events with ⟨hnone, -⟩ | hevents
  · have hrun : ∃ msg, claimStalePendingScript now group consumer minIdle db =
        (.error msg, db) := by
      simp [claimStalePendingScript, Script.bind_apply, typeOf, hnone]
    obtain ⟨msg, hmsg⟩ := hrun
    rw [hmsg]
    exact ⟨simulated_same h, by simp⟩
  · have htype := typeOf_run _ hevents
    cases hg : (streamAt db .events).groups.lookup group with
    | none =>
        have hrun : claimStalePendingScript now group consumer minIdle db =
            (.error noGroup, db) := by
          simp [claimStalePendingScript, Script.bind_apply, htype, Value.kind,
            xpendingIdle, readGroup_absent h.events hg]
        rw [hrun]
        exact ⟨simulated_same h, by simp⟩
    | some g =>
        have hrun : claimStalePendingScript now group consumer minIdle db =
            claimFirst now group consumer minIdle
              ((g.idlePending now minIdle 100).map StreamId.text) db := by
          simp [claimStalePendingScript, Script.bind_apply, htype, Value.kind,
            xpendingIdle, readGroup_run hevents hg]
        rw [hrun]
        rcases claimFirst_run h hevents hg now consumer minIdle
          (g.idlePending now minIdle 100)
          (fun id hid => Group.lookup_of_mem_idlePending hid) with
          ⟨-, hnothing⟩ | ⟨-, id, -, held, -, -, -, hheld, hclaim⟩
        · rw [hnothing]
          exact ⟨simulated_same h, by simp⟩
        · have hpending := AList.lookup_isSome.mp
            (Option.isSome_of_eq_some hheld)
          rw [hclaim]
          refine ⟨⟨L, ?_, ?_, .silent ⟨by simp, by simp⟩⟩, ?_⟩
          · apply represents_setStream h
            exact h.stream.congr (Stream.tidy_reassign h.stream.tidy hg
              hpending) rfl fun entry _ => Stream.custody_reassign hg hpending _
          · rw [streamAt_update_self]
            exact Stream.Grows.reassign hg hpending
          · intro m disposition hreply
            obtain ⟨rfl, rfl⟩ :
                id.text = m ∧ Disposition.delivery = disposition := by
              simpa using hreply
            obtain ⟨entry, hentry, rfl⟩ :=
              h.stream.tidy.pending_mem g hg id hpending
            refine ⟨rfl, entry.fields, entry, ?_, rfl, rfl, ?_⟩
            · rw [streamAt_update_self]
              exact hentry
            · rw [streamAt_update_self, Stream.custody_reassign hg hpending,
                (Stream.custody_eq_pending hg).mpr hpending]
              simp

/-- The fields that both enqueue scripts write. -/
def messageFields (e : UUID) (eventType payload acceptedAt : String) : Fields :=
  [("event_id", e.text), ("event_type", eventType), ("payload", payload),
    ("accepted_at_ms", acceptedAt)]

theorem carries_messageFields (e : UUID)
    (eventType payload acceptedAt : String) :
    Carries (messageFields e eventType payload acceptedAt) e := by
  constructor <;> simp [messageFields, fieldValue, lastFieldValue]

/-- The status hash that both enqueue scripts write. -/
def initialHash (e : UUID) (id : StreamId) : Hash :=
  Hash.setAll ∅ [("event_id", e.text), ("status", EventStatus.queued.value),
    ("attempt_count", "0"), ("stream_id", id.text)]

theorem hashShows_initial (e : UUID) (id : StreamId) (fields : Fields) :
    HashShows (initialHash e id) e (.initial id fields) := by
  have hzero : toString (0 : ℕ) = "0" := by decide
  constructor <;> simp only [initialHash, setAll_cons, setAll_nil,
    Account.initial, hzero]
  · rw [AList.lookup_insert_ne (by decide), AList.lookup_insert_ne (by decide),
      AList.lookup_insert_ne (by decide), AList.lookup_insert]
  · rw [AList.lookup_insert_ne (by decide), AList.lookup_insert_ne (by decide),
      AList.lookup_insert]
  · rw [AList.lookup_insert_ne (by decide), AList.lookup_insert]
  · rw [AList.lookup_insert]
  · decide

/-- A new message and a new status hash; other keys are touched only outside
what the ledger looks at. -/
theorem simulated_accept (h : Represents parses group db L) (hnone : L e = none)
    {now : UInt64} {fields : Fields} {id : StreamId} {st : Stream}
    (hcarries : Carries fields e)
    (happend : (streamAt db .events).append now fields = some (id, st))
    {db' : Store} (hevents : db' .events = some (.stream st))
    (hkey : db' (.event e.text) = some (.hash (initialHash e id)))
    (hevent : ∀ key, key ≠ e.text → db' (.event key) = db (.event key))
    (hretries : db' .retries = db .retries)
    (hdeadLetter : db' .deadLetter = db .deadLetter)
    (hquarantine : db' .quarantine = db .quarantine) :
    Simulated parses group late db db' L (some e) none := by
  have hsame : SameRecords db db' := by
    constructor <;> simp [recordsAt, streamAt, hdeadLetter, hquarantine]
  refine ⟨L.set e (.initial id fields), ?_, ?_, .accept e id fields hnone hsame⟩
  · refine h.set (z := retrySet db) (Or.inr hevents) (hretries ▸ h.retries)
      ⟨_, hdeadLetter ▸ h.deadLetter⟩ ⟨_, hquarantine ▸ h.quarantine⟩ hkey
      (hashShows_initial e id fields) hevent
      (h.stream.accept hnone hcarries happend) ?_
      (Account.valid_initial parses id fields)
    apply h.schedule.set_same
    constructor
    · intro hflag
      exact absurd hflag (by simp [Account.initial])
    · intro hmem
      obtain ⟨e', a, htext, ha⟩ := h.schedule.members _ hmem
      rw [← UUID.text_injective htext, hnone] at ha
      exact absurd ha (by simp)
  · rw [streamAt_eq (Or.inr hevents)]
    exact Stream.Grows.append happend

/-- The enqueue script fails without a write, or appends the message and
writes the status hash of an event that has none yet. -/
theorem enqueue_run (h : Represents parses group db L) (e : UUID)
    (now : UInt64) (eventType payload acceptedAt : String) :
    (∃ msg, enqueueScript now e eventType payload acceptedAt db =
      (.error msg, db)) ∨
    L e = none ∧ ∃ id st, (streamAt db .events).append now
        (messageFields e eventType payload acceptedAt) = some (id, st) ∧
      enqueueScript now e eventType payload acceptedAt db =
        (.ok id.text, Function.update (Function.update db .events
          (some (.stream st))) (.event e.text)
          (some (.hash (initialHash e id)))) := by
  have hstreamType := holdsStream_typeOf h.events
  cases ha : L e with
  | some a =>
      obtain ⟨f, hkey, -⟩ := h.status.hash e a ha
      left
      rcases hstreamType with htype | htype <;>
        simp [enqueueScript, Script.bind_apply, htype, typeOf_run _ hkey,
          Value.kind]
  | none =>
      have habsent := h.status.absent ha
      rcases xadd_run h.events now
        (messageFields e eventType payload acceptedAt) with
        ⟨-, hfull⟩ | ⟨id, st, happend, hxadd⟩
      · left
        rw [messageFields] at hfull
        rcases hstreamType with htype | htype <;>
          simp [enqueueScript, Script.bind_apply, htype,
            typeOf_absent habsent, hfull]
      · refine Or.inr ⟨rfl, id, st, happend, ?_⟩
        rw [messageFields] at hxadd
        have hset := hset_absent (k := .event e.text)
          (d := Function.update db .events (some (.stream st)))
          (by simpa using habsent)
        rcases hstreamType with htype | htype <;>
          simp [enqueueScript, Script.bind_apply, htype,
            typeOf_absent habsent, hxadd, hset, initialHash]

/-- `_ENQUEUE_SCRIPT` accepts the event or does nothing. -/
theorem enqueue_simulated (h : Represents parses group db L) (e : UUID)
    (now : UInt64) (eventType payload acceptedAt : String) :
    Simulated parses group late db
      (enqueueScript now e eventType payload acceptedAt db).2 L
      (onOk (enqueueScript now e eventType payload acceptedAt db).1 (some e))
      none := by
  rcases enqueue_run h e now eventType payload acceptedAt with
    ⟨msg, hrun⟩ | ⟨hnone, id, st, happend, hrun⟩
  · rw [hrun]
    exact simulated_same h
  · rw [hrun]
    exact simulated_accept h hnone
      (carries_messageFields e eventType payload acceptedAt) happend
      (by simp) (by simp) (by intro key hne; simp [hne]) (by simp)
      (by simp) (by simp)

/-- The event that the idempotent enqueue script accepts. -/
def createdBy (result : Except String (Decision × String)) (e : UUID) :
    Option UUID :=
  match result with
  | .ok (.created, _) => some e
  | _ => none

/-- An existing idempotency record is only read. -/
theorem idempotentEnqueue_existing (h : Represents parses group db L)
    (e : UUID) (now : UInt64)
    (digest eventType payload fingerprint acceptedAt : String)
    (hrecord : db (.idempotency digest) ≠ none) :
    ∃ r, idempotentEnqueueScript now e digest eventType payload fingerprint
        acceptedAt db = (r, db) ∧ createdBy r e = none := by
  have hstreamType := holdsStream_typeOf h.events
  obtain ⟨v, hv⟩ := Option.ne_none_iff_exists'.mp hrecord
  obtain ⟨k, hk⟩ : ∃ k, typeOf (.event e.text) db = (.ok k, db) := ⟨_, rfl⟩
  by_cases hkind : v.kind = .hash
  · obtain ⟨f, rfl⟩ : ∃ f, v = .hash f := by
      cases v <;> simp [Value.kind] at hkind ⊢
    cases hfp : f.lookup "fingerprint" with
    | none =>
        rcases hstreamType with htype | htype <;>
          simp [idempotentEnqueueScript, Script.bind_apply, htype, hk,
            typeOf_run _ hv, Value.kind, hget_run hv, hfp, createdBy]
    | some existing =>
        cases hid : f.lookup "event_id" with
        | none =>
            rcases hstreamType with htype | htype <;>
              simp [idempotentEnqueueScript, Script.bind_apply, htype, hk,
                typeOf_run _ hv, Value.kind, hget_run hv, hfp, hid, createdBy]
        | some id =>
            by_cases hsame : existing = fingerprint <;>
              rcases hstreamType with htype | htype <;>
              simp [idempotentEnqueueScript, Script.bind_apply, htype, hk,
                typeOf_run _ hv, Value.kind, hget_run hv, hfp, hid, hsame,
                createdBy]
  · have hnone : v.kind ≠ .none := by
      cases v <;> simp [Value.kind]
    rcases hstreamType with htype | htype <;>
      simp [idempotentEnqueueScript, Script.bind_apply, htype, hk,
        typeOf_run _ hv, hkind, hnone, createdBy]

/-- Without an idempotency record the script fails without a write, or
creates the event and the record. -/
theorem idempotentEnqueue_fresh (h : Represents parses group db L)
    (e : UUID) (now : UInt64)
    (digest eventType payload fingerprint acceptedAt : String)
    (hrecord : db (.idempotency digest) = none) :
    (∃ msg, idempotentEnqueueScript now e digest eventType payload fingerprint
      acceptedAt db = (.error msg, db)) ∨
    L e = none ∧ ∃ id st, (streamAt db .events).append now
        (messageFields e eventType payload acceptedAt) = some (id, st) ∧
      idempotentEnqueueScript now e digest eventType payload fingerprint
          acceptedAt db =
        (.ok (.created, e.text), Function.update (Function.update
          (Function.update db .events (some (.stream st))) (.event e.text)
          (some (.hash (initialHash e id)))) (.idempotency digest)
          (some (.hash (Hash.setAll ∅ [("event_id", e.text),
            ("fingerprint", fingerprint)])))) := by
  have hstreamType := holdsStream_typeOf h.events
  have hrecordType := typeOf_absent hrecord
  cases ha : L e with
  | some a =>
      obtain ⟨f, hkey, -⟩ := h.status.hash e a ha
      left
      rcases hstreamType with htype | htype <;>
        simp [idempotentEnqueueScript, Script.bind_apply, htype, hrecordType,
          typeOf_run _ hkey, Value.kind]
  | none =>
      have habsent := h.status.absent ha
      rcases xadd_run h.events now
        (messageFields e eventType payload acceptedAt) with
        ⟨-, hfull⟩ | ⟨id, st, happend, hxadd⟩
      · left
        rw [messageFields] at hfull
        rcases hstreamType with htype | htype <;>
          simp [idempotentEnqueueScript, Script.bind_apply, htype,
            hrecordType, typeOf_absent habsent, hfull]
      · refine Or.inr ⟨rfl, id, st, happend, ?_⟩
        have hset := hset_absent (k := .event e.text)
          (d := Function.update db .events (some (.stream st)))
          (by simpa using habsent)
        have hput := hset_absent (k := .idempotency digest)
          (d := Function.update (Function.update db .events
            (some (.stream st))) (.event e.text)
            (some (.hash (initialHash e id))))
          (by simpa using hrecord)
          [("event_id", e.text), ("fingerprint", fingerprint)]
        rw [messageFields] at hxadd
        rw [initialHash] at hput
        rcases hstreamType with htype | htype <;>
          simp only [idempotentEnqueueScript, Script.bind_apply, htype,
            hrecordType, typeOf_absent habsent, hxadd, hset, hput,
            Script.ite_apply] <;>
          rfl

/-- `_IDEMPOTENT_ENQUEUE_SCRIPT` accepts the event when it answers `created`
and does nothing otherwise. -/
theorem idempotentEnqueue_simulated (h : Represents parses group db L)
    (e : UUID) (now : UInt64)
    (digest eventType payload fingerprint acceptedAt : String) :
    Simulated parses group late db
      (idempotentEnqueueScript now e digest eventType payload fingerprint
        acceptedAt db).2 L
      (createdBy (idempotentEnqueueScript now e digest eventType payload
        fingerprint acceptedAt db).1 e) none := by
  by_cases hrecord : db (.idempotency digest) = none
  · rcases idempotentEnqueue_fresh h e now digest eventType payload fingerprint
      acceptedAt hrecord with ⟨msg, hrun⟩ | ⟨hnone, id, st, happend, hrun⟩
    · rw [hrun]
      exact simulated_same h
    · rw [hrun]
      exact simulated_accept h hnone
        (carries_messageFields e eventType payload acceptedAt) happend
        (by simp) (by simp) (by intro key hne; simp [hne]) (by simp)
        (by simp) (by simp)
  · obtain ⟨r, hrun, hr⟩ := idempotentEnqueue_existing h e now digest eventType
      payload fingerprint acceptedAt hrecord
    rw [hrun, hr]
    exact simulated_same h

end Hooklane
