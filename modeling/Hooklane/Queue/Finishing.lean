import Hooklane.Queue.Release

/-!
# The dead-letter and quarantine scripts

Both scripts check that the message is pending before they write, append a
record to their own stream, acknowledge the message and close the account.
-/

namespace Hooklane

open Redis

variable {parses : Fields → Prop} {group : String} {late : Prop} {db : Store}
  {L : Ledger} {e : UUID} {a : Account} {f : Hash} {g : Group}

theorem holdsStream_typeOf {key : Key} {st : Stream}
    (h : HoldsStream (db key) st) :
    typeOf key db = (.ok .none, db) ∨ typeOf key db = (.ok .stream, db) := by
  rcases h with ⟨hnone, -⟩ | hsome
  · exact Or.inl (typeOf_absent hnone)
  · exact Or.inr (typeOf_run _ hsome)

theorem recordsAt_append {key : Key} {st : Stream} {now : UInt64}
    {fields : Fields} {id : StreamId}
    (happend : (streamAt db key).append now fields = some (id, st))
    {db' : Store} (hkey : db' key = some (.stream st)) :
    recordsAt db' key = recordsAt db key ++ [fields] := by
  obtain ⟨-, hentries, -, -⟩ := Stream.append_eq_some happend
  rw [recordsAt, recordsAt, streamAt_eq (Or.inr hkey), hentries,
    List.map_append, List.map_singleton]

/-- The status hash after the dead-letter script. -/
def deadLetteredHash (f : Hash) (errorClass deadLetterId : String) : Hash :=
  ((f.insert "status" EventStatus.deadLetter.value).insert "last_error_class"
    errorClass).insert "dead_letter_stream_id" deadLetterId

theorem hashShows_deadLettered (hshow : HashShows f e a)
    (errorClass deadLetterId : String) :
    HashShows (deadLetteredHash f errorClass deadLetterId) e
      { a with status := .deadLetter, custody := .acknowledged,
               scheduled := false } := by
  constructor <;> simp [deadLetteredHash, hshow.eventId, hshow.streamId,
    hshow.attempts, hshow.bounded]

/-- The writes of the dead-letter script on a pending message that is being
delivered. -/
theorem deadLetterWrites_simulated (h : Represents parses group db L)
    (ha : L e = some a)
    (hg : (streamAt db .events).groups.lookup group = some g)
    (hpending : a.current ∈ g.pending) (hdelivering : a.status = .delivering)
    (now : UInt64) (errorClass attemptCount : String) :
    Simulated parses group late db
      (deadLetterWrites now (.event e.text) e.text a.current.text group
        errorClass attemptCount a.fields db).2 L none
      (onOk (deadLetterWrites now (.event e.text) e.text a.current.text group
        errorClass attemptCount a.fields db).1 (some (e, .deadLetter))) := by
  obtain ⟨f, hkey, hshow⟩ := h.status.hash e a ha
  rcases xaddUnpacked_run h.deadLetter now (a.fields ++
      [("error_class", errorClass), ("attempt_count", attemptCount),
        ("source_stream_id", a.current.text)])
    with ⟨message, -, hfull⟩ | ⟨id, added, -, happend, hxadd⟩
  · apply simulated_of_error h
    exact ⟨message, Script.bind_error hfull _⟩
  · have hack := xack_run (k := .events)
      (d := Function.update db .deadLetter (some (.stream added)))
      (by simpa using h.events_some ha) hg a.current
    rw [if_pos hpending] at hack
    obtain ⟨v, hzrem, hv⟩ := zrem_run (z := retrySet db)
      (d := Function.update (Function.update (Function.update db .deadLetter
        (some (.stream added))) .events (some (.stream
          ((streamAt db .events).setGroup group (g.ack a.current)))))
        (.event e.text) (some (.hash (deadLetteredHash f errorClass id.text))))
      (by simpa using h.retries) e.text
    have hrun : deadLetterWrites now (.event e.text) e.text a.current.text
        group errorClass attemptCount a.fields db =
        (.ok id.text, Function.update (Function.update (Function.update
          (Function.update db .deadLetter (some (.stream added))) .events
          (some (.stream
            ((streamAt db .events).setGroup group (g.ack a.current)))))
          (.event e.text)
          (some (.hash (deadLetteredHash f errorClass id.text)))) .retries v) := by
      rw [deadLetterWrites, Script.bind_ok hxadd, Script.bind_ok hack]
      simp only [ne_eq, not_true_eq_false, if_false]
      rw [Script.bind_ok (hset_run (h := f) (by simpa using hkey) _)]
      exact Script.bind_ok hzrem _
    have hcustody : a.custody = .pending := by
      rw [← h.stream.custody e a ha]
      exact (Stream.custody_eq_pending hg).mpr hpending
    have hmove : Account.Finish parses .deadLetter a
        { a with status := .deadLetter, custody := .acknowledged,
                 scheduled := false } :=
      .deadLetter a hcustody hdelivering
    rw [hrun]
    obtain ⟨hrep, hgrows⟩ := represents_finish h ha hg hpending hmove
      (f := deadLetteredHash f errorClass id.text)
      (d := Function.update (Function.update (Function.update
          (Function.update db .deadLetter (some (.stream added))) .events
          (some (.stream
            ((streamAt db .events).setGroup group (g.ack a.current)))))
          (.event e.text)
          (some (.hash (deadLetteredHash f errorClass id.text)))) .retries v)
      (z := (retrySet db).erase e.text) (by simp) (by simpa using hv)
      ⟨added, Or.inr (by simp)⟩ ⟨_, by simpa using h.quarantine⟩ (by simp)
      (hashShows_deadLettered hshow errorClass id.text)
      (by intro key hne; simp [hne]) (h.schedule.set_erase rfl)
    refine ⟨_, hrep, hgrows, .finish e .deadLetter a _ ha hmove ⟨?_, ?_⟩⟩
    · simp
    · exact ⟨errorClass, attemptCount, recordsAt_append happend (by simp)⟩

/-- The types of all keys are as the dead-letter script wants them. -/
theorem moveToDeadLetter_run (h : Represents parses group db L)
    (ha : L e = some a) (now : UInt64) (m errorClass : String) :
    moveToDeadLetterScript now e m group errorClass db =
      moveDelivering now (.event e.text) m group errorClass db := by
  obtain ⟨f, hkey, -⟩ := h.status.hash e a ha
  have htype := typeOf_run _ hkey
  have hstreamType := typeOf_run _ (h.events_some ha)
  rcases typeOf_retries h with hretry | hretry <;>
    rcases holdsStream_typeOf h.deadLetter with hdead | hdead <;>
    simp [moveToDeadLetterScript, Script.bind_apply, htype, hstreamType,
      Value.kind, hretry, hdead]

theorem moveDelivering_simulated (h : Represents parses group db L)
    (ha : L e = some a) (now : UInt64) (m errorClass : String) :
    Simulated parses group late db
      (moveDelivering now (.event e.text) m group errorClass db).2 L none
      (onOk (moveDelivering now (.event e.text) m group errorClass db).1
        (some (e, .deadLetter))) := by
  obtain ⟨f, hkey, hshow⟩ := h.status.hash e a ha
  by_cases hm : m = a.current.text
  · subst m
    by_cases hdelivering : a.status = .delivering
    · have hrange := xrange_run (h.events_some ha) a.current
      by_cases hcount : (luaNumber a.attempts.repr).elim true
          lessThanOne
      · apply simulated_of_error h
        simp [moveDelivering, Script.bind_apply, hget_run hkey, hshow.streamId,
          hshow.status, hshow.eventId, hshow.attempts, hdelivering, hcount]
      · rcases xpending_cases (h.events_some ha) group a.current with
          hpend | hpend | ⟨g, hg, hpending, hpend⟩
        · apply simulated_of_error h
          simp [moveDelivering, Script.bind_apply, hget_run hkey,
            hshow.streamId, hshow.status, hshow.eventId, hshow.attempts,
            hdelivering, hcount, hpend]
        · apply simulated_of_error h
          simp [moveDelivering, Script.bind_apply, hget_run hkey,
            hshow.streamId, hshow.status, hshow.eventId, hshow.attempts,
            hdelivering, hcount, hpend, hrange]
        · have hfind :=
            Stream.find_eq_some_of_mem (h.stream.current e a ha)
          have hcontent := (h.stream.content e a ha).2
          have hrun : moveDelivering now (.event e.text) a.current.text group
              errorClass db =
              deadLetterWrites now (.event e.text) e.text a.current.text group
                errorClass a.attempts.repr a.fields db := by
            simp [moveDelivering, Script.bind_apply, hget_run hkey,
              hshow.streamId, hshow.status, hshow.eventId, hshow.attempts,
              hdelivering, hcount, hpend, hrange, hfind, hcontent]
          rw [hrun]
          exact deadLetterWrites_simulated h ha hg hpending hdelivering now
            errorClass _
    · have hne := value_ne hdelivering
      apply simulated_of_error h
      simp [moveDelivering, Script.bind_apply, hget_run hkey, hshow.streamId,
        hshow.status, hne]
  · apply simulated_of_error h
    simp [moveDelivering, Script.bind_apply, hget_run hkey, hshow.streamId,
      Ne.symm hm]

/-- `_MOVE_TO_DEAD_LETTER_SCRIPT` finishes the event or does nothing. -/
theorem moveToDeadLetter_simulated (h : Represents parses group db L)
    (e : UUID) (now : UInt64) (m errorClass : String) :
    Simulated parses group late db
      (moveToDeadLetterScript now e m group errorClass db).2 L none
      (onOk (moveToDeadLetterScript now e m group errorClass db).1
        (some (e, .deadLetter))) := by
  cases ha : L e with
  | none =>
      apply simulated_of_error h
      simp [moveToDeadLetterScript, Script.bind_apply, typeOf,
        h.status.absent ha]
  | some a =>
      rw [moveToDeadLetter_run h ha]
      exact moveDelivering_simulated h ha now m errorClass

/-- The status hash after the quarantine script. -/
def quarantinedHash (f : Hash) (reasonCode : String) : Hash :=
  (f.insert "status" EventStatus.deadLetter.value).insert "last_error_class"
    reasonCode

theorem hashShows_quarantined (hshow : HashShows f e a) (reasonCode : String) :
    HashShows (quarantinedHash f reasonCode) e
      { a with status := .deadLetter, custody := .acknowledged } := by
  constructor <;> simp [quarantinedHash, hshow.eventId, hshow.streamId,
    hshow.attempts, hshow.bounded]

theorem quarantineWrites_simulated (h : Represents parses group db L)
    (ha : L e = some a)
    (hg : (streamAt db .events).groups.lookup group = some g)
    (hpending : a.current ∈ g.pending) (hunknown : ¬parses a.fields)
    (now : UInt64) (reasonCode : String) :
    Simulated parses group late db
      (quarantineWrites now a.current.text group reasonCode (some e.text) true
        db).2 L none
      (onOk (quarantineWrites now a.current.text group reasonCode (some e.text)
        true db).1 (some (e, .quarantine))) := by
  obtain ⟨f, hkey, hshow⟩ := h.status.hash e a ha
  rcases xadd_run h.quarantine now [("source_stream_id", a.current.text),
      ("reason_code", reasonCode), ("event_id", e.text)]
    with ⟨-, hfull⟩ | ⟨id, added, happend, hxadd⟩
  · apply simulated_of_error h
    simp [quarantineWrites, Script.bind_apply, hfull]
  · have hack := xack_run (k := .events)
      (d := Function.update db .quarantine (some (.stream added)))
      (by simpa using h.events_some ha) hg a.current
    rw [if_pos hpending] at hack
    have hset := hset_run (k := .event e.text) (h := f)
      (d := Function.update (Function.update db .quarantine
        (some (.stream added))) .events (some (.stream
          ((streamAt db .events).setGroup group (g.ack a.current)))))
      (by simpa using hkey) [("status", EventStatus.deadLetter.value),
        ("last_error_class", reasonCode)]
    have hrun : quarantineWrites now a.current.text group reasonCode
        (some e.text) true db =
        (.ok id.text, Function.update (Function.update (Function.update db
          .quarantine (some (.stream added))) .events (some (.stream
            ((streamAt db .events).setGroup group (g.ack a.current)))))
          (.event e.text) (some (.hash (quarantinedHash f reasonCode)))) := by
      simp [quarantineWrites, Script.bind_apply, hxadd, hack, hset,
        quarantinedHash]
    have hcustody : a.custody = .pending := by
      rw [← h.stream.custody e a ha]
      exact (Stream.custody_eq_pending hg).mpr hpending
    have hmove : Account.Finish parses .quarantine a
        { a with status := .deadLetter, custody := .acknowledged } :=
      .quarantine a hcustody hunknown
    rw [hrun]
    obtain ⟨hrep, hgrows⟩ := represents_finish h ha hg hpending hmove
      (f := quarantinedHash f reasonCode)
      (d := Function.update (Function.update (Function.update db
          .quarantine (some (.stream added))) .events (some (.stream
            ((streamAt db .events).setGroup group (g.ack a.current)))))
          (.event e.text) (some (.hash (quarantinedHash f reasonCode))))
      (z := retrySet db) (by simp) (by simpa using h.retries)
      ⟨_, by simpa using h.deadLetter⟩ ⟨added, Or.inr (by simp)⟩ (by simp)
      (hashShows_quarantined hshow reasonCode)
      (by intro key hne; simp [hne])
      (h.schedule.set_same (h.schedule.scheduled e a ha))
    refine ⟨_, hrep, hgrows, .finish e .quarantine a _ ha hmove ⟨?_, ?_⟩⟩
    · simp
    · exact ⟨_, recordsAt_append happend (by simp)⟩

/-- The event carried by the message with a given id. -/
def eventOf (db : Store) (streamId : String) : Option UUID := do
  let id ← StreamId.parse streamId
  let entry ← (streamAt db .events).find id
  UUID.parse (← fieldValue entry.fields "event_id")

theorem eventOf_entry {entry : Entry}
    (hentry : entry ∈ (streamAt db .events).entries)
    (hcarries : Carries entry.fields e) :
    eventOf db entry.id.text = some e := by
  simp [eventOf, Stream.find_eq_some_of_mem hentry, hcarries.1,
    UUID.parse_text]

/-- `_QUARANTINE_MESSAGE_SCRIPT` on a message that no worker can parse. -/
theorem quarantineMessage_simulated (h : Represents parses group db L)
    {entry : Entry} (hentry : entry ∈ (streamAt db .events).entries)
    (hunknown : ¬parses entry.fields) (now : UInt64) (reasonCode : String) :
    Simulated parses group late db
      (quarantineMessageScript now entry.id.text group reasonCode db).2 L none
      (onOk (quarantineMessageScript now entry.id.text group reasonCode db).1
        ((eventOf db entry.id.text).map fun e => (e, .quarantine))) := by
  obtain ⟨e, a, ha, hfields, hid⟩ := h.stream.carried entry hentry
  have hcontent := h.stream.content e a ha
  rw [eventOf_entry hentry (hfields ▸ hcontent)]
  rw [hfields] at hunknown
  have hevents := h.events_some ha
  have hstreamType := typeOf_run _ hevents
  have hrange := xrange_run hevents entry.id
  have hquarantine := holdsStream_typeOf h.quarantine
  rcases xpending_cases hevents group entry.id with
    hpend | hpend | ⟨g, hg, hpending, hpend⟩
  · apply simulated_of_error h
    rcases hquarantine with htype | htype <;>
      simp [quarantineMessageScript, Script.bind_apply, hstreamType,
        Value.kind, htype, hpend]
  · apply simulated_of_error h
    rcases hquarantine with htype | htype <;>
      simp [quarantineMessageScript, Script.bind_apply, hstreamType,
        Value.kind, htype, hpend, hrange]
  · have hpendingCustody := (Stream.custody_eq_pending hg).mpr hpending
    have hcurrent : entry.id = a.current := by
      by_contra hne
      rw [hid hne] at hpendingCustody
      exact absurd hpendingCustody (by simp)
    have hfind : (streamAt db .events).find entry.id =
        some ⟨entry.id, a.fields⟩ := by
      rw [Stream.find_eq_some_of_mem hentry, ← hfields]
    obtain ⟨f, hkey, hshow⟩ := h.status.hash e a ha
    have hqueued : a.status = .queued := by
      have hvalid := h.valid e a ha
      have hopen := hvalid.pending
        ((h.stream.custody e a ha).symm.trans (hcurrent ▸ hpendingCustody))
      rcases hvalid.unparsed hunknown with hstatus | hstatus
      · exact hstatus
      · rw [hstatus] at hopen
        exact absurd hopen (by simp [EventStatus.Open])
    have hsafe : safeToQuarantine e.text a.current.text db = (.ok true, db) := by
      simp [safeToQuarantine, Script.bind_apply, typeOf_run _ hkey, Value.kind,
        hget_run hkey, hshow.eventId, hshow.streamId, hshow.status, hqueued]
    have huuid : (some e.text).filter isUuid = some e.text := by
      simp [Option.filter]
    have hrun : quarantineMessageScript now entry.id.text group reasonCode db =
        quarantineWrites now a.current.text group reasonCode (some e.text) true
          db := by
      rw [hcurrent] at hpend hrange hfind ⊢
      rcases hquarantine with htype | htype <;>
        simp [quarantineMessageScript, Script.bind_apply, hstreamType,
          Value.kind, htype, hpend, hrange, hfind, hcontent.1, huuid, hsafe]
    rw [hrun]
    exact quarantineWrites_simulated h ha hg (hcurrent ▸ hpending) hunknown now
      reasonCode

end Hooklane
