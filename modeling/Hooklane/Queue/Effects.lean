import Hooklane.Queue.Evaluation

/-!
# What each script does to the ledger

`Effect` lists the changes that one call can make, seen in the ledger: nothing,
the acceptance of a new event, a transition of one account, or the end of one
account together with the record that the script leaves in the dead-letter or
quarantine stream.  There is one lemma per script; the run-level results cite
these and never look at a script again.
-/

namespace Hooklane

open Redis

@[simp]
theorem streamAt_update_self (db : Store) (key : Key) (st : Stream) :
    streamAt (Function.update db key (some (.stream st))) key = st := by
  rw [streamAt, Function.update_self]

@[simp]
theorem streamAt_update_of_ne (db : Store) {key other : Key}
    (v : Option Value) (hne : other ≠ key) :
    streamAt (Function.update db key v) other = streamAt db other := by
  rw [streamAt, streamAt, Function.update_of_ne hne]

/-- The fields of the entries of a stream. -/
def recordsAt (db : Store) (key : Key) : List Fields :=
  (streamAt db key).entries.map Entry.fields

/-- Neither the dead-letter nor the quarantine stream changes. -/
structure SameRecords (db db' : Store) : Prop where
  deadLetter : recordsAt db' .deadLetter = recordsAt db .deadLetter
  quarantine : recordsAt db' .quarantine = recordsAt db .quarantine

theorem SameRecords.refl (db : Store) : SameRecords db db := ⟨rfl, rfl⟩

@[simp]
theorem recordsAt_update_of_ne (db : Store) {key other : Key}
    (v : Option Value) (hne : other ≠ key) :
    recordsAt (Function.update db key v) other = recordsAt db other := by
  rw [recordsAt, recordsAt, streamAt_update_of_ne db v hne]

/-- What the finishing scripts leave in the two record streams. -/
def Recorded (db db' : Store) (a : Account) : Ending → Prop
  | .complete => SameRecords db db'
  | .deadLetter =>
      recordsAt db' .quarantine = recordsAt db .quarantine ∧
      ∃ errorClass attemptCount, recordsAt db' .deadLetter =
        recordsAt db .deadLetter ++ [a.fields ++ [("error_class", errorClass),
          ("attempt_count", attemptCount),
          ("source_stream_id", a.current.text)]]
  | .quarantine =>
      recordsAt db' .deadLetter = recordsAt db .deadLetter ∧
      ∃ rest, recordsAt db' .quarantine =
        recordsAt db .quarantine ++
          [("source_stream_id", a.current.text) :: rest]

/-- The change that one call makes to the ledger, with the event it accepts
and the event it finishes with the way it ends. -/
inductive Effect (parses : Fields → Prop) (late : Prop) (db db' : Store)
    (L : Ledger) : Option UUID → Option (UUID × Ending) → Ledger → Prop where
  | silent (same : SameRecords db db') : Effect parses late db db' L none none L
  | accept (e : UUID) (id : StreamId) (fields : Fields) (fresh : L e = none)
      (same : SameRecords db db') :
      Effect parses late db db' L (some e) none (L.set e (.initial id fields))
  | advance (e : UUID) (a a' : Account) (known : L e = some a)
      (move : Account.Transition parses late a a')
      (same : SameRecords db db') :
      Effect parses late db db' L none none (L.set e a')
  | finish (e : UUID) (ending : Ending) (a a' : Account) (known : L e = some a)
      (move : Account.Finish parses ending a a')
      (recorded : Recorded db db' a ending) :
      Effect parses late db db' L none (some (e, ending)) (L.set e a')

/-- One call on a represented keyspace: the keyspace stays represented, the
events stream only grows, and the ledger changes by an effect. -/
def Simulated (parses : Fields → Prop) (group : String) (late : Prop)
    (db db' : Store) (L : Ledger) (accepted : Option UUID)
    (finished : Option (UUID × Ending)) : Prop :=
  ∃ L', Represents parses group db' L' ∧
    Stream.Grows group (streamAt db .events) (streamAt db' .events) ∧
    Effect parses late db db' L accepted finished L'

/-- What a script achieves, unless it fails. -/
def onOk {α β : Type} (result : Except String α) (achieved : Option β) :
    Option β :=
  match result with
  | .ok _ => achieved
  | .error _ => none

section Scripts

variable {parses : Fields → Prop} {group : String} {late : Prop} {db : Store}
  {L : Ledger}

/-- A call that leaves the keyspace alone. -/
theorem simulated_same (h : Represents parses group db L) :
    Simulated parses group late db db L none none :=
  ⟨L, h, Stream.Grows.refl _, .silent (SameRecords.refl db)⟩

/-- A script that fails before its first write. -/
theorem simulated_of_error {α : Type} {run : Except String α × Store}
    (h : Represents parses group db L) (hrun : ∃ msg, run = (.error msg, db))
    (finished : Option (UUID × Ending)) :
    Simulated parses group late db run.2 L none (onOk run.1 finished) := by
  obtain ⟨msg, rfl⟩ := hrun
  exact simulated_same h

section OneEvent

variable {e : UUID} {a b : Account} {f : Hash}

/-- A script that rewrites the status hash of one event and nothing else. -/
theorem represents_setHash (h : Represents parses group db L)
    (ha : L e = some a) (hf : HashShows f e b)
    (hcurrent : b.current = a.current) (hcustody : b.custody = a.custody)
    (hscheduled : b.scheduled = a.scheduled) (hfields : b.fields = a.fields)
    (hvalid : b.Valid parses) :
    Represents parses group
      (Function.update db (.event e.text) (some (.hash f))) (L.set e b) := by
  refine h.set (f := f) (s := streamAt db .events) (z := retrySet db)
    ?_ ?_ ⟨streamAt db .deadLetter, ?_⟩ ⟨streamAt db .quarantine, ?_⟩ ?_ hf ?_
    ?_ ?_ hvalid
  · simpa using h.events
  · simpa using h.retries
  · simpa using h.deadLetter
  · simpa using h.quarantine
  · simp
  · intro key hkey
    rw [Function.update_of_ne]
    simpa using hkey
  · refine h.stream.set ha h.stream.tidy rfl hcurrent hfields ?_ fun _ _ _ => rfl
    rw [hcustody]
    exact h.stream.custody e a ha
  · apply h.schedule.set_same
    rw [hscheduled]
    exact h.schedule.scheduled e a ha

theorem simulated_setHash (h : Represents parses group db L)
    (ha : L e = some a) (hf : HashShows f e b)
    (hcurrent : b.current = a.current) (hcustody : b.custody = a.custody)
    (hscheduled : b.scheduled = a.scheduled)
    (hmove : Account.Transition parses late a b) :
    Simulated parses group late db
      (Function.update db (.event e.text) (some (.hash f))) L none none := by
  refine ⟨L.set e b, ?_, ?_, .advance e a b ha hmove ⟨?_, ?_⟩⟩
  · exact represents_setHash h ha hf hcurrent hcustody hscheduled
      hmove.fields_eq ((h.valid e a ha).transition hmove)
  · rw [streamAt_update_of_ne db _ (by simp)]
    exact Stream.Grows.refl _
  · simp
  · simp

/-- The status hash counts at least one attempt. -/
def Started (db : Store) (e : UUID) : Prop :=
  ∃ h n, db (.event e.text) = some (.hash h) ∧
    h.lookup "attempt_count" = some (toString n) ∧ 1 ≤ n

/-- The start script fails without a write on another copy.  Otherwise the
status becomes `delivering`, and the attempt is counted unless the counter is
full. -/
theorem startDelivery_run (h : Represents parses group db L)
    (ha : L e = some a) (m : String) :
    ∃ f, db (.event e.text) = some (.hash f) ∧ HashShows f e a ∧
      ((m ≠ a.current.text ∧
          ∃ msg, countDelivery e m db = (.error msg, db)) ∨
        m = a.current.text ∧
          ((a.attempts : ℤ) + 1 < int64Bound ∧ countDelivery e m db =
              (.ok ((a.attempts : ℤ) + 1), Function.update db (.event e.text)
                (some (.hash ((f.insert "status"
                  EventStatus.delivering.value).insert "attempt_count"
                    (toString (a.attempts + 1)))))) ∨
            countDelivery e m db =
              (.error wouldOverflow, Function.update db (.event e.text)
                (some (.hash (f.insert "status"
                  EventStatus.delivering.value)))))) := by
  obtain ⟨f, hkey, hshow⟩ := h.status.hash e a ha
  refine ⟨f, hkey, hshow, ?_⟩
  by_cases hm : m = a.current.text
  · right
    refine ⟨hm, ?_⟩
    have hset : countDelivery e m db =
        hincrby (.event e.text) "attempt_count" 1
          (Function.update db (.event e.text)
            (some (.hash (f.insert "status" EventStatus.delivering.value)))) := by
      simp [countDelivery, Script.bind_apply, hget_run hkey,
        hset_run hkey, hshow.streamId, hm]
    have hcount : (f.insert "status" EventStatus.delivering.value).lookup
        "attempt_count" = some (toString a.attempts) := by
      simpa using hshow.attempts
    rw [hset, hincrby_run (Function.update_self ..) hcount hshow.bounded,
      Function.update_idem]
    split
    · next hroom => exact Or.inl ⟨hroom, rfl⟩
    · exact Or.inr rfl
  · left
    refine ⟨hm, ?_⟩
    simp [countDelivery, Script.bind_apply, hget_run hkey,
      hshow.streamId, Ne.symm hm]

/-- Lua rounds no count before 2^53 attempts of an event have been counted. -/
theorem evaluated_startDelivery (h : Represents parses group db L)
    (ha : L e = some a) (hfew : a.attempts < 2 ^ 53) (m : String)
    (now : UInt64) :
    (RedisCall.startDelivery e m).evaluated now db =
      (RedisCall.startDelivery e m).script now db := by
  have hsmall : ((a.attempts : ℤ) + 1).natAbs ≤ 2 ^ 53 := by omega
  obtain ⟨f, -, -, hcases⟩ := startDelivery_run h ha m
  rcases hcases with ⟨-, msg, hrun⟩ | ⟨-, ⟨-, hrun⟩ | hrun⟩
  · simp [RedisCall.evaluated, RedisCall.script, startDeliveryScript_eq, hrun,
      Except.map]
  · exact startDeliveryScript_exact hrun hsmall
  · simp [RedisCall.evaluated, RedisCall.script, startDeliveryScript_eq, hrun,
      Except.map]

/-- `_START_DELIVERY_SCRIPT`: refused on another copy; otherwise the status
becomes `delivering`, and the attempt is counted unless the counter is full. -/
theorem startDelivery_simulated (h : Represents parses group db L)
    (ha : L e = some a) (hknown : parses a.fields) {m : String}
    (hheld : m = a.current.text → a.custody ≠ .unread)
    (hlate : m = a.current.text → a.custody = .acknowledged → late) :
    Simulated parses group late db (countDelivery e m db).2 L none none ∧
    ∀ n, (countDelivery e m db).1 = .ok n →
      Started (countDelivery e m db).2 e := by
  obtain ⟨f, hkey, hshow, ⟨-, msg, hrun⟩ | ⟨hm, ⟨hroom, hrun⟩ | hrun⟩⟩ :=
    startDelivery_run h ha m
  · rw [hrun]
    exact ⟨simulated_same h, by simp⟩
  · rw [hrun]
    refine ⟨?_, ?_⟩
    · refine simulated_setHash h ha (b := { a with
        status := .delivering, attempts := a.attempts + 1 }) ?_ rfl rfl rfl ?_
      · constructor <;> simp [hshow.eventId, hshow.streamId, hroom]
      · exact .start a (hheld hm) hknown (hlate hm) _ (Nat.le_succ _)
    · intro n _
      exact ⟨_, a.attempts + 1, Function.update_self .., by simp, by simp⟩
  · rw [hrun]
    refine ⟨?_, by simp⟩
    refine simulated_setHash h ha (b := { a with
      status := .delivering, attempts := a.attempts }) ?_ rfl rfl rfl ?_
    · constructor <;> simp [hshow.eventId, hshow.streamId, hshow.attempts,
        hshow.bounded]
    · exact .start a (hheld hm) hknown (hlate hm) _ le_rfl

theorem typeOf_retries (h : Represents parses group db L) :
    typeOf .retries db = (.ok .none, db) ∨
      typeOf .retries db = (.ok .zset, db) := by
  rcases h.retries with ⟨hnone, -⟩ | hsome
  · exact Or.inl (typeOf_absent hnone)
  · exact Or.inr (typeOf_run _ hsome)

/-- The status hash of an event whose retry was scheduled. -/
def scheduledHash (f : Hash) (errorClass : String) : Hash :=
  (f.insert "status" EventStatus.retryScheduled.value).insert
    "last_error_class" errorClass

/-- The schedule script fails without a write on another copy, and otherwise
writes the status and the due time. -/
theorem scheduleRetry_run (h : Represents parses group db L)
    (ha : L e = some a) (m errorClass : String) (dueAtMs : ℤ) :
    ∃ f, db (.event e.text) = some (.hash f) ∧ HashShows f e a ∧
      ((m ≠ a.current.text ∧ ∃ msg,
          scheduleRetryScript e m errorClass dueAtMs db = (.error msg, db)) ∨
        m = a.current.text ∧ scheduleRetryScript e m errorClass dueAtMs db =
          (.ok 1, Function.update (Function.update db (.event e.text)
            (some (.hash (scheduledHash f errorClass)))) .retries
            (some (.zset ((retrySet db).insert e.text
              ((dueAtMs : ℚ) : Score)))))) := by
  obtain ⟨f, hkey, hshow⟩ := h.status.hash e a ha
  refine ⟨f, hkey, hshow, ?_⟩
  have htype := typeOf_run _ hkey
  have hretry := typeOf_retries h
  by_cases hm : m = a.current.text
  · right
    refine ⟨hm, ?_⟩
    have hzadd := zadd_run (d := Function.update db (.event e.text)
      (some (.hash (scheduledHash f errorClass)))) (z := retrySet db)
      (by simpa using h.retries) ((dueAtMs : ℚ) : Score) e.text
    rw [scheduledHash] at hzadd ⊢
    rcases hretry with hretry | hretry <;>
      simp [scheduleRetryScript, Script.bind_apply, htype, Value.kind, hretry,
        hget_run hkey, hset_run hkey, hshow.streamId, hm, hzadd]
  · left
    refine ⟨hm, ?_⟩
    rcases hretry with hretry | hretry <;>
      simp [scheduleRetryScript, Script.bind_apply, htype, Value.kind, hretry,
        hget_run hkey, hshow.streamId, Ne.symm hm]

/-- `_SCHEDULE_RETRY_SCRIPT`: like the start of a delivery, it only compares
the stream id. -/
theorem scheduleRetry_simulated (h : Represents parses group db L)
    (ha : L e = some a) (hknown : parses a.fields) {m : String}
    (hheld : m = a.current.text → a.custody ≠ .unread)
    (hlate : m = a.current.text → a.custody = .acknowledged → late)
    (hstarted : 1 ≤ a.attempts) (errorClass : String) (dueAtMs : ℤ) :
    Simulated parses group late db
      (scheduleRetryScript e m errorClass dueAtMs db).2 L none none := by
  obtain ⟨f, hkey, hshow, ⟨-, msg, hrun⟩ | ⟨hm, hrun⟩⟩ :=
    scheduleRetry_run h ha m errorClass dueAtMs
  · rw [hrun]
    exact simulated_same h
  · have hmove : Account.Transition parses late a
        { a with status := .retryScheduled, scheduled := true } :=
      .schedule a (hheld hm) hknown (hlate hm) hstarted
    rw [hrun]
    refine ⟨L.set e { a with status := .retryScheduled, scheduled := true },
      ?_, ?_, .advance e a _ ha hmove ⟨?_, ?_⟩⟩
    · refine h.set (s := streamAt db .events)
        (z := (retrySet db).insert e.text ((dueAtMs : ℚ) : Score))
        (f := scheduledHash f errorClass)
        (by simpa using h.events) (Or.inr (by simp))
        ⟨_, by simpa using h.deadLetter⟩ ⟨_, by simpa using h.quarantine⟩
        (by simp) ?_ ?_ ?_ ?_ ((h.valid e a ha).transition hmove)
      · constructor <;> simp [scheduledHash, hshow.eventId, hshow.streamId,
          hshow.attempts, hshow.bounded]
      · intro key hne
        simp [hne]
      · exact h.stream.set ha h.stream.tidy rfl rfl rfl
          (h.stream.custody e a ha) fun _ _ _ => rfl
      · exact h.schedule.set_insert _ rfl
    · simpa using Stream.Grows.refl _
    · simp
    · simp

section Finishing

variable {g : Group} {ending : Ending}

/-- The current copy is acknowledged and the account is closed. -/
theorem represents_finish (h : Represents parses group db L)
    (ha : L e = some a)
    (hg : (streamAt db .events).groups.lookup group = some g)
    (hpending : a.current ∈ g.pending)
    (hmove : Account.Finish parses ending a b) {d : Store} {z : ZSet}
    (hevents : d .events = some (.stream
      ((streamAt db .events).setGroup group (g.ack a.current))))
    (hretries : HoldsZSet (d .retries) z)
    (hdeadLetter : ∃ dl, HoldsStream (d .deadLetter) dl)
    (hquarantine : ∃ q, HoldsStream (d .quarantine) q)
    (hkey : d (.event e.text) = some (.hash f)) (hf : HashShows f e b)
    (hsame : ∀ key, key ≠ e.text → d (.event key) = db (.event key))
    (hschedule : ScheduleShows z (L.set e b)) :
    Represents parses group d (L.set e b) ∧
      Stream.Grows group (streamAt db .events) (streamAt d .events) := by
  have htidy := h.stream.tidy
  have hstream : StreamShows group
      ((streamAt db .events).setGroup group (g.ack a.current))
      (L.set e b) := by
    refine h.stream.set ha (Stream.tidy_ack htidy hg _) rfl hmove.current_eq
      hmove.fields_eq ?_ ?_
    · rw [Stream.custody_ack_self htidy hg hpending, hmove.acknowledged.2]
    · intro entry _ hne
      exact Stream.custody_ack_other hg hne
  refine ⟨?_, ?_⟩
  · exact h.set (Or.inr hevents) hretries hdeadLetter hquarantine hkey hf hsame
      hstream hschedule hmove.valid
  · rw [streamAt_eq (Or.inr hevents)]
    exact Stream.Grows.ack htidy hg hpending

/-- `_COMPLETE_DELIVERY_SCRIPT` finishes a pending copy or does nothing. -/
theorem completeDelivery_simulated (h : Represents parses group db L)
    (ha : L e = some a) (hknown : parses a.fields) (m : String) :
    Simulated parses group late db (completeDeliveryScript e m group db).2 L
      none (onOk (completeDeliveryScript e m group db).1
        (some (e, .complete))) := by
  obtain ⟨f, hkey, hshow⟩ := h.status.hash e a ha
  by_cases hm : m = a.current.text
  · subst m
    rcases xack_cases (h.events_some ha) group a.current with
      ⟨g, hg, hpending, hack⟩ | ⟨-, hack⟩
    · have hrun : completeDeliveryScript e a.current.text group db =
          (.ok 1, Function.update (Function.update db .events (some (.stream
            ((streamAt db .events).setGroup group (g.ack a.current)))))
            (.event e.text)
            (some (.hash (f.insert "status" EventStatus.delivered.value)))) := by
        simp [completeDeliveryScript, Script.bind_apply, hget_run hkey, hack,
          hset_run (h := f), hshow.streamId, hkey]
      have hcustody : a.custody = .pending := by
        rw [← h.stream.custody e a ha]
        exact (Stream.custody_eq_pending hg).mpr hpending
      have hmove : Account.Finish parses .complete a
          { a with status := .delivered, custody := .acknowledged } :=
        .complete a hcustody hknown
      rw [hrun]
      obtain ⟨hrep, hgrows⟩ := represents_finish h ha hg hpending hmove
        (d := Function.update (Function.update db .events (some (.stream
            ((streamAt db .events).setGroup group (g.ack a.current)))))
            (.event e.text)
            (some (.hash (f.insert "status" EventStatus.delivered.value))))
        (z := retrySet db) (by simp) (by simpa using h.retries)
        ⟨_, by simpa using h.deadLetter⟩ ⟨_, by simpa using h.quarantine⟩
        (Function.update_self ..)
        (by constructor <;> simp [hshow.eventId, hshow.streamId,
              hshow.attempts, hshow.bounded])
        (by intro key hne; simp [hne])
        (h.schedule.set_same (h.schedule.scheduled e a ha))
      exact ⟨_, hrep, hgrows, .finish e .complete a _ ha hmove
        ⟨by simp, by simp⟩⟩
    · apply simulated_of_error h
      simp [completeDeliveryScript, Script.bind_apply, hget_run hkey, hack,
        hshow.streamId]
  · apply simulated_of_error h
    simp [completeDeliveryScript, Script.bind_apply, hget_run hkey,
      hshow.streamId, Ne.symm hm]

end Finishing

end OneEvent

end Scripts

end Hooklane
