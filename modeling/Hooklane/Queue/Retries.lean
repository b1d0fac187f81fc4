import Hooklane.Queue.Frames
import Hooklane.Queue.Invariant

/-!
# Counting starts, retries and copies

The history says how often each event was started, scheduled for a retry and
requeued.  The status hash and the events stream bound these numbers against
each other, in every run of permitted calls.
-/

namespace Hooklane

open Redis Support

/-- The attempt number that the start of a delivery of `e` returned. -/
def startedBy (e : UUID) :
    (call : RedisCall) → Except String call.Value → Option ℤ
  | .startDelivery e' _, .ok n => if e' = e then some n else none
  | _, _ => none

/-- The event that a call scheduled for a retry, and its due time. -/
def scheduledBy :
    (call : RedisCall) → Except String call.Value → Option (UUID × ℤ)
  | .scheduleRetry e _ _ dueAtMs, .ok _ => some (e, dueAtMs)
  | _, _ => none

/-- The member that a release requeued, and the time it was told. -/
def requeuedBy (db : Store) :
    (call : RedisCall) → Except String call.Value → Option (String × ℤ)
  | .releaseDueRetry _ nowMs, result =>
      if result = .ok 1 then
        ((retrySet db).upTo ((nowMs : ℚ) : Score)).head?.map
          fun m => (m, nowMs)
      else none
  | _, _ => none

namespace Record

def started (e : UUID) : Record → Option ℤ
  | .executed _ call result => startedBy e call result
  | .delivered _ _ => none

def scheduled : Record → Option (UUID × ℤ)
  | .executed _ call result => scheduledBy call result
  | .delivered _ _ => none

def requeued : Record → Option (String × ℤ)
  | .executed before call result => requeuedBy before call result
  | .delivered _ _ => none

end Record

namespace World

/-- The attempt numbers of an event, in commit order. -/
def starts (w : World) (e : UUID) : List ℤ :=
  w.history.filterMap (Record.started e)

/-- The committed retries of an event. -/
def schedules (w : World) (e : UUID) : ℕ :=
  (w.history.filterMap Record.scheduled).countP fun p => p.1 = e

/-- The requeues of an event. -/
def requeues (w : World) (e : UUID) : ℕ :=
  (w.history.filterMap Record.requeued).countP fun p => p.1 = e.text

end World

/-- The entries of the events stream that carry an event. -/
def copies (db : Store) (e : UUID) : List Entry :=
  (streamAt db .events).entries.filter
    fun entry => fieldValue entry.fields "event_id" = some e.text

section History

variable {w : World} {call : RedisCall} {now : UInt64} {e : UUID}

theorem starts_run : (w.run call now).starts e = w.starts e ++
    (startedBy e call (call.script now w.store).1).toList := by
  rw [World.starts, World.run, List.filterMap_append]
  rfl

theorem schedules_run : (w.run call now).schedules e = w.schedules e +
    ((scheduledBy call (call.script now w.store).1).toList.countP
      fun p => p.1 = e) := by
  rw [World.schedules, World.run, List.filterMap_append, List.countP_append]
  rfl

theorem requeues_run : (w.run call now).requeues e = w.requeues e +
    ((requeuedBy w.store call (call.script now w.store).1).toList.countP
      fun p => p.1 = e.text) := by
  rw [World.requeues, World.run, List.filterMap_append, List.countP_append]
  rfl

theorem starts_deliver (event : QueuedEvent) (reply : SinkReply) :
    (w.deliver event reply).starts e = w.starts e := by
  rw [World.starts, World.deliver, List.filterMap_append]
  exact List.append_nil _

theorem schedules_deliver (event : QueuedEvent) (reply : SinkReply) :
    (w.deliver event reply).schedules e = w.schedules e := by
  rw [World.schedules, World.deliver, List.filterMap_append]
  simp [Record.scheduled, World.schedules]

theorem requeues_deliver (event : QueuedEvent) (reply : SinkReply) :
    (w.deliver event reply).requeues e = w.requeues e := by
  rw [World.requeues, World.deliver, List.filterMap_append]
  simp [Record.requeued, World.requeues]

end History

section Attempts

variable {lib : Stdlib} {group : String} {w : World} {L : Ledger} {e : UUID}

/-- The attempt numbers of the event are 1 to `n`, and `n` is what its status
hash says. -/
def CountsAttempts (e : UUID) (w : World) : Prop :=
  ∃ n : ℕ, w.starts e = (List.range n).map (fun i : ℕ => (i : ℤ) + 1) ∧
    (statusField w.store e "attempt_count").getD "0" = toString n

/-- What the status hash of an event without an account says. -/
theorem statusField_absent {db : Store} {parses : Fields → Prop}
    (h : Represents parses group db L) (hnone : L e = none) (field : String) :
    statusField db e field = none := by
  rw [statusField, h.status.absent hnone]

theorem toString_nat_inj {n k : ℕ} (h : toString n = toString k) : n = k := by
  have hvalue := congrArg decimalValue h
  rw [decimalValue_natRepr, decimalValue_natRepr, Option.some.injEq] at hvalue
  exact hvalue

theorem statusField_hash {db : Store} {f : Hash}
    (hkey : db (.event e.text) = some (.hash f)) (field : String) :
    statusField db e field = f.lookup field := by
  rw [statusField, hkey]

/-- A call that starts nothing keeps the attempt counter of every event; a
missing counter counts as zero. -/
theorem attemptCount_kept (h : Represents (Parses lib) group w.store L)
    {call : RedisCall} (hcall : ∀ m, call ≠ .startDelivery e m)
    (now : UInt64) :
    (statusField (w.run call now).store e "attempt_count").getD "0" =
      (statusField w.store e "attempt_count").getD "0" := by
  have hfresh : ∀ {db : Store} id, L e = none →
      db (.event e.text) = some (.hash (initialHash e id)) →
      (statusField db e "attempt_count").getD "0" =
        (statusField w.store e "attempt_count").getD "0" := by
    intro db id hnone hkey
    rw [statusField_absent h hnone, statusField_hash hkey,
      (hashShows_initial e id []).attempts]
    exact (by decide : toString (0 : ℕ) = "0")
  cases call with
  | enqueue e' eventType payload acceptedAt =>
      by_cases he : e.text = e'.text
      · obtain rfl := UUID.text_injective he
        rcases enqueue_run h e now eventType payload acceptedAt with
          ⟨msg, hrun⟩ | ⟨hnone, id, st, -, hrun⟩
        · rw [World.run, RedisCall.script, hrun]
        · rw [World.run, RedisCall.script, hrun]
          exact hfresh id hnone (by simp)
      · rw [World.run, statusField_kept] <;> simp [RedisCall.MayWrite, he]
  | idempotentEnqueue e' digest eventType payload fingerprint acceptedAt =>
      by_cases he : e.text = e'.text
      · obtain rfl := UUID.text_injective he
        by_cases hrecord : w.store (.idempotency digest) = none
        · rcases idempotentEnqueue_fresh h e now digest eventType payload
            fingerprint acceptedAt hrecord with
            ⟨msg, hrun⟩ | ⟨hnone, id, st, -, hrun⟩
          · rw [World.run, RedisCall.script, hrun]
          · rw [World.run, RedisCall.script, hrun]
            exact hfresh id hnone (by simp)
        · obtain ⟨r, hrun, -⟩ := idempotentEnqueue_existing h e now digest
            eventType payload fingerprint acceptedAt hrecord
          rw [World.run, RedisCall.script, hrun]
      · rw [World.run, statusField_kept] <;> simp [RedisCall.MayWrite, he]
  | startDelivery e' m =>
      have he : e.text ≠ e'.text := fun he =>
        hcall m (by rw [UUID.text_injective he])
      rw [World.run, statusField_kept] <;> simp [RedisCall.MayWrite, he]
  | _ => rw [World.run, statusField_kept] <;> simp [RedisCall.MayWrite]

/-- Every start returns the next attempt number. -/
theorem CountsAttempts.run (hcount : CountsAttempts e w)
    (h : Represents (Parses lib) group w.store L) {call : RedisCall}
    (hmay : May lib group w (.redis call)) (now : UInt64) :
    CountsAttempts e (w.run call now) := by
  obtain ⟨n, hstarts, hfield⟩ := hcount
  by_cases hcall : ∃ m, call = .startDelivery e m
  · obtain ⟨m, rfl⟩ := hcall
    obtain ⟨a, ha, -, -⟩ := Held.account hmay h
    have hn : a.attempts = n := by
      rw [(statusField_eq h ha).2.1] at hfield
      exact toString_nat_inj hfield
    subst hn
    obtain ⟨f, hkey, hshow, ⟨-, msg, hrun⟩ | ⟨-, ⟨-, hrun⟩ | hrun⟩⟩ :=
      startDelivery_run h ha m
    · refine ⟨a.attempts, ?_, ?_⟩
      · rw [starts_run, RedisCall.script, hrun, hstarts]
        simp [startedBy]
      · rw [World.run, RedisCall.script, hrun]
        exact hfield
    · refine ⟨a.attempts + 1, ?_, ?_⟩
      · rw [starts_run, RedisCall.script, hrun, hstarts, List.range_succ]
        simp [startedBy]
      · rw [World.run, RedisCall.script, hrun]
        rw [statusField_hash (Function.update_self ..)]
        simp
    · refine ⟨a.attempts, ?_, ?_⟩
      · rw [starts_run, RedisCall.script, hrun, hstarts]
        simp [startedBy]
      · rw [World.run, RedisCall.script, hrun]
        rw [statusField_hash (Function.update_self ..)]
        simp [hshow.attempts]
  · have hother : ∀ m, call ≠ .startDelivery e m :=
      fun m hm => hcall ⟨m, hm⟩
    refine ⟨n, ?_, ?_⟩
    · have hnone : startedBy e call (call.script now w.store).1 = none := by
        cases call with
        | startDelivery e' m =>
            have he : e' ≠ e := fun he => hother m (by rw [he])
            cases (RedisCall.startDelivery e' m).script now w.store |>.1 <;>
              simp [startedBy, he]
        | _ => rfl
      rw [starts_run, hnone, hstarts]
      simp
    · rw [attemptCount_kept h hother now, hfield]

/-- In every run the attempt numbers of an event are 1, 2, 3 and so on. -/
theorem reach_countsAttempts {G : World → Op → Prop}
    (h : redisMachine.Reach (fun w op => May lib group w op ∧ G w op) w)
    (e : UUID) : CountsAttempts e w := by
  refine reach_invariant ⟨0, rfl, rfl⟩ ?_ ?_ h
  · rintro w event reply ⟨n, hstarts, hfield⟩
    exact ⟨n, (starts_deliver event reply).trans hstarts, hfield⟩
  · rintro w L call now hL hmay - hcount
    exact hcount.run hL.represents hmay now

end Attempts

section Requeues

variable {lib : Stdlib} {group : String} {w : World} {L : Ledger} {e : UUID}
  {parses : Fields → Prop} {db : Store} {a : Account}

theorem removeInvalidRecord_ne_one (m : String) (db : Store) :
    (removeInvalidRecord m db).1 ≠ .ok 1 := by
  intro h
  obtain ⟨safe, -, h⟩ := Script.bind_returns h
  cases safe with
  | false =>
      obtain ⟨-, -, h⟩ := Script.bind_returns h
      cases h
  | true =>
      obtain ⟨-, -, h⟩ := Script.bind_returns h
      obtain ⟨-, -, h⟩ := Script.bind_returns h
      cases h

/-- The copy of a requeued message: what the script left behind. -/
structure RequeuedCopy (db db' : Store) (e : UUID) (a : Account) : Prop where
  due : a.status = .retryScheduled
  pending : a.custody = .pending
  entries : ∃ id, (streamAt db' .events).entries =
    (streamAt db .events).entries ++ [⟨id, a.fields⟩]
  status : statusField db' e "status" = some EventStatus.queued.value
  others : ∀ e' field, e' ≠ e →
    statusField db' e' field = statusField db e' field

/-- No event is requeued: a field of a status hash is kept or written, and a
status can only become `dead_letter`. -/
def NoneRequeued (db db' : Store) : Prop :=
  ∀ e field, statusField db' e field = statusField db e field ∨
    ∃ text, statusField db' e field = some text ∧
      (field = "status" → text = EventStatus.deadLetter.value)

theorem removeInvalidRecord_noneRequeued (e : UUID) (db : Store) :
    NoneRequeued db (removeInvalidRecord e.text db).2 := by
  have hwrites := writes_removeInvalidRecord (m := e.text)
    (P := fun w => w = .hset (.event e.text) "status"
        EventStatus.deadLetter.value ∨
      w = .hset (.event e.text) "last_error_class" "invariant_violation" ∨
      w = .zrem .retries e.text) (Or.inl rfl) (Or.inr (Or.inl rfl))
    (Or.inr (Or.inr rfl)) db
  intro e' field
  have hkind : ∀ w : Write Key, (w = .hset (.event e.text) "status"
        EventStatus.deadLetter.value ∨
      w = .hset (.event e.text) "last_error_class" "invariant_violation" ∨
      w = .zrem .retries e.text) → w.key = .event e'.text →
      (∃ g text, w = .hset (.event e'.text) g text) ∨
        ∃ g, w = .hdel (.event e'.text) g := by
    rintro w (rfl | rfl | rfl) hkey
    · rw [← hkey]
      exact Or.inl ⟨_, _, rfl⟩
    · rw [← hkey]
      exact Or.inl ⟨_, _, rfl⟩
    · cases hkey
  rcases Wrote.fieldAt_cases hwrites hkind with h | ⟨text, h, hfield⟩ | ⟨h, -⟩
  · exact Or.inl h
  · refine Or.inr ⟨text, hfield, ?_⟩
    rintro rfl
    simp only [Write.hset.injEq, true_and, reduceCtorEq, or_false] at h
    rcases h with ⟨-, h⟩ | ⟨-, h, -⟩
    · exact h
    · exact absurd h (by decide)
  · simp at h

/-- A release that answers 1 has requeued the first due member, and any other
release appends and requeues nothing. -/
theorem releaseDueRetry_outcome (h : Represents parses group db L)
    (now : UInt64) (nowMs : ℤ) :
    ((releaseDueRetryScript now group nowMs db).1 ≠ .ok 1 ∧
      (streamAt (releaseDueRetryScript now group nowMs db).2 .events).entries =
        (streamAt db .events).entries ∧
      NoneRequeued db (releaseDueRetryScript now group nowMs db).2) ∨
    (releaseDueRetryScript now group nowMs db).1 = .ok 1 ∧
      ∃ e a, ((retrySet db).upTo ((nowMs : ℚ) : Score)).head? = some e.text ∧
        L e = some a ∧ RequeuedCopy db
          (releaseDueRetryScript now group nowMs db).2 e a := by
  rcases releaseDueRetry_run h now nowMs with
    ⟨r, hr, hrun⟩ | ⟨e, a, hhead, ha, hrun⟩
  · rw [hrun]
    exact Or.inl ⟨hr, rfl, fun _ _ => Or.inl rfl⟩
  · rw [hrun]
    rcases releaseMember_run h ha now with
      ⟨g, hg, hpending, hdue, hrun⟩ | ⟨-, hrun⟩
    · rw [hrun]
      obtain ⟨f, hkey, hshow⟩ := h.status.hash e a ha
      have hmem : "event_id" ∈ f := by
        rw [← AList.lookup_isSome, hshow.eventId]
        rfl
      rcases requeueMessage_run (h.events_some ha) hg
        (StreamId.parse_text a.current) hpending hkey hmem h.retries now
        a.fields with
        ⟨message, -, hfull⟩ | ⟨id, added, v, -, happend, -, hdone⟩
      · rw [hfull]
        exact Or.inl ⟨nofun, rfl, fun _ _ => Or.inl rfl⟩
      · rw [hdone]
        refine Or.inr ⟨rfl, e, a, hhead, ha, hdue, ?_, ⟨id, ?_⟩, ?_, ?_⟩
        · rw [← h.stream.custody e a ha]
          exact (Stream.custody_eq_pending hg).mpr hpending
        · simpa [Stream.setGroup] using (Stream.append_eq_some happend).2.1
        · rw [statusField_hash (f := requeuedHash f id) (by simp)]
          exact (hashShows_requeued hshow id).status
        · intro e' field hne
          have htext : e'.text ≠ e.text := fun h => hne (UUID.text_injective h)
          exact fieldAt_congr (by simp [htext]) field
    · rw [hrun]
      refine Or.inl ⟨removeInvalidRecord_ne_one _ _, ?_,
        removeInvalidRecord_noneRequeued e db⟩
      have hwrites := writes_removeInvalidRecord (m := e.text)
        (P := fun w => w.key ≠ Key.events) (by simp [Write.key])
        (by simp [Write.key]) (by simp [Write.key]) db
      have hkept := Wrote.untouched hwrites fun w hw => hw
      rw [streamAt, streamAt, hkept]

theorem requeues_release {g : String} {now : UInt64} {nowMs : ℤ} {e' : UUID}
    (hone : (releaseDueRetryScript now g nowMs w.store).1 = .ok 1)
    (hhead : ((retrySet w.store).upTo ((nowMs : ℚ) : Score)).head? =
      some e'.text) :
    (w.run (.releaseDueRetry g nowMs) now).requeues e =
      w.requeues e + if e' = e then 1 else 0 := by
  rw [requeues_run]
  simp [RedisCall.script, requeuedBy, hone, hhead, UUID.text_injective.eq_iff]

/-- Requeues of an event, with the one that it waits for, do not outnumber
its committed retries. -/
def CoversRequeues (e : UUID) (w : World) : Prop :=
  w.requeues e + (if statusField w.store e "status" =
    some EventStatus.retryScheduled.value then 1 else 0) ≤ w.schedules e

/-- Only a committed retry lets an event wait. -/
theorem waiting_of_run {call : RedisCall}
    (hcall : ∀ m errorClass due, call ≠ .scheduleRetry e m errorClass due)
    {now : UInt64} (hwaiting : statusField (call.script now db).2 e "status" =
      some EventStatus.retryScheduled.value) :
    statusField db e "status" = some EventStatus.retryScheduled.value := by
  rcases statusField_run call now db e "status" with
    h | ⟨text, hwrite, h⟩ | ⟨-, h⟩
  · rw [← h, hwaiting]
  · obtain rfl := Option.some.inj (h.symm.trans hwaiting)
    exfalso
    cases call with
    | scheduleRetry e' m errorClass due =>
        have he : e.text ≠ e'.text := fun he =>
          hcall m errorClass due (by rw [UUID.text_injective he])
        simp [RedisCall.MayWrite, he] at hwrite
    | _ => simp [RedisCall.MayWrite, EventStatus.value] at hwrite
  · rw [hwaiting] at h
    cases h

theorem CoversRequeues.run (hcovers : CoversRequeues e w)
    (h : Represents (Parses lib) group w.store L) {call : RedisCall}
    (hmay : May lib group w (.redis call)) (now : UInt64) :
    CoversRequeues e (w.run call now) := by
  rw [CoversRequeues] at hcovers ⊢
  by_cases hschedule : ∃ m errorClass due,
      call = .scheduleRetry e m errorClass due
  · obtain ⟨m, errorClass, due, rfl⟩ := hschedule
    obtain ⟨a, ha, -, -⟩ := Held.account hmay.1 h
    obtain ⟨f, hkey, hshow, ⟨-, msg, hrun⟩ | ⟨-, hrun⟩⟩ :=
      scheduleRetry_run h ha m errorClass due
    · have hstore : (w.run (.scheduleRetry e m errorClass due) now).store =
          w.store := by
        rw [World.run, RedisCall.script, hrun]
      rw [requeues_run, schedules_run, hstore]
      simpa [RedisCall.script, hrun, scheduledBy, requeuedBy] using hcovers
    · rw [requeues_run, schedules_run]
      simp only [RedisCall.script, hrun, scheduledBy, requeuedBy,
        Option.toList_some, Option.toList_none, List.countP_nil,
        List.countP_singleton, decide_true, if_true, Nat.add_zero]
      have hone : (if statusField (w.run (.scheduleRetry e m errorClass due)
          now).store e "status" = some EventStatus.retryScheduled.value
            then 1 else 0) ≤ 1 := by
        split <;> omega
      omega
  · have hother : ∀ m errorClass due,
        call ≠ .scheduleRetry e m errorClass due :=
      fun m errorClass due hcall => hschedule ⟨m, errorClass, due, hcall⟩
    have hwaiting : (if statusField (w.run call now).store e "status" =
          some EventStatus.retryScheduled.value then 1 else 0) ≤
        if statusField w.store e "status" =
          some EventStatus.retryScheduled.value then 1 else 0 := by
      split
      · next hnow => rw [if_pos (waiting_of_run hother hnow)]
      · exact Nat.zero_le _
    have hschedules : w.schedules e ≤ (w.run call now).schedules e := by
      rw [schedules_run]
      exact Nat.le_add_right _ _
    by_cases hrelease : ∃ g nowMs, call = .releaseDueRetry g nowMs
    · obtain ⟨g, nowMs, rfl⟩ := hrelease
      obtain rfl : g = group := hmay
      rcases releaseDueRetry_outcome h now nowMs with
        ⟨hne, -⟩ | ⟨hone, e', a, hhead, ha, hcopy⟩
      · have hnone : (w.run (.releaseDueRetry g nowMs) now).requeues e =
            w.requeues e := by
          rw [requeues_run]
          simp [RedisCall.script, requeuedBy, hne]
        omega
      · have hcount := requeues_release (e := e) hone hhead
        by_cases he : e' = e
        · subst he
          have hbefore : statusField w.store e' "status" =
              some EventStatus.retryScheduled.value := by
            rw [(statusField_eq h ha).1, hcopy.due]
          have hafter : statusField (w.run (.releaseDueRetry g nowMs)
              now).store e' "status" ≠
                some EventStatus.retryScheduled.value := by
            rw [World.run, RedisCall.script, hcopy.status]
            decide
          rw [if_pos hbefore] at hcovers
          rw [if_neg hafter, hcount, if_pos rfl]
          omega
        · rw [hcount, if_neg he]
          omega
    · have hnone : (w.run call now).requeues e = w.requeues e := by
        rw [requeues_run]
        cases call with
        | releaseDueRetry g nowMs => exact absurd ⟨g, nowMs, rfl⟩ hrelease
        | _ => rfl
      omega

/-- An event has at most one copy more than it has requeues. -/
def CoversCopies (e : UUID) (w : World) : Prop :=
  (copies w.store e).length ≤ 1 + w.requeues e

theorem copies_eq_of_entries {db' : Store}
    (h : (streamAt db' .events).entries = (streamAt db .events).entries) :
    copies db' e = copies db e := by
  rw [copies, copies, h]

theorem copies_append {db' : Store} {entry : Entry} {e' : UUID}
    (h : (streamAt db' .events).entries =
      (streamAt db .events).entries ++ [entry])
    (hcarries : Carries entry.fields e') :
    (copies db' e).length =
      (copies db e).length + if e' = e then 1 else 0 := by
  rw [copies, copies, h, List.filter_append, List.length_append]
  congr 1
  by_cases he : e' = e <;>
    simp [hcarries.1, he, UUID.text_injective.eq_iff]

/-- An event without an account has no copies. -/
theorem copies_of_absent (h : Represents parses group db L)
    (hnone : L e = none) : copies db e = [] := by
  rw [copies, List.filter_eq_nil_iff]
  intro entry hentry hid
  obtain ⟨e', a, ha, hfields, -⟩ := h.stream.carried entry hentry
  have hcontent := (h.stream.content e' a ha).1
  rw [← hfields, of_decide_eq_true hid] at hcontent
  obtain rfl := UUID.text_injective (Option.some.inj hcontent)
  rw [hnone] at ha
  cases ha

/-- Accepting an event gives it its first copy. -/
theorem copies_accept (h : Represents parses group db L) {db' : Store}
    {e' : UUID} (hnone : L e' = none) {id : StreamId} {st : Stream}
    {now : UInt64} {eventType payload acceptedAt : String}
    (happend : (streamAt db .events).append now
      (messageFields e' eventType payload acceptedAt) = some (id, st))
    (hevents : db' .events = some (.stream st)) {n : ℕ}
    (hcovers : (copies db e).length ≤ 1 + n) :
    (copies db' e).length ≤ 1 + n := by
  have hentries : (streamAt db' .events).entries = (streamAt db .events).entries
      ++ [⟨id, messageFields e' eventType payload acceptedAt⟩] := by
    rw [streamAt_eq (Or.inr hevents)]
    exact (Stream.append_eq_some happend).2.1
  have hcount := copies_append (e := e) hentries
    (carries_messageFields e' eventType payload acceptedAt)
  by_cases he : e' = e
  · subst he
    rw [copies_of_absent h hnone, if_pos rfl] at hcount
    simp only [List.length_nil, Nat.zero_add] at hcount
    omega
  · rw [if_neg he] at hcount
    omega

theorem CoversCopies.run (hcovers : CoversCopies e w)
    (h : Represents (Parses lib) group w.store L) {call : RedisCall}
    (hmay : May lib group w (.redis call)) (now : UInt64) :
    CoversCopies e (w.run call now) := by
  have hrequeues : 1 + w.requeues e ≤ 1 + (w.run call now).requeues e := by
    rw [requeues_run]
    omega
  have hsame : (streamAt (w.run call now).store .events).entries =
      (streamAt w.store .events).entries → CoversCopies e (w.run call now) := by
    intro hentries
    rw [CoversCopies, copies_eq_of_entries hentries]
    exact le_trans hcovers hrequeues
  cases call with
  | enqueue e' eventType payload acceptedAt =>
      rcases enqueue_run h e' now eventType payload acceptedAt with
        ⟨msg, hrun⟩ | ⟨hnone, id, st, happend, hrun⟩
      · exact hsame (by rw [World.run, RedisCall.script, hrun])
      · refine (copies_accept h hnone happend ?_ hcovers).trans hrequeues
        rw [World.run, RedisCall.script, hrun]
        simp
  | idempotentEnqueue e' digest eventType payload fingerprint acceptedAt =>
      by_cases hrecord : w.store (.idempotency digest) = none
      · rcases idempotentEnqueue_fresh h e' now digest eventType payload
          fingerprint acceptedAt hrecord with
          ⟨msg, hrun⟩ | ⟨hnone, id, st, happend, hrun⟩
        · exact hsame (by rw [World.run, RedisCall.script, hrun])
        · refine (copies_accept h hnone happend ?_ hcovers).trans hrequeues
          rw [World.run, RedisCall.script, hrun]
          simp
      · obtain ⟨r, hrun, -⟩ := idempotentEnqueue_existing h e' now digest
          eventType payload fingerprint acceptedAt hrecord
        exact hsame (by rw [World.run, RedisCall.script, hrun])
  | releaseDueRetry g nowMs =>
      obtain rfl : g = group := hmay
      rcases releaseDueRetry_outcome h now nowMs with
        ⟨-, hentries, -⟩ | ⟨hone, e', a, hhead, ha, hcopy⟩
      · exact hsame hentries
      · obtain ⟨id, hentries⟩ := hcopy.entries
        have hcount : (copies (w.run (.releaseDueRetry g nowMs) now).store
            e).length = (copies w.store e).length + if e' = e then 1 else 0 :=
          copies_append hentries (h.stream.content e' a ha)
        rw [CoversCopies] at hcovers ⊢
        rw [hcount, requeues_release hone hhead]
        omega
  | _ =>
      refine hsame ?_
      rw [← entriesAt_eq, ← entriesAt_eq]
      exact entries_kept fun fields => by simp [RedisCall.MayWrite]

/-- In every run requeues are covered by retries, and copies by requeues. -/
theorem reach_covers {G : World → Op → Prop}
    (h : redisMachine.Reach (fun w op => May lib group w op ∧ G w op) w)
    (e : UUID) : CoversRequeues e w ∧ CoversCopies e w := by
  refine reach_invariant
    (I := fun w => CoversRequeues e w ∧ CoversCopies e w) ?_ ?_ ?_ h
  · exact ⟨by simp [CoversRequeues, World.requeues, World.initial,
      statusField], Nat.zero_le _⟩
  · rintro w event reply ⟨hcovers, hcopies⟩
    rw [CoversRequeues, CoversCopies, requeues_deliver, schedules_deliver]
    exact ⟨hcovers, hcopies⟩
  · rintro w L call now hL hmay - ⟨hcovers, hcopies⟩
    exact ⟨hcovers.run hL.represents hmay now,
      hcopies.run hL.represents hmay now⟩

end Requeues

end Hooklane
