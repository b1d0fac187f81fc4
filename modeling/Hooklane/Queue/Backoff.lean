import Hooklane.Queue.Discipline
import Hooklane.Queue.Guarantees
import Hooklane.Queue.Retries
import Hooklane.Support.History

/-!
# Backoff

A committed retry is an obligation: until a release requeues the event at its
due time, no delivery of it may start.  `_START_DELIVERY_SCRIPT` does not look
at the status, and `_SCHEDULE_RETRY_SCRIPT` overwrites a later due time, so the
obligation is kept in the runs whose calls heed the retries in force.
-/

namespace Hooklane

open Redis Support

variable {lib : Stdlib} {group : String} {w : World} {L : Ledger} {e : UUID}
  {d : ℤ}

/-- A delivery is not started while the event waits for a retry, nor on an
acknowledged message after a failure was recorded; and a retry in force is not
moved forward. -/
def HeedsRetry (group : String) (w : World) : Op → Prop
  | .redis (.startDelivery e m) => statusField w.store e "stream_id" = some m →
      statusField w.store e "status" ≠ some EventStatus.retryScheduled.value ∧
      (isPending group w.store m = false →
        statusField w.store e "last_error_class" = none)
  | .redis (.scheduleRetry e m _ dueAtMs) =>
      statusField w.store e "stream_id" = some m →
      isPending group w.store m = true →
      statusField w.store e "status" = some EventStatus.retryScheduled.value →
      (scoreAt w.store .retries e.text).all
        (fun score => decide (score ≤ ((dueAtMs : ℚ) : Score))) = true
  | _ => True

instance (group : String) (w : World) (op : Op) :
    Decidable (HeedsRetry group w op) := by
  unfold HeedsRetry
  split <;> infer_instance

/-- A retry of the event was committed with due time `d`. -/
def Record.Schedules (e : UUID) (d : ℤ) (r : Record) : Prop :=
  r.scheduled = some (e, d)

/-- The event was requeued by a release that was told a time from `d` on. -/
def Record.RequeuesAfter (e : UUID) (d : ℤ) (r : Record) : Prop :=
  ∃ nowMs, r.requeued = some (e.text, nowMs) ∧ d ≤ nowMs

/-- A delivery of the event was started. -/
def Record.Starts (e : UUID) (r : Record) : Prop :=
  (r.started e).isSome

/-- What an outstanding retry looks like in the store: the event is finished,
or waits until its due time.  In both cases its failure is on record. -/
def Waits (e : UUID) (d : ℤ) (w : World) : Prop :=
  (statusField w.store e "last_error_class").isSome ∧
    (e ∈ w.finished.map Prod.fst ∨
      statusField w.store e "status" = some EventStatus.retryScheduled.value ∧
        ∃ score, scoreAt w.store .retries e.text = some score ∧
          ((d : ℚ) : Score) ≤ score)

/-- Outstanding retries wait, and no delivery was started meanwhile. -/
structure BacksOff (e : UUID) (w : World) : Prop where
  waits : ∀ d, Outstanding (Record.Schedules e d) (Record.RequeuesAfter e d)
    w.history → Waits e d w
  respects : ∀ d, Respects (Record.Schedules e d) (Record.RequeuesAfter e d)
    (Record.Starts e) w.history

section Fields

/-- Only a release removes the class of a failure. -/
theorem errorClass_kept {call : RedisCall} {now : UInt64} {db : Store}
    (hcall : ∀ g nowMs, call ≠ .releaseDueRetry g nowMs)
    (h : (statusField db e "last_error_class").isSome) :
    (statusField (call.script now db).2 e "last_error_class").isSome := by
  rcases statusField_run call now db e "last_error_class" with
    hsame | ⟨text, -, hset⟩ | ⟨hdel, -⟩
  · rw [hsame]
    exact h
  · rw [hset]
    rfl
  · cases call with
    | releaseDueRetry g nowMs => exact absurd rfl (hcall g nowMs)
    | _ => simp [RedisCall.MayWrite] at hdel

/-- A due time is moved only by a retry of the event. -/
theorem dueTime_kept {call : RedisCall} (now : UInt64) (db : Store)
    (hcall : ∀ m errorClass due, call ≠ .scheduleRetry e m errorClass due) :
    scoreAt (call.script now db).2 .retries e.text =
        scoreAt db .retries e.text ∨
      scoreAt (call.script now db).2 .retries e.text = none := by
  rcases dueTime_run call now db e.text with hsame | ⟨score, hadd, -⟩ | hnone
  · exact Or.inl hsame
  · cases call with
    | scheduleRetry e' m errorClass due =>
        have he : e.text = e'.text := by
          simp only [RedisCall.MayWrite, reduceCtorEq, Write.zadd.injEq,
            true_and, false_or] at hadd
          exact hadd.2
        exact absurd (by rw [UUID.text_injective he])
          (hcall m errorClass due)
    | _ => simp [RedisCall.MayWrite] at hadd
  · exact Or.inr hnone

theorem scoreAt_retries (db : Store) (m : String) :
    scoreAt db .retries m = (retrySet db).lookup m := by
  rw [scoreAt, retrySet]
  cases db .retries with
  | none => rfl
  | some v => cases v <;> rfl

/-- An event that waits for a retry is on the schedule. -/
theorem scheduled_of_waiting (h : Represents (Parses lib) group w.store L)
    (hwaiting : statusField w.store e "status" =
      some EventStatus.retryScheduled.value) :
    ∃ score, scoreAt w.store .retries e.text = some score := by
  obtain ⟨a, ha, hstatus⟩ := account_of_status h _ hwaiting
  have hmem := (h.schedule.scheduled e a ha).mp
    ((h.valid e a ha).retry hstatus).1
  rw [scoreAt_retries]
  exact Option.isSome_iff_exists.mp (AList.lookup_isSome.mpr hmem)

/-- An event with a terminal status was finished. -/
theorem finished_of_terminal (h : Accounted lib group w L)
    {status : EventStatus} (hterminal : status.Terminal)
    (hstatus : statusField w.store e "status" = some status.value) :
    e ∈ w.finished.map Prod.fst := by
  obtain ⟨a, ha, rfl⟩ := account_of_status h.represents _ hstatus
  have hvalid := h.represents.valid e a ha
  refine (h.finished e).mpr ⟨a, ha, ?_⟩
  cases hcustody : a.custody with
  | unread =>
      rw [hvalid.unread hcustody] at hterminal
      exact absurd hterminal (by decide)
  | pending =>
      exact absurd hterminal (EventStatus.open_iff.mp (hvalid.pending hcustody))
  | acknowledged => rfl

/-- Unless it is started or requeued, an event that waits goes on waiting or is
finished. -/
theorem waiting_kept (h : Represents (Parses lib) group w.store L)
    {a : Account} (ha : L e = some a) (hwaiting : a.status = .retryScheduled)
    {call : RedisCall} (hrelease : ∀ g nowMs, call ≠ .releaseDueRetry g nowMs)
    (hstart : ∀ m, call = .startDelivery e m → m ≠ a.current.text)
    (now : UInt64) :
    ∃ status : EventStatus, (status = .retryScheduled ∨ status.Terminal) ∧
      statusField (call.script now w.store).2 e "status" =
        some status.value := by
  have hbefore := (statusField_eq h ha).1
  rw [hwaiting] at hbefore
  have hsame : statusField (call.script now w.store).2 e "status" =
      statusField w.store e "status" →
      ∃ status : EventStatus, (status = .retryScheduled ∨ status.Terminal) ∧
        statusField (call.script now w.store).2 e "status" =
          some status.value :=
    fun hkept => ⟨.retryScheduled, Or.inl rfl, hkept.trans hbefore⟩
  have hdel : ¬call.MayWrite (.hdel (.event e.text) "status") := by
    cases call <;> simp [RedisCall.MayWrite]
  have hother : (∀ text, ¬call.MayWrite
      (.hset (.event e.text) "status" text)) →
      ∃ status : EventStatus, (status = .retryScheduled ∨ status.Terminal) ∧
        statusField (call.script now w.store).2 e "status" =
          some status.value :=
    fun hset => hsame (statusField_kept hset hdel)
  have hto : ∀ status : EventStatus,
      status = .retryScheduled ∨ status.Terminal → (∀ text, call.MayWrite
        (.hset (.event e.text) "status" text) → text = status.value) →
      ∃ status : EventStatus, (status = .retryScheduled ∨ status.Terminal) ∧
        statusField (call.script now w.store).2 e "status" =
          some status.value := by
    intro status hstatus hset
    rcases statusField_run call now w.store e "status" with
      hkept | ⟨text, hwrite, hfield⟩ | ⟨h, -⟩
    · exact hsame hkept
    · rw [hset text hwrite] at hfield
      exact ⟨status, hstatus, hfield⟩
    · exact absurd h hdel
  cases call with
  | enqueue e' eventType payload acceptedAt =>
      by_cases he : e.text = e'.text
      · obtain rfl := UUID.text_injective he
        rcases enqueue_run h e now eventType payload acceptedAt with
          ⟨msg, hrun⟩ | ⟨hnone, -⟩
        · exact hsame (by rw [RedisCall.script, hrun])
        · rw [hnone] at ha
          cases ha
      · exact hother (by simp [RedisCall.MayWrite, he])
  | idempotentEnqueue e' digest eventType payload fingerprint acceptedAt =>
      by_cases he : e.text = e'.text
      · obtain rfl := UUID.text_injective he
        by_cases hrecord : w.store (.idempotency digest) = none
        · rcases idempotentEnqueue_fresh h e now digest eventType payload
            fingerprint acceptedAt hrecord with ⟨msg, hrun⟩ | ⟨hnone, -⟩
          · exact hsame (by rw [RedisCall.script, hrun])
          · rw [hnone] at ha
            cases ha
        · obtain ⟨r, hrun, -⟩ := idempotentEnqueue_existing h e now digest
            eventType payload fingerprint acceptedAt hrecord
          exact hsame (by rw [RedisCall.script, hrun])
      · exact hother (by simp [RedisCall.MayWrite, he])
  | startDelivery e' m =>
      by_cases he : e.text = e'.text
      · obtain rfl := UUID.text_injective he
        obtain ⟨-, -, -, ⟨-, msg, hrun⟩ | ⟨hm, -⟩⟩ := startDelivery_run h ha m
        · exact hsame (by rw [RedisCall.script, hrun])
        · exact absurd hm (hstart m rfl)
      · exact hother (by simp [RedisCall.MayWrite, he])
  | releaseDueRetry g nowMs => exact absurd rfl (hrelease g nowMs)
  | completeDelivery e' m g =>
      refine hto .delivered (Or.inr (by decide)) fun text h => ?_
      simp only [RedisCall.MayWrite, reduceCtorEq, Write.hset.injEq,
        false_or] at h
      exact h.2.2
  | scheduleRetry e' m errorClass due =>
      refine hto .retryScheduled (Or.inl rfl) fun text h => ?_
      simp only [RedisCall.MayWrite, reduceCtorEq, Write.hset.injEq,
        or_false] at h
      rcases h with ⟨-, -, h⟩ | ⟨-, h, -⟩
      · exact h
      · exact absurd h (by decide)
  | quarantineMessage m g reasonCode =>
      refine hto .deadLetter (Or.inr (by decide)) fun text h => ?_
      simp only [RedisCall.MayWrite, reduceCtorEq, exists_false,
        Write.hset.injEq, false_or] at h
      rcases h with ⟨-, -, -, h⟩ | ⟨-, -, h, -⟩
      · exact h
      · exact absurd h (by decide)
  | moveToDeadLetter e' m g errorClass =>
      refine hto .deadLetter (Or.inr (by decide)) fun text h => ?_
      simp only [RedisCall.MayWrite, reduceCtorEq, exists_false,
        Write.hset.injEq, false_or] at h
      rcases h with ⟨-, -, h⟩ | ⟨-, h, -⟩ | ⟨-, -, h, -⟩
      · exact h
      · exact absurd h (by decide)
      · exact absurd h (by decide)
  | _ => exact hother (by simp [RedisCall.MayWrite])

end Fields

section Waiting

/-- A finished event stays finished. -/
theorem finished_run {call : RedisCall} {now : UInt64}
    (h : e ∈ w.finished.map Prod.fst) :
    e ∈ (w.run call now).finished.map Prod.fst := by
  rw [World.finished, World.run, List.filterMap_append, List.map_append]
  exact List.mem_append_left _ h

/-- The copy of an event that waits and is not finished is pending. -/
theorem pending_of_waiting (h : Accounted lib group w L) {a : Account}
    (ha : L e = some a) (hstatus : a.status = .retryScheduled)
    (hopen : e ∉ w.finished.map Prod.fst) : a.custody = .pending := by
  have hvalid := h.represents.valid e a ha
  cases hcustody : a.custody with
  | unread =>
      have hqueued := hvalid.unread hcustody
      rw [hstatus] at hqueued
      cases hqueued
  | pending => rfl
  | acknowledged =>
      exact absurd ((h.finished e).mpr ⟨a, ha, hcustody⟩) hopen

/-- A due member is due. -/
theorem score_le_of_due {db : Store} {m : String} {nowMs : ℤ} {score : Score}
    (hdue : m ∈ (retrySet db).upTo ((nowMs : ℚ) : Score))
    (hscore : scoreAt db .retries m = some score) :
    score ≤ ((nowMs : ℚ) : Score) := by
  obtain ⟨score', hlookup, hle⟩ := mem_upTo.mp hdue
  rw [scoreAt_retries, hlookup, Option.some.injEq] at hscore
  exact hscore ▸ hle

/-- Fields and due time after a call that neither starts, schedules nor
requeues the event. -/
theorem Waits.kept (hwaits : Waits e d w) {call : RedisCall} {now : UInt64}
    {L' : Ledger}
    (h' : Accounted lib group (w.run call now) L')
    (hclass : (statusField (w.run call now).store e "last_error_class").isSome)
    (hstatus : statusField w.store e "status" =
        some EventStatus.retryScheduled.value →
      ∃ status : EventStatus, (status = .retryScheduled ∨ status.Terminal) ∧
        statusField (w.run call now).store e "status" = some status.value)
    (hcall : ∀ m errorClass due, call ≠ .scheduleRetry e m errorClass due) :
    Waits e d (w.run call now) := by
  obtain ⟨-, hfinished | ⟨hwaiting, score, hscore, hd⟩⟩ := hwaits
  · exact ⟨hclass, Or.inl (finished_run hfinished)⟩
  · obtain ⟨status, rfl | hterminal, hafter⟩ := hstatus hwaiting
    · refine ⟨hclass, Or.inr ⟨hafter, score, ?_, hd⟩⟩
      obtain ⟨score', hsome⟩ := scheduled_of_waiting h'.represents hafter
      rcases dueTime_kept now w.store hcall with hsame | hnone
      · exact hsame.trans hscore
      · exact absurd (hsome.symm.trans hnone) (by simp)
    · exact ⟨hclass, Or.inl (finished_of_terminal h' hterminal hafter)⟩

/-- An outstanding retry waits until the event is requeued after its due
time. -/
theorem Waits.run (hwaits : Waits e d w) (h : Accounted lib group w L)
    {call : RedisCall} {now : UInt64} {L' : Ledger}
    (h' : Accounted lib group (w.run call now) L')
    (hmay : May lib group w (.redis call))
    (hheeds : HeedsRetry group w (.redis call)) :
    Waits e d (w.run call now) ∨ ∃ nowMs, requeuedBy w.store call
      (call.script now w.store).1 = some (e.text, nowMs) ∧ d ≤ nowMs := by
  have hrep := h.represents
  by_cases hrelease : ∃ g nowMs, call = .releaseDueRetry g nowMs
  · obtain ⟨g, nowMs, rfl⟩ := hrelease
    obtain rfl : g = group := hmay
    rcases releaseDueRetry_outcome hrep now nowMs with
      ⟨-, -, hnone⟩ | ⟨hone, e', a, hhead, ha, hcopy⟩
    · refine Or.inl (hwaits.kept h' ?_ ?_ nofun)
      · rcases hnone e "last_error_class" with hsame | ⟨text, htext, -⟩
        · rw [World.run, RedisCall.script, hsame]
          exact hwaits.1
        · rw [World.run, RedisCall.script, htext]
          rfl
      · intro hwaiting
        rcases hnone e "status" with hsame | ⟨text, htext, hdead⟩
        · exact ⟨.retryScheduled, Or.inl rfl, hsame.trans hwaiting⟩
        · rw [hdead rfl] at htext
          exact ⟨.deadLetter, Or.inr (by decide), htext⟩
    · by_cases he : e' = e
      · subst he
        refine Or.inr ⟨nowMs, ?_, ?_⟩
        · simp [requeuedBy, RedisCall.script, hone, hhead]
        · rcases hwaits.2 with hfinished | ⟨-, score, hscore, hd⟩
          · obtain ⟨b, hb, hacked⟩ := (h.finished e').mp hfinished
            rw [ha, Option.some.injEq] at hb
            rw [← hb, hcopy.pending] at hacked
            cases hacked
          · have hdue := score_le_of_due (List.mem_of_mem_head? hhead) hscore
            exact Rat.intCast_le_intCast.mp (WithTop.coe_le_coe.mp
              (WithBot.coe_le_coe.mp (hd.trans hdue)))
      · refine Or.inl (hwaits.kept h' ?_ ?_ nofun)
        · rw [World.run, RedisCall.script, hcopy.others e _ (Ne.symm he)]
          exact hwaits.1
        · intro hwaiting
          refine ⟨.retryScheduled, Or.inl rfl, ?_⟩
          rw [World.run, RedisCall.script, hcopy.others e _ (Ne.symm he)]
          exact hwaiting
  · have hother : ∀ g nowMs, call ≠ .releaseDueRetry g nowMs :=
      fun g nowMs hcall => hrelease ⟨g, nowMs, hcall⟩
    have hclass : (statusField (w.run call now).store e
        "last_error_class").isSome := errorClass_kept hother hwaits.1
    refine Or.inl ?_
    by_cases hschedule : ∃ m errorClass due,
        call = .scheduleRetry e m errorClass due
    · obtain ⟨m, errorClass, due, rfl⟩ := hschedule
      obtain ⟨a, ha, -, -⟩ := Held.account hmay.1 hrep
      obtain ⟨f, hkey, hshow, ⟨-, msg, hrun⟩ | ⟨hm, hrun⟩⟩ :=
        scheduleRetry_run hrep ha m errorClass due
      · have hstore : (w.run (.scheduleRetry e m errorClass due) now).store =
            w.store := by
          rw [World.run, RedisCall.script, hrun]
        rw [Waits, hstore]
        exact ⟨hwaits.1, hwaits.2.imp_left finished_run⟩
      · refine ⟨hclass, ?_⟩
        rcases hwaits.2 with hfinished | ⟨hwaiting, score, hscore, hd⟩
        · exact Or.inl (finished_run hfinished)
        by_cases hopen : e ∈ w.finished.map Prod.fst
        · exact Or.inl (finished_run hopen)
        obtain ⟨hstatus, -, hstreamId⟩ := statusField_eq hrep ha
        have hpending : isPending group w.store m = true := by
          rw [hm, isPending_text, hrep.stream.custody e a ha,
            pending_of_waiting h ha (EventStatus.value_inj.mp
              (Option.some.inj (hstatus.symm.trans hwaiting))) hopen]
          rfl
        have hlater := hheeds (hm ▸ hstreamId) hpending hwaiting
        rw [hscore, Option.all_some, decide_eq_true_iff] at hlater
        refine Or.inr ⟨?_, _, ?_, hd.trans hlater⟩
        · rw [World.run, RedisCall.script, hrun,
            statusField_hash (f := scheduledHash f errorClass) (by simp)]
          simp [scheduledHash]
        · rw [World.run, RedisCall.script, hrun, scoreAt_retries,
            retrySet_eq (z := (retrySet w.store).insert e.text
              ((due : ℚ) : Score)) (Or.inr (by simp))]
          exact AList.lookup_insert _
    · refine hwaits.kept h' hclass (fun hwaiting => ?_)
        fun m errorClass due hcall => hschedule ⟨m, errorClass, due, hcall⟩
      obtain ⟨a, ha, hstatus⟩ := account_of_status hrep _ hwaiting
      refine waiting_kept hrep ha hstatus hother ?_ now
      rintro m rfl hm
      obtain ⟨hnot, -⟩ := hheeds (hm ▸ (statusField_eq hrep ha).2.2)
      exact hnot hwaiting

/-- A start that heeds the retries in force finds none outstanding. -/
theorem Waits.not_started (hwaits : Waits e d w) (h : Accounted lib group w L)
    {call : RedisCall} {now : UInt64} (hmay : May lib group w (.redis call))
    (hheeds : HeedsRetry group w (.redis call)) :
    startedBy e call (call.script now w.store).1 = none := by
  have hrep := h.represents
  by_cases hcall : ∃ m, call = .startDelivery e m
  · obtain ⟨m, rfl⟩ := hcall
    obtain ⟨a, ha, -, -⟩ := Held.account hmay hrep
    obtain ⟨-, -, -, ⟨-, msg, hrun⟩ | ⟨hm, -⟩⟩ := startDelivery_run hrep ha m
    · simp [startedBy, RedisCall.script, hrun]
    · obtain ⟨hnot, hclear⟩ := hheeds (hm ▸ (statusField_eq hrep ha).2.2)
      obtain ⟨hclass, hfinished | ⟨hwaiting, -⟩⟩ := hwaits
      · obtain ⟨b, hb, hacked⟩ := (h.finished e).mp hfinished
        rw [ha, Option.some.injEq] at hb
        have hidle : isPending group w.store m = false := by
          rw [hm, isPending_text, hrep.stream.custody e a ha, hb, hacked]
          rfl
        rw [hclear hidle] at hclass
        cases hclass
      · exact absurd hwaiting hnot
  · cases call with
    | startDelivery e' m =>
        have he : e' ≠ e := fun he => hcall ⟨m, by rw [he]⟩
        cases (RedisCall.startDelivery e' m).script now w.store |>.1 <;>
          simp [startedBy, he]
    | _ => rfl

/-- A retry that was just committed waits until its due time. -/
theorem waits_of_scheduled (h : Accounted lib group w L) {call : RedisCall}
    {now : UInt64} (hmay : May lib group w (.redis call))
    (hscheduled : scheduledBy call (call.script now w.store).1 =
      some (e, d)) :
    Waits e d (w.run call now) := by
  cases call with
  | scheduleRetry e' m errorClass due =>
      obtain ⟨a, ha, -, -⟩ := Held.account hmay.1 h.represents
      obtain ⟨f, hkey, hshow, ⟨-, msg, hrun⟩ | ⟨-, hrun⟩⟩ :=
        scheduleRetry_run h.represents ha m errorClass due
      · simp [scheduledBy, RedisCall.script, hrun] at hscheduled
      · simp only [scheduledBy, RedisCall.script, hrun, Option.some.injEq,
          Prod.mk.injEq] at hscheduled
        obtain ⟨rfl, rfl⟩ := hscheduled
        have hhash : (w.run (.scheduleRetry e' m errorClass due) now).store
            (.event e'.text) = some (.hash (scheduledHash f errorClass)) := by
          rw [World.run, RedisCall.script, hrun]
          simp
        rw [Waits, statusField_hash hhash, statusField_hash hhash]
        refine ⟨by simp [scheduledHash], Or.inr ⟨by simp [scheduledHash],
          ((due : ℚ) : Score), ?_, le_rfl⟩⟩
        rw [World.run, RedisCall.script, hrun, scoreAt_retries,
          retrySet_eq (z := (retrySet w.store).insert e'.text
            ((due : ℚ) : Score)) (Or.inr (by simp))]
        exact AList.lookup_insert _
  | _ => simp [scheduledBy] at hscheduled

theorem BacksOff.run (hback : BacksOff e w) (h : Accounted lib group w L)
    {call : RedisCall} {now : UInt64} {L' : Ledger}
    (h' : Accounted lib group (w.run call now) L')
    (hmay : May lib group w (.redis call))
    (hheeds : HeedsRetry group w (.redis call)) :
    BacksOff e (w.run call now) where
  waits d hopen := by
    rcases hopen.of_append_singleton with hscheduled | ⟨hold, hnot⟩
    · exact waits_of_scheduled h hmay hscheduled
    · rcases (hback.waits d hold).run h h' hmay hheeds with hkept | hrequeued
      · exact hkept
      · exact absurd hrequeued hnot
  respects d := by
    refine (hback.respects d).append_singleton fun hstarted hold => ?_
    have hnone : startedBy e call (call.script now w.store).1 = none :=
      (hback.waits d hold).not_started h hmay hheeds
    rw [Record.Starts, Record.started, hnone] at hstarted
    cases hstarted

theorem BacksOff.deliver (hback : BacksOff e w) (event : QueuedEvent)
    (reply : SinkReply) : BacksOff e (w.deliver event reply) where
  waits d hopen := by
    rcases hopen.of_append_singleton with hscheduled | ⟨hold, -⟩
    · cases hscheduled
    · obtain ⟨hclass, hwaiting⟩ := hback.waits d hold
      refine ⟨hclass, hwaiting.imp_left fun hfinished => ?_⟩
      rw [World.finished, World.deliver, List.filterMap_append, List.map_append]
      exact List.mem_append_left _ hfinished
  respects d := (hback.respects d).append_singleton nofun

/-- In the runs that heed the retries in force every retry is respected. -/
theorem reach_backsOff
    (h : redisMachine.Reach
      (fun w op => May lib group w op ∧ HeedsRetry group w op) w)
    (e : UUID) : BacksOff e w := by
  have hinit : BacksOff e World.initial :=
    ⟨fun d hopen => absurd hopen not_outstanding_nil, fun d => respects_nil⟩
  refine reach_invariant hinit ?_ ?_ h
  · exact fun w event reply hback => hback.deliver event reply
  · intro w L call now hL hmay hheeds hback
    obtain ⟨L', acc, fin, hmoves⟩ :=
      exists_moves hL.represents hmay (World.Exec.answered call now)
    exact hback.run hL (hL.moves hmoves) hmay hheeds

end Waiting

end Hooklane
