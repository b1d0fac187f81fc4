import Hooklane.Cloudflare.System

/-!
# What the statements do

For every statement that runs to its end: what it does to `events`, seen as
the lifecycles of the events, and to the states of `outbox`.  Whatever is
proved about the backend later rests on these two case distinctions.
-/

namespace Hooklane.Cloudflare

open Support

variable {db db' : Database} {e : UUID}

section Running

variable {α β : Type}

theorem bind_eq_some {m : Statement α} {f : α → Statement β} {b : β}
    (h : (m >>= f) db = some (b, db')) :
    ∃ a mid, m db = some (a, mid) ∧ f a mid = some (b, db') := by
  obtain ⟨⟨a, mid⟩, hm, hf⟩ := Option.bind_eq_some_iff.mp h
  exact ⟨a, mid, hm, hf⟩

theorem map_eq_some {m : Statement α} {f : α → β} {b : β}
    (h : (f <$> m) db = some (b, db')) :
    ∃ a, m db = some (a, db') ∧ b = f a := by
  obtain ⟨⟨a, mid⟩, hm, hf⟩ := Option.bind_eq_some_iff.mp h
  obtain ⟨rfl, rfl⟩ := Prod.mk.inj (Option.some.inj hf)
  exact ⟨a, hm, rfl⟩

/-- An update by primary key writes one row or nothing. -/
theorem updateWhere_cases {Row : Type} (table : AList fun _ : UUID => Row)
    (key : UUID) (selected : Row → Bool) (update : Row → Row) :
    (∃ row, table.lookup key = some row ∧ selected row = true ∧
      updateWhere table key selected update =
        (some (update row), table.insert key (update row))) ∨
    updateWhere table key selected update = (none, table) := by
  unfold updateWhere
  cases hrow : table.lookup key with
  | none => exact Or.inr rfl
  | some row =>
      by_cases hselected : selected row = true
      · exact Or.inl ⟨row, rfl, hselected, by simp [hselected]⟩
      · exact Or.inr (by simp [hselected])

theorem updateEvent_cases {selected : EventRow → Bool}
    {update : EventRow → EventRow} {result : Option EventRow}
    (h : updateEvent e selected update db = some (result, db')) :
    (∃ row, db.events.lookup e = some row ∧ selected row = true ∧
      result = some (update row) ∧
      db' = { db with events := db.events.insert e (update row) }) ∨
    (result = none ∧ db' = db) := by
  unfold updateEvent at h
  rcases updateWhere_cases db.events e selected update with
    ⟨row, hrow, hselected, heq⟩ | heq
  · rw [heq] at h
    obtain ⟨rfl, rfl⟩ := Prod.mk.inj (Option.some.inj h)
    exact Or.inl ⟨row, hrow, hselected, rfl, rfl⟩
  · rw [heq] at h
    obtain ⟨rfl, rfl⟩ := Prod.mk.inj (Option.some.inj h)
    exact Or.inr ⟨rfl, rfl⟩

theorem updateOutbox_cases {selected : OutboxRow → Bool}
    {update : OutboxRow → OutboxRow} {result : Option OutboxRow}
    (h : updateOutbox e selected update db = some (result, db')) :
    (∃ row, db.outbox.lookup e = some row ∧ selected row = true ∧
      result = some (update row) ∧
      db' = { db with outbox := db.outbox.insert e (update row) }) ∨
    (result = none ∧ db' = db) := by
  unfold updateOutbox at h
  rcases updateWhere_cases db.outbox e selected update with
    ⟨row, hrow, hselected, heq⟩ | heq
  · rw [heq] at h
    obtain ⟨rfl, rfl⟩ := Prod.mk.inj (Option.some.inj h)
    exact Or.inl ⟨row, hrow, hselected, rfl, rfl⟩
  · rw [heq] at h
    obtain ⟨rfl, rfl⟩ := Prod.mk.inj (Option.some.inj h)
    exact Or.inr ⟨rfl, rfl⟩

end Running

section Acceptance

variable {proposed : UUID} {eventType fingerprint : String}
  {chunks : List String} {keyHash : Option String} {nowMs : ℤ}
  {value : Option AcceptedRow}

/-- Inserting payload chunks touches no other table. -/
theorem insertPayloadChunks_run (proposed : UUID) (index : ℕ)
    (chunks : List String) (db : Database) :
    ∃ table, insertPayloadChunks proposed index chunks db =
      some ((), { db with payloadChunks := table }) := by
  induction chunks generalizing index db with
  | nil => exact ⟨db.payloadChunks, rfl⟩
  | cons chunk rest ih =>
      by_cases hinsert : proposed ∈ db.events ∧
          (proposed, index) ∉ db.payloadChunks
      · obtain ⟨table, htable⟩ := ih (index + 1)
          { db with payloadChunks :=
              db.payloadChunks.insert (proposed, index) chunk }
        refine ⟨table, ?_⟩
        change ((insertPayloadChunk proposed index chunk) db).bind _ = _
        rw [insertPayloadChunk, if_pos hinsert]
        exact htable
      · obtain ⟨table, htable⟩ := ih (index + 1) db
        refine ⟨table, ?_⟩
        change ((insertPayloadChunk proposed index chunk) db).bind _ = _
        rw [insertPayloadChunk, if_neg hinsert]
        exact htable

/-- The event statement of the batch: the key is taken, or the row is new. -/
theorem insertEvent_cases
    (h : insertEvent proposed eventType fingerprint keyHash nowMs db =
      some ((), db')) :
    (db' = db ∧ ∃ key found, keyHash = some key ∧
      eventWithKey db key = some found) ∨
    (proposed ∉ db.events ∧ (∀ key, keyHash = some key →
      eventWithKey db key = none) ∧
      db' = { db with
        events := db.events.insert proposed
          (newEvent eventType fingerprint keyHash nowMs) }) := by
  unfold insertEvent at h
  split at h
  · next htaken =>
    obtain ⟨-, rfl⟩ := Prod.mk.inj (Option.some.inj h)
    obtain ⟨found, hfound⟩ := Option.isSome_iff_exists.mp htaken
    obtain ⟨key, hkey, hfound⟩ := Option.bind_eq_some_iff.mp hfound
    exact Or.inl ⟨rfl, key, found, hkey, hfound⟩
  · next hfree =>
    split at h
    · cases h
    · next hnew =>
      obtain ⟨-, rfl⟩ := Prod.mk.inj (Option.some.inj h)
      refine Or.inr ⟨hnew, ?_, rfl⟩
      rintro key rfl
      simpa using hfree

theorem eventWithKey_insert {row : EventRow} {key : String}
    (hkey : row.idempotencyKeyHash = some key) :
    eventWithKey { db with events := db.events.insert proposed row } key =
      some (proposed, row) := by
  simp [eventWithKey, hkey]

/-- What the batch of `accept` returns and leaves in `events` and
`outbox`. -/
theorem acceptBatch_cases
    (h : acceptBatch proposed eventType chunks fingerprint keyHash nowMs db =
      some (value, db')) :
    ((∃ key id row, keyHash = some key ∧
        eventWithKey db key = some (id, row) ∧
        value = some ⟨id, row.requestFingerprint, row.status,
          row.attemptCount⟩ ∧ db'.events = db.events) ∨
      (proposed ∉ db.events ∧
        value = some ⟨proposed, fingerprint, .queued, 0⟩ ∧
        db'.events = db.events.insert proposed
          (newEvent eventType fingerprint keyHash nowMs))) ∧
    db'.outbox =
      if proposed ∈ db'.events ∧ proposed ∉ db.outbox then
        db.outbox.insert proposed (newOutbox nowMs)
      else db.outbox := by
  obtain ⟨_, db₁, hinsert, h⟩ := bind_eq_some h
  obtain ⟨_, db₂, hchunks, h⟩ := bind_eq_some h
  obtain ⟨_, db₃, houtbox, hlookup⟩ := bind_eq_some h
  obtain ⟨table, htable⟩ := insertPayloadChunks_run proposed 0 chunks db₁
  rw [htable] at hchunks
  obtain ⟨-, rfl⟩ := Prod.mk.inj (Option.some.inj hchunks)
  obtain ⟨hvalue, rfl⟩ := Prod.mk.inj (Option.some.inj hlookup)
  have hevents : db₃.events = db₁.events := by
    unfold insertOutbox at houtbox
    split at houtbox <;>
      obtain ⟨-, rfl⟩ := Prod.mk.inj (Option.some.inj houtbox) <;> rfl
  have hkeyed : ∀ key, eventWithKey db₃ key = eventWithKey db₁ key := by
    intro key
    rw [eventWithKey, eventWithKey, hevents]
  have hrows : db₁.outbox = db.outbox := by
    rcases insertEvent_cases hinsert with ⟨rfl, -⟩ | ⟨-, -, rfl⟩ <;> rfl
  refine ⟨?_, ?_⟩
  · rcases insertEvent_cases hinsert with
      ⟨rfl, key, ⟨id, row⟩, rfl, hfound⟩ | ⟨hnew, hfree, rfl⟩
    · refine Or.inl ⟨key, id, row, rfl, hfound, ?_, hevents⟩
      simp only [hkeyed, hfound] at hvalue
      exact hvalue.symm
    · refine Or.inr ⟨hnew, ?_, hevents⟩
      cases keyHash with
      | none =>
          simp only [hevents, AList.lookup_insert] at hvalue
          exact hvalue.symm
      | some key =>
          simp only [hkeyed] at hvalue
          rw [eventWithKey_insert rfl] at hvalue
          exact hvalue.symm
  · unfold insertOutbox at houtbox
    rw [hevents, ← hrows]
    split at houtbox
    · next hcond =>
      obtain ⟨-, rfl⟩ := Prod.mk.inj (Option.some.inj houtbox)
      rw [if_pos hcond]
    · next hcond =>
      obtain ⟨-, rfl⟩ := Prod.mk.inj (Option.some.inj houtbox)
      rw [if_neg hcond]

theorem eventWithKey_mem {key : String} {id : UUID} {row : EventRow}
    (h : eventWithKey db key = some (id, row)) : id ∈ db.events := by
  obtain ⟨entry, hfind, heq⟩ := Option.map_eq_some_iff.mp h
  obtain ⟨rfl, rfl⟩ := Prod.mk.inj heq
  exact AList.mem_keys.mpr
    (List.mem_map_of_mem (List.mem_of_find?_eq_some hfind))

end Acceptance

section Events

/-- Where a row says its event stands. -/
def EventRow.lifecycle (row : EventRow) : Lifecycle :=
  ⟨row.status, row.attemptCount, row.deliveryToken⟩

/-- What an executed statement does to `events`. -/
inductive EventsEffect (db db' : Database) :
    (call : D1Call) → call.Value → Prop where
  | silent {call : D1Call} {value : call.Value}
      (quiet : call.entry db value = none) (same : db'.events = db.events) :
      EventsEffect db db' call value
  | accepted {proposed : UUID} {eventType fingerprint : String}
      {chunks : List String} {keyHash : Option String} {nowMs : ℤ}
      (fresh : proposed ∉ db.events)
      (written : db'.events = db.events.insert proposed
        (newEvent eventType fingerprint keyHash nowMs)) :
      EventsEffect db db'
        (.acceptBatch proposed eventType chunks fingerprint keyHash nowMs)
        (some ⟨proposed, fingerprint, .queued, 0⟩)
  | claimed {eventId : UUID} {token : String} {leaseUntilMs nowMs : ℤ} {m : ℕ}
      {row row' : EventRow} (found : db.events.lookup eventId = some row)
      (claimable : row.lifecycle.Claimable m)
      (updated : row'.lifecycle = row.lifecycle.claim m token)
      (written : db'.events = db.events.insert eventId row') :
      EventsEffect db db' (.claimDelivery eventId token leaseUntilMs nowMs m)
        (some row')
  | settled {eventId : UUID} {status : EventStatus} {nowMs : ℤ}
      {reason : Option String}
      {token : String} {row row' : EventRow}
      (found : db.events.lookup eventId = some row)
      (running : row.status = .delivering)
      (owner : row.deliveryToken = some token)
      (updated : row'.lifecycle = row.lifecycle.settle status)
      (written : db'.events = db.events.insert eventId row') :
      EventsEffect db db' (.updateTerminal eventId status nowMs reason token) 1
  | exhausted {eventId : UUID} {nowMs : ℤ} {m : ℕ} {row row' : EventRow}
      (found : db.events.lookup eventId = some row)
      (waiting : row.lifecycle.Waiting) (used : m ≤ row.attemptCount)
      (updated : row'.lifecycle = { row.lifecycle with status := .deadLetter })
      (written : db'.events = db.events.insert eventId row') :
      EventsEffect db db' (.deadLetterExhausted eventId nowMs m) 1

theorem EventRow.claimable_iff {row : EventRow} {nowMs : ℤ} {m : ℕ}
    (h : row.claimable nowMs m = true) : row.lifecycle.Claimable m := by
  simp only [EventRow.claimable, Bool.or_eq_true, Bool.and_eq_true,
    decide_eq_true_eq] at h
  rcases h with ⟨waiting, hlt⟩ | ⟨⟨running, -⟩, hle⟩
  · exact Or.inl ⟨waiting, hlt⟩
  · exact Or.inr ⟨running, hle⟩

/-- Giving rows of the outbox to an owner changes no other table. -/
theorem claimRows_events (claimToken : String) (leaseUntilMs nowMs : ℤ)
    (rows : List ((_ : UUID) × OutboxRow)) (db : Database) :
    (claimRows claimToken leaseUntilMs nowMs rows db).events = db.events := by
  induction rows generalizing db with
  | nil => rfl
  | cons row rest ih => exact ih _

theorem eventsEffect {call : D1Call} {value : call.Value}
    (h : call.statement db = some (value, db')) :
    EventsEffect db db' call value := by
  cases call with
  | acceptBatch proposed eventType chunks fingerprint keyHash nowMs =>
      rcases (acceptBatch_cases h).1 with
        ⟨key, id, row, rfl, hfound, rfl, hsame⟩ | ⟨hfresh, rfl, hwritten⟩
      · refine .silent (if_neg ?_) hsame
        rintro ⟨hfresh, hid⟩
        have hid : id = proposed := by simpa using hid
        exact hfresh (hid ▸ eventWithKey_mem hfound)
      · exact .accepted hfresh hwritten
  | selectEvent | selectPayloadChunks | selectState | selectOutbox =>
      obtain ⟨-, rfl⟩ := Prod.mk.inj (Option.some.inj h)
      exact .silent rfl rfl
  | claimOutbox claimToken leaseUntilMs nowMs limit =>
      obtain ⟨-, rfl⟩ := Prod.mk.inj (Option.some.inj h)
      exact .silent rfl (claimRows_events _ _ _ _ _)
  | markDispatched | releaseOutboxClaim =>
      obtain ⟨row, hrun, -⟩ := map_eq_some h
      rcases updateOutbox_cases hrun with ⟨-, -, -, -, rfl⟩ | ⟨-, rfl⟩ <;>
        exact .silent rfl rfl
  | claimDelivery eventId token leaseUntilMs nowMs m =>
      rcases updateEvent_cases h with
        ⟨row, hrow, hselected, rfl, rfl⟩ | ⟨rfl, rfl⟩
      · exact .claimed hrow (EventRow.claimable_iff hselected) rfl rfl
      · exact .silent rfl rfl
  | deadLetterExhausted eventId nowMs m =>
      obtain ⟨result, hrun, rfl⟩ := map_eq_some h
      rcases updateEvent_cases hrun with
        ⟨row, hrow, hselected, rfl, rfl⟩ | ⟨rfl, rfl⟩
      · simp only [Bool.and_eq_true, Bool.or_eq_true, decide_eq_true_eq]
          at hselected
        exact .exhausted hrow hselected.1 hselected.2 rfl rfl
      · exact .silent rfl rfl
  | updateTerminal eventId status nowMs reason token =>
      obtain ⟨result, hrun, rfl⟩ := map_eq_some h
      rcases updateEvent_cases hrun with
        ⟨row, hrow, hselected, rfl, rfl⟩ | ⟨rfl, rfl⟩
      · simp only [Bool.and_eq_true, decide_eq_true_eq] at hselected
        exact .settled hrow hselected.1 hselected.2 rfl rfl
      · exact .silent rfl rfl

end Events

section Outbox

/-- The state of an event's outbox row. -/
def outboxState (db : Database) (e : UUID) : Option OutboxState :=
  (db.outbox.lookup e).map OutboxRow.state

theorem outboxState_insert (db : Database) (e e' : UUID) (row : OutboxRow) :
    outboxState { db with outbox := db.outbox.insert e row } e' =
      if e' = e then some row.state else outboxState db e' := by
  unfold outboxState
  by_cases he : e' = e
  · subst he
    simp
  · simp [he, AList.lookup_insert_ne he]

/-- Giving rows to an owner keeps their states. -/
theorem claimRows_outboxState (claimToken : String) (leaseUntilMs nowMs : ℤ)
    {rows : List ((_ : UUID) × OutboxRow)}
    (hrows : ∀ entry ∈ rows, outboxState db entry.1 = some entry.2.state) :
    outboxState (claimRows claimToken leaseUntilMs nowMs rows db) =
      outboxState db := by
  induction rows generalizing db with
  | nil => rfl
  | cons entry rest ih =>
      have hkept : outboxState { db with
          outbox := db.outbox.insert entry.1
            (entry.2.claimed claimToken leaseUntilMs nowMs) } =
          outboxState db := by
        funext e
        rw [outboxState_insert]
        split
        · next he =>
          rw [he, hrows entry List.mem_cons_self]
          rfl
        · rfl
      refine (ih ?_).trans hkept
      intro entry' hentry'
      rw [hkept]
      exact hrows entry' (List.mem_cons_of_mem _ hentry')

/-- Every event has an outbox row and every outbox row has an event. -/
def Paired (db : Database) : Prop :=
  ∀ e, e ∈ db.events ↔ outboxState db e ≠ none

/-- What an executed statement does to the states of `outbox`. -/
inductive OutboxEffect (db db' : Database) (call : D1Call)
    (value : call.Value) : Prop where
  | silent (quiet : ∀ e, call.entry db value ≠ some (e, .accepted))
      (same : outboxState db' = outboxState db)
  | accepted (proposed : UUID)
      (entry : call.entry db value = some (proposed, .accepted))
      (written : ∀ e, outboxState db' e =
        if e = proposed then some .pending else outboxState db e)
  | dispatched (eventId : UUID) (nowMs : ℤ) (claimToken : Option String)
      (dispatch : call = .markDispatched eventId nowMs claimToken)
      (quiet : ∀ e, call.entry db value ≠ some (e, .accepted))
      (pending : outboxState db eventId = some .pending)
      (written : ∀ e, outboxState db' e =
        if e = eventId then some .sent else outboxState db e)

theorem mem_claimableOutbox {nowMs limit : ℤ}
    {entry : (_ : UUID) × OutboxRow}
    (h : entry ∈ claimableOutbox db nowMs limit) :
    db.outbox.lookup entry.1 = some entry.2 := by
  have hmem : entry ∈ db.outbox.entries := by
    unfold claimableOutbox at h
    dsimp only at h
    split at h
    · rw [List.mem_insertionSort] at h
      exact (List.mem_filter.mp h).1
    · have hsorted := List.mem_of_mem_take h
      rw [List.mem_insertionSort] at hsorted
      exact (List.mem_filter.mp hsorted).1
  exact AList.mem_lookup_iff.mpr hmem

theorem outboxState_eq_none : outboxState db e = none ↔ e ∉ db.outbox := by
  rw [outboxState, Option.map_eq_none_iff, AList.lookup_eq_none]

theorem acceptBatch_outbox {proposed : UUID} {eventType fingerprint : String}
    {chunks : List String} {keyHash : Option String} {nowMs : ℤ}
    {value : Option AcceptedRow} (hpaired : Paired db)
    (h : acceptBatch proposed eventType chunks fingerprint keyHash nowMs db =
      some (value, db')) :
    OutboxEffect db db'
      (.acceptBatch proposed eventType chunks fingerprint keyHash nowMs)
      value := by
  obtain ⟨hevents, houtbox⟩ := acceptBatch_cases h
  rcases hevents with ⟨key, id, row, rfl, hfound, rfl, hsame⟩ |
    ⟨hfresh, rfl, hwritten⟩
  · refine .silent ?_ ?_
    · intro e hentry
      obtain ⟨⟨hfresh, hid⟩, -⟩ := Option.ite_none_right_eq_some.mp hentry
      have hid : id = proposed := by simpa using hid
      exact hfresh (hid ▸ eventWithKey_mem hfound)
    · have hnone : ¬(proposed ∈ db'.events ∧ proposed ∉ db.outbox) := by
        rintro ⟨hmem, hnot⟩
        rw [hsame, hpaired] at hmem
        exact hmem (outboxState_eq_none.mpr hnot)
      rw [if_neg hnone] at houtbox
      funext e
      rw [outboxState, outboxState, houtbox]
  · have hnot : proposed ∉ db.outbox := by
      rw [← outboxState_eq_none]
      by_contra hsome
      exact hfresh ((hpaired proposed).mpr hsome)
    have hmem : proposed ∈ db'.events := by
      rw [hwritten, AList.mem_insert]
      exact Or.inl rfl
    rw [if_pos ⟨hmem, hnot⟩] at houtbox
    refine .accepted proposed (if_pos ⟨hfresh, by simp⟩) ?_
    intro e
    exact (congrArg (fun table => (table.lookup e).map OutboxRow.state)
      houtbox).trans (outboxState_insert db proposed e (newOutbox nowMs))

theorem outboxEffect {call : D1Call} {value : call.Value}
    (hpaired : Paired db) (h : call.statement db = some (value, db')) :
    OutboxEffect db db' call value := by
  cases call with
  | acceptBatch => exact acceptBatch_outbox hpaired h
  | selectEvent | selectPayloadChunks | selectState | selectOutbox =>
      obtain ⟨-, rfl⟩ := Prod.mk.inj (Option.some.inj h)
      exact .silent (fun _ => nofun) rfl
  | claimOutbox claimToken leaseUntilMs nowMs limit =>
      obtain ⟨-, rfl⟩ := Prod.mk.inj (Option.some.inj h)
      refine .silent (fun _ => nofun) (claimRows_outboxState _ _ _ ?_)
      intro entry hentry
      rw [outboxState, mem_claimableOutbox hentry]
      rfl
  | markDispatched eventId nowMs claimToken =>
      obtain ⟨result, hrun, -⟩ := map_eq_some h
      rcases updateOutbox_cases hrun with
        ⟨row, hrow, hselected, -, rfl⟩ | ⟨-, rfl⟩
      · simp only [Bool.and_eq_true, decide_eq_true_eq] at hselected
        refine .dispatched eventId nowMs claimToken rfl (fun _ => nofun) ?_ ?_
        · rw [outboxState, hrow, Option.map_some, hselected.1]
        · exact fun e => outboxState_insert _ _ _ _
      · exact .silent (fun _ => nofun) rfl
  | releaseOutboxClaim eventId claimToken nowMs =>
      obtain ⟨result, hrun, -⟩ := map_eq_some h
      rcases updateOutbox_cases hrun with ⟨row, hrow, -, -, rfl⟩ | ⟨-, rfl⟩
      · refine .silent (fun _ => nofun) ?_
        funext e
        rw [outboxState_insert]
        split
        · next he =>
          rw [he, outboxState, hrow]
          rfl
        · rfl
      · exact .silent (fun _ => nofun) rfl
  | claimDelivery eventId =>
      rcases updateEvent_cases h with ⟨row, -, -, rfl, rfl⟩ | ⟨rfl, rfl⟩
      · refine .silent ?_ rfl
        intro e hentry
        cases hentry
      · exact .silent (fun _ => nofun) rfl
  | deadLetterExhausted eventId nowMs m =>
      obtain ⟨result, hrun, rfl⟩ := map_eq_some h
      rcases updateEvent_cases hrun with ⟨row, -, -, rfl, rfl⟩ | ⟨rfl, rfl⟩
      · refine .silent ?_ rfl
        intro e hentry
        cases hentry
      · exact .silent (fun _ => nofun) rfl
  | updateTerminal eventId status nowMs reason token =>
      obtain ⟨result, hrun, rfl⟩ := map_eq_some h
      rcases updateEvent_cases hrun with ⟨row, -, -, rfl, rfl⟩ | ⟨rfl, rfl⟩
      · refine .silent ?_ rfl
        intro e hentry
        cases hentry
      · exact .silent (fun _ => nofun) rfl

end Outbox

end Hooklane.Cloudflare
