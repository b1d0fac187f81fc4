import Hooklane.Cloudflare.Chunks
import Hooklane.Cloudflare.Effects

/-!
# What an acceptance stores

The batch of `accept` either finds its key taken and leaves every table as it
is, or it writes one event row, its outbox row and all its payload chunks.  No
other statement touches the chunks, the content of a row or the set of rows.
-/

namespace Hooklane.Cloudflare

open Support

variable {db db' : Database} {e : UUID}

/-- The columns of `events` that no statement rewrites. -/
structure EventContent where
  eventType : String
  payloadJson : String
  requestFingerprint : String
  idempotencyKeyHash : Option String
deriving DecidableEq

def EventRow.content (row : EventRow) : EventContent :=
  ⟨row.eventType, row.payloadJson, row.requestFingerprint,
    row.idempotencyKeyHash⟩

/-- The content stored for an event. -/
def content (db : Database) (e : UUID) : Option EventContent :=
  (db.events.lookup e).map EventRow.content

theorem content_ne_none : content db e ≠ none ↔ e ∈ db.events := by
  rw [content, Ne, Option.map_eq_none_iff, AList.lookup_eq_none, not_not]

theorem content_of_row {row : EventRow}
    (h : db.events.lookup e = some row) : content db e = some row.content := by
  rw [content, h, Option.map_some]

theorem content_insert (db : Database) (e e' : UUID) (row : EventRow) :
    content { db with events := db.events.insert e row } e' =
      if e' = e then some row.content else content db e' := by
  unfold content
  by_cases he : e' = e
  · subst he
    simp
  · simp [he, AList.lookup_insert_ne he]

/-- Which events exist, what they contain, and their chunks. -/
structure SameContent (db db' : Database) : Prop where
  content : content db' = content db
  outbox : ∀ e, e ∈ db'.outbox ↔ e ∈ db.outbox
  chunks : db'.payloadChunks = db.payloadChunks

theorem SameContent.refl (db : Database) : SameContent db db :=
  ⟨rfl, fun _ => Iff.rfl, rfl⟩

theorem sameContent_updateEvent {selected : EventRow → Bool}
    {update : EventRow → EventRow} {result : Option EventRow}
    (h : updateEvent e selected update db = some (result, db'))
    (hkeeps : ∀ row, (update row).content = row.content) :
    SameContent db db' := by
  rcases updateEvent_cases h with ⟨row, hrow, -, -, rfl⟩ | ⟨-, rfl⟩
  · refine ⟨?_, fun _ => Iff.rfl, rfl⟩
    funext e'
    rw [content_insert]
    split
    · next he =>
      rw [he, hkeeps, content_of_row hrow]
    · rfl
  · exact .refl _

theorem mem_insert_of_lookup {Row : Type} {table : AList fun _ : UUID => Row}
    {row row' : Row} (hrow : table.lookup e = some row) (e' : UUID) :
    e' ∈ table.insert e row' ↔ e' ∈ table := by
  rw [AList.mem_insert]
  constructor
  · rintro (rfl | hmem)
    · exact AList.lookup_isSome.mp (by rw [hrow]; rfl)
    · exact hmem
  · exact Or.inr

theorem sameContent_updateOutbox {selected : OutboxRow → Bool}
    {update : OutboxRow → OutboxRow} {result : Option OutboxRow}
    (h : updateOutbox e selected update db = some (result, db')) :
    SameContent db db' := by
  rcases updateOutbox_cases h with ⟨row, hrow, -, -, rfl⟩ | ⟨-, rfl⟩
  · exact ⟨rfl, mem_insert_of_lookup hrow, rfl⟩
  · exact .refl _

theorem sameContent_claimRows {claimToken : String} {leaseUntilMs nowMs : ℤ}
    {rows : List ((_ : UUID) × OutboxRow)}
    (hrows : ∀ entry ∈ rows, entry.1 ∈ db.outbox) :
    SameContent db (claimRows claimToken leaseUntilMs nowMs rows db) := by
  induction rows generalizing db with
  | nil => exact .refl db
  | cons entry rest ih =>
      have hentry := hrows entry List.mem_cons_self
      let row := entry.2.claimed claimToken leaseUntilMs nowMs
      have hkept : ∀ e, e ∈ db.outbox.insert entry.1 row ↔ e ∈ db.outbox := by
        intro e
        rw [AList.mem_insert]
        constructor
        · rintro (rfl | hmem)
          · exact hentry
          · exact hmem
        · exact Or.inr
      have hrest := @ih { db with outbox := db.outbox.insert entry.1 row }
        fun entry' hentry' =>
          (hkept _).mpr (hrows entry' (List.mem_cons_of_mem _ hentry'))
      exact ⟨hrest.content, fun e => (hrest.outbox e).trans (hkept e),
        hrest.chunks⟩

/-- Every statement but the batch of `accept` keeps the content. -/
theorem sameContent_statement {call : D1Call} {value : call.Value}
    (hcall : ∀ proposed eventType chunks fingerprint keyHash nowMs,
      call ≠ .acceptBatch proposed eventType chunks fingerprint keyHash nowMs)
    (h : call.statement db = some (value, db')) : SameContent db db' := by
  cases call with
  | acceptBatch => exact absurd rfl (hcall _ _ _ _ _ _)
  | selectEvent | selectPayloadChunks | selectState | selectOutbox =>
      obtain ⟨-, rfl⟩ := Prod.mk.inj (Option.some.inj h)
      exact .refl _
  | claimOutbox claimToken leaseUntilMs nowMs limit =>
      obtain ⟨-, rfl⟩ := Prod.mk.inj (Option.some.inj h)
      refine sameContent_claimRows fun entry hentry => ?_
      exact AList.lookup_isSome.mp (by rw [mem_claimableOutbox hentry]; rfl)
  | markDispatched | releaseOutboxClaim =>
      obtain ⟨result, hrun, -⟩ := map_eq_some h
      exact sameContent_updateOutbox hrun
  | claimDelivery => exact sameContent_updateEvent h fun _ => rfl
  | deadLetterExhausted | updateTerminal =>
      obtain ⟨result, hrun, -⟩ := map_eq_some h
      exact sameContent_updateEvent hrun fun _ => rfl

section Batch

variable {proposed : UUID} {eventType fingerprint : String}
  {chunks : List String} {keyHash : Option String} {nowMs : ℤ}
  {value : Option AcceptedRow}

/-- Without its event a chunk is not inserted. -/
theorem insertPayloadChunks_missing (index : ℕ)
    (hmissing : proposed ∉ db.events) :
    insertPayloadChunks proposed index chunks db = some ((), db) := by
  induction chunks generalizing index with
  | nil => rfl
  | cons chunk rest ih =>
      change ((insertPayloadChunk proposed index chunk) db).bind _ = _
      rw [insertPayloadChunk, if_neg (fun h => hmissing h.1)]
      exact ih (index + 1)

/-- The chunks of a new event are stored in their order. -/
theorem insertPayloadChunks_stored (db : Database) (index : ℕ)
    (hevent : proposed ∈ db.events)
    (hfree : ∀ i, index ≤ i → (proposed, i) ∉ db.payloadChunks) :
    ∃ table, insertPayloadChunks proposed index chunks db =
        some ((), { db with payloadChunks := table }) ∧
      ∀ e i, table.lookup (e, i) =
        if e = proposed ∧ index ≤ i then chunks[i - index]?
        else db.payloadChunks.lookup (e, i) := by
  induction chunks generalizing index db with
  | nil =>
      refine ⟨db.payloadChunks, rfl, fun e i => ?_⟩
      split
      · next h =>
        rw [h.1, AList.lookup_eq_none.mpr (hfree i h.2)]
        rfl
      · rfl
  | cons chunk rest ih =>
      let db₁ := { db with payloadChunks :=
        db.payloadChunks.insert (proposed, index) chunk }
      have hfree₁ : ∀ i, index + 1 ≤ i → (proposed, i) ∉ db₁.payloadChunks := by
        intro i hi hmem
        rcases AList.mem_insert _ |>.mp hmem with heq | hmem
        · obtain rfl : i = index := (Prod.mk.inj heq).2
          omega
        · exact hfree i (by omega) hmem
      obtain ⟨table, hrun, hlookup⟩ := ih db₁ (index + 1) hevent hfree₁
      refine ⟨table, ?_, fun e i => ?_⟩
      · change ((insertPayloadChunk proposed index chunk) db).bind _ = _
        rw [insertPayloadChunk, if_pos ⟨hevent, hfree index le_rfl⟩]
        exact hrun
      · rw [hlookup]
        by_cases he : e = proposed
        · subst he
          by_cases hi : index + 1 ≤ i
          · obtain ⟨k, rfl⟩ : ∃ k, i = index + 1 + k := ⟨i - (index + 1), by omega⟩
            rw [if_pos ⟨rfl, hi⟩, if_pos ⟨rfl, by omega⟩]
            have hk : index + 1 + k - index = k + 1 := by omega
            rw [hk, List.getElem?_cons_succ]
            congr 1
            omega
          · rw [if_neg (fun h => hi h.2)]
            by_cases heq : i = index
            · subst heq
              rw [if_pos ⟨rfl, le_rfl⟩, AList.lookup_insert]
              simp
            · rw [if_neg (fun h => by omega)]
              exact AList.lookup_insert_ne
                (fun h => heq (Prod.mk.inj h).2)
        · rw [if_neg (fun h => he h.1), if_neg (fun h => he h.1)]
          exact AList.lookup_insert_ne (fun h => he (Prod.mk.inj h).1)

/-- The tables know nothing of an event. -/
structure Unknown (db : Database) (e : UUID) : Prop where
  event : e ∉ db.events
  outbox : e ∉ db.outbox
  chunks : ∀ i, (e, i) ∉ db.payloadChunks

/-- The batch of a fresh id: the key is taken and nothing is written, or the
event is stored with its outbox row and its chunks. -/
inductive BatchEffect (db db' : Database) (proposed : UUID)
    (eventType : String) (chunks : List String) (fingerprint : String)
    (keyHash : Option String) (nowMs : ℤ) : Option AcceptedRow → Prop where
  | found (key : String) (id : UUID) (row : EventRow)
      (keyed : keyHash = some key)
      (taken : eventWithKey db key = some (id, row)) (same : db' = db) :
      BatchEffect db db' proposed eventType chunks fingerprint keyHash nowMs
        (some ⟨id, row.requestFingerprint, row.status, row.attemptCount⟩)
  | stored (free : ∀ key, keyHash = some key → eventWithKey db key = none)
      (events : db'.events = db.events.insert proposed
        (newEvent eventType fingerprint keyHash nowMs))
      (outbox : db'.outbox = db.outbox.insert proposed (newOutbox nowMs))
      (payload : ∀ e i, db'.payloadChunks.lookup (e, i) =
        if e = proposed then chunks[i]?
        else db.payloadChunks.lookup (e, i)) :
      BatchEffect db db' proposed eventType chunks fingerprint keyHash nowMs
        (some ⟨proposed, fingerprint, .queued, 0⟩)

theorem batchEffect (hfresh : Unknown db proposed)
    (h : acceptBatch proposed eventType chunks fingerprint keyHash nowMs db =
      some (value, db')) :
    BatchEffect db db' proposed eventType chunks fingerprint keyHash nowMs
      value := by
  obtain ⟨_, db₁, hinsert, h⟩ := bind_eq_some h
  obtain ⟨_, db₂, hchunks, h⟩ := bind_eq_some h
  obtain ⟨_, db₃, houtbox, hlookup⟩ := bind_eq_some h
  obtain ⟨hvalue, rfl⟩ := Prod.mk.inj (Option.some.inj hlookup)
  rcases insertEvent_cases hinsert with
    ⟨rfl, key, ⟨id, row⟩, rfl, hfound⟩ | ⟨-, hfree, rfl⟩
  · rw [insertPayloadChunks_missing 0 hfresh.event] at hchunks
    obtain ⟨-, rfl⟩ := Prod.mk.inj (Option.some.inj hchunks)
    rw [insertOutbox, if_neg (fun hc => hfresh.event hc.1)] at houtbox
    obtain ⟨-, rfl⟩ := Prod.mk.inj (Option.some.inj houtbox)
    simp only [hfound] at hvalue
    subst hvalue
    exact .found key id row rfl hfound rfl
  · let row := newEvent eventType fingerprint keyHash nowMs
    have hevent : proposed ∈ db.events.insert proposed row :=
      AList.mem_insert _ |>.mpr (Or.inl rfl)
    obtain ⟨table, hrun, htable⟩ := insertPayloadChunks_stored
      { db with events := db.events.insert proposed row } 0 hevent
      fun i _ => hfresh.chunks i
    rw [hrun] at hchunks
    obtain ⟨-, rfl⟩ := Prod.mk.inj (Option.some.inj hchunks)
    rw [insertOutbox, if_pos ⟨hevent, hfresh.outbox⟩] at houtbox
    obtain ⟨-, rfl⟩ := Prod.mk.inj (Option.some.inj houtbox)
    have hstored : value = some ⟨proposed, fingerprint, .queued, 0⟩ := by
      rw [← hvalue]
      cases keyHash with
      | none =>
          simp only [AList.lookup_insert]
          rfl
      | some key =>
          have hkey : eventWithKey { db with
              events := db.events.insert proposed row } key =
              some (proposed, row) := eventWithKey_insert rfl
          exact congrArg (Option.map _) hkey
    subst hstored
    refine .stored hfree rfl rfl fun e i => ?_
    simpa using htable e i

end Batch

end Hooklane.Cloudflare
