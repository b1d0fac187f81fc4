import Hooklane.Cloudflare.Accepting

/-!
# A stored payload is read back

The chunk rows of an event, ordered by their index, are the chunks that were
accepted.  So whoever reads a stored event parses exactly the canonical JSON of
the accepted payload, in every later state.
-/

namespace Hooklane.Cloudflare

open Support ProgE

variable {R : World → (op : Op) → op.Reply → World → Prop} {w w' : World}
  {e : UUID} {c : EventContent} {chunks : List String} {db : Database}

section Rows

/-- The rows of an event's chunks, in their order. -/
def chunkRows (e : UUID) (chunks : List String) :
    List ((_ : UUID × ℕ) × String) :=
  chunks.zipIdx.map fun p => ⟨(e, p.2), p.1⟩

theorem mem_chunkRows {row : (_ : UUID × ℕ) × String} :
    row ∈ chunkRows e chunks ↔
      row.1.1 = e ∧ chunks[row.1.2]? = some row.2 := by
  obtain ⟨⟨id, i⟩, chunk⟩ := row
  rw [chunkRows, List.mem_map]
  constructor
  · rintro ⟨p, hp, heq⟩
    obtain ⟨hkey, hchunk⟩ := Sigma.mk.inj heq
    obtain ⟨rfl, rfl⟩ := Prod.mk.inj hkey
    obtain rfl := eq_of_heq hchunk
    exact ⟨rfl, List.mem_zipIdx_iff_getElem?.mp hp⟩
  · rintro ⟨rfl, hchunk⟩
    exact ⟨(chunk, i), List.mk_mem_zipIdx_iff_getElem?.mpr hchunk, rfl⟩

theorem chunkRows_sorted :
    (chunkRows e chunks).Pairwise fun a b => a.1.2 < b.1.2 := by
  rw [chunkRows, List.pairwise_map]
  have hindex : (chunks.zipIdx.map Prod.snd).Pairwise (· < ·) := by
    rw [List.zipIdx_map_snd]
    exact List.pairwise_lt_range'
  exact List.pairwise_map.mp hindex

theorem chunkRows_values :
    (chunkRows e chunks).map (fun row => row.2) = chunks := by
  rw [chunkRows, List.map_map]
  exact List.zipIdx_map_fst 0 chunks

/-- `SELECT payload_chunk ... ORDER BY chunk_index` gives the chunks. -/
theorem selectPayloadChunks_eq (h : Holds db e c chunks) :
    selectPayloadChunks e db = some (chunks, db) := by
  let r : (_ : UUID × ℕ) × String → (_ : UUID × ℕ) × String → Prop :=
    fun a b => a.1.2 ≤ b.1.2
  let rows := db.payloadChunks.entries.filter fun entry => entry.1.1 = e
  have hmem : ∀ row, row ∈ rows ↔ row ∈ chunkRows e chunks := by
    rintro ⟨⟨id, i⟩, chunk⟩
    rw [mem_chunkRows, List.mem_filter, decide_eq_true_eq, and_comm]
    refine and_congr_right fun he => ?_
    obtain rfl : id = e := he
    rw [← h.chunks i]
    exact AList.mem_lookup_iff.symm
  have hrows : rows.Nodup :=
    (List.NodupKeys.nodup db.payloadChunks.nodupKeys).filter _
  have hchunks : (chunkRows e chunks).Nodup :=
    chunkRows_sorted.imp fun hlt heq => by
      subst heq
      exact Nat.lt_irrefl _ hlt
  have hperm : (rows.insertionSort r).Perm (chunkRows e chunks) :=
    (List.perm_insertionSort r rows).trans
      ((List.perm_ext_iff_of_nodup hrows hchunks).mpr hmem)
  have hsorted : (rows.insertionSort r).Pairwise r :=
    List.pairwise_insertionSort r rows
  have heq : rows.insertionSort r = chunkRows e chunks := by
    refine hperm.eq_of_pairwise ?_ hsorted
      (chunkRows_sorted.imp fun h => Nat.le_of_lt h)
    intro a b ha hb hab hba
    have hindex : a.1.2 = b.1.2 := Nat.le_antisymm hab hba
    obtain ⟨haid, hachunk⟩ := mem_chunkRows.mp (hperm.mem_iff.mp ha)
    obtain ⟨hbid, hbchunk⟩ := mem_chunkRows.mp hb
    obtain ⟨⟨aid, ai⟩, achunk⟩ := a
    obtain ⟨⟨bid, bi⟩, bchunk⟩ := b
    obtain rfl : ai = bi := hindex
    obtain rfl : aid = e := haid
    obtain rfl : bid = aid := hbid
    rw [hachunk] at hbchunk
    obtain rfl := Option.some.inj hbchunk
    rfl
  change some ((rows.insertionSort r).map (fun entry => entry.2), db) = _
  rw [heq, chunkRows_values]

end Rows

/-- The event was accepted as `event`, and stored. -/
def World.AcceptedAs (w : World) (e : UUID) (event : EventRequest) : Prop :=
  ∃ c chunks, w.Stored e c chunks ∧ c.eventType = event.eventType ∧
    payloadJsonChunks payloadChunkLimitBytes event = some chunks

/-- What is read back from the canonical JSON of a request. -/
def reread (lib : Stdlib) (event : EventRequest) : Option EventRequest := do
  let payload ← lib.readJson event.payloadJson
  EventRequest.validate event.eventType payload

/-- The environment may leave a call to D1 unanswered. -/
def Lossy (R : World → (op : Op) → op.Reply → World → Prop) : Prop :=
  ∃ w call w', R w (.d1 call) none w'

section Accepted

variable {event event' : EventRequest}

theorem World.AcceptedAs.mono (hsuffix : w.history <:+ w'.history)
    (h : w.AcceptedAs e event) : w'.AcceptedAs e event := by
  obtain ⟨c, chunks, hstored, hrest⟩ := h
  exact ⟨c, chunks, hstored.mono hsuffix, hrest⟩

theorem lasts_acceptedAs : Lasts R fun w => w.AcceptedAs e event :=
  lasts_of_history fun _ _ => World.AcceptedAs.mono

theorem join_chunks
    (hcut : payloadJsonChunks payloadChunkLimitBytes event = some chunks) :
    String.join chunks = event.payloadJson := by
  obtain ⟨chunks', hcut', -, hjoin⟩ :=
    payloadJsonChunks_cut payloadChunkLimitBytes (by decide) event
  rw [hcut] at hcut'
  obtain rfl := Option.some.inj hcut'
  exact hjoin

theorem payloadJson_ne_empty (event : EventRequest) :
    event.payloadJson ≠ "" := by
  intro h
  have hlist := congrArg String.toList h
  simp [EventRequest.payloadJson, Json.dumps, Json.dumpsChars] at hlist

/-- The chunks that a reader finds, and the request they were cut from. -/
theorem World.AcceptedAs.select (hw : Shelved w) (h : w.AcceptedAs e event) :
    ∃ chunks, selectPayloadChunks e w.db = some (chunks, w.db) ∧
      String.join chunks = event.payloadJson ∧ chunks ≠ [] := by
  obtain ⟨c, chunks, hstored, -, hcut⟩ := h
  have hjoin := join_chunks hcut
  refine ⟨chunks, selectPayloadChunks_eq (hw.stored e c chunks hstored), hjoin,
    ?_⟩
  rintro rfl
  exact payloadJson_ne_empty event hjoin.symm

theorem row_accepted {row : EventRow} (hw : Shelved w)
    (hrow : w.db.events.lookup e = some row) :
    ∃ event, w.AcceptedAs e event ∧ row.eventType = event.eventType ∧
      row.payloadJson = "" := by
  obtain ⟨event, chunks, htype, hcut, hstored⟩ :=
    hw.origin e _ (content_of_row hrow)
  have hlegacy : row.content.payloadJson = "" := by
    obtain ⟨_, _, _, -, hlegacy, -⟩ := hstored
    exact hlegacy
  exact ⟨event, ⟨row.content, chunks, hstored, htype, hcut⟩, htype, hlegacy⟩

/-- The row of a stored event shows its type. -/
theorem World.AcceptedAs.row (hw : Shelved w) (h : w.AcceptedAs e event) :
    ∃ row, w.db.events.lookup e = some row ∧
      row.eventType = event.eventType := by
  obtain ⟨c, chunks, hstored, htype, -⟩ := h
  have hcontent := (hw.stored e c chunks hstored).content
  obtain ⟨row, hrow, rfl⟩ := Option.map_eq_some_iff.mp hcontent
  exact ⟨row, hrow, htype⟩

end Accepted

section Readers

variable {lib : Stdlib} {store : D1EventStore} {event : EventRequest}

/-- What `_load_payload_json` gives for a stored event. -/
def PayloadTold (R : World → (op : Op) → op.Reply → World → Prop)
    (event : EventRequest) : Except Raised String → Prop
  | .ok payloadJson => payloadJson = event.payloadJson
  | .error raised => raised = .persistenceUnavailable ∧ Lossy R

theorem ends_loadPayloadJson {legacy : String} (h : w.AcceptedAs e event) :
    Ends R (D1EventStore.loadPayloadJson e legacy)
      (fun r _ => PayloadTold R event r) w := by
  refine EnsuresOutcome.bind (Q := fun r _ => match r with
    | .ok found => String.join found = event.payloadJson ∧ found ≠ []
    | .error raised => raised = .persistenceUnavailable ∧ Lossy R)
    ?_ ?_ ?_ ?_
  · refine ends_execute ?_ (fun w₀ w' hR => ⟨rfl, w₀, _, w', hR⟩) ?_
    · rintro w₁ value returned db hw₁ hlater - - hrun rfl
      obtain ⟨found, hselect, hjoin, hne⟩ :=
        (h.mono (history_later hlater)).select hw₁.shelved
      rw [show (D1Call.selectPayloadChunks e).statement w₁.db =
        some (found, w₁.db) from hselect] at hrun
      obtain ⟨rfl, -⟩ := Prod.mk.inj (Option.some.inj hrun)
      exact ⟨hjoin, hne⟩
    · exact fun r => lasts_const _
  · rintro found w₁ hw₁ ⟨hjoin, hne⟩
    rw [if_pos hne]
    exact ensuresOutcome_pure hw₁ (lasts_const _) hjoin
  · exact fun raised _ _ h => h
  · exact fun raised => lasts_const _

/-- What a reader is told about a stored event. -/
def RecordTold (R : World → (op : Op) → op.Reply → World → Prop)
    (lib : Stdlib) (e : UUID) (event : EventRequest) :
    Except Raised EventRecord → Prop
  | .ok record => record.eventId = e ∧ reread lib event = some record.event
  | .error raised => raised = .persistenceUnavailable ∧
      (Lossy R ∨ reread lib event = none)

theorem ends_loadRecord {row : EventRow} (h : w.AcceptedAs e event)
    (htype : row.eventType = event.eventType) :
    Ends R (store.loadRecord e row)
      (fun r _ => RecordTold R store.lib e event r) w := by
  refine (ends_loadPayloadJson h).bind ?_ ?_ fun _ => lasts_const _
  · rintro _ w₁ hw₁ rfl
    have hevent : (do
        let payload ← store.lib.readJson event.payloadJson
        EventRequest.validate row.eventType payload) =
        reread store.lib event := by
      rw [reread, htype]
    dsimp only
    rw [hevent]
    cases hread : reread store.lib event with
    | some found => exact ensuresOutcome_pure hw₁ (lasts_const _) ⟨rfl, hread⟩
    | none =>
        exact ensuresOutcome_throw hw₁ (lasts_const _) ⟨rfl, Or.inr hread⟩
  · rintro raised w₁ - ⟨rfl, hlossy⟩
    exact ⟨rfl, Or.inl hlossy⟩

/-- A row read for a stored event. -/
def RowTold (R : World → (op : Op) → op.Reply → World → Prop) (e : UUID)
    (event : EventRequest) : Except Raised (Option EventRow) → World → Prop
  | .ok found, w => w.AcceptedAs e event ∧
      ∀ row, found = some row → row.eventType = event.eventType
  | .error raised, _ => raised = .persistenceUnavailable ∧ Lossy R

theorem lasts_rowTold (r : Except Raised (Option EventRow)) :
    Lasts R (RowTold R e event r) := by
  cases r with
  | ok found =>
      exact lasts_of_history fun w w' hsuffix h => ⟨h.1.mono hsuffix, h.2⟩
  | error raised => exact lasts_const _

/-- What `get_status` tells about a stored event. -/
def StatusTold (R : World → (op : Op) → op.Reply → World → Prop)
    (lib : Stdlib) (e : UUID) (event : EventRequest) :
    Except Raised (Option EventRecord) → Prop
  | .ok found => ∃ record, found = some record ∧ record.eventId = e ∧
      reread lib event = some record.event
  | .error raised => raised = .persistenceUnavailable ∧
      (Lossy R ∨ reread lib event = none)

theorem ends_getStatus (h : w.AcceptedAs e event) :
    Ends R (store.getStatus e)
      (fun r _ => StatusTold R store.lib e event r) w := by
  refine EnsuresOutcome.bind (Q := fun r w' => RowTold R e event r w' ∧
    r ≠ .ok none) ?_ ?_ ?_ fun _ => lasts_const _
  · refine ends_execute ?_ ?_ ?_
    · rintro w₁ value returned db hw₁ hlater - - hrun rfl
      obtain ⟨hfound, rfl⟩ := Prod.mk.inj (Option.some.inj hrun)
      have h₁ := h.mono (history_later hlater)
      obtain ⟨row, hrow, htype⟩ := h₁.row hw₁.shelved
      obtain rfl := hfound.symm.trans hrow
      refine ⟨⟨h₁.mono (List.suffix_cons _ _), ?_⟩, nofun⟩
      rintro _ ⟨⟩
      exact htype
    · exact fun w₀ w' hR => ⟨⟨rfl, w₀, _, w', hR⟩, nofun⟩
    · exact fun r w₁ w₂ hw₁ hlater h =>
        ⟨lasts_rowTold r w₁ w₂ hw₁ hlater h.1, h.2⟩
  · rintro (_ | row) w₁ hw₁ ⟨⟨h₁, htype⟩, hsome⟩
    · exact absurd rfl hsome
    · refine (ends_loadRecord h₁ (htype row rfl)).bind ?_ ?_
        fun _ => lasts_const _
      · rintro record w₂ hw₂ htold
        exact ensuresOutcome_pure hw₂ (lasts_const _) ⟨record, rfl, htold⟩
      · exact fun raised _ _ h => h
  · rintro raised w₁ - ⟨⟨rfl, hlossy⟩, -⟩
    exact ⟨rfl, Or.inl hlossy⟩

/-- What a delivery gets for an attempt that it started. -/
def StartTold (lib : Stdlib) (e : UUID) (event : EventRequest)
    (start : DeliveryStart) : Prop :=
  start.disposition = .started ↔
    ∃ record, start.record = some record ∧ record.eventId = e ∧
      reread lib event = some record.event

theorem unclaimed_told {state : EventStatus × ℕ} {start : DeliveryStart}
    (h : D1EventStore.unclaimed state = some start) :
    StartTold lib e event start := by
  unfold D1EventStore.unclaimed at h
  split at h
  · obtain rfl := Option.some.inj h
    simp [StartTold]
  · split at h
    · obtain rfl := Option.some.inj h
      simp [StartTold]
    · cases h

/-- An attempt that was not claimed has no record. -/
theorem yields_startUnclaimed {nowMs : ℤ} {m : ℕ} :
    Yields (fun r => ∀ start, r = .ok start → StartTold lib e event start)
      (D1EventStore.startUnclaimed e nowMs m) := by
  have hok : ∀ start, StartTold lib e event start →
      Yields (fun r => ∀ start, r = .ok start → StartTold lib e event start)
        (pure start : App DeliveryStart) := by
    intro start h
    refine yields_pure ?_
    rintro _ ⟨⟩
    exact h
  refine (yields_any (D1EventStore.readState e)).bind (fun snapshot _ => ?_)
    fun _ _ _ h => nomatch h
  split
  · next hstart => exact hok _ (unclaimed_told hstart)
  · split
    · refine (yields_execute _).bind (fun changed _ => ?_)
        fun _ _ _ h => nomatch h
      split
      · exact hok _ (by simp [StartTold])
      · refine (yields_any (D1EventStore.readState e)).bind (fun current _ => ?_)
          fun _ _ _ h => nomatch h
        split
        · next hstart => exact hok _ (unclaimed_told hstart)
        · exact yields_throw fun _ h => nomatch h
    · exact yields_throw fun _ h => nomatch h

theorem ends_markDeliveryStarted {m : ℕ} (hw : FreshReach R w)
    (h : w.AcceptedAs e event) :
    Ends R (store.markDeliveryStarted e m)
      (fun r _ => ∀ start, r = .ok start →
        StartTold store.lib e event start) w := by
  have hraised : ∀ raised : Raised, Lasts R fun _ : World =>
      ∀ start, (.error raised : Except Raised DeliveryStart) = .ok start →
        StartTold store.lib e event start := fun _ => lasts_const _
  unfold D1EventStore.markDeliveryStarted
  split
  · exact ensuresOutcome_throw hw (lasts_const _) fun _ h => nomatch h
  · refine (ends_of_yields yields_nowMs lasts_acceptedAs hw h).bind
      (fun nowMs w₁ hw₁ ⟨_, h₁⟩ => ?_) (fun _ _ _ _ _ h => nomatch h) hraised
    refine (ends_of_yields yields_uuid4Hex lasts_acceptedAs hw₁ h₁).bind
      (fun token w₂ hw₂ ⟨_, h₂⟩ => ?_) (fun _ _ _ _ _ h => nomatch h) hraised
    refine EnsuresOutcome.bind (Q := RowTold R e event) ?_ ?_
      (fun _ _ _ _ _ h => nomatch h) hraised
    · refine ends_execute ?_ (fun w₀ w' hR => ⟨rfl, w₀, _, w', hR⟩)
        lasts_rowTold
      rintro w₃ value returned db hw₃ hlater - hafter hrun rfl
      have h₃ := h₂.mono (history_later hlater)
      have hthen : (w₃.ran (.claimDelivery e token (nowMs + 30000) nowMs m)
          returned db).AcceptedAs e event := h₃.mono (List.suffix_cons _ _)
      refine ⟨hthen, ?_⟩
      rintro row rfl
      obtain ⟨row', hrow', htype⟩ := hthen.row hafter.shelved
      rcases updateEvent_cases hrun with ⟨old, -, -, hnew, rfl⟩ | ⟨hnone, -⟩
      · rw [World.ran, AList.lookup_insert] at hrow'
        rw [Option.some.inj hnew, Option.some.inj hrow']
        exact htype
      · cases hnone
    · rintro (_ | row) w₃ hw₃ ⟨h₃, htype⟩
      · exact (ends_of_yields yields_startUnclaimed (lasts_const True) hw₃
          trivial).mono fun r _ _ hr => hr.1
      · refine (ends_loadRecord h₃ (htype row rfl)).bind ?_
          (fun _ _ _ _ _ h => nomatch h) hraised
        rintro record w₄ hw₄ ⟨hid, hread⟩
        refine ensuresOutcome_pure hw₄ (lasts_const _) ?_
        rintro _ ⟨⟩
        exact ⟨fun _ => ⟨record, rfl, hid, hread⟩, fun _ => rfl⟩

end Readers

end Hooklane.Cloudflare
