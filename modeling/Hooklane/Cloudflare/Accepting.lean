import Hooklane.Cloudflare.Refinement
import Hooklane.Cloudflare.Shelf
import Hooklane.Support.Accounting
import Hooklane.Support.Outcome

/-!
# What the clients of the store are told

An acceptance returns the event that belongs to its key, conflicts when that
event was accepted with another request, and otherwise raises only what a
failing batch raises.  A reader of a stored event gets the record made from the
payload that was accepted.
-/

namespace Hooklane.Cloudflare

open Support ProgE

variable {R : World → (op : Op) → op.Reply → World → Prop} {w w' : World}
  {e : UUID} {c : EventContent} {chunks : List String} {α : Type}

/-- A program in a run with fresh ids ends as `Q` says. -/
abbrev Ends (R : World → (op : Op) → op.Reply → World → Prop) (p : App α)
    (Q : Except Raised α → World → Prop) (w : World) : Prop :=
  EnsuresOutcome (M := FreshMachine R) Service.anyCall p Q w

/-- What later steps of such a run cannot undo. -/
abbrev Lasts (R : World → (op : Op) → op.Reply → World → Prop)
    (F : World → Prop) : Prop :=
  Machine.Stable (M := FreshMachine R) Service.anyCall F

section Lasting

theorem history_later
    (h : (FreshMachine R).Later Service.anyCall w w') :
    w.history <:+ w'.history := by
  induction h with
  | refl => exact List.suffix_refl _
  | tail _ hmove ih =>
      obtain ⟨op, reply, -, -, hexec, -⟩ := hmove
      exact ih.trans (exec_history hexec)

theorem lasts_of_history {F : World → Prop}
    (hF : ∀ w w' : World, w.history <:+ w'.history → F w → F w') :
    Lasts R F :=
  fun w w' _ hlater h => hF w w' (history_later hlater) h

theorem World.Stored.mono (hsuffix : w.history <:+ w'.history)
    (h : w.Stored e c chunks) : w'.Stored e c chunks := by
  obtain ⟨before, nowMs, row, hid, hlegacy, hmem⟩ := h
  exact ⟨before, nowMs, row, hid, hlegacy, hsuffix.subset hmem⟩

theorem lasts_const (p : Prop) : Lasts R fun _ => p :=
  fun _ _ _ _ h => h

end Lasting

section Calls

/-- What a reply says about the value that `execute` makes of it. -/
def Answering {Value : Type} (Q : Except Raised Value → World → Prop) :
    Except Raised (Option Value) → World → Prop
  | .ok (some value), w => Q (.ok value) w
  | .ok none, w => Q (.error .persistenceUnavailable) w
  | .error _, _ => False

/-- One call to D1: its value tells what the statement did, and it raises only
where the environment may leave it unanswered. -/
theorem ends_execute {call : D1Call}
    {Q : Except Raised call.Value → World → Prop}
    (hQ : ∀ w' value returned db, FreshReach R w' →
      (FreshMachine R).Later Service.anyCall w w' →
      FreshProposals w' (.d1 call) → FreshReach R (w'.ran call value db) →
      call.statement w'.db = some (value, db) → call.Agrees returned value →
      Q (.ok returned) (w'.ran call value db))
    (hlost : ∀ w₀ w', R w₀ (.d1 call) none w' →
      Q (.error .persistenceUnavailable) w')
    (hlasts : ∀ r, Lasts R (Q r)) : Ends R (App.execute call) Q w := by
  have hreply : Ends R (App.request (.d1 call)) (Answering Q) w := by
    apply ensuresOutcome_perform
    · exact fun _ _ _ => trivial
    · rintro s hlater hs reply t ⟨⟨hfresh, hformed⟩, hexec, hR⟩
      have ht : FreshReach R t := hs.later
        (Machine.Later.move trivial ⟨⟨hfresh, hformed⟩, hexec, hR⟩)
      cases hexec with
      | answered call value returned db run agrees =>
          exact hQ s value returned db hs hlater hfresh ht run agrees
      | replyLost | failed => exact hlost s _ hR
    · rintro (_ | value)
      · exact hlasts _
      · exact hlasts _
  refine hreply.bind ?_ ?_ fun _ => hlasts _
  · rintro (_ | value) s hs h
    · exact ensuresOutcome_throw hs (hlasts _) h
    · exact ensuresOutcome_pure hs (hlasts _) h
  · exact fun _ _ _ h => h.elim

/-- A program whose results are known from its text. -/
theorem ends_of_yields {p : App α} {P : Except Raised α → Prop}
    {F : World → Prop} (hp : Yields P p) (hF : Lasts R F)
    (hw : FreshReach R w) (h : F w) :
    Ends R p (fun r w' => P r ∧ F w') w :=
  Service.ensures_of_yields hp hF hw h

theorem yields_nowMs : Yields (fun r => ∃ t, r = .ok t) App.nowMs :=
  yields_perform.bind (fun _ _ => yields_pure ⟨_, rfl⟩)
    fun _ h => nomatch h

theorem yields_uuid4Hex : Yields (fun r => ∃ t, r = .ok t) App.uuid4Hex :=
  yields_perform.bind (fun _ _ => yields_pure ⟨_, rfl⟩)
    fun _ h => nomatch h

theorem yields_emit (transition : String) (attempt : ℕ) (reason : String) :
    Yields (fun r => r = .ok ()) (App.emit transition e attempt reason) :=
  yields_perform.mono fun _ ⟨_, h⟩ => h

/-- The exceptions of a method that raises only what D1 makes it raise. -/
def OnlyUnavailable {α : Type} (r : Except Raised α) : Prop :=
  ∀ raised, r = .error raised → raised = .persistenceUnavailable

theorem onlyUnavailable_error {β : Type} {raised : Raised}
    (h : OnlyUnavailable (.error raised : Except Raised α)) :
    OnlyUnavailable (.error raised : Except Raised β) := by
  rintro _ ⟨⟩
  exact h raised rfl

theorem yields_execute (call : D1Call) :
    Yields OnlyUnavailable (App.execute call) := by
  refine yields_perform.bind (fun reply _ => ?_) fun _ h => nomatch h
  cases reply with
  | some value => exact yields_pure fun _ h => nomatch h
  | none =>
      refine yields_throw fun raised h => ?_
      exact (Except.error.inj h).symm

end Calls

section Accept

variable {lib : Stdlib} {event : EventRequest} {key : Option String}
  {proposed : UUID} {eventType fingerprint : String} {keyHash : Option String}
  {nowMs : ℤ}

/-- Sending the reference changes nothing about the answer. -/
theorem yields_dispatch (record : AcceptanceRecord) :
    Yields (fun r => r = .ok record) (AcceptanceService.dispatch record) := by
  have hanswer : ∀ (transition : String) (attempt : ℕ) (reason : String),
      Yields (fun r => r = .ok record) (do
        App.emit transition record.eventId attempt reason
        return record : App AcceptanceRecord) := by
    intro transition attempt reason
    exact (yields_emit _ _ _).bind (fun _ _ => yields_pure rfl)
      fun _ h => nomatch h
  refine (yields_emit _ _ _).bind (fun _ _ => ?_) fun _ h => nomatch h
  refine yields_perform.bind (fun confirmed _ => ?_) fun _ h => nomatch h
  split
  · exact hanswer _ _ _
  · have hmark : Yields OnlyUnavailable
        (D1EventStore.markDispatched record.eventId none) := by
      refine yields_nowMs.bind (fun now _ => ?_) fun _ h => nomatch h
      refine (yields_execute _).bind (fun changed _ => ?_)
        fun _ => onlyUnavailable_error
      exact yields_pure fun _ h => nomatch h
    have hcaught : Yields (fun r => ∃ dispatched, r = .ok dispatched)
        (App.orElseNone (· = .persistenceUnavailable)
          (D1EventStore.markDispatched record.eventId none)) := by
      refine Yields.tryCatch (P := OnlyUnavailable) ?_
        (fun value _ => ⟨value, rfl⟩) ?_
      · exact hmark.bind (fun value _ => yields_pure fun _ h => nomatch h)
          fun _ => onlyUnavailable_error
      · intro raised h
        rw [if_pos (by simp [h raised rfl])]
        exact yields_pure ⟨none, rfl⟩
    refine hcaught.bind (fun dispatched _ => ?_) fun _ h => nomatch h
    split
    · exact hanswer _ _ _
    · split <;> exact hanswer _ _ _

/-- What the batch answers about the event it found or stored. -/
structure BatchTold (proposed : UUID) (eventType : String)
    (chunks : List String) (fingerprint : String) (keyHash : Option String)
    (row : AcceptedRow) (c : EventContent) (chunks' : List String)
    (w : World) : Prop where
  stored : w.Stored row.eventId c chunks'
  key : c.idempotencyKeyHash = keyHash
  request : c.requestFingerprint = row.requestFingerprint
  created : row.eventId = proposed → c.eventType = eventType ∧
    chunks' = chunks ∧ c.requestFingerprint = fingerprint
  unkeyed : keyHash = none → row.eventId = proposed

theorem batch_told {value : Option AcceptedRow} {db : Database}
    (hw : Shelved w) (hfresh : proposed ∉ w.proposed)
    (hrun : acceptBatch proposed eventType chunks fingerprint keyHash nowMs
      w.db = some (value, db)) :
    ∃ row c chunks', value = some row ∧
      BatchTold proposed eventType chunks fingerprint keyHash row c chunks'
        (w.ran (.acceptBatch proposed eventType chunks fingerprint keyHash
          nowMs) value db) := by
  have hunknown := hw.unknown proposed hfresh
  cases batchEffect hunknown hrun with
  | found key id row keyed taken same =>
      obtain ⟨hcontent, hkey⟩ := eventWithKey_content taken
      obtain ⟨-, chunks', -, -, hstored⟩ := hw.origin id _ hcontent
      refine ⟨_, row.content, chunks', rfl,
        Shelved.stored_ran.mpr (Or.inr hstored), keyed ▸ hkey, rfl, ?_, ?_⟩
      · rintro rfl
        exact absurd (eventWithKey_mem taken) hunknown.event
      · intro hnone
        rw [keyed] at hnone
        cases hnone
  | stored free events outbox payload =>
      exact ⟨_, (newEvent eventType fingerprint keyHash nowMs).content, chunks,
        rfl, ⟨w.db, nowMs, _, rfl, rfl, List.mem_cons_self⟩, rfl, rfl,
        fun _ => ⟨rfl, rfl, rfl⟩, fun _ => rfl⟩

/-- What the answer of an acceptance tells. -/
def AcceptTold (lib : Stdlib) (event : EventRequest) (key : Option String) :
    Except Raised AcceptanceRecord → World → Prop
  | .ok record, w => ∃ c chunks, w.Stored record.eventId c chunks ∧
      c.idempotencyKeyHash = idempotencyKeyHash lib key ∧
      c.requestFingerprint = event.fingerprint lib ∧
      (record.created = true → c.eventType = event.eventType ∧
        payloadJsonChunks payloadChunkLimitBytes event = some chunks)
  | .error .idempotencyConflict, w => ∃ k id c chunks, key = some k ∧
      w.Stored id c chunks ∧ c.idempotencyKeyHash = some (lib.sha256 k) ∧
      c.requestFingerprint ≠ event.fingerprint lib
  | .error raised, _ => raised = .persistenceUnavailable

theorem AcceptTold.mono {r : Except Raised AcceptanceRecord}
    (hsuffix : w.history <:+ w'.history) (h : AcceptTold lib event key r w) :
    AcceptTold lib event key r w' := by
  cases r with
  | ok record =>
      obtain ⟨c, chunks, hstored, hrest⟩ := h
      exact ⟨c, chunks, hstored.mono hsuffix, hrest⟩
  | error raised =>
      cases raised with
      | idempotencyConflict =>
          obtain ⟨k, id, c, chunks, hkey, hstored, hrest⟩ := h
          exact ⟨k, id, c, chunks, hkey, hstored.mono hsuffix, hrest⟩
      | persistenceUnavailable | eventNotFound | valueError | other => exact h

theorem lasts_acceptTold (r : Except Raised AcceptanceRecord) :
    Lasts R (AcceptTold lib event key r) :=
  lasts_of_history fun _ _ => AcceptTold.mono

theorem ends_storeAccept (hw : FreshReach R w) :
    Ends R (D1EventStore.accept proposed event (idempotencyKeyHash lib key)
      (event.fingerprint lib)) (AcceptTold lib event key) w := by
  refine (ends_of_yields yields_nowMs (lasts_const True) hw trivial).bind
    (fun now w₁ hw₁ _ => ?_) (fun _ _ _ h => nomatch h.1) ?_
  · obtain ⟨chunks, hcut, -⟩ :=
      payloadJsonChunks_cut payloadChunkLimitBytes (by decide) event
    simp only [hcut]
    refine EnsuresOutcome.bind (Q := fun r w' => match r with
      | .ok found => ∃ row c chunks', found = some row ∧
          BatchTold proposed event.eventType chunks (event.fingerprint lib)
            (idempotencyKeyHash lib key) row c chunks' w'
      | .error raised => raised = .persistenceUnavailable) ?_ ?_ ?_ ?_
    · refine ends_execute ?_ (fun _ _ _ => rfl) ?_
      · rintro w₂ value returned db hw₂ - hfresh - hrun rfl
        exact batch_told hw₂.shelved hfresh hrun
      · rintro (raised | found)
        · exact lasts_const _
        · refine lasts_of_history fun w w' hsuffix => ?_
          rintro ⟨row, c, chunks', hrow, htold⟩
          exact ⟨row, c, chunks', hrow, htold.stored.mono hsuffix, htold.key,
            htold.request, htold.created, htold.unkeyed⟩
    · rintro _ w₂ hw₂ ⟨row, c, chunks', rfl, htold⟩
      dsimp only
      split
      · next hconflict =>
        refine ensuresOutcome_throw hw₂ (lasts_acceptTold _) ?_
        obtain ⟨k, rfl⟩ := Option.ne_none_iff_exists'.mp
          (mt (congrArg (Option.map lib.sha256)) hconflict.1)
        exact ⟨k, row.eventId, c, chunks', rfl, htold.stored, htold.key,
          htold.request ▸ hconflict.2⟩
      · next hagree =>
        refine ensuresOutcome_pure hw₂ (lasts_acceptTold _) ?_
        refine ⟨c, chunks', htold.stored, htold.key, ?_, fun hcreated => ?_⟩
        · by_cases hkey : idempotencyKeyHash lib key = none
          · exact (htold.created (htold.unkeyed hkey)).2.2
          · rw [htold.request]
            by_contra hne
            exact hagree ⟨hkey, hne⟩
        · obtain ⟨htype, hsame, -⟩ :=
            htold.created (of_decide_eq_true hcreated)
          exact ⟨htype, hsame ▸ hcut⟩
    · rintro raised w₂ hw₂ rfl
      rfl
    · exact fun _ => lasts_acceptTold _
  · exact fun _ => lasts_acceptTold _

theorem ends_accept {service : AcceptanceService} {id : Option UUID}
    (hw : FreshReach R w) :
    Ends R (service.accept event key id)
      (AcceptTold service.store.lib event key) w := by
  have hid : Yields (fun r => ∃ id, r = .ok id)
      (AcceptanceService.proposedOrNew id) := by
    cases id with
    | some id => exact yields_pure ⟨id, rfl⟩
    | none => exact yields_perform
  refine (ends_of_yields hid (lasts_const True) hw trivial).bind
    (fun proposed w₁ hw₁ _ => ?_) (fun _ _ _ h => nomatch h.1)
    fun _ => lasts_acceptTold _
  refine (ends_storeAccept hw₁).bind (fun record w₂ hw₂ htold => ?_)
    (fun _ _ _ h => h) fun _ => lasts_acceptTold _
  have hsame : Yields (fun r => r = .ok record)
      (if !record.created then do
        App.emit "idempotent_reuse" record.eventId record.attemptCount "none"
        return record
      else AcceptanceService.dispatch record) := by
    split
    · exact (yields_emit _ _ _).bind (fun _ _ => yields_pure rfl)
        fun _ h => nomatch h
    · exact yields_dispatch record
  refine (ends_of_yields hsame (lasts_acceptTold (.ok record)) hw₂
    htold).mono ?_
  rintro r w₃ - ⟨rfl, h⟩
  exact h

end Accept

end Hooklane.Cloudflare
