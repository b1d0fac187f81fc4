import Hooklane.Cloudflare.Guarantees
import Hooklane.Cloudflare.Reading
import Hooklane.Domain.Canonical

/-!
# What acceptance and storage guarantee

The results hold for every interleaving of acceptances, repairs, readers and
deliveries in which no acceptance proposes an id twice.
-/

namespace Hooklane.Cloudflare

open Support ProgE

variable {maxima : ℕ → Prop}
  {R : World → (op : Op) → op.Reply → World → Prop} {e : UUID}

section Clients

/-- What the result of a request tells about what is stored. -/
def Told : (request : Request) → request.Result → World → Prop
  | .accept service event key _, result, w =>
      AcceptTold service.store.lib event key result w
  | _, _, _ => True

theorem freshService_disciplined :
    Service.Disciplined (S := freshService maxima R) Service.anyCall Told := by
  rintro request w hw -
  cases request with
  | accept service event key proposed => exact ends_accept hw
  | repair | process | queue | getStatus | markDeliveryStarted =>
      exact Service.ensures_anyCall _ w

theorem told_of_reachable {cfg : ((d1Service maxima).within R).Config}
    (h : Service.Reachable FreshProposals cfg) {request : Request}
    {result : request.Result}
    (hthread : (⟨request, .pure result⟩ : (d1Service maxima).Thread) ∈
      cfg.threads) : Told request result cfg.state :=
  (reachable_fresh h).post freshService_disciplined hthread

theorem freshReach_of_reachable {cfg : ((d1Service maxima).within R).Config}
    (h : Service.Reachable FreshProposals cfg) : FreshReach R cfg.state := by
  have hsound := (reachable_fresh h).sound freshService_disciplined
  exact hsound.1.reach

end Clients

section Creation

/-- A batch that stores the event is a credit. -/
def creationTariff (e : UUID) : Tariff Op Op.Reply where
  price := fun _ => 0
  credit
    | .d1 (.acceptBatch proposed _ _ _ _ _), some (some row) =>
        if row.eventId = proposed ∧ proposed = e then 1 else 0
    | _, _ => 0

/-- An acceptance that says it created the event claims a credit. -/
def creationClaim (e : UUID) : (request : Request) → request.Result → ℕ
  | .accept .., .ok record =>
      if record.created = true ∧ record.eventId = e then 1 else 0
  | _, _ => 0

theorem free_creation {p : Prog Op Op.Reply α} :
    p.CallsOnly (creationTariff e).Free := by
  induction p with
  | pure a => trivial
  | call op next ih => exact ⟨rfl, ih⟩

/-- The answer of the store's `accept` is covered by its batch. -/
theorem affords_storeAccept {proposed : UUID} {event : EventRequest}
    {keyHash : Option String} {fingerprint : String} {n : ℕ} :
    (D1EventStore.accept proposed event keyHash fingerprint).Affords
      (creationTariff e) (fun record m =>
        record.created = true ∧ record.eventId = e → 1 ≤ m) n := by
  have hnow : App.nowMs.Affords (creationTariff e) (fun _ m => n ≤ m) n :=
    affords_of_free (callsOnly_of_run free_creation)
  refine hnow.bind fun now m _ => ?_
  split
  · exact affords_throw
  · next chunks hcut =>
    have hbatch : (App.execute (.acceptBatch proposed event.eventType chunks
        fingerprint keyHash now)).Affords (creationTariff e)
        (fun found k => ∀ row, found = some row → row.eventId = proposed →
          proposed = e → 1 ≤ k) m := by
      have hreply : (App.request (.d1 (.acceptBatch proposed event.eventType
          chunks fingerprint keyHash now))).Affords (creationTariff e)
          (fun reply k => ∀ row, reply = some (some row) →
            row.eventId = proposed → proposed = e → 1 ≤ k) m := by
        refine affords_perform (Nat.zero_le m) ?_
        rintro _ row rfl hid he
        simp [creationTariff, hid, he]
      refine hreply.bind fun reply k hk => ?_
      cases reply with
      | none => exact affords_throw
      | some found =>
          exact affords_pure fun row hrow => hk row (congrArg some hrow)
    refine hbatch.bind fun found k hk => ?_
    cases found with
    | none => exact affords_throw
    | some row =>
        dsimp only
        split
        · exact affords_throw
        · refine affords_pure ?_
          rintro ⟨hcreated, he⟩
          have hid : row.eventId = proposed := of_decide_eq_true hcreated
          exact hk row rfl hid (hid.symm.trans he)

theorem affords_accept {service : AcceptanceService} {event : EventRequest}
    {key : Option String} {proposed : Option UUID} :
    (service.accept event key proposed).run.Affords (creationTariff e)
      (fun result m => creationClaim e (.accept service event key proposed)
        result ≤ m) 0 := by
  have hid : (AcceptanceService.proposedOrNew proposed).Affords
      (creationTariff e) (fun _ m => 0 ≤ m) 0 := 
    affords_of_free (callsOnly_of_run free_creation)
  have hall : (service.accept event key proposed).Affords (creationTariff e)
      (fun record m => creationClaim e (.accept service event key proposed)
        (.ok record) ≤ m) 0 := by
    refine hid.bind fun id m _ => affords_storeAccept.bind fun record k hk => ?_
    have hsame : Yields (fun r => r = .ok record)
        (if !record.created then do
          App.emit "idempotent_reuse" record.eventId record.attemptCount "none"
          return record
        else AcceptanceService.dispatch record) := by
      split
      · exact (yields_emit _ _ _).bind (fun _ _ => yields_pure rfl)
          fun _ h => nomatch h
      · exact yields_dispatch record
    refine Prog.Affords.mono
      (Prog.affords_of_yields (n := k) free_creation hsame) ?_
    rintro r m ⟨rfl, hle⟩ _ ⟨⟩
    simp only [creationClaim]
    split
    · next hcreated => exact (hk hcreated).trans hle
    · exact Nat.zero_le m
  refine Prog.Affords.mono hall fun r m hr => ?_
  cases r with
  | ok record => exact hr record rfl
  | error raised => exact Nat.zero_le m

theorem freshService_honours (e : UUID) :
    Service.Honours (freshService maxima R) (creationTariff e)
      (creationClaim e) := by
  intro request
  cases request with
  | accept service event key proposed => exact affords_accept
  | repair | process | queue | getStatus | markDeliveryStarted =>
      exact (Prog.affords_of_free free_creation).mono
        fun _ m _ => Nat.zero_le m

/-- The batch that stored the event. -/
def Record.creates (e : UUID) : Record → Bool
  | .executed _ (.acceptBatch proposed _ _ _ _ _) (some row) =>
      decide (row.eventId = proposed ∧ proposed = e)
  | _ => false

def World.creations (e : UUID) (w : World) : ℕ :=
  w.history.countP (Record.creates e)

theorem creations_le_proposed (w : World) :
    w.creations e ≤ w.proposed.count e := by
  rw [World.creations, World.proposed]
  induction w.history with
  | nil => exact le_rfl
  | cons record history ih =>
      rw [List.countP_cons, List.filterMap_cons]
      cases hcreates : record.creates e with
      | false =>
          simp only [Bool.false_eq_true, if_false]
          split
          · exact ih
          · exact ih.trans (List.count_le_count_cons)
      | true =>
          obtain ⟨before, eventType, chunks, fingerprint, keyHash, nowMs, row,
              rfl⟩ : ∃ before eventType chunks fingerprint keyHash nowMs row,
              record = .executed before (.acceptBatch e eventType chunks
                fingerprint keyHash nowMs) (some row) := by
            unfold Record.creates at hcreates
            split at hcreates
            · obtain ⟨-, rfl⟩ := of_decide_eq_true hcreates
              exact ⟨_, _, _, _, _, _, _, rfl⟩
            · cases hcreates
          simp only [Record.proposed, List.count_cons_self, if_true]
          exact Nat.succ_le_succ ih

theorem FreshReach.proposed_nodup {w : World} (h : FreshReach R w) :
    w.proposed.Nodup := by
  refine Machine.Reach.induction (P := fun w : World => w.proposed.Nodup)
    ?_ ?_ h
  · rintro w rfl
    exact List.nodup_nil
  · rintro w op reply w' - hw - ⟨⟨hfresh, -⟩, hexec, -⟩
    have hran : ∀ (call : D1Call) (value : call.Value) (db : Database),
        FreshProposals w (.d1 call) → (w.ran call value db).proposed.Nodup := by
      intro call value db hcall
      cases call with
      | acceptBatch proposed => exact List.nodup_cons.mpr ⟨hcall, hw⟩
      | _ => exact hw
    cases hexec with
    | answered call value returned db => exact hran call value db hfresh
    | replyLost call value db => exact hran call value db hfresh
    | _ => exact hw

theorem creations_exec {w w' : World} {op : Op} {reply : op.Reply}
    (h : World.Exec w op reply w') :
    w.creations e + (creationTariff e).credit op reply ≤ w'.creations e := by
  have hkept : w.creations e ≤ w'.creations e :=
    (exec_history h).sublist.countP_le
  have hlost : ∀ call : D1Call,
      (creationTariff e).credit (.d1 call) none = 0 := by
    intro call
    cases call <;> rfl
  cases h with
  | replyLost call | failed call =>
      rw [hlost]
      exact hkept
  | answered call value returned db run agrees =>
      cases call with
      | acceptBatch proposed eventType chunks fingerprint keyHash nowMs =>
          obtain rfl : returned = value := agrees
          rw [World.creations, World.creations, World.ran, List.countP_cons]
          refine Nat.add_le_add_left ?_ _
          cases returned with
          | none => exact Nat.zero_le _
          | some row =>
              simp only [creationTariff, Record.creates, decide_eq_true_eq]
              exact le_rfl
      | _ => exact hkept
  | _ => exact hkept

/-- No two threads say that they created the event. -/
theorem created_once {cfg : ((d1Service maxima).within R).Config}
    (h : Service.Reachable FreshProposals cfg) {i j : ℕ}
    {t u : ((d1Service maxima).within R).Thread} (hij : i ≠ j)
    (ht : cfg.threads[i]? = some t) (hu : cfg.threads[j]? = some u) :
    Service.claimed (S := freshService maxima R) (creationClaim e) t +
      Service.claimed (S := freshService maxima R) (creationClaim e) u ≤ 1 := by
  have hclaims := Service.Reachable.claims_le_earned (S := freshService maxima R)
    (fun _ => 0) (World.creations e) (fun _ _ _ _ _ => Nat.zero_le _)
    (fun _ _ _ _ hexec => creations_exec hexec.2.1) (freshService_honours e)
    (fun _ _ => Nat.zero_le _) (reachable_fresh h)
  have honce : cfg.state.creations e ≤ 1 :=
    (creations_le_proposed cfg.state).trans
      (List.nodup_iff_count_le_one.mp
        (freshReach_of_reachable h).proposed_nodup e)
  have htwo : Service.claimed (S := freshService maxima R) (creationClaim e) t +
      Service.claimed (S := freshService maxima R) (creationClaim e) u ≤
      (cfg.threads.map (Service.claimed (S := freshService maxima R)
        (creationClaim e))).sum := by
    rcases Nat.lt_or_gt_of_ne hij with hlt | hgt
    · exact Service.claimed_add_le hlt ht hu
    · rw [Nat.add_comm]
      exact Service.claimed_add_le hgt hu ht
  rw [Nat.zero_add] at hclaims
  exact htwo.trans (hclaims.trans honce)

end Creation

section Writes

/-- A reply to a call that may have changed the tables: a batch that stored its
event, or any other statement. -/
def Writes : (op : Op) → op.Reply → Prop
  | .d1 (.acceptBatch proposed _ _ fingerprint _ _), reply =>
      ∃ row, reply = some (some row) ∧ row.eventId = proposed ∧
        row.requestFingerprint = fingerprint
  | .d1 _, _ => True
  | _, _ => False

/-- The answer of a call that stored its event. -/
def SaysCreated (result : Except Raised AcceptanceRecord) : Prop :=
  ∃ record, result = .ok record ∧ record.created = true

variable {event : EventRequest} {key : Option String} {proposed : UUID}

theorem commits_request {op : Op} {P : Except Raised op.Reply → Prop}
    (h : ∀ reply, ¬Writes op reply) : Commits Writes P (App.request op) :=
  commits_of_callsOnly (callsOnly_perform h)

theorem commits_emit {transition reason : String} {attempt : ℕ}
    {P : Except Raised Unit → Prop} :
    Commits Writes P (App.emit transition e attempt reason) :=
  commits_request fun _ h => h

/-- An acceptance that wrote a table says that it created the event. -/
theorem commits_storeAccept {keyHash : Option String} {fingerprint : String} :
    Commits Writes SaysCreated
      (D1EventStore.accept proposed event keyHash fingerprint) := by
  have htime : Commits Writes (fun _ => False) (App.request .time) :=
    commits_request fun _ h => h
  have hnow : Commits Writes (fun _ => False) App.nowMs :=
    htime.bind (fun _ h => h.elim) (fun _ h => h) fun _ => trivial
  refine hnow.bind (fun _ h => h.elim) (fun _ h => h.elim) fun now => ?_
  split
  · trivial
  · next chunks hcut =>
    let Created : Except Raised (Option AcceptedRow) → Prop := fun r =>
      ∃ row, r = .ok (some row) ∧ row.eventId = proposed ∧
        row.requestFingerprint = fingerprint
    have hbatch : Commits Writes Created (App.execute (.acceptBatch proposed
        event.eventType chunks fingerprint keyHash now)) := by
      refine Commits.bind (P := fun r => ∃ row,
        r = .ok (some (some row)) ∧ row.eventId = proposed ∧
          row.requestFingerprint = fingerprint) (commits_perform ?_) ?_ ?_ ?_
      · rintro _ ⟨row, rfl, hrow⟩
        exact ⟨row, rfl, hrow⟩
      · rintro _ ⟨row, heq, hrow⟩
        obtain rfl := Except.ok.inj heq
        exact yields_pure ⟨row, rfl, hrow⟩
      · rintro raised ⟨row, heq, -⟩
        cases heq
      · rintro (_ | found) <;> trivial
    refine hbatch.bind ?_ ?_ fun found => ?_
    · rintro _ ⟨row, heq, hid, hfingerprint⟩
      obtain rfl := Except.ok.inj heq
      dsimp only
      rw [if_neg (fun h => h.2 hfingerprint)]
      exact yields_pure ⟨_, rfl, decide_eq_true hid⟩
    · rintro raised ⟨row, heq, -⟩
      cases heq
    · cases found with
      | none => trivial
      | some row =>
          dsimp only
          split <;> trivial

theorem commits_accept {service : AcceptanceService} {id : Option UUID} :
    Commits Writes SaysCreated (service.accept event key id) := by
  have hid : Commits Writes (fun _ => False)
      (AcceptanceService.proposedOrNew id) := by
    cases id with
    | some id => trivial
    | none => exact commits_request fun _ h => h
  refine hid.bind (fun _ h => h.elim) (fun _ h => h.elim) fun proposed => ?_
  refine commits_storeAccept.bind ?_ (fun _ ⟨_, h, _⟩ => nomatch h)
    fun record => ?_
  · rintro _ ⟨record, heq, hcreated⟩
    obtain rfl := Except.ok.inj heq
    rw [if_neg (by simp [hcreated])]
    exact (yields_dispatch _).mono fun r hr => ⟨_, hr, hcreated⟩
  · split
    · exact commits_emit.bind (P := fun _ => False) (fun _ h => h.elim)
        (fun _ h => h.elim) fun _ => trivial
    · next hcreated =>
      refine commits_of_yields ((yields_dispatch _).mono fun r hr => ?_)
      exact ⟨_, hr, by simpa using hcreated⟩

/-- A D1 batch is a transaction: when it fails, it is rolled back. -/
def RolledBack (w : World) : (op : Op) → op.Reply → World → Prop
  | .d1 (.acceptBatch ..), none, w' => w'.db = w.db
  | _, _, _ => True

/-- A step that changed the tables is one of those that `Writes` names. -/
theorem writes_of_exec {w w' : World} {op : Op} {reply : op.Reply}
    (hw : Shelved w) (hfresh : FreshProposals w op)
    (hexec : World.Exec w op reply w') (hback : RolledBack w op reply w') :
    w'.db = w.db ∨ Writes op reply := by
  cases hexec with
  | answered call value returned db run agrees =>
      cases call with
      | acceptBatch proposed eventType chunks fingerprint keyHash nowMs =>
          obtain rfl : returned = value := agrees
          cases batchEffect (hw.unknown proposed hfresh) run with
          | found key id row keyed taken same => exact Or.inl same
          | stored => exact Or.inr ⟨_, rfl, rfl, rfl⟩
      | _ => exact Or.inr trivial
  | replyLost call value db run =>
      cases call with
      | acceptBatch => exact Or.inl hback
      | _ => exact Or.inr trivial
  | _ => exact Or.inl rfl

/-- A thread of an acceptance that changed the tables ends, if it ends, with
`created`. -/
theorem created_of_write {cfg : ((d1Service maxima).within R).Config}
    (h : Service.Reachable FreshProposals cfg) {service : AcceptanceService}
    {id : Option UUID} {op : Op}
    {next : op.Reply → Prog Op Op.Reply (Except Raised AcceptanceRecord)}
    (hthread : (⟨.accept service event key id, .call op next⟩ :
      (d1Service maxima).Thread) ∈ cfg.threads)
    {reply : op.Reply} (hwrites : Writes op reply) :
    (next reply).Yields SaysCreated := by
  let Φ : (request : Request) → Prog Op Op.Reply request.Result → Prop :=
    fun request p => match request, p with
      | .accept .., p => p.Commits Writes SaysCreated
      | _, _ => True
  have hthreads := h.inherited (Φ := Φ) ?_ ?_ _ hthread
  · exact (hthreads reply).1 hwrites
  · intro request
    cases request with
    | accept service event key id => exact commits_accept
    | repair | process | queue | getStatus | markDeliveryStarted => trivial
  · intro request op next reply hcall
    cases request with
    | accept => exact (hcall reply).2
    | repair | process | queue | getStatus | markDeliveryStarted => trivial

end Writes

section Atomic

/-- The answer of an acceptance is about the one event with its key, and it is
a conflict exactly when that event has another fingerprint. -/
def AnswersFor (db : Database) (lib : Stdlib) (event : EventRequest)
    (key : Option String) (result : Except Raised AcceptanceRecord) : Prop :=
  ∃ e row, db.events.lookup e = some row ∧
    row.idempotencyKeyHash = idempotencyKeyHash lib key ∧
    (row.requestFingerprint = event.fingerprint lib →
      ∃ record, result = .ok record ∧ record.eventId = e) ∧
    (row.requestFingerprint ≠ event.fingerprint lib →
      result = .error .idempotencyConflict)

variable {lib : Stdlib} {event : EventRequest} {key : Option String} {w : World}

theorem row_of_content {c : EventContent} (h : content w.db e = some c) :
    ∃ row, w.db.events.lookup e = some row ∧ row.content = c :=
  Option.map_eq_some_iff.mp h

theorem AcceptTold.answersFor {result : Except Raised AcceptanceRecord}
    (hw : Shelved w) (h : AcceptTold lib event key result w) :
    result = .error .persistenceUnavailable ∨
      AnswersFor w.db lib event key result := by
  cases result with
  | ok record =>
      obtain ⟨c, chunks, hstored, hkey, hfingerprint, -⟩ := h
      obtain ⟨row, hrow, rfl⟩ :=
        row_of_content (hw.stored _ _ _ hstored).content
      exact Or.inr ⟨record.eventId, row, hrow, hkey,
        fun _ => ⟨record, rfl, rfl⟩, fun hne => absurd hfingerprint hne⟩
  | error raised =>
      cases raised with
      | idempotencyConflict =>
          obtain ⟨k, e, c, chunks, rfl, hstored, hkey, hfingerprint⟩ := h
          obtain ⟨row, hrow, rfl⟩ :=
            row_of_content (hw.stored _ _ _ hstored).content
          exact Or.inr ⟨e, row, hrow, hkey,
            fun heq => absurd heq hfingerprint, fun _ => rfl⟩
      | persistenceUnavailable => exact Or.inl rfl
      | eventNotFound | valueError | other => cases h

/-- Acceptance is atomic and idempotent, whatever runs beside it: a key belongs
to one event, every call with the key is answered for that event and at most
one of them has created it, a step of a call that writes leaves no other answer
than `created`, and an event is stored with its outbox row and all its chunks,
or not at all. -/
theorem acceptance_atomic
    {cfg : ((d1Service maxima).within RolledBack).Config}
    (h : Service.Reachable FreshProposals cfg) :
    (∀ e e' row row' hash, cfg.state.db.events.lookup e = some row →
      cfg.state.db.events.lookup e' = some row' →
      row.idempotencyKeyHash = some hash →
      row'.idempotencyKeyHash = some hash → e = e') ∧
    (∀ (service : AcceptanceService) event key id result,
      (⟨.accept service event key id, .pure result⟩ :
        (d1Service maxima).Thread) ∈ cfg.threads →
      result = .error .persistenceUnavailable ∨
        AnswersFor cfg.state.db service.store.lib event key result) ∧
    (∀ (i j : ℕ) (service service' : AcceptanceService) event event' key key'
        id id' (record record' : AcceptanceRecord), i ≠ j →
      cfg.threads[i]? = some (⟨.accept service event (some key) id,
        .pure (.ok record)⟩ : (d1Service maxima).Thread) →
      cfg.threads[j]? = some (⟨.accept service' event' (some key') id',
        .pure (.ok record')⟩ : (d1Service maxima).Thread) →
      service.store.lib.sha256 key = service'.store.lib.sha256 key' →
      record.eventId = record'.eventId ∧
        ¬(record.created = true ∧ record'.created = true)) ∧
    (∀ (service : AcceptanceService) event key id (op : Op) next reply w',
      (⟨.accept service event key id, .call op next⟩ :
        (d1Service maxima).Thread) ∈ cfg.threads →
      FreshProposals cfg.state op →
      (d1Machine.within RolledBack).exec cfg.state op reply w' →
      w'.db = cfg.state.db ∨ (next reply).Yields SaysCreated) ∧
    (∀ e, e ∈ cfg.state.db.events ↔ e ∈ cfg.state.db.outbox) ∧
    (∀ e i, (e, i) ∈ cfg.state.db.payloadChunks → e ∈ cfg.state.db.events) ∧
    ∀ e row, cfg.state.db.events.lookup e = some row →
      ∃ event chunks, cfg.state.AcceptedAs e event ∧
        row.eventType = event.eventType ∧
        payloadJsonChunks payloadChunkLimitBytes event = some chunks ∧
        chunks ≠ [] ∧
        ∀ i, cfg.state.db.payloadChunks.lookup (e, i) = chunks[i]? := by
  have hshelved := (freshReach_of_reachable h).shelved
  have hkeys : ∀ e e' row row' hash, cfg.state.db.events.lookup e = some row →
      cfg.state.db.events.lookup e' = some row' →
      row.idempotencyKeyHash = some hash →
      row'.idempotencyKeyHash = some hash → e = e' := by
    intro e e' row row' hash hrow hrow'
    exact hshelved.keys e e' _ _ hash (content_of_row hrow)
      (content_of_row hrow')
  refine ⟨hkeys, ?_, ?_, ?_, fun e => (hshelved.outbox e).symm,
    hshelved.chunks, ?_⟩
  · intro service event key id result hthread
    have htold : AcceptTold service.store.lib event key result cfg.state :=
      told_of_reachable h hthread
    exact htold.answersFor hshelved
  · intro i j service service' event event' key key' id id' record record' hij
      hi hj hhash
    have htold : AcceptTold service.store.lib event (some key) (.ok record)
        cfg.state := told_of_reachable h (List.mem_of_getElem? hi)
    have htold' : AcceptTold service'.store.lib event' (some key')
        (.ok record') cfg.state :=
      told_of_reachable h (List.mem_of_getElem? hj)
    obtain ⟨c, chunks, hstored, hkey, -⟩ := htold
    obtain ⟨c', chunks', hstored', hkey', -⟩ := htold'
    have hsame : record.eventId = record'.eventId :=
      hshelved.keys _ _ c c' _ (hshelved.stored _ _ _ hstored).content
        (hshelved.stored _ _ _ hstored').content hkey
        (hkey'.trans (congrArg some hhash.symm))
    refine ⟨hsame, fun ⟨hcreated, hcreated'⟩ => ?_⟩
    have honce := created_once (e := record'.eventId) h hij hi hj
    simp [Service.claimed, creationClaim, hcreated, hcreated', hsame] at honce
  · intro service event key id op next reply w' hthread hfresh ⟨hexec, hback⟩
    exact (writes_of_exec hshelved hfresh hexec hback).imp_right
      fun hwrites => created_of_write h hthread hwrites
  · intro e row hrow
    obtain ⟨event, chunks, htype, hcut, hstored⟩ :=
      hshelved.origin e _ (content_of_row hrow)
    refine ⟨event, chunks, ⟨_, chunks, hstored, htype, hcut⟩, htype, hcut, ?_,
      (hshelved.stored _ _ _ hstored).chunks⟩
    rintro rfl
    exact payloadJson_ne_empty event (join_chunks hcut).symm

/-- The answers of a schedule in which no reply of D1 is lost. -/
def Answer.keepsReply : Answer → Bool
  | .lost => false
  | _ => true

theorem rolledBack_of_answer {w' : World} {op : Op} {answer : Answer}
    {reply : op.Reply} (hkeeps : answer.keepsReply = true)
    (h : w.answer op answer = some (reply, w')) :
    RolledBack w op reply w' := by
  unfold RolledBack
  split
  · cases answer with
    | ran =>
        obtain ⟨⟨value, db⟩, -, heq⟩ := Option.map_eq_some_iff.mp h
        cases heq
    | fails =>
        obtain ⟨-, rfl⟩ := Prod.mk.inj (Option.some.inj h)
        rfl
    | lost => cases hkeeps
    | sink | number | uuid | done => cases h
  · trivial

/-- A client stores an event under a key, and a second one repeats the
request. -/
def repeatedSchedule : List (SampleAction 5) :=
  [.start (.accept ⟨sampleStore⟩ sampleRequest (some "key") (some sampleEvent))
      fun _ => trivial,
    .start (.accept ⟨sampleStore⟩ sampleRequest (some "key")
      (some (UUID.ofNat 2))) fun _ => trivial,
    .act 0 (.number 1), .act 1 (.number 1), .act 0 .ran, .act 1 .ran,
    .act 0 .done, .act 0 .fails, .act 0 .done, .act 1 .done]

/-- The result of the acceptance in a place of the configuration. -/
def acceptedRecord (threads : List (d1Service (· = 5)).Thread) (i : ℕ) :
    Option AcceptanceRecord :=
  match threads[i]? with
  | some ⟨.accept .., .pure (.ok record)⟩ => some record
  | _ => none

/-- Both clients get the one event, and the second one did not create it. -/
theorem acceptance_atomic_example :
    ∃ cfg : ((d1Service (· = 5)).within RolledBack).Config,
      acceptedRecord cfg.threads 0 = some ⟨sampleEvent, true, .queued, 0⟩ ∧
      acceptedRecord cfg.threads 1 = some ⟨sampleEvent, false, .queued, 0⟩ ∧
      sampleEvent ∈ cfg.state.db.events ∧
      sampleEvent ∈ cfg.state.db.outbox := by
  have hrun : (d1Oracle.play FreshProposals sampleStart repeatedSchedule).map
      (fun cfg => (acceptedRecord cfg.threads 0, acceptedRecord cfg.threads 1,
        (publicRow cfg.state).isSome)) =
      some (some ⟨sampleEvent, true, .queued, 0⟩,
        some ⟨sampleEvent, false, .queued, 0⟩, true) := by
    decide +kernel
  obtain ⟨cfg, hplay, hstate⟩ := Option.map_eq_some_iff.mp hrun
  obtain ⟨hfirst, hrest⟩ := Prod.mk.inj hstate
  obtain ⟨hsecond, hrow⟩ := Prod.mk.inj hrest
  have hsteps := d1Oracle.steps_within_of_play (R := RolledBack)
    (fun _ _ _ _ _ => rolledBack_of_answer) (by decide) hplay
  let final : ((d1Service (· = 5)).within RolledBack).Config :=
    ⟨cfg.state, cfg.threads⟩
  have hreach : Service.Reachable FreshProposals final := ⟨{}, rfl, hsteps⟩
  have hatomic := acceptance_atomic hreach
  have hevent : sampleEvent ∈ cfg.state.db.events := by
    rw [publicRow, Option.isSome_map] at hrow
    exact AList.lookup_isSome.mp hrow
  exact ⟨⟨cfg.state, cfg.threads⟩, hfirst, hsecond, hevent,
    (hatomic.2.2.2.2.1 sampleEvent).mp hevent⟩

end Atomic

section RoundTrip

variable {lib : Stdlib} {event : EventRequest}

theorem reread_readsBack (h : lib.ReadsBack (.obj event.payload)) :
    ∃ event', reread lib event = some event' ∧ event'.Same event := by
  obtain ⟨value, event', hloads, hvalidate, hsame⟩ :=
    EventRequest.validate_readsBack h
  refine ⟨event', ?_, hsame⟩
  rw [reread, lib.readJson_of_ok hloads]
  exact hvalidate

/-- The record of the event shows the request that was accepted. -/
def Rebuilds (e : UUID) (event : EventRequest) (record : EventRecord) : Prop :=
  record.eventId = e ∧ record.event.Same event

/-- What a reader of a stored event ends with: a value as `Q` says, or
`PersistenceUnavailable` where D1 may leave a call unanswered. -/
def ReaderTold {α : Type} (R : World → (op : Op) → op.Reply → World → Prop)
    (Q : α → Prop) : Except Raised α → Prop
  | .ok value => Q value
  | .error raised => raised = .persistenceUnavailable ∧ Lossy R

theorem rebuilds_of_reread (h : lib.ReadsBack (.obj event.payload))
    {record : EventRecord} (hid : record.eventId = e)
    (hread : reread lib event = some record.event) :
    Rebuilds e event record := by
  obtain ⟨event', hreread, hsame⟩ := reread_readsBack h
  rw [hreread] at hread
  obtain rfl := Option.some.inj hread
  exact ⟨hid, hsame⟩

/-- Cutting a payload succeeds for every text and every limit from four bytes
on: the pieces are nonempty texts within the limit, and they join to the
canonical JSON.  So once the batch of an acceptance is committed, whatever runs
beside the readers, the stored chunks are read in their order, and
`_load_payload_json`, `get_status` and `mark_delivery_started` give the payload
that was accepted; the record of a selected row is rebuilt whenever D1
answers. -/
theorem payload_round_trip :
    (∀ limit, 4 ≤ limit → ∀ event : EventRequest, ∃ chunks,
      payloadJsonChunks limit event = some chunks ∧
      (∀ chunk ∈ chunks, chunk ≠ "" ∧ chunk.toUTF8.size ≤ limit) ∧
      String.join chunks = event.payloadJson) ∧
    4 ≤ payloadChunkLimitBytes ∧
    ∀ (maxima : ℕ → Prop)
      (R : World → (op : Op) → op.Reply → World → Prop)
      (cfg : ((d1Service maxima).within R).Config) (e : UUID)
      (event : EventRequest), Service.Reachable FreshProposals cfg →
      cfg.state.AcceptedAs e event →
      (∃ chunks, selectPayloadChunks e cfg.state.db =
          some (chunks, cfg.state.db) ∧
        String.join chunks = event.payloadJson) ∧
      (∀ legacy, Ends R (D1EventStore.loadPayloadJson e legacy)
        (fun r _ => ReaderTold R (fun text => text = event.payloadJson) r)
        cfg.state) ∧
      ∀ store : D1EventStore, store.lib.ReadsBack (.obj event.payload) →
        (∀ row : EventRow, row.eventType = event.eventType →
          Ends R (store.loadRecord e row)
            (fun r _ => ReaderTold R (Rebuilds e event) r) cfg.state) ∧
        Ends R (store.getStatus e)
          (fun r _ => ReaderTold R (fun found => ∃ record,
            found = some record ∧ Rebuilds e event record) r) cfg.state ∧
        ∀ maximumAttempts, Ends R (store.markDeliveryStarted e maximumAttempts)
          (fun r _ => ∀ start, r = .ok start → start.disposition = .started →
            ∃ record, start.record = some record ∧
              Rebuilds e event record) cfg.state := by
  refine ⟨payloadJsonChunks_cut, by decide, ?_⟩
  intro maxima R cfg e event h haccepted
  have hfresh := freshReach_of_reachable h
  obtain ⟨chunks, hselect, hjoin, -⟩ := haccepted.select hfresh.shelved
  refine ⟨⟨chunks, hselect, hjoin⟩, fun legacy => ?_, fun store hlib => ?_⟩
  · refine (ends_loadPayloadJson haccepted).mono fun r _ _ hr => ?_
    cases r with
    | ok text => exact hr
    | error raised => exact hr
  · have hreread : reread store.lib event ≠ none := by
      obtain ⟨event', hsome, -⟩ := reread_readsBack hlib
      simp [hsome]
    refine ⟨fun row htype => ?_, ?_, fun m => ?_⟩
    · refine (ends_loadRecord haccepted htype).mono fun r _ _ hr => ?_
      cases r with
      | ok record => exact rebuilds_of_reread hlib hr.1 hr.2
      | error raised => exact ⟨hr.1, hr.2.resolve_right hreread⟩
    · refine (ends_getStatus haccepted).mono fun r _ _ hr => ?_
      cases r with
      | ok found =>
          obtain ⟨record, hfound, hid, hread⟩ := hr
          exact ⟨record, hfound, rebuilds_of_reread hlib hid hread⟩
      | error raised => exact ⟨hr.1, hr.2.resolve_right hreread⟩
    · refine (ends_markDeliveryStarted hfresh haccepted).mono
        fun r _ _ hr start hstart hstarted => ?_
      obtain ⟨record, hrecord, hid, hread⟩ := (hr start hstart).mp hstarted
      exact ⟨record, hrecord, rebuilds_of_reread hlib hid hread⟩

/-- What the newest step stored: an event, its type and its chunks. -/
def storedBatch (w : World) : Option (UUID × String × List String) :=
  match w.history.head? with
  | some (.executed _ (.acceptBatch proposed eventType chunks _ _ _)
      (some row)) =>
      if row.eventId = proposed then some (proposed, eventType, chunks)
      else none
  | _ => none

theorem acceptedAs_of_storedBatch {w : World} {eventType : String}
    {chunks : List String} (h : storedBatch w = some (e, eventType, chunks))
    (htype : eventType = event.eventType)
    (hcut : payloadJsonChunks payloadChunkLimitBytes event = some chunks) :
    w.AcceptedAs e event := by
  unfold storedBatch at h
  split at h
  · next before proposed type chunks' fingerprint keyHash nowMs row hhead =>
    split at h
    · next hid =>
      obtain ⟨rfl, hrest⟩ := Prod.mk.inj (Option.some.inj h)
      obtain ⟨rfl, rfl⟩ := Prod.mk.inj hrest
      exact ⟨⟨type, "", fingerprint, keyHash⟩, chunks',
        ⟨before, nowMs, row, hid, rfl, List.mem_of_mem_head? hhead⟩, htype,
        hcut⟩
    · cases h
  · cases h

theorem sampleLib_readsBack :
    sampleLib.ReadsBack (.obj sampleRequest.payload) := by
  have htext : (Json.obj sampleRequest.payload).dumps = "{}" := by decide
  exact ⟨.obj [], by rw [htext]; rfl, rfl⟩

/-- The payload of the sample event is read back from its chunks. -/
theorem payload_round_trip_example :
    ∃ cfg : ((d1Service (· = 5)).within RolledBack).Config,
      cfg.state.AcceptedAs sampleEvent sampleRequest ∧
      (∃ chunks, selectPayloadChunks sampleEvent cfg.state.db =
          some (chunks, cfg.state.db) ∧ String.join chunks = "{}") ∧
      Ends RolledBack (sampleStore.getStatus sampleEvent)
        (fun r _ => ReaderTold RolledBack (fun found => ∃ record,
          found = some record ∧ Rebuilds sampleEvent sampleRequest record) r)
        cfg.state := by
  have hrun : (d1Oracle.play FreshProposals sampleStart
      (storedSchedule (M := 5))).map (fun cfg => storedBatch cfg.state) =
      some (some (sampleEvent, "order.created", ["{}"])) := by
    decide +kernel
  obtain ⟨cfg, hplay, hstate⟩ := Option.map_eq_some_iff.mp hrun
  have hsteps := d1Oracle.steps_within_of_play (R := RolledBack)
    (fun _ _ _ _ _ => rolledBack_of_answer) (by decide) hplay
  have haccepted : cfg.state.AcceptedAs sampleEvent sampleRequest :=
    acceptedAs_of_storedBatch hstate rfl (by decide +kernel)
  obtain ⟨⟨chunks, hselect, hjoin⟩, -, hreaders⟩ :=
    payload_round_trip.2.2 (· = 5) RolledBack
    ⟨cfg.state, cfg.threads⟩ sampleEvent sampleRequest ⟨{}, rfl, hsteps⟩
    haccepted
  exact ⟨⟨cfg.state, cfg.threads⟩, haccepted,
    ⟨chunks, hselect, hjoin.trans (by decide)⟩,
    (hreaders sampleStore sampleLib_readsBack).2.1⟩

end RoundTrip

end Hooklane.Cloudflare
