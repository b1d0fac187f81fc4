import Hooklane.Cloudflare.Reading
import Hooklane.Domain.Canonical
import Hooklane.Support.Spending

/-!
# What uses up the retries of a message

A handler calls `retry()` after an attempt that it started and that left the
event waiting, and after an attempt that it could not start or settle.  Both
are counted here: the first kind by the claims below the bound on attempts, the
second by the deferrals of the event.  A retry is paid for by one of them, so
the retries of a message never outnumber both together.
-/

namespace Hooklane.Cloudflare

open Support ProgE

variable {lib : Stdlib} {e : UUID} {n : ℕ} {α : Type}

/-- D1 and the queue answer every call, and the sink adapter does not raise. -/
def Reliable : World → (op : Op) → op.Reply → World → Prop
  | _, .d1 _, reply, _ => reply ≠ none
  | _, .queueSend _, reply, _ => reply = true
  | _, .deliver _, reply, _ => reply ≠ .raised
  | _, _, _, _ => True

/-- `json.loads` reads an object from the text of every payload. -/
def Stdlib.ReadsObjects (lib : Stdlib) : Prop :=
  ∀ event : EventRequest, event.WellFormed →
    ∃ fields, lib.readJson event.payloadJson = some (.obj fields)

/-- A batch stores a payload that Python can build. -/
def WellMade : Op → Prop
  | .d1 (.acceptBatch _ eventType chunks _ _ _) =>
      ∃ event : EventRequest, event.WellFormed ∧
        eventType = event.eventType ∧
        payloadJsonChunks payloadChunkLimitBytes event = some chunks
  | _ => True

/-- A reliable environment in which every stored payload is well formed. -/
def Careful (w : World) (op : Op) (reply : op.Reply) (w' : World) : Prop :=
  Reliable w op reply w' ∧ WellMade op

section Readable

variable {w : World} {event : EventRequest}

theorem wellMade_history (hw : FreshReach Careful w) :
    ∀ before call value, .executed before call value ∈ w.history →
      WellMade (.d1 call) := by
  refine Machine.Reach.induction (P := fun w : World =>
    ∀ before call value, .executed before call value ∈ w.history →
      WellMade (.d1 call)) ?_ ?_ hw
  · rintro w rfl before call value hmem
    cases hmem
  · rintro w op reply w' - hw - ⟨-, hexec, -, hmade⟩ before call value hmem
    cases hexec with
    | answered | replyLost =>
        rcases List.mem_cons.mp hmem with heq | hmem
        · obtain ⟨-, rfl, -⟩ := Record.executed.inj heq
          exact hmade
        · exact hw _ _ _ hmem
    | sendConfirmed | delivered =>
        rcases List.mem_cons.mp hmem with heq | hmem
        · cases heq
        · exact hw _ _ _ hmem
    | failed | sendUnconfirmed | sendFailed | time | uuid4 | uniform | emit
    | ack | retry => exact hw _ _ _ hmem

/-- The record of a stored event can be loaded. -/
theorem reread_of_accepted (hlib : Stdlib.ReadsObjects lib)
    (hw : FreshReach Careful w) (h : w.AcceptedAs e event) :
    reread lib event ≠ none := by
  obtain ⟨c, chunks, hstored, htype, hcut⟩ := h
  obtain ⟨before, nowMs, row, -, -, hmem⟩ := hstored
  obtain ⟨event', hwf, htype', hcut'⟩ := wellMade_history hw _ _ _ hmem
  have hjson : event'.payloadJson = event.payloadJson :=
    (join_chunks hcut').symm.trans (join_chunks hcut)
  obtain ⟨fields, hloads⟩ := hlib event' hwf
  rw [hjson] at hloads
  rw [reread, hloads]
  simp [EventRequest.validate, event.valid]

theorem careful_not_lossy : ¬Lossy Careful := by
  rintro ⟨w, call, w', ⟨hreply, -⟩⟩
  exact hreply rfl

end Readable

section Deferrals

/-- A claim of the event that selected no row, or an outcome that its row did
not take: the handler cannot do more than put the message off. -/
def Record.deferral (e : UUID) : Record → Bool
  | .executed _ (.claimDelivery eventId _ _ _ _) none => decide (eventId = e)
  | .executed _ (.updateTerminal eventId _ _ _ _) changed =>
      decide (eventId = e ∧ changed ≠ 1)
  | _ => false

def World.deferrals (e : UUID) (w : World) : ℕ :=
  w.history.countP (Record.deferral e)

/-- A claim of the event below the bound on attempts. -/
def Record.early (e : UUID) (bound : ℕ) : Record → Bool
  | .executed _ (.claimDelivery eventId _ _ _ _) (some row) =>
      decide (eventId = e ∧ row.attemptCount < bound)
  | _ => false

theorem early_eq_entry (record : Record) (bound : ℕ) :
    record.early e bound = (record.entry e).any fun
      | .claimed _ attempt => decide (attempt < bound)
      | _ => false := by
  cases record with
  | sent | delivered => rfl
  | executed before call value =>
      have hskip : ∀ (c : Prop) [Decidable c] (eventId : UUID) (entry : Entry),
          (∀ token attempt, entry ≠ .claimed token attempt) →
          (((if c then some (eventId, entry) else none).bind fun p =>
            if p.1 = e then some p.2 else none).any fun
              | .claimed _ attempt => decide (attempt < bound)
              | _ => false) = false := by
        intro c _ eventId entry hentry
        by_cases hc : c
        · by_cases he : eventId = e
          · cases entry with
            | claimed token attempt => exact absurd rfl (hentry token attempt)
            | accepted | settled | exhausted => simp [hc, he]
          · simp [hc, he]
        · simp [hc]
      cases call with
      | claimDelivery eventId token leaseUntilMs nowMs m =>
          cases value with
          | none => rfl
          | some row =>
              by_cases he : eventId = e
              · simp [Record.early, Record.entry, D1Call.entry, he]
              · simp [Record.early, Record.entry, D1Call.entry, he]
      | acceptBatch proposed =>
          exact (hskip _ proposed .accepted (by simp)).symm
      | deadLetterExhausted eventId =>
          exact (hskip _ eventId .exhausted (by simp)).symm
      | updateTerminal eventId status nowMs reason token =>
          exact (hskip _ eventId (.settled status token) (by simp)).symm
      | _ => rfl

theorem early_eq_claims (w : World) (bound : ℕ) :
    w.history.countP (Record.early e bound) =
      (claims (w.journal e)).countP
        fun claim => decide (claim.2 < bound) := by
  rw [World.journal, claims, List.countP_filterMap, List.countP_filterMap]
  congr 1
  funext record
  rw [early_eq_entry]
  cases record.entry e with
  | none => rfl
  | some entry => cases entry <;> rfl

/-- The retries of message `n` are paid for by the claims of its event below
the bound and by the event's deferrals. -/
def retryRates (e : UUID) (n bound : ℕ) : Rates (FreshMachine Careful) where
  price w
    | .retry message _ =>
        if message = n ∧
            (w.messages[n]? = none ∨ w.messages[n]? = some e.text) then 1
        else 0
    | _ => 0
  credit _
    | .d1 (.claimDelivery eventId _ _ _ _), some (some row) =>
        if eventId = e ∧ row.attemptCount < bound then 1 else 0
    | .d1 (.claimDelivery eventId _ _ _ _), some none =>
        if eventId = e then 1 else 0
    | .d1 (.updateTerminal eventId _ _ _ _), some changed =>
        if eventId = e ∧ changed ≠ 1 then 1 else 0
    | _, _ => 0

end Deferrals

section Paying

variable {bound k : ℕ} {w : World} {service : DeliveryService}
  {token : String}

/-- The program pays its retries of message `n` and ends as `Q` says. -/
abbrev PaysRetries (e : UUID) (n bound : ℕ) (p : App α)
    (Q : Except Raised α → ℕ → World → Prop) (k : ℕ) (w : World) : Prop :=
  p.Pays (retryRates e n bound) Q k w

theorem price_plain {op : Op} (w : World) (h : Plain op) :
    (retryRates e n bound).price w op = 0 := by
  cases op with
  | retry => exact h.elim
  | _ => rfl

theorem price_process {op : Op} (w : World) (h : ProcessCall op) :
    (retryRates e n bound).price w op = 0 := by
  rcases h with hplain | ⟨record, rfl⟩
  · exact price_plain w hplain
  · rfl

/-- A program that cannot answer a message keeps its credits. -/
theorem pays_process_calls {p : App α} (hw : FreshReach Careful w)
    (hp : CallsOnly ProcessCall p) :
    PaysRetries e n bound p (fun _ m _ => k ≤ m) k w :=
  Prog.pays_of_free hp.run (fun w _ => price_process w) hw

/-- What the text of such a program tells of its results holds as well. -/
theorem pays_yields {p : App α} {P : Except Raised α → Prop}
    (hw : FreshReach Careful w) (hp : CallsOnly ProcessCall p)
    (hy : Yields P p) :
    PaysRetries e n bound p (fun r m _ => P r ∧ k ≤ m) k w := by
  have hends := (Service.ensures_anyCall (M := FreshMachine Careful) p.run
    w).and_yields hy
  refine (Prog.pays_of_ensures (F := fun _ => True) hends hp.run
    (fun w _ _ => price_process w) (fun _ _ _ _ h => h) hw trivial).mono ?_
  exact fun _ _ _ _ h => ⟨h.1.1, h.2⟩

theorem pays_plain {p : App α} (hw : FreshReach Careful w) (hp : PlainOnly p) :
    PaysRetries e n bound p (fun _ m _ => k ≤ m) k w :=
  pays_process_calls hw (hp.mono fun _ => Or.inl)

/-- One call to D1, which is answered. -/
theorem pays_execute {call : D1Call}
    {Q : Except Raised call.Value → ℕ → World → Prop}
    (hQ : ∀ w' value returned db, FreshReach Careful w' →
      FreshReach Careful (w'.ran call value db) →
      call.statement w'.db = some (value, db) → call.Agrees returned value →
      Q (.ok returned) (k + (retryRates e n bound).credit w' (.d1 call)
        (some returned)) (w'.ran call value db))
    (hlasts : ∀ r m, Lasts Careful (Q r m)) :
    PaysRetries e n bound (App.execute call) Q k w := by
  intro w' _ hw'
  have hprice : (retryRates e n bound).price w' (.d1 call) = 0 := rfl
  refine ⟨hprice ▸ Nat.zero_le k, ?_⟩
  rintro reply t ⟨⟨hfresh, hformed⟩, hexec, hreliable, hmade⟩
  have ht : FreshReach Careful t := hw'.later (Machine.Later.move trivial
    ⟨⟨hfresh, hformed⟩, hexec, hreliable, hmade⟩)
  rw [hprice]
  cases hexec with
  | answered call value returned db run agrees =>
      exact fun s hlater _ => hlasts _ _ _ s ht hlater
        (hQ w' value returned db hw' ht run agrees)
  | replyLost | failed => exact absurd rfl hreliable

/-- What a claim of the event tells: a credit is left, or an attempt at the
bound was claimed. -/
def ClaimTold (e : UUID) (bound : ℕ) :
    Except Raised (Option EventRow) → ℕ → World → Prop
  | .ok (some row), m, w => (row.attemptCount < bound → 1 ≤ m) ∧
      ∃ event, w.AcceptedAs e event ∧ row.eventType = event.eventType
  | .ok none, m, _ => 1 ≤ m
  | .error _, _, _ => False

theorem pays_claim {leaseUntilMs nowMs : ℤ} :
    PaysRetries e n bound
      (App.execute (.claimDelivery e token leaseUntilMs nowMs bound))
      (ClaimTold e bound) k w := by
  apply pays_execute
  · rintro w' value returned db - hafter hrun rfl
    cases returned with
    | none => simp [ClaimTold, retryRates]
    | some row =>
        refine ⟨fun hlt => by simp [retryRates, hlt], ?_⟩
        rcases updateEvent_cases hrun with ⟨old, -, -, hnew, hdb⟩ | ⟨hnone, -⟩
        · have hrow : db.events.lookup e = some row := by
            rw [hdb, hnew, AList.lookup_insert]
          obtain ⟨event, haccepted, htype, -⟩ :=
            row_accepted hafter.shelved hrow
          exact ⟨event, haccepted, htype⟩
        · cases hnone
  · rintro (raised | _ | row) m
    · exact lasts_const _
    · exact lasts_const _
    · refine lasts_of_history fun w w' hsuffix => ?_
      rintro ⟨hcredit, event, haccepted, htype⟩
      exact ⟨hcredit, event, haccepted.mono hsuffix, htype⟩

theorem yields_loadRecord (store : D1EventStore) (row : EventRow) :
    Yields (fun r => ∀ record, r = .ok record →
      record.attemptCount = row.attemptCount) (store.loadRecord e row) := by
  refine (yields_any (D1EventStore.loadPayloadJson e row.payloadJson)).bind
    (fun text _ => ?_) fun _ _ _ h => nomatch h
  dsimp only
  split
  · refine yields_pure ?_
    rintro _ ⟨⟩
    rfl
  · exact yields_throw fun _ h => nomatch h

/-- The record of a claimed row is loaded. -/
theorem pays_loadRecord {store : D1EventStore} {row : EventRow}
    {event : EventRequest} (hlib : Stdlib.ReadsObjects store.lib)
    (hw : FreshReach Careful w) (haccepted : w.AcceptedAs e event)
    (htype : row.eventType = event.eventType) :
    PaysRetries e n bound (store.loadRecord e row)
      (fun r m _ => k ≤ m ∧
        ∃ record, r = .ok record ∧ record.attemptCount = row.attemptCount)
      k w := by
  have hends := Prog.Ensures.and_yields
    (ends_loadRecord (R := Careful) haccepted htype)
    (yields_loadRecord store row)
  refine (Prog.pays_of_ensures (F := fun _ => True) hends
    (plain_loadRecord row).run (fun w op _ => price_plain w)
    (fun _ _ _ _ h => h) hw trivial).mono ?_
  rintro r m w' - ⟨⟨hattempt, htold⟩, hle⟩
  cases r with
  | ok record => exact ⟨hle, record, rfl, hattempt record rfl⟩
  | error raised =>
      rcases htold.2 with hlossy | hreread
      · exact absurd hlossy careful_not_lossy
      · exact absurd hreread (reread_of_accepted hlib hw haccepted)

/-- An attempt at the bound was started. -/
def StartedLast (bound : ℕ) (start : DeliveryStart) : Prop :=
  start.disposition = .started ∧
    ∃ record token, start.record = some record ∧
      start.deliveryToken = some token ∧ bound ≤ record.attemptCount

/-- A start leaves a credit, unless it started the last attempt. -/
theorem pays_markDeliveryStarted {store : D1EventStore}
    (hlib : Stdlib.ReadsObjects store.lib) (hbound : 1 ≤ bound)
    (hw : FreshReach Careful w) :
    PaysRetries e n bound (store.markDeliveryStarted e bound)
      (fun r m _ => 1 ≤ m ∨ ∃ start, r = .ok start ∧ StartedLast bound start)
      k w := by
  unfold D1EventStore.markDeliveryStarted
  rw [if_neg (by omega)]
  refine (pays_yields hw (plain_nowMs.mono fun _ => Or.inl) yields_nowMs).bind
    (fun nowMs m₁ w₁ hw₁ _ => ?_) (fun _ _ _ _ h => nomatch h.1)
  refine (pays_yields hw₁ (plain_uuid4Hex.mono fun _ => Or.inl)
    yields_uuid4Hex).bind (fun token m₂ w₂ hw₂ _ => ?_)
    (fun _ _ _ _ h => nomatch h.1)
  refine pays_claim.bind (fun claimed m₃ w₃ hw₃ htold => ?_)
    (fun _ _ _ _ h => h.elim)
  cases claimed with
  | none =>
      refine (pays_plain hw₃ (plain_startUnclaimed nowMs bound)).mono ?_
      exact fun _ _ _ _ hm => Or.inl (htold.trans hm)
  | some row =>
      obtain ⟨hcredit, event, haccepted, htype⟩ := htold
      refine (pays_loadRecord hlib hw₃ haccepted htype).bind ?_ ?_
      · rintro record m₄ w₄ - ⟨hle, _, heq, hattempt⟩
        obtain rfl := Except.ok.inj heq
        refine pays_pure ?_
        by_cases hlt : row.attemptCount < bound
        · exact Or.inl ((hcredit hlt).trans hle)
        · exact Or.inr ⟨_, rfl, rfl, record, token, rfl, rfl, by omega⟩
      · rintro raised m₄ w₄ - ⟨-, record, heq, -⟩
        cases heq

/-- An outcome leaves a credit, unless its row took it. -/
theorem pays_updateTerminal {status : EventStatus} {reason : Option String}
    (hw : FreshReach Careful w) :
    PaysRetries e n bound (D1EventStore.updateTerminal e status reason token)
      (fun r m _ => r = .ok true ∨ 1 ≤ m) k w := by
  refine (pays_yields hw (plain_nowMs.mono fun _ => Or.inl) yields_nowMs).bind
    (fun nowMs m₁ w₁ hw₁ _ => ?_) (fun _ _ _ _ h => nomatch h.1)
  have hupdate : PaysRetries e n bound
      (App.execute (.updateTerminal e status nowMs reason token))
      (fun r m _ => r = .ok 1 ∨ 1 ≤ m) m₁ w₁ := by
    apply pays_execute
    · rintro w' value changed db - - - -
      by_cases hchanged : changed = 1
      · exact Or.inl (congrArg Except.ok hchanged)
      · exact Or.inr (by simp [retryRates, hchanged])
    · exact fun r m => lasts_const _
  refine hupdate.bind (fun changed m₂ w₂ _ h => pays_pure ?_)
    fun raised m₂ w₂ _ h => h.imp_left fun heq => nomatch heq
  exact h.imp_left fun heq => by rw [Except.ok.inj heq]; rfl

/-- How a delivery ends without a credit: its message is not retried. -/
def NotRetried : Except Raised DeliveryResult → Prop
  | .ok result => result.disposition = .ack
  | .error raised => raised ≠ .persistenceUnavailable ∧ raised ≠ .eventNotFound

variable {record : EventRecord}

theorem pays_ack {transition reason : String} {attempt : ℕ}
    {result : DeliveryResult} (hack : result.disposition = .ack)
    (hw : FreshReach Careful w) :
    PaysRetries e n bound (do
      App.emit transition e attempt reason
      return result) (fun r m _ => 1 ≤ m ∨ NotRetried r) k w := by
  refine (pays_yields hw (plain_emit (e := e) transition attempt reason |>.mono
    fun _ => Or.inl) (yields_emit _ _ _)).bind
    (fun _ _ _ _ _ => pays_pure (Or.inr hack)) (fun _ _ _ _ h => nomatch h.1)

/-- With a credit a program may end as it likes. -/
theorem pays_with_credit {p : App DeliveryResult} (hk : 1 ≤ k)
    (hw : FreshReach Careful w) (hp : CallsOnly ProcessCall p) :
    PaysRetries e n bound p (fun r m _ => 1 ≤ m ∨ NotRetried r) k w :=
  (pays_process_calls hw hp).mono fun _ _ _ _ hm => Or.inl (hk.trans hm)

theorem pays_afterSuccess (hw : FreshReach Careful w) :
    PaysRetries e n bound (service.afterSuccess e record token)
      (fun r m _ => 1 ≤ m ∨ NotRetried r) k w := by
  refine (pays_updateTerminal hw).bind (fun moved m w' hw' h => ?_) ?_
  · cases moved with
    | true => exact pays_ack rfl hw'
    | false =>
        have hm : 1 ≤ m := h.resolve_left nofun
        exact pays_with_credit hm hw' ((plain_staleResult _).mono fun _ => Or.inl)
  · exact fun raised m w' _ h => Or.inl (h.resolve_left nofun)

/-- After the last attempt the event is given up, if its row is still there to
be taken. -/
theorem pays_afterFailure {errorClass : DeliveryErrorClass}
    (hlast : service.maximumAttempts ≤ record.attemptCount)
    (hw : FreshReach Careful w) :
    PaysRetries e n bound (service.afterFailure e record token errorClass)
      (fun r m _ => 1 ≤ m ∨ NotRetried r) k w := by
  unfold DeliveryService.afterFailure
  rw [if_pos (Or.inr hlast)]
  refine (pays_updateTerminal hw).bind (fun moved m w' hw' h => ?_) ?_
  · cases moved with
    | true => exact pays_ack rfl hw'
    | false =>
        have hm : 1 ≤ m := h.resolve_left nofun
        exact pays_with_credit hm hw' ((plain_staleResult _).mono fun _ => Or.inl)
  · exact fun raised m w' _ h => Or.inl (h.resolve_left nofun)

theorem pays_deliverStarted
    (hlast : service.maximumAttempts ≤ record.attemptCount)
    (hw : FreshReach Careful w) :
    PaysRetries e n bound (service.deliverStarted e record token)
      (fun r m _ => 1 ≤ m ∨ NotRetried r) k w := by
  refine (pays_yields hw ((plain_emit _ _ _).mono fun _ => Or.inl)
    (yields_emit _ _ _)).bind (fun _ m₁ w₁ hw₁ _ => ?_)
    (fun _ _ _ _ h => nomatch h.1)
  have hsink : CallsOnly ProcessCall (App.request (.deliver record)) :=
    callsOnly_perform (Or.inr ⟨record, rfl⟩)
  refine (pays_yields hw₁ hsink yields_perform).bind
    (fun reply m₂ w₂ hw₂ _ => ?_) (fun _ _ _ _ h => nomatch h.1)
  cases reply with
  | success => exact pays_afterSuccess hw₂
  | failed errorClass => exact pays_afterFailure hlast hw₂
  | raised => exact pays_throw (Or.inr ⟨nofun, nofun⟩)

/-- A delivery of the event leaves a credit, or its message is not retried. -/
theorem pays_process (hlib : Stdlib.ReadsObjects service.store.lib)
    (hbound : service.maximumAttempts = bound) (hw : FreshReach Careful w) :
    PaysRetries e n bound (service.process e)
      (fun r m _ => 1 ≤ m ∨ NotRetried r) k w := by
  subst hbound
  refine (pays_markDeliveryStarted hlib service.positive hw).bind
    (fun start m₁ w₁ hw₁ hstart => ?_) ?_
  · rcases hstart with hcredit | ⟨_, heq, hstarted, record, token, hrecord,
      htoken, hlast⟩
    · refine pays_with_credit hcredit hw₁ ?_
      split
      · exact plain_answer.mono fun _ => Or.inl
      · split
        · exact plain_answer.mono fun _ => Or.inl
        · split
          · refine callsOnly_bind ((plain_emit _ _ _).mono fun _ => Or.inl) ?_
            intro _
            refine callsOnly_bind (callsOnly_perform (Or.inr ⟨_, rfl⟩)) ?_
            intro reply
            cases reply with
            | success => exact plain_afterSuccess.mono fun _ => Or.inl
            | failed errorClass =>
                exact (plain_afterFailure errorClass).mono fun _ => Or.inl
            | raised => exact callsOnly_throw _
          · exact callsOnly_throw _
    · obtain rfl := Except.ok.inj heq
      rw [if_neg (by simp [hstarted]), if_neg (by simp [hstarted]), hrecord,
        htoken]
      exact pays_deliverStarted hlast hw₁
  · rintro raised m₁ w₁ - (hcredit | ⟨_, heq, -⟩)
    · exact Or.inl hcredit
    · cases heq

end Paying

section Handlers

variable {bound k : ℕ} {w : World} {service : DeliveryService}
  {message : Message}

-- The elaborator shall not evaluate the handler to see what it is.
attribute [local irreducible] Worker.handleMessage

theorem message_lasts (m : ℕ) (text : String) :
    Lasts Careful fun w => w.messages[m]? = some text := by
  intro w w' _ hlater h
  induction hlater with
  | refl => exact h
  | tail _ hmove ih =>
      obtain ⟨op, reply, -, -, hexec, -⟩ := hmove
      exact message_exec hexec ih

/-- A request to answer the message, which is the event's. -/
theorem pays_answer {op : Op} (hk : (∃ delay, op = .retry n delay) → 1 ≤ k)
    (hop : op = .ack n ∨ ∃ delay, op = .retry n delay) :
    PaysRetries e n bound (App.request op) (fun _ _ _ => True) k w := by
  intro w' _ _
  refine ⟨?_, fun _ _ _ _ _ _ => trivial⟩
  rcases hop with rfl | ⟨delay, rfl⟩
  · exact Nat.zero_le k
  · refine le_trans ?_ (hk ⟨delay, rfl⟩)
    simp only [retryRates]
    split
    · exact le_rfl
    · exact Nat.zero_le 1

theorem pays_handleMessage (hlib : Stdlib.ReadsObjects service.store.lib)
    (hbound : service.maximumAttempts = bound) (hw : FreshReach Careful w)
    (hmessage : w.messages[message.id]? = some message.eventId) :
    PaysRetries e n bound (Worker.handleMessage service message)
      (fun _ _ _ => True) k w := by
  by_cases hours : message.id = n ∧ message.eventId = e.text
  · obtain ⟨rfl, htext⟩ := hours
    unfold Worker.handleMessage
    rw [htext, UUID.parse_text]
    have hprocess : PaysRetries e message.id bound (App.orElseNone
        (fun raised => raised = .persistenceUnavailable ∨
          raised = .eventNotFound) (service.process e))
        (fun r m _ => 1 ≤ m ∨ ∀ answer, r = .ok answer → ∃ result,
          answer = some result ∧ result.disposition = .ack) k w := by
      refine Pays.tryCatch (Q := fun r m _ => 1 ≤ m ∨
        (∀ answer, r = .ok answer → ∃ result, answer = some result ∧
          result.disposition = .ack) ∧
        ∀ raised, r = .error raised → raised ≠ .persistenceUnavailable ∧
          raised ≠ .eventNotFound) ?_ ?_ ?_
      · refine (pays_process hlib hbound hw).bind
          (fun result m w' _ h => pays_pure ?_) fun raised m w' _ h => ?_
        · refine h.imp_right fun hack => ⟨?_, fun _ h => (nomatch h)⟩
          rintro _ ⟨⟩
          exact ⟨result, rfl, hack⟩
        · refine h.imp_right fun hother => ⟨fun _ h => (nomatch h), ?_⟩
          rintro _ ⟨⟩
          exact hother
      · exact fun answer m w' _ h => h.imp_right fun h => h.1
      · rintro raised m w' - (hm | ⟨-, hother⟩)
        · split
          · exact pays_pure (Or.inl hm)
          · exact pays_throw (Or.inl hm)
        · have hno := hother raised rfl
          rw [if_neg (by simp [hno])]
          exact pays_throw (Or.inr fun _ h => nomatch h)
    refine hprocess.bind (fun answer m w' hw' h => ?_) fun _ _ _ _ _ => trivial
    have hretry : ∀ delay, 1 ≤ m → PaysRetries e message.id bound
        (App.request (.retry message.id delay)) (fun _ _ _ => True) m w' :=
      fun delay hm => pays_answer (fun _ => hm) (Or.inr ⟨delay, rfl⟩)
    cases answer with
    | none =>
        refine hretry none (h.resolve_right fun hall => ?_)
        obtain ⟨result, heq, -⟩ := hall none rfl
        cases heq
    | some result =>
        dsimp only
        split
        · exact pays_answer (fun ⟨_, h⟩ => nomatch h) (Or.inl rfl)
        · next hack =>
          refine hretry _ (h.resolve_right fun hall => ?_)
          obtain ⟨_, heq, hdisposition⟩ := hall (some result) rfl
          obtain rfl := Option.some.inj heq
          exact hack hdisposition
  · -- The answer to another message, or to one of another event, is free.
    have hfree : ∀ (w : World) op,
        w.messages[message.id]? = some message.eventId →
        HandleCall message op → (retryRates e n bound).price w op = 0 := by
      rintro w op hplace (hprocess | rfl | ⟨delay, rfl⟩)
      · exact price_process w hprocess
      · rfl
      · refine if_neg ?_
        rintro ⟨rfl, hnone | htext⟩
        · rw [hplace] at hnone
          cases hnone
        · rw [hplace] at htext
          exact hours ⟨rfl, Option.some.inj htext⟩
    have hcalls : CallsOnly (HandleCall message)
        (Worker.handleMessage service message) :=
      callsOnly_handleMessage message
    generalize Worker.handleMessage service message = p at hcalls ⊢
    exact (Prog.pays_of_ensures
      (Service.ensures_anyCall (M := FreshMachine Careful) p.run w) hcalls.run
      hfree (message_lasts _ _) hw hmessage).mono fun _ _ _ _ _ => trivial

theorem pays_queue {batch : List Message}
    (hlib : Stdlib.ReadsObjects service.store.lib)
    (hbound : service.maximumAttempts = bound) (hw : FreshReach Careful w)
    (hbatch : ∀ m ∈ batch, w.messages[m.id]? = some m.eventId) :
    PaysRetries e n bound (Worker.queue service batch) (fun _ _ _ => True)
      k w := by
  have hlasts : ∀ (batch : List Message), Lasts Careful fun w =>
      ∀ m ∈ batch, w.messages[m.id]? = some m.eventId := by
    intro batch w w' hw hlater h m hm
    exact message_lasts m.id m.eventId w w' hw hlater (h m hm)
  induction batch generalizing k w with
  | nil => exact pays_pure trivial
  | cons message rest ih =>
      have hhead : PaysRetries e n bound (Worker.handleMessage service message)
          (fun _ _ _ => True) k w :=
        pays_handleMessage hlib hbound hw (hbatch message List.mem_cons_self)
      have hboth := Prog.Pays.frame hhead (hlasts rest) hw
        fun m hm => hbatch m (List.mem_cons_of_mem _ hm)
      exact Pays.bind hboth (fun _ m w' hw' h => ih hw' h.1)
        fun _ _ _ _ _ => trivial

end Handlers

section Books

variable {bound : ℕ} {w w' : World} {op : Op} {reply : op.Reply}

/-- The retries of a message, as long as it can be one of the event's. -/
def paidRetries (e : UUID) (n : ℕ) (w : World) : ℕ :=
  if w.messages[n]? = none ∨ w.messages[n]? = some e.text then
    w.retried.count n
  else 0

/-- What the claims below the bound and the deferrals of the event have
given. -/
def earnedRetries (e : UUID) (bound : ℕ) (w : World) : ℕ :=
  w.history.countP (Record.early e bound) + w.deferrals e

theorem paidRetries_exec (h : World.Exec w op reply w') :
    paidRetries e n w' ≤ paidRetries e n w + (retryRates e n bound).price w op := by
  have hplace : w'.messages[n]? = none ∨ w'.messages[n]? = some e.text →
      w.messages[n]? = none ∨ w.messages[n]? = some e.text := by
    intro hafter
    cases hbefore : w.messages[n]? with
    | none => exact Or.inl rfl
    | some text =>
        rw [message_exec h hbefore] at hafter
        exact hafter
  have hsame : w'.retried = w.retried → paidRetries e n w' ≤
      paidRetries e n w + (retryRates e n bound).price w op := by
    intro heq
    refine le_trans ?_ (Nat.le_add_right _ _)
    unfold paidRetries
    rw [heq]
    split
    · next hafter => rw [if_pos (hplace hafter)]
    · exact Nat.zero_le _
  cases h with
  | retry message delaySeconds =>
      unfold paidRetries
      simp only [World.retry, retryRates, List.count_cons]
      split
      · next hours =>
        refine Nat.add_le_add_left ?_ _
        by_cases hn : message = n
        · have hprice : (retryRates e n bound).price w
              (.retry message delaySeconds) = 1 := if_pos ⟨hn, hours⟩
          simp only [retryRates] at hprice
          rw [hprice]
          simp [hn]
        · simp [hn]
      · exact Nat.zero_le _
  | _ => exact hsame rfl

theorem earnedRetries_exec (h : World.Exec w op reply w') :
    earnedRetries e bound w + (retryRates e n bound).credit w op reply ≤
      earnedRetries e bound w' := by
  have hkept : earnedRetries e bound w ≤ earnedRetries e bound w' :=
    Nat.add_le_add (exec_history h).sublist.countP_le
      (exec_history h).sublist.countP_le
  cases h with
  | answered call value returned db run agrees =>
      cases call with
      | claimDelivery eventId token leaseUntilMs nowMs m =>
          obtain rfl : returned = value := agrees
          unfold earnedRetries World.deferrals
          rw [World.ran, List.countP_cons, List.countP_cons]
          cases returned with
          | none =>
              simp only [retryRates, Record.early, Record.deferral,
                decide_eq_true_eq]
              omega
          | some row =>
              simp only [retryRates, Record.early, Record.deferral,
                decide_eq_true_eq]
              omega
      | updateTerminal eventId status nowMs reason token =>
          obtain rfl : returned = value := agrees
          unfold earnedRetries World.deferrals
          rw [World.ran, List.countP_cons, List.countP_cons]
          simp only [retryRates, Record.early, Record.deferral,
            decide_eq_true_eq]
          omega
      | _ => exact hkept
  | replyLost call | failed call => cases call <;> exact hkept
  | _ => exact hkept

end Books

end Hooklane.Cloudflare
