import Hooklane.Cloudflare.Calls
import Hooklane.Cloudflare.Refinement
import Hooklane.Support.Accounting

/-!
# Every call of the sink is preceded by a claim

`process` calls the sink once for an attempt that it claimed.  The answer to
the claim is the credit and the call is what it pays for, so an event's sink
calls never outnumber its claims.  A claim whose answer is lost, or whose
service stops before the call, is a credit that nobody uses.
-/

namespace Hooklane.Cloudflare

open Support ProgE

variable {e : UUID} {α : Type}

/-- A call of the sink for `e` is paid with an answered claim of `e`. -/
def sinkTariff (e : UUID) : Tariff Op Op.Reply where
  price
    | .deliver record => if record.eventId = e then 1 else 0
    | _ => 0
  credit
    | .d1 (.claimDelivery eventId _ _ _ _), some (some _) =>
        if eventId = e then 1 else 0
    | _, _ => 0

/-- Every call but those of the sink. -/
def Silent : Op → Prop
  | .deliver _ => False
  | _ => True

theorem Silent.free {op : Op} (h : Silent op) : (sinkTariff e).Free op := by
  cases op with
  | deliver => exact h.elim
  | _ => rfl

/-- A program that does not call the sink. -/
abbrev Quiet (p : App α) : Prop :=
  CallsOnly Silent p

theorem Quiet.affords {p : App α} {n : ℕ} (h : Quiet p) :
    p.Affords (sinkTariff e) (fun _ m => n ≤ m) n :=
  affords_of_free (h.mono fun _ => Silent.free)

section Store

theorem Plain.silent {op : Op} (h : Plain op) : Silent op := by
  cases op with
  | deliver => exact h.elim
  | _ => trivial

theorem quiet_of_plain {p : App α} (h : PlainOnly p) : Quiet p :=
  h.mono fun _ => Plain.silent

theorem quiet_accept (service : AcceptanceService) (event : EventRequest)
    (key : Option String) (proposed : Option UUID) :
    Quiet (service.accept event key proposed) := by
  refine (callsOnly_accept service event key proposed).mono ?_
  rintro op (hplain | ⟨_, _, _, -, rfl⟩)
  · exact hplain.silent
  · trivial

/-- A program of plain calls keeps its credits. -/
theorem plain_affords {p : App α} {n : ℕ} (h : PlainOnly p) :
    p.Affords (sinkTariff e) (fun _ m => n ≤ m) n :=
  (quiet_of_plain h).affords

end Store

section Delivery

variable {service : DeliveryService} {record : EventRecord} {token : String}
  {eventId : UUID} {n : ℕ}

/-- An answer for a row that was not claimed has no record to deliver. -/
theorem unclaimed_record {state : EventStatus × ℕ} {start : DeliveryStart}
    (h : D1EventStore.unclaimed state = some start) : start.record = none := by
  unfold D1EventStore.unclaimed at h
  split at h
  · obtain rfl := Option.some.inj h
    rfl
  · split at h
    · obtain rfl := Option.some.inj h
      rfl
    · cases h

theorem affords_startUnclaimed {nowMs : ℤ} {m : ℕ} :
    (D1EventStore.startUnclaimed eventId nowMs m).Affords (sinkTariff e)
      (fun start _ => start.record = none) n := by
  refine (plain_affords plain_readState).bind fun snapshot _ _ => ?_
  split
  · next hstart => exact affords_pure (unclaimed_record hstart)
  · split
    · refine (plain_affords (plain_execute (.deadLetterExhausted eventId nowMs m)
        trivial)).bind fun changed _ _ => ?_
      split
      · exact affords_pure rfl
      · refine (plain_affords plain_readState).bind fun current _ _ => ?_
        split
        · next hstart => exact affords_pure (unclaimed_record hstart)
        · exact affords_throw
    · exact affords_throw

theorem affords_loadRecord {store : D1EventStore} {row : EventRow} :
    (store.loadRecord eventId row).Affords (sinkTariff e)
      (fun record k => record.eventId = eventId ∧ n ≤ k) n := by
  refine (plain_affords (plain_loadPayloadJson _)).bind fun payloadJson k hk => ?_
  dsimp only
  split
  · exact affords_pure ⟨rfl, hk⟩
  · exact affords_throw

/-- The answer to a claim of the event is a credit. -/
theorem affords_claim {token : String} {leaseUntilMs nowMs : ℤ} {m : ℕ} :
    (App.execute (.claimDelivery eventId token leaseUntilMs nowMs m)).Affords
      (sinkTariff e)
      (fun claimed k => ∀ row, claimed = some row → eventId = e → 1 ≤ k)
      n := by
  have hreply : (App.request (.d1 (.claimDelivery eventId token leaseUntilMs
      nowMs m))).Affords (sinkTariff e)
      (fun reply k => ∀ row, reply = some (some row) → eventId = e → 1 ≤ k)
      n := by
    refine affords_perform (Nat.zero_le n) ?_
    rintro _ row rfl rfl
    simp [sinkTariff]
  refine hreply.bind fun reply k hk => ?_
  cases reply with
  | none => exact affords_throw
  | some claimed =>
      exact affords_pure fun row hrow => hk row (congrArg some hrow)

/-- A started attempt has its credit. -/
theorem affords_markDeliveryStarted {store : D1EventStore} {m : ℕ} :
    (store.markDeliveryStarted eventId m).Affords (sinkTariff e)
      (fun start k => ∀ record, start.record = some record →
        record.eventId = eventId ∧ (eventId = e → 1 ≤ k)) n := by
  unfold D1EventStore.markDeliveryStarted
  split
  · exact affords_throw
  · refine (plain_affords plain_nowMs).bind fun nowMs _ _ => ?_
    refine (plain_affords plain_uuid4Hex).bind fun token k _ => ?_
    refine affords_claim.bind fun claimed k hk => ?_
    cases claimed with
    | none =>
        refine affords_startUnclaimed.mono fun start _ hnone => ?_
        rintro record hrecord
        rw [hnone] at hrecord
        cases hrecord
    | some row =>
        refine affords_loadRecord.bind fun record k' ⟨hid, hle⟩ => ?_
        refine affords_pure ?_
        rintro _ ⟨⟩
        exact ⟨hid, fun he => (hk row rfl he).trans hle⟩

theorem affords_deliverStarted
    (hcredit : record.eventId = e → 1 ≤ n) :
    (service.deliverStarted eventId record token).Affords (sinkTariff e)
      (fun _ _ => True) n := by
  refine (plain_affords (plain_emit _ _ _)).bind fun _ k hk => ?_
  have hprice : (sinkTariff e).price (.deliver record) ≤ k := by
    simp only [sinkTariff]
    split
    · next he => exact (hcredit he).trans hk
    · exact Nat.zero_le k
  have hsink : (App.request (.deliver record)).Affords (sinkTariff e)
      (fun _ _ => True) k :=
    affords_perform hprice fun _ => trivial
  refine hsink.bind fun reply k _ => ?_
  cases reply with
  | success => exact (plain_affords plain_afterSuccess).mono fun _ _ _ => trivial
  | failed errorClass =>
      exact (plain_affords (plain_afterFailure errorClass)).mono
        fun _ _ _ => trivial
  | raised => exact affords_throw

theorem affords_process :
    (service.process eventId).Affords (sinkTariff e) (fun _ _ => True) n := by
  refine affords_markDeliveryStarted.bind fun start k hstart => ?_
  split
  · exact (plain_affords plain_answer).mono fun _ _ _ => trivial
  · split
    · exact (plain_affords plain_answer).mono fun _ _ _ => trivial
    · split
      · next record token hrecord _ =>
        obtain ⟨hid, hcredit⟩ := hstart record hrecord
        exact affords_deliverStarted fun he => hcredit (hid.symm.trans he)
      · exact affords_throw

end Delivery

section Worker

variable {service : DeliveryService} {n : ℕ}

theorem affords_handleMessage {message : Message} :
    (Worker.handleMessage service message).Affords (sinkTariff e)
      (fun _ _ => True) n := by
  unfold Worker.handleMessage
  split
  · exact affords_throw
  · next eventId _ =>
    have hprocess : (App.orElseNone
        (fun raised => raised = .persistenceUnavailable ∨
          raised = .eventNotFound) (service.process eventId)).Affords
        (sinkTariff e) (fun _ _ => True) n := by
      refine Affords.tryCatch ?_ fun raised k => ?_
      · exact affords_process.bind fun _ _ _ => affords_pure trivial
      · split
        · exact affords_pure trivial
        · exact affords_throw
    refine hprocess.bind fun answer k _ => ?_
    have hdone : ∀ op, Silent op →
        (App.request op).Affords (sinkTariff e) (fun _ _ => True) k :=
      fun op hop => (Quiet.affords (callsOnly_perform hop)).mono fun _ _ _ => trivial
    split
    · exact hdone (.retry _ _) trivial
    · split
      · exact hdone (.ack _) trivial
      · exact hdone (.retry _ _) trivial

theorem affords_queue {batch : List Message} :
    (Worker.queue service batch).Affords (sinkTariff e) (fun _ _ => True)
      n := by
  induction batch generalizing n with
  | nil => exact affords_pure trivial
  | cons message rest ih =>
      have hhead : (Worker.handleMessage service message).Affords
          (sinkTariff e) (fun _ _ => True) n := affords_handleMessage
      rw [Worker.queue]
      generalize Worker.handleMessage service message = p at hhead ⊢
      exact hhead.bind fun _ _ _ => ih

end Worker

section Books

variable {maxima : ℕ → Prop}

theorem d1Service_solvent (maxima : ℕ → Prop) (e : UUID) :
    (d1Service maxima).Solvent (sinkTariff e) := by
  have hpays : ∀ {α : Type} {p : App α} {Q : α → ℕ → Prop},
      p.Affords (sinkTariff e) Q 0 →
        p.run.Affords (sinkTariff e) (fun _ _ => True) 0 :=
    fun hp => Prog.Affords.mono hp fun _ _ _ => trivial
  intro request
  cases request with
  | accept service event key proposed =>
      exact hpays (quiet_accept service event key proposed).affords
  | repair limit => exact hpays (plain_affords (plain_repair limit))
  | process service eventId => exact hpays affords_process
  | queue service batch => exact hpays affords_queue
  | getStatus store eventId => exact hpays (plain_affords plain_getStatus)
  | markDeliveryStarted service eventId finished =>
      exact hpays affords_markDeliveryStarted

theorem sinkCalls_exec {w w' : World} {op : Op} {reply : op.Reply}
    (h : World.Exec w op reply w') :
    w'.sinkCalls e ≤ w.sinkCalls e + (sinkTariff e).price op := by
  cases h with
  | delivered record reply =>
      simp [World.sinkCalls, World.delivered, Record.sinkCall, sinkTariff,
        List.countP_cons]
  | answered | replyLost =>
      simp [World.sinkCalls, World.ran, Record.sinkCall]
  | sendConfirmed =>
      simp [World.sinkCalls, World.sent, Record.sinkCall]
  | failed | sendUnconfirmed | sendFailed | time | uuid4 | uniform | emit
  | ack | retry => exact Nat.le_add_right _ _

theorem claims_suffix {w w' : World} (h : w.history <:+ w'.history) :
    (claims (w.journal e)).length ≤ (claims (w'.journal e)).length := by
  obtain ⟨new, hnew⟩ := h
  rw [World.journal, World.journal, ← hnew, List.filterMap_append, claims,
    claims, List.filterMap_append, List.length_append]
  exact Nat.le_add_left _ _

theorem claims_exec {w w' : World} {op : Op} {reply : op.Reply}
    (h : World.Exec w op reply w') :
    (claims (w.journal e)).length + (sinkTariff e).credit op reply ≤
      (claims (w'.journal e)).length := by
  have hmore := claims_suffix (e := e) (exec_history h)
  cases h with
  | answered call value returned db run agrees =>
      cases call with
      | claimDelivery eventId token leaseUntilMs nowMs m =>
          obtain rfl : returned = value := agrees
          cases returned with
          | none => exact hmore
          | some row =>
              rw [journal_ran rfl]
              by_cases he : eventId = e
              · simp [sinkTariff, he]
              · simp [sinkTariff, he, Ne.symm he]
      | _ => exact hmore
  | replyLost call | failed call => cases call <;> exact hmore
  | _ => exact hmore

/-- The sink is never called more often for an event than it was claimed. -/
theorem sinkCalls_le_claims {G : World → Op → Prop}
    {cfg : (d1Service maxima).Config} (h : Service.Reachable G cfg)
    (e : UUID) :
    cfg.state.sinkCalls e ≤ (claims (cfg.state.journal e)).length := by
  refine Service.Reachable.paid_le_earned (fun w => World.sinkCalls w e)
    (fun w => (claims (World.journal w e)).length) (T := sinkTariff e) ?_ ?_
    (d1Service_solvent maxima e) ?_ h
  · exact fun _ _ _ _ => sinkCalls_exec
  · exact fun _ _ _ _ => claims_exec
  · rintro w rfl
    exact Nat.zero_le _

end Books

end Hooklane.Cloudflare
