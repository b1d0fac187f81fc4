import Hooklane.Queue.Alone
import Hooklane.Queue.Discipline
import Hooklane.Queue.Retries
import Hooklane.Support.Spending

/-!
# Retries are paid for by attempts

With a dead-letter policy of `M` attempts a worker schedules a retry only after
it was told an attempt number below `M`, and it does so once.  Hence the
retries of an event are covered by its attempts below `M`, in any interleaving.
-/

namespace Hooklane

open Redis Support ProgE

/-- Calls that neither start a delivery nor schedule a retry. -/
def Passive : Op → Prop
  | .redis (.startDelivery _ _) | .redis (.scheduleRetry _ _ _ _) => False
  | _ => True

section Passive

variable {store : RedisEventStore} {worker : EventWorker}
  {queuedEvent : QueuedEvent} {attemptCount : ℤ} {startedAt : ℚ}

theorem passive_of_neutral (op : Op) (h : Neutral op) : Passive op := by
  cases op with
  | redis call => cases call <;> trivial
  | _ => trivial

theorem passive_attempt {operation : String} {eventId : Option UUID}
    {call : RedisCall} (hcall : Passive (.redis call)) :
    CallsOnly Passive (store.attempt operation eventId call) :=
  callsOnly_attempt (fun _ => trivial) (fun _ => trivial) store hcall

theorem passive_quarantine (m group reasonCode : String) :
    CallsOnly Passive (store.quarantineMalformedMessage m group reasonCode) :=
  callsOnly_bind (passive_attempt trivial) fun _ =>
    (neutral_recordQueueQuarantine store _).mono passive_of_neutral

theorem passive_readNext (group consumer : String) :
    CallsOnly Passive (store.readNext group consumer) := by
  refine callsOnly_bind (passive_attempt trivial) fun message => ?_
  cases message with
  | none => exact callsOnly_pure _
  | some message => exact store.callsOnly_orQuarantine (passive_quarantine _ _ _) _

theorem passive_claimStalePending (group consumer : String) (minIdle : ℕ) :
    CallsOnly Passive (store.claimStalePending group consumer minIdle) := by
  refine callsOnly_bind (passive_attempt trivial) fun claimed => ?_
  cases claimed with
  | none => exact callsOnly_pure _
  | some claimed =>
      refine callsOnly_bind (passive_attempt trivial) fun messages => ?_
      split
      · split
        · exact callsOnly_bind (passive_quarantine _ _ _) fun _ =>
            callsOnly_pure _
        · exact store.callsOnly_orQuarantine (passive_quarantine _ _ _) _
      · exact callsOnly_bind ((neutral_recordRedisFailure store _ _).mono
          passive_of_neutral) fun _ => callsOnly_throw _

theorem passive_takeMessage : CallsOnly Passive worker.takeMessage := by
  refine callsOnly_bind (passive_claimStalePending _ _ _) fun message => ?_
  cases message with
  | some queuedEvent => exact callsOnly_pure _
  | none => exact passive_readNext _ _

theorem passive_ensureConsumerGroup (group : String) :
    CallsOnly Passive (store.ensureConsumerGroup group) := by
  have hfail : CallsOnly Passive (do
      store.recordRedisFailure "ensure_consumer_group" none
      throw Raised.eventStoreUnavailable : App Unit) :=
    callsOnly_bind ((neutral_recordRedisFailure store _ _).mono
      passive_of_neutral) fun _ => callsOnly_throw _
  refine callsOnly_bind (callsOnly_perform trivial) fun reply => ?_
  split
  · exact callsOnly_pure _
  · split
    · exact callsOnly_pure _
    · exact hfail
  · exact hfail

theorem passive_releaseDueRetry (group : String) (nowMs : ℤ) :
    CallsOnly Passive (store.releaseDueRetry group nowMs) := by
  refine callsOnly_bind (passive_attempt trivial) fun released => ?_
  split
  · exact callsOnly_bind ((neutral_recordQueueQuarantine store _).mono
      passive_of_neutral) fun _ => callsOnly_pure _
  · exact callsOnly_pure _

theorem passive_finishObservation (outcome reasonCode status : String)
    (event : LogEvent) (level : LogLevel) :
    CallsOnly Passive (worker.finishObservation queuedEvent attemptCount
      outcome reasonCode status startedAt event level) :=
  (neutral_finishObservation ..).mono passive_of_neutral

theorem passive_wrapUp {α : Type} {p : App Unit} {result : α}
    (hp : CallsOnly Passive p) :
    CallsOnly Passive (do p; worker.refreshQueueMetrics; return result) :=
  callsOnly_bind hp fun _ => callsOnly_bind
    ((neutral_workerRefresh worker).mono passive_of_neutral)
    fun _ => callsOnly_pure _

theorem passive_observingFailure {P : Op → Prop} {record : App Unit}
    (hP : ∀ op, Neutral op → P op) (hrecord : CallsOnly P record) :
    CallsOnly P (worker.observingFailure queuedEvent attemptCount startedAt
      record) := by
  refine callsOnly_tryCatch hrecord fun raised => ?_
  dsimp only
  split
  · exact callsOnly_bind ((neutral_finishObservation ..).mono hP) fun _ =>
      callsOnly_throw _
  · exact callsOnly_throw _

theorem passive_afterSuccess :
    CallsOnly Passive
      (worker.afterSuccess queuedEvent attemptCount startedAt) := by
  refine callsOnly_bind (passive_observingFailure passive_of_neutral ?_)
    fun _ => passive_wrapUp (passive_finishObservation ..)
  exact callsOnly_bind (passive_attempt trivial) fun _ => callsOnly_pure _

theorem passive_deadLetter (errorClass : DeliveryErrorClass) :
    CallsOnly Passive
      (worker.deadLetter queuedEvent attemptCount startedAt errorClass) := by
  refine callsOnly_bind (passive_observingFailure passive_of_neutral ?_)
    fun _ => callsOnly_bind
      ((neutral_metric _ _).mono passive_of_neutral) fun _ =>
        passive_wrapUp (passive_finishObservation ..)
  exact callsOnly_bind (passive_attempt trivial) fun _ => callsOnly_pure _

theorem passive_leavePending (errorClass : DeliveryErrorClass) :
    CallsOnly Passive
      (worker.leavePending queuedEvent attemptCount startedAt errorClass) :=
  passive_wrapUp (passive_finishObservation ..)

theorem passive_shouldDeadLetter (errorClass : DeliveryErrorClass) :
    CallsOnly Passive (worker.shouldDeadLetter errorClass attemptCount) :=
  (neutral_shouldDeadLetter errorClass attemptCount).mono passive_of_neutral

end Passive

/-- A worker that retries, with a dead-letter policy of `M` attempts. -/
def RetryLimited (M : ℤ) : Request → Prop
  | .runOnce worker => (∃ policy, worker.retryPolicy = some policy) ∧
      ∃ policy, worker.deadLetterPolicy = some policy ∧
        policy.maximumAttempts = M
  | _ => True

section Limited

variable {M : ℤ} {e : UUID} {store : RedisEventStore} {worker : EventWorker}
  {queuedEvent : QueuedEvent} {attemptCount : ℤ} {startedAt : ℚ}
  {errorClass : DeliveryErrorClass}

/-- A retry of `e` costs one credit, and an attempt of `e` that is told a
number below `M` gives one. -/
def retryTariff (M : ℤ) (e : UUID) : Tariff Op Op.Reply where
  price
    | .redis (.scheduleRetry e' _ _ _) => if e' = e then 1 else 0
    | _ => 0
  credit
    | .redis (.startDelivery e' _), .ok n => if e' = e ∧ n < M then 1 else 0
    | _, _ => 0

theorem free_of_passive (op : Op) (h : Passive op) :
    (retryTariff M e).Free op := by
  cases op with
  | redis call => cases call <;> first | rfl | exact absurd h id
  | _ => rfl

theorem affords_of_passive {α : Type} {p : App α} {n : ℕ}
    (hp : CallsOnly Passive p) :
    Affords (retryTariff M e) p (fun _ m => n ≤ m) n :=
  affords_of_free (hp.mono free_of_passive)

theorem affords_request (op : Op) (hop : Passive op) {n : ℕ} :
    Affords (retryTariff M e) (App.request op) (fun _ m => n ≤ m) n :=
  affords_of_passive (callsOnly_perform hop)

/-- A failed delivery schedules a retry only below the limit. -/
theorem shouldDeadLetter_false {policy : DeadLetterPolicy}
    (h : policy.shouldDeadLetter errorClass attemptCount = some false) :
    attemptCount < policy.maximumAttempts := by
  rw [DeadLetterPolicy.shouldDeadLetter] at h
  split at h
  · cases h
  · have hdecision := Option.some.inj h
    rw [Bool.or_eq_false_iff] at hdecision
    exact not_le.mp (of_decide_eq_false hdecision.2)

theorem yields_shouldDeadLetter {policy : DeadLetterPolicy}
    (hpolicy : worker.deadLetterPolicy = some policy) :
    Yields (fun r => r = .ok false → attemptCount < policy.maximumAttempts)
      (worker.shouldDeadLetter errorClass attemptCount) := by
  unfold EventWorker.shouldDeadLetter
  rw [hpolicy]
  dsimp only
  split
  · exact yields_throw nofun
  · next decision hdecision =>
    refine yields_pure fun h => ?_
    obtain rfl := Except.ok.inj h
    exact shouldDeadLetter_false hdecision

/-- One call to the server; a lost reply gives no credit. -/
theorem affords_attempt {operation : String} {eventId : Option UUID}
    {call : RedisCall} {Q : call.Received → ℕ → Prop} {n : ℕ}
    (hprice : (retryTariff M e).price (.redis call) ≤ n)
    (hok : ∀ value, Q value (n - (retryTariff M e).price (.redis call) +
      (retryTariff M e).credit (.redis call) (.ok value))) :
    Affords (retryTariff M e) (store.attempt operation eventId call) Q n := by
  have hcall : Affords (retryTariff M e) (App.request (.redis call))
      (fun reply m => ∀ value, reply = .ok value → Q value m) n := by
    refine affords_perform hprice ?_
    rintro _ value rfl
    exact hok value
  refine hcall.bind fun reply m hm => ?_
  cases reply with
  | ok value => exact affords_pure (hm value rfl)
  | error err =>
      exact Affords.bind (affords_of_passive ((neutral_recordRedisFailure
        store _ _).mono passive_of_neutral)) fun _ _ _ => affords_throw

theorem affords_scheduleRetry {dueAtMs : ℤ} {n : ℕ}
    (hn : queuedEvent.eventId = e → 1 ≤ n) :
    Affords (retryTariff M e)
      (store.scheduleRetry queuedEvent dueAtMs errorClass)
      (fun _ _ => True) n := by
  refine Affords.bind (Q := fun _ _ => True)
    (affords_attempt ?_ fun _ => trivial) fun _ _ _ => affords_pure trivial
  simp only [retryTariff]
  split
  · next he => exact hn he
  · exact Nat.zero_le n

theorem affords_retry {policy : RetryPolicy} {n : ℕ}
    (hn : queuedEvent.eventId = e → 1 ≤ n) :
    Affords (retryTariff M e)
      (worker.retry queuedEvent attemptCount startedAt policy errorClass)
      (fun _ _ => True) n := by
  refine (affords_request (.uniform (1 - policy.jitterRatio)
    (1 + policy.jitterRatio)) trivial).bind fun multiplier m hm => ?_
  split
  · exact affords_throw
  · refine (affords_request .clock trivial).bind fun now k hk => ?_
    have hcredit : queuedEvent.eventId = e → 1 ≤ k :=
      fun he => (hn he).trans (hm.trans hk)
    split
    · exact affords_throw
    · refine Affords.bind (Q := fun _ _ => True)
        (Affords.tryCatch (affords_scheduleRetry hcredit) fun raised k' => ?_)
        fun _ k' _ => ?_
      · refine (affords_of_passive ?_).mono fun _ _ _ => trivial
        dsimp only
        split
        · exact callsOnly_bind (passive_finishObservation ..) fun _ =>
            callsOnly_throw _
        · exact callsOnly_throw _
      · refine (affords_of_passive ?_).mono fun _ _ _ => trivial
        exact callsOnly_bind ((neutral_metric _ _).mono passive_of_neutral)
          fun _ => passive_wrapUp (passive_finishObservation ..)

/-- What a failed delivery may cost: a credit, if the attempt was below the
limit. -/
theorem affords_afterFailure {policy : DeadLetterPolicy} {n : ℕ}
    (hpolicy : worker.deadLetterPolicy = some policy)
    (hn : queuedEvent.eventId = e ∧ attemptCount < policy.maximumAttempts →
      1 ≤ n) :
    Affords (retryTariff policy.maximumAttempts e)
      (worker.afterFailure queuedEvent attemptCount startedAt errorClass)
      (fun _ _ => True) n := by
  have hdecide : Affords (retryTariff policy.maximumAttempts e)
      (worker.shouldDeadLetter errorClass attemptCount)
      (fun decision m => (decision = false →
        attemptCount < policy.maximumAttempts) ∧ n ≤ m) n := by
    refine (Prog.affords_of_yields ((passive_shouldDeadLetter _).mono
      free_of_passive).run (yields_shouldDeadLetter hpolicy)).mono ?_
    rintro _ m ⟨hlimit, hm⟩ decision rfl
    exact ⟨fun hfalse => hlimit (congrArg Except.ok hfalse), hm⟩
  refine hdecide.bind fun decision m ⟨hlimit, hm⟩ => ?_
  split
  · exact (affords_of_passive (passive_deadLetter _)).mono
      fun _ _ _ => trivial
  · next hdecision =>
    have hbelow := hlimit (Bool.not_eq_true _ ▸ hdecision)
    have hpending : Affords (retryTariff policy.maximumAttempts e)
        (worker.leavePending queuedEvent attemptCount startedAt errorClass)
        (fun _ _ => True) m :=
      (affords_of_passive (passive_leavePending _)).mono fun _ _ _ => trivial
    split
    · split
      · exact affords_retry fun he => (hn ⟨he, hbelow⟩).trans hm
      · exact hpending
    · exact hpending

theorem affords_markDeliveryStarted {n : ℕ} :
    Affords (retryTariff M e) (store.markDeliveryStarted queuedEvent)
      (fun attempt m => queuedEvent.eventId = e ∧ attempt < M → 1 ≤ m) n := by
  refine affords_attempt (Nat.zero_le n) fun attempt h => ?_
  simp [retryTariff, h]

theorem affords_deliverMessage {policy : DeadLetterPolicy} {n : ℕ}
    (hpolicy : worker.deadLetterPolicy = some policy) :
    Affords (retryTariff policy.maximumAttempts e)
      (worker.deliverMessage queuedEvent) (fun _ _ => True) n := by
  refine affords_markDeliveryStarted.bind fun attempt m hm => ?_
  refine (affords_request .perfCounter trivial).bind fun startedAt m₁ h₁ => ?_
  refine (affords_of_passive ((neutral_metric _ _).mono
    passive_of_neutral)).bind fun _ m₂ h₂ => ?_
  refine (affords_of_passive ((neutral_emit _ _).mono
    passive_of_neutral)).bind fun _ m₃ h₃ => ?_
  refine (affords_request (.deliver queuedEvent) trivial).bind
    fun reply m₄ h₄ => ?_
  cases reply with
  | success =>
      exact (affords_of_passive passive_afterSuccess).mono fun _ _ _ => trivial
  | failed errorClass =>
      exact affords_afterFailure hpolicy fun h =>
        (hm h).trans (h₁.trans (h₂.trans (h₃.trans h₄)))
  | raised =>
      refine (affords_of_passive ?_).mono fun _ _ _ => trivial
      exact callsOnly_bind (passive_finishObservation ..) fun _ =>
        callsOnly_throw _

/-- An iteration up to the message in hand. -/
theorem affords_runOnce {policy : DeadLetterPolicy}
    (hpolicy : worker.deadLetterPolicy = some policy) :
    Affords (retryTariff policy.maximumAttempts e) worker.runOnce
      (fun _ _ => True) 0 := by
  refine (affords_of_passive (passive_ensureConsumerGroup _)).bind
    fun _ _ _ => ?_
  refine (affords_request .clock trivial).bind fun now _ _ => ?_
  refine (affords_of_passive (passive_releaseDueRetry _ _)).bind
    fun _ _ _ => ?_
  refine (affords_of_passive passive_takeMessage).bind fun message _ _ => ?_
  cases message with
  | none =>
      refine (affords_of_passive ?_).mono fun _ _ _ => trivial
      exact callsOnly_bind ((neutral_workerRefresh worker).mono
        passive_of_neutral) fun _ => callsOnly_pure _
  | some queuedEvent => exact affords_deliverMessage hpolicy

/-- Clients schedule no retries, and workers pay for theirs. -/
theorem affords_body (request : Request) (h : RetryLimited M request) :
    request.body.Affords (retryTariff M e) (fun _ _ => True) 0 := by
  have hneutral : ∀ {α : Type} {p : App α}, CallsOnly Neutral p →
      p.run.Affords (retryTariff M e) (fun _ _ => True) 0 :=
    fun hp => (Prog.affords_of_free ((hp.mono passive_of_neutral).mono
      free_of_passive).run).mono fun _ _ _ => trivial
  cases request with
  | acceptEvent store observers event key =>
      exact hneutral (neutral_acceptEvent store observers event key)
  | enqueue store eventId event =>
      exact hneutral (neutral_enqueue store eventId event)
  | enqueueIdempotent store eventId event key =>
      exact hneutral (neutral_enqueueIdempotent store eventId event key)
  | getEventStatus store observers eventId =>
      exact hneutral (neutral_getEventStatus store observers eventId)
  | runOnce worker =>
      obtain ⟨-, policy, hpolicy, rfl⟩ := h
      exact Prog.Affords.mono (affords_runOnce hpolicy) fun _ _ _ => trivial

end Limited

/-- The reply that tells a worker that its attempt is the last allowed one, or
beyond it. -/
def ToldLimit (M : ℤ) : (op : Op) → op.Reply → Prop
  | .redis (.startDelivery _ _), .ok n => M ≤ n
  | _, _ => False

/-- Every call but `schedule_retry`. -/
def NoRetry : Op → Prop
  | .redis (.scheduleRetry _ _ _ _) => False
  | _ => True

/-- Every call but the start of a delivery. -/
def NoStart : Op → Prop
  | .redis (.startDelivery _ _) => False
  | _ => True

section Limit

variable {M : ℤ} {store : RedisEventStore} {worker : EventWorker}
  {queuedEvent : QueuedEvent} {attemptCount : ℤ} {startedAt : ℚ}
  {errorClass : DeliveryErrorClass}

theorem noRetry_of_passive (op : Op) (h : Passive op) : NoRetry op := by
  cases op with
  | redis call =>
      cases call with
      | scheduleRetry => exact h.elim
      | _ => trivial
  | _ => trivial

theorem noStart_of_passive (op : Op) (h : Passive op) : NoStart op := by
  cases op with
  | redis call =>
      cases call with
      | startDelivery => exact h.elim
      | _ => trivial
  | _ => trivial

theorem not_toldLimit {op : Op} (h : NoStart op) (reply : op.Reply) :
    ¬ToldLimit M op reply := by
  cases op with
  | redis call =>
      cases call with
      | startDelivery => exact absurd h id
      | _ => exact id
  | _ => exact id

theorem noStart_retry {policy : RetryPolicy} :
    CallsOnly NoStart
      (worker.retry queuedEvent attemptCount startedAt policy errorClass) := by
  refine callsOnly_bind (callsOnly_perform trivial) fun multiplier => ?_
  split
  · exact callsOnly_throw _
  · refine callsOnly_bind (callsOnly_perform trivial) fun now => ?_
    split
    · exact callsOnly_throw _
    · refine callsOnly_bind (passive_observingFailure
        (fun op h => noStart_of_passive op (passive_of_neutral op h)) ?_)
        fun _ => callsOnly_bind ((neutral_metric _ _).mono fun op h =>
          noStart_of_passive op (passive_of_neutral op h)) fun _ =>
            (passive_wrapUp (passive_finishObservation ..)).mono
              noStart_of_passive
      exact callsOnly_bind (callsOnly_attempt (fun _ => trivial)
        (fun _ => trivial) _ trivial) fun _ => callsOnly_pure _

theorem noStart_afterFailure :
    CallsOnly NoStart
      (worker.afterFailure queuedEvent attemptCount startedAt errorClass) := by
  refine callsOnly_bind ((passive_shouldDeadLetter _).mono
    noStart_of_passive) fun decision => ?_
  split
  · exact (passive_deadLetter _).mono noStart_of_passive
  · split
    · split
      · exact noStart_retry
      · exact (passive_leavePending _).mono noStart_of_passive
    · exact (passive_leavePending _).mono noStart_of_passive

/-- At the limit a failure is dead-lettered, if it is recorded at all. -/
theorem noRetry_afterFailure {policy : DeadLetterPolicy}
    (hpolicy : worker.deadLetterPolicy = some policy)
    (hlimit : policy.maximumAttempts ≤ attemptCount) :
    CallsOnly NoRetry
      (worker.afterFailure queuedEvent attemptCount startedAt errorClass) := by
  refine callsOnly_bind_yields ((passive_shouldDeadLetter _).mono
    noRetry_of_passive) ((yields_shouldDeadLetter hpolicy).mono
      (Q := fun r => ∀ a, r = .ok a → a = true) ?_) fun decision hyes => ?_
  · rintro _ hbelow decision rfl
    by_contra hno
    rw [Bool.not_eq_true] at hno
    exact absurd (hbelow (congrArg Except.ok hno)) (not_lt.mpr hlimit)
  · rw [if_pos hyes]
    exact (passive_deadLetter _).mono noRetry_of_passive

/-- The iteration after its attempt number came back. -/
theorem callsOnly_afterStart {P : Op → Prop}
    (hP : ∀ op, Passive op → P op)
    (hfail : ∀ startedAt errorClass, CallsOnly P
      (worker.afterFailure queuedEvent attemptCount startedAt errorClass)) :
    CallsOnly P (do
      let startedAt ← App.request .perfCounter
      App.metric worker.observers .startDelivery
      App.emit worker.observers
        { event := .deliveryStarted, eventId := queuedEvent.eventId,
          attempt := attemptCount, status := "delivering",
          outcome := "success", reasonCode := "none" }
      match ← App.request (.deliver queuedEvent) with
      | .success => worker.afterSuccess queuedEvent attemptCount startedAt
      | .failed errorClass =>
          worker.afterFailure queuedEvent attemptCount startedAt errorClass
      | .raised =>
          worker.finishObservation queuedEvent attemptCount "failure"
            "internal_error" "delivering" startedAt .deliveryFailed .error
          throw .other) := by
  refine callsOnly_bind (callsOnly_perform (hP _ trivial)) fun startedAt => ?_
  refine callsOnly_bind ((neutral_metric _ _).mono fun op h =>
    hP op (passive_of_neutral op h)) fun _ => ?_
  refine callsOnly_bind ((neutral_emit _ _).mono fun op h =>
    hP op (passive_of_neutral op h)) fun _ => ?_
  refine callsOnly_bind (callsOnly_perform (hP _ trivial)) fun reply => ?_
  cases reply with
  | success => exact passive_afterSuccess.mono hP
  | failed errorClass => exact hfail startedAt errorClass
  | raised =>
      exact callsOnly_bind ((passive_finishObservation ..).mono hP)
        fun _ => callsOnly_throw _

theorem commits_markDeliveryStarted :
    Commits (ToldLimit M)
      (fun r : Except Raised ℤ => ∀ n, r = .ok n → M ≤ n)
      (store.markDeliveryStarted queuedEvent) := by
  refine Commits.bind (P := fun r => ∃ n, r = .ok (.ok n) ∧ M ≤ n)
    (commits_perform ?_) ?_ nofun fun reply => commits_of_callsOnly ?_
  · intro reply htold
    cases reply with
    | ok n => exact ⟨n, rfl, htold⟩
    | error err => exact htold.elim
  · rintro _ ⟨n, ⟨⟩, hn⟩
    refine yields_pure fun k hk => ?_
    obtain rfl := Except.ok.inj hk
    exact hn
  · cases reply with
    | ok n => exact callsOnly_pure _
    | error err =>
        exact callsOnly_bind ((neutral_recordRedisFailure store _ _).mono
          fun op h => not_toldLimit (noStart_of_passive op
            (passive_of_neutral op h))) fun _ => callsOnly_throw _

theorem bars_deliverMessage {policy : DeadLetterPolicy}
    (hpolicy : worker.deadLetterPolicy = some policy) :
    Bars (ToldLimit policy.maximumAttempts) NoRetry
      (worker.deliverMessage queuedEvent) := by
  refine Bars.bind (callsOnly_attempt (fun _ => trivial) (fun _ => trivial) _
    trivial) commits_markDeliveryStarted (fun attempt hlimit => ?_)
    fun attempt => bars_of_quiet ?_
  · exact callsOnly_afterStart noRetry_of_passive
      fun _ _ => noRetry_afterFailure hpolicy hlimit
  · exact (callsOnly_afterStart noStart_of_passive
      fun _ _ => noStart_afterFailure).mono fun op => not_toldLimit

/-- Once its attempt number has reached the limit, an iteration schedules no
retry. -/
theorem bars_runOnce {policy : DeadLetterPolicy}
    (hpolicy : worker.deadLetterPolicy = some policy) :
    Bars (ToldLimit policy.maximumAttempts) NoRetry worker.runOnce := by
  have hquiet : ∀ {α : Type} {p : App α}, CallsOnly Passive p →
      CallsOnly (fun op => NoRetry op ∧
        ∀ reply, ¬ToldLimit policy.maximumAttempts op reply) p :=
    fun hp => hp.mono fun op h => ⟨noRetry_of_passive op h,
      not_toldLimit (noStart_of_passive op h)⟩
  refine Bars.after_quiet (hquiet (passive_ensureConsumerGroup _))
    fun _ => ?_
  refine Bars.after_quiet (hquiet (callsOnly_perform trivial)) fun now => ?_
  refine Bars.after_quiet (hquiet (passive_releaseDueRetry _ _)) fun _ => ?_
  refine Bars.after_quiet (hquiet passive_takeMessage) fun message => ?_
  cases message with
  | none =>
      exact bars_of_callsOnly ((callsOnly_bind
        ((neutral_workerRefresh worker).mono passive_of_neutral)
        fun _ => callsOnly_pure _).mono noRetry_of_passive)
  | some queuedEvent => exact bars_deliverMessage hpolicy

end Limit

end Hooklane
