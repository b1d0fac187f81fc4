import Hooklane.Queue.Invariant

/-!
# The programs keep the discipline

Metrics, logs, clocks and reads are always permitted.  For the other calls the
permission comes from a reply that the program has seen before, and it lasts:
a message that was handed out stays handed out, a delivery that was started
stays started, and a success of the sink stays in the history.
-/

namespace Hooklane

open Redis Support

variable {lib : Stdlib} {group : String} {w : World} {e : UUID} {m : String}

/-- A fact that permitted calls cannot undo. -/
def Lasting (lib : Stdlib) (group : String) (F : World → Prop) : Prop :=
  ∀ w w', redisMachine.Reach (May lib group) w →
    redisMachine.Later (May lib group) w w' → F w → F w'

section Lasting

theorem lasting_of_moves {F : World → Prop}
    (hF : ∀ w w' L L' acc fin late, Accounted lib group w L →
      Moves lib group late w w' L L' acc fin → F w → F w') :
    Lasting lib group F := by
  intro w w' hw hlater
  refine Machine.Later.stable (P := F) ?_ hw hlater
  intro s op reply s' hs hFs hmay hexec
  obtain ⟨L, hL⟩ := reach_accounted hs
  obtain ⟨L', acc, fin, hmoves⟩ := exists_moves hL.represents hmay hexec
  exact hF s s' L L' acc fin _ hL hmoves hFs

theorem Lasting.and {F G : World → Prop} (hF : Lasting lib group F)
    (hG : Lasting lib group G) : Lasting lib group fun w => F w ∧ G w :=
  fun w w' hw hlater h => ⟨hF w w' hw hlater h.1, hG w w' hw hlater h.2⟩

theorem lasting_true : Lasting lib group fun _ => True :=
  fun _ _ _ _ _ => trivial

theorem lasting_handedOut (m : String) (fields : Fields) :
    Lasting lib group fun w => HandedOut group w.store m fields :=
  lasting_of_moves fun _ _ _ _ _ _ _ _ hmoves h => h.grows hmoves.grows

theorem lasting_held (e : UUID) (m : String) :
    Lasting lib group fun w => Held lib group w.store e m :=
  lasting_of_moves fun _ _ _ _ _ _ _ _ hmoves h => h.grows hmoves.grows

theorem lasting_malformed (m : String) :
    Lasting lib group fun w => Malformed lib group w.store m :=
  lasting_of_moves fun _ _ _ _ _ _ _ _ hmoves h => h.grows hmoves.grows

theorem lasting_succeeded (e : UUID) :
    Lasting lib group fun w => w.Succeeded e := by
  apply lasting_of_moves
  rintro w w' L L' acc fin late - hmoves ⟨event, hevent, he⟩
  exact ⟨event, hmoves.history.subset hevent, he⟩

/-- Attempts are never given back. -/
theorem Effect.attempts_le {parses : Fields → Prop} {late : Prop}
    {db db' : Store} {L L' : Ledger} {acc : Option UUID}
    {fin : Option (UUID × Ending)} {a : Account}
    (h : Effect parses late db db' L acc fin L') (ha : L e = some a) :
    ∃ a', L' e = some a' ∧ a.attempts ≤ a'.attempts := by
  cases h with
  | silent same => exact ⟨a, ha, le_rfl⟩
  | accept e' id fields fresh same =>
      have he : e ≠ e' := by
        rintro rfl
        rw [fresh] at ha
        exact absurd ha (by simp)
      exact ⟨a, by rw [Ledger.set_of_ne L _ he, ha], le_rfl⟩
  | advance e' b b' known move same =>
      by_cases he : e = e'
      · subst he
        rw [known] at ha
        obtain rfl := Option.some.inj ha
        exact ⟨b', Ledger.set_self L e b', move.attempts_le⟩
      · exact ⟨a, by rw [Ledger.set_of_ne L _ he, ha], le_rfl⟩
  | finish e' ending b b' known move recorded =>
      by_cases he : e = e'
      · subst he
        rw [known] at ha
        obtain rfl := Option.some.inj ha
        exact ⟨b', Ledger.set_self L e b', move.attempts_eq.ge⟩
      · exact ⟨a, by rw [Ledger.set_of_ne L _ he, ha], le_rfl⟩

theorem started_account {L : Ledger} {db : Store}
    (h : Represents (Parses lib) group db L) (hstarted : Started db e) :
    ∃ a, L e = some a := by
  obtain ⟨f, n, hkey, -, -⟩ := hstarted
  obtain ⟨e', a, htext, ha⟩ := h.status.known _ _ hkey
  rw [← UUID.text_injective htext] at ha
  exact ⟨a, ha⟩

theorem lasting_started (e : UUID) :
    Lasting lib group fun w => Started w.store e := by
  apply lasting_of_moves
  intro w w' L L' acc fin late hL hmoves hstarted
  obtain ⟨a, ha⟩ := started_account hL.represents hstarted
  obtain ⟨a', ha', hle⟩ := hmoves.effect.attempts_le ha
  rw [started_iff hmoves.represents ha']
  exact le_trans ((started_iff hL.represents ha).mp hstarted) hle

end Lasting

section Neutral

/-- Calls that are always permitted. -/
def Neutral : Op → Prop
  | .redis (.hgetall _) | .redis (.xrange _) | .redis .existsStream
  | .redis .xinfoGroups | .redis .xlen | .redis .xrangeFirst
  | .redis (.xpendingFirst _) | .redis (.xrangeAfter _)
  | .redis (.enqueue ..) | .redis (.idempotentEnqueue ..) => True
  | .redis _ => False
  | _ => True

theorem may_of_neutral (op : Op) (w : World) (h : Neutral op) :
    May lib group w op := by
  cases op with
  | redis call => cases call <;> trivial
  | _ => trivial

open ProgE

theorem neutral_metric (observers : Observers) (call : MetricCall) :
    CallsOnly Neutral (App.metric observers call) := by
  unfold App.metric
  split
  · split
    · exact callsOnly_perform trivial
    · exact callsOnly_throw _
  · exact callsOnly_pure _

theorem neutral_emit (observers : Observers) (call : LogCall) :
    CallsOnly Neutral (App.emit observers call) := by
  unfold App.emit
  split
  · split
    · exact callsOnly_perform trivial
    · exact callsOnly_throw _
  · exact callsOnly_pure _

variable (store : RedisEventStore) (worker : EventWorker)

theorem neutral_recordRedisFailure (operation : String)
    (eventId : Option UUID) :
    CallsOnly Neutral (store.recordRedisFailure operation eventId) :=
  callsOnly_bind (neutral_metric _ _) fun _ => neutral_emit _ _

theorem neutral_recordQueueQuarantine (reasonCode : String) :
    CallsOnly Neutral (store.recordQueueQuarantine reasonCode) :=
  callsOnly_bind (neutral_metric _ _) fun _ => neutral_emit _ _

theorem neutral_attempt {operation : String} {eventId : Option UUID}
    {call : RedisCall} (hcall : Neutral (.redis call)) :
    CallsOnly Neutral (store.attempt operation eventId call) := by
  refine callsOnly_bind (callsOnly_perform hcall) fun reply => ?_
  cases reply with
  | ok value => exact callsOnly_pure _
  | error err =>
      exact callsOnly_bind (neutral_recordRedisFailure store _ _)
        fun _ => callsOnly_throw _

theorem neutral_query {call : RedisCall} (hcall : Neutral (.redis call)) :
    CallsOnly Neutral (RedisEventStore.query call) := by
  refine callsOnly_bind (callsOnly_perform hcall) fun reply => ?_
  cases reply with
  | ok value => exact callsOnly_pure _
  | error err => exact callsOnly_throw _

theorem neutral_oldestPending (group : String) (info : GroupInfo) :
    CallsOnly Neutral (RedisEventStore.oldestPending group info) := by
  unfold RedisEventStore.oldestPending
  split
  · exact callsOnly_pure _
  · exact callsOnly_bind (neutral_query trivial) fun _ => callsOnly_pure _

theorem neutral_oldestUnread (info : GroupInfo) :
    CallsOnly Neutral (RedisEventStore.oldestUnread info) := by
  unfold RedisEventStore.oldestUnread
  split
  · exact callsOnly_pure _
  · exact callsOnly_bind (neutral_query trivial) fun _ => callsOnly_pure _

theorem neutral_queueSnapshot (group : String) :
    CallsOnly Neutral (RedisEventStore.queueSnapshot group) := by
  refine callsOnly_bind (neutral_query trivial) fun groups => ?_
  split
  · refine callsOnly_bind (neutral_query trivial) fun depth => ?_
    split
    · exact callsOnly_pure _
    · exact callsOnly_bind (neutral_query trivial) fun _ => callsOnly_pure _
  · exact callsOnly_bind (neutral_oldestPending _ _) fun _ =>
      callsOnly_bind (neutral_oldestUnread _) fun _ => callsOnly_pure _

theorem neutral_refreshQueueMetrics (group : String) :
    CallsOnly Neutral (store.refreshQueueMetrics group) := by
  unfold RedisEventStore.refreshQueueMetrics
  split
  · exact callsOnly_pure _
  · refine callsOnly_tryCatch ?_ fun _ =>
      callsOnly_bind (neutral_recordRedisFailure store _ _)
        fun _ => callsOnly_pure _
    refine callsOnly_bind (neutral_query trivial) fun present => ?_
    split
    · exact callsOnly_bind (neutral_metric _ _) fun _ => callsOnly_pure _
    · refine callsOnly_bind (neutral_queueSnapshot group) fun snapshot => ?_
      obtain ⟨depth, pending, oldest⟩ := snapshot
      dsimp only
      split
      · exact callsOnly_bind (neutral_metric _ _) fun _ => callsOnly_pure _
      · split
        · exact callsOnly_throw _
        · exact callsOnly_bind (callsOnly_perform trivial) fun _ =>
            callsOnly_bind (neutral_metric _ _) fun _ => callsOnly_pure _

theorem neutral_workerRefresh :
    CallsOnly Neutral worker.refreshQueueMetrics :=
  callsOnly_bind (neutral_refreshQueueMetrics _ _) fun _ => callsOnly_pure _

theorem neutral_finishObservation (queuedEvent : QueuedEvent)
    (attemptCount : ℤ) (outcome reasonCode status : String) (startedAt : ℚ)
    (event : LogEvent) (level : LogLevel) :
    CallsOnly Neutral (worker.finishObservation queuedEvent attemptCount
      outcome reasonCode status startedAt event level) := by
  refine callsOnly_bind (callsOnly_perform trivial) fun finishedAt => ?_
  exact callsOnly_bind (EventWorker.callsOnly_endToEndSeconds trivial _ _)
    fun endToEnd => callsOnly_bind (neutral_metric _ _) fun _ =>
      neutral_emit _ _

end Neutral

section Methods

open ProgE

variable {store : RedisEventStore} {α : Type}

theorem ensures_neutral {p : App α} {F : World → Prop}
    (hp : CallsOnly Neutral p) (hF : Lasting lib group F)
    (hw : redisMachine.Reach (May lib group) w) (h : F w) :
    Ensures (M := redisMachine) (May lib group) p (fun _ => F) w :=
  ensures_of_callsOnly hp (fun op s hop _ => may_of_neutral op s hop) hF hw h

/-- A neutral program in the middle of another one. -/
theorem Lasting.bind_neutral {β : Type} {p : App α} {f : α → App β}
    {F : World → Prop} {Q : β → World → Prop} (hF : Lasting lib group F)
    (hp : CallsOnly Neutral p) (hw : redisMachine.Reach (May lib group) w)
    (h : F w)
    (hf : ∀ a w', redisMachine.Reach (May lib group) w' → F w' →
      Ensures (M := redisMachine) (May lib group) (f a) Q w') :
    Ensures (M := redisMachine) (May lib group) (p >>= f) Q w :=
  Ensures.bind (ensures_neutral hp hF hw h) hf

/-- One call to the server: permitted when it is issued, and its value tells
what the script did. -/
theorem ensures_attempt {operation : String} {eventId : Option UUID}
    {call : RedisCall} {Q : call.Received → World → Prop}
    (hmay : ∀ w', redisMachine.Reach (May lib group) w' →
      redisMachine.Later (May lib group) w w' → May lib group w' (.redis call))
    (hQ : ∀ w' now value, redisMachine.Reach (May lib group) w' →
      redisMachine.Later (May lib group) w w' →
      redisMachine.Later (May lib group) w (w'.run call now) →
      (call.script now w'.store).1 = .ok value →
      Q (call.receive value) (w'.run call now))
    (hlasting : ∀ value, Lasting lib group (Q value)) :
    Ensures (M := redisMachine) (May lib group)
      (store.attempt operation eventId call) Q w := by
  have hreply : Ensures (M := redisMachine) (May lib group)
      (App.request (.redis call))
      (fun reply w' => ∀ value, reply = .ok value → Q value w') w := by
    apply ensures_perform
    · intro s hlater hreach
      exact hmay s hreach hlater
    · intro s hlater hreach reply t hexec t' hlater' _ value hvalue
      have hstep : redisMachine.Later (May lib group) s t :=
        Machine.Later.move (hmay s hreach hlater) hexec
      have ht := hreach.later hstep
      refine hlasting value t t' ht hlater' ?_
      cases hexec with
      | answered call now =>
          cases hresult : (call.script now s.store).1 with
          | ok v =>
              rw [hresult] at hvalue
              obtain rfl := Except.ok.inj hvalue
              exact hQ s now v hreach hlater (hlater.trans hstep) hresult
          | error message =>
              rw [hresult] at hvalue
              cases hvalue
      | replyLost call now => cases hvalue
      | requestLost call => cases hvalue
  refine Ensures.bind hreply fun reply w' hw' h => ?_
  cases reply with
  | ok value =>
      apply ensures_pure
      intro t hlater _
      exact hlasting value w' t hw' hlater (h value rfl)
  | error err =>
      exact lasting_true.bind_neutral (neutral_recordRedisFailure store _ _)
        hw' trivial fun _ _ _ _ => ensures_throw

theorem stream_of_entry {db : Store} {entry : Entry}
    (h : entry ∈ (streamAt db .events).entries) :
    db .events = some (.stream (streamAt db .events)) := by
  unfold streamAt at h ⊢
  split at h
  · assumption
  · exact absurd h (by simp [Stream.empty])

/-- `XRANGE` finds the message that was handed out. -/
theorem handedOut_of_xrange {db : Store} {fields fields' : Fields}
    {m' : String} (hout : HandedOut group db m fields)
    (hrange : (xrange .events m db).1 = .ok [(m', fields')]) :
    HandedOut group db m' fields' := by
  obtain ⟨entry, hentry, rfl, rfl, hcustody⟩ := hout
  rw [xrange_run (stream_of_entry hentry), Stream.find_eq_some_of_mem hentry]
    at hrange
  obtain ⟨rfl, rfl⟩ : entry.id.text = m' ∧ entry.fields = fields' := by
    simpa using hrange
  exact ⟨entry, hentry, rfl, rfl, hcustody⟩

theorem ensures_quarantine {reasonCode : String}
    (hw : redisMachine.Reach (May lib group) w)
    (hbad : Malformed lib group w.store m) :
    Ensures (M := redisMachine) (May lib group)
      (store.quarantineMalformedMessage m group reasonCode)
      (fun _ _ => True) w := by
  refine Ensures.bind (ensures_attempt (Q := fun _ _ => True) ?_
    (fun _ _ _ _ _ _ _ => trivial) fun _ => lasting_true) ?_
  · intro w' _ hlater
    exact ⟨rfl, lasting_malformed m w w' hw hlater hbad⟩
  · intro _ w' hw' _
    exact ensures_neutral (neutral_recordQueueQuarantine store reasonCode)
      lasting_true hw' trivial

/-- The message in hand, if there is one, is held. -/
def HeldMessage (lib : Stdlib) (group : String) (message : Option QueuedEvent)
    (w : World) : Prop :=
  ∀ queuedEvent, message = some queuedEvent →
    Held lib group w.store queuedEvent.eventId queuedEvent.streamId

theorem lasting_heldMessage (message : Option QueuedEvent) :
    Lasting lib group (HeldMessage lib group message) := by
  intro w w' hw hlater h queuedEvent hmessage
  exact lasting_held _ _ w w' hw hlater (h queuedEvent hmessage)

/-- The message in hand, if there is one, is what the entry that was handed
out parses to. -/
def TakenMessage (lib : Stdlib) (group : String)
    (message : Option QueuedEvent) (w : World) : Prop :=
  ∀ queuedEvent, message = some queuedEvent →
    ∃ fields, HandedOut group w.store queuedEvent.streamId fields ∧
      RedisEventStore.parseMessage lib queuedEvent.streamId fields =
        some queuedEvent

theorem lasting_takenMessage (message : Option QueuedEvent) :
    Lasting lib group (TakenMessage lib group message) := by
  intro w w' hw hlater h queuedEvent hmessage
  obtain ⟨fields, hout, hparse⟩ := h queuedEvent hmessage
  exact ⟨fields, lasting_handedOut _ _ w w' hw hlater hout, hparse⟩

theorem TakenMessage.held {message : Option QueuedEvent}
    (h : TakenMessage lib group message w) : HeldMessage lib group message w := by
  intro queuedEvent hmessage
  obtain ⟨fields, hout, hparse⟩ := h queuedEvent hmessage
  exact ⟨fields, queuedEvent, hout, hparse, rfl⟩

/-- What both ways to take a message do with one that was handed out. -/
theorem ensures_orQuarantine {fields : Fields} (hlib : store.lib = lib)
    (hw : redisMachine.Reach (May lib group) w)
    (hout : HandedOut group w.store m fields)
    {parsed : Except ParseError QueuedEvent}
    (hparsed : parsed.toOption =
      RedisEventStore.parseMessage store.lib m fields) :
    Ensures (M := redisMachine) (May lib group)
      (store.orQuarantine m group parsed) (TakenMessage lib group) w := by
  subst hlib
  rcases parsed with (_ | _) | queuedEvent
  · refine Ensures.bind (ensures_quarantine hw ⟨fields, hout, hparsed.symm⟩) ?_
    intro _ w' _ _
    apply ensures_pure
    rintro _ _ _ _ ⟨⟩
  · exact ensures_throw
  · have hparse : RedisEventStore.parseMessage store.lib m fields =
        some queuedEvent := hparsed.symm
    apply ensures_pure
    intro w' hlater _
    apply lasting_takenMessage _ w w' hw hlater
    rintro _ ⟨⟩
    obtain ⟨hid, -⟩ := parseMessage_spec hparse
    exact ⟨fields, hid ▸ hout, hid ▸ hparse⟩

theorem ensures_readNext (hlib : store.lib = lib) (consumer : String) :
    Ensures (M := redisMachine) (May lib group)
      (store.readNext group consumer) (TakenMessage lib group) w := by
  refine Ensures.bind (ensures_attempt
    (Q := fun value w => ∀ m fields, value = some (m, fields) →
      HandedOut group w.store m fields) (fun _ _ _ => rfl) ?_ ?_) ?_
  · rintro w' now value hw' - - hresult m fields rfl
    obtain ⟨L, hL⟩ := reach_accounted hw'
    exact (xreadgroup_simulated True hL.represents now consumer).2 m
      fields hresult
  · intro value w₁ w₂ hw₁ hlater h m fields hvalue
    exact lasting_handedOut m fields w₁ w₂ hw₁ hlater (h m fields hvalue)
  · intro value w' hw' h
    cases value with
    | none =>
        apply ensures_pure
        rintro _ _ _ _ ⟨⟩
    | some message =>
        obtain ⟨m, fields⟩ := message
        exact ensures_orQuarantine hlib hw' (h m fields rfl) rfl

theorem ensures_claimStalePending (hlib : store.lib = lib) (consumer : String)
    (minIdleMs : ℕ) :
    Ensures (M := redisMachine) (May lib group)
      (store.claimStalePending group consumer minIdleMs)
      (TakenMessage lib group) w := by
  refine Ensures.bind (ensures_attempt
    (Q := fun value w => ∀ m disposition, value = some (m, disposition) →
      disposition = .delivery ∧ ∃ fields, HandedOut group w.store m fields)
    (fun _ _ _ => rfl) ?_ ?_) ?_
  · rintro w' now value hw' - - hresult m disposition rfl
    obtain ⟨L, hL⟩ := reach_accounted hw'
    exact (claimStalePending_simulated True hL.represents now
      consumer minIdleMs).2 m disposition hresult
  · intro value w₁ w₂ hw₁ hlater h m disposition hvalue
    obtain ⟨hready, fields, hout⟩ := h m disposition hvalue
    exact ⟨hready, fields, lasting_handedOut m fields w₁ w₂ hw₁ hlater hout⟩
  · intro value w' hw' h
    cases value with
    | none =>
        apply ensures_pure
        rintro _ _ _ _ ⟨⟩
    | some claim =>
        obtain ⟨m, disposition⟩ := claim
        obtain ⟨rfl, fields, hout⟩ := h m disposition rfl
        refine Ensures.bind (ensures_attempt
          (Q := fun value w => ∀ m' fields', value = [(m', fields')] →
            HandedOut group w.store m' fields') (fun _ _ _ => trivial) ?_ ?_) ?_
        · rintro t now value ht hlater - hresult m' fields' rfl
          have hsame : (World.run t (.xrange m) now).store = t.store :=
            readOnly_xrange Key.events m (World.store t)
          rw [hsame]
          exact handedOut_of_xrange
            (lasting_handedOut m fields w' t hw' hlater hout) hresult
        · intro value w₁ w₂ hw₁ hlater h m' fields' hvalue
          exact lasting_handedOut m' fields' w₁ w₂ hw₁ hlater
            (h m' fields' hvalue)
        · intro value t ht hvalue
          split
          · next m' fields' =>
            rw [if_neg (by simp)]
            exact ensures_orQuarantine hlib ht (hvalue m' fields' rfl)
              (RedisEventStore.parseClaimed_toOption _ _ _)
          · exact lasting_true.bind_neutral
              (neutral_recordRedisFailure store _ _) ht trivial
              fun _ _ _ _ => ensures_throw

end Methods

section Worker

open ProgE

variable {worker : EventWorker} {queuedEvent : QueuedEvent}

/-- What a worker knows once it has started a delivery. -/
def Delivering (lib : Stdlib) (group : String) (queuedEvent : QueuedEvent)
    (w : World) : Prop :=
  Held lib group w.store queuedEvent.eventId queuedEvent.streamId ∧
    Started w.store queuedEvent.eventId

theorem lasting_delivering (queuedEvent : QueuedEvent) :
    Lasting lib group (Delivering lib group queuedEvent) :=
  (lasting_held _ _).and (lasting_started _)

theorem ensures_observingFailure {record : App Unit} {attemptCount : ℤ}
    {startedAt : ℚ}
    (hrecord : Ensures (M := redisMachine) (May lib group) record
      (fun _ _ => True) w) :
    Ensures (M := redisMachine) (May lib group)
      (worker.observingFailure queuedEvent attemptCount startedAt record)
      (fun _ _ => True) w := by
  refine Ensures.tryCatch hrecord (fun _ _ _ _ _ _ => trivial) ?_
  intro raised w' hw'
  have hneutral : CallsOnly Neutral (do
      if raised = .eventStoreUnavailable then
        worker.finishObservation queuedEvent attemptCount "failure"
          "redis_error" "delivering" startedAt .deliveryFailed .error
      throw raised : App Unit) := by
    dsimp only
    split
    · exact callsOnly_bind (neutral_finishObservation ..) fun _ =>
        callsOnly_throw _
    · exact callsOnly_throw _
  exact ensures_neutral hneutral lasting_true hw' trivial

/-- The observations at the end of an iteration. -/
theorem ensures_wrapUp {α : Type} {p : App Unit} {result : α}
    (hp : CallsOnly Neutral p)
    (hw : redisMachine.Reach (May lib group) w) :
    Ensures (M := redisMachine) (May lib group)
      (do p; worker.refreshQueueMetrics; return result)
      (fun _ _ => True) w :=
  ensures_neutral (callsOnly_bind hp fun _ =>
    callsOnly_bind (neutral_workerRefresh worker) fun _ => callsOnly_pure _)
    lasting_true hw trivial

theorem ensures_afterSuccess {attemptCount : ℤ} {startedAt : ℚ}
    (hgroup : worker.group = group)
    (hw : redisMachine.Reach (May lib group) w)
    (hheld : Held lib group w.store queuedEvent.eventId queuedEvent.streamId)
    (hsuccess : w.Succeeded queuedEvent.eventId) :
    Ensures (M := redisMachine) (May lib group)
      (worker.afterSuccess queuedEvent attemptCount startedAt)
      (fun _ _ => True) w := by
  refine Ensures.bind (ensures_observingFailure ?_) ?_
  · refine Ensures.bind (ensures_attempt (Q := fun _ _ => True) ?_
      (fun _ _ _ _ _ _ _ => trivial) fun _ => lasting_true)
      fun _ _ _ _ => ensures_pure fun _ _ _ => trivial
    intro w' _ hlater
    exact ⟨hgroup, lasting_held _ _ w w' hw hlater hheld,
      lasting_succeeded _ w w' hw hlater hsuccess⟩
  · intro _ w' hw' _
    exact ensures_wrapUp (neutral_finishObservation ..) hw'

theorem ensures_deadLetter {attemptCount : ℤ} {startedAt : ℚ}
    {errorClass : DeliveryErrorClass} (hgroup : worker.group = group) :
    Ensures (M := redisMachine) (May lib group)
      (worker.deadLetter queuedEvent attemptCount startedAt errorClass)
      (fun _ _ => True) w := by
  refine Ensures.bind (ensures_observingFailure ?_) ?_
  · exact Ensures.bind (ensures_attempt (Q := fun _ _ => True)
      (fun _ _ _ => hgroup) (fun _ _ _ _ _ _ _ => trivial)
      fun _ => lasting_true) fun _ _ _ _ => ensures_pure fun _ _ _ => trivial
  · intro _ w' hw' _
    refine lasting_true.bind_neutral (neutral_metric _ _) hw' trivial ?_
    intro _ t ht _
    exact ensures_wrapUp (neutral_finishObservation ..) ht

theorem ensures_retry {attemptCount : ℤ} {startedAt : ℚ}
    {policy : RetryPolicy} {errorClass : DeliveryErrorClass}
    (hw : redisMachine.Reach (May lib group) w)
    (h : Delivering lib group queuedEvent w) :
    Ensures (M := redisMachine) (May lib group)
      (worker.retry queuedEvent attemptCount startedAt policy errorClass)
      (fun _ _ => True) w := by
  refine (lasting_delivering queuedEvent).bind_neutral
    (callsOnly_perform trivial) hw h fun multiplier w₁ hw₁ h₁ => ?_
  split
  · exact ensures_throw
  · refine (lasting_delivering queuedEvent).bind_neutral
      (callsOnly_perform trivial) hw₁ h₁ fun now w₂ hw₂ h₂ => ?_
    split
    · exact ensures_throw
    · refine Ensures.bind (ensures_observingFailure ?_) ?_
      · refine Ensures.bind (ensures_attempt (Q := fun _ _ => True) ?_
          (fun _ _ _ _ _ _ _ => trivial) fun _ => lasting_true)
          fun _ _ _ _ => ensures_pure fun _ _ _ => trivial
        intro w' _ hlater
        exact lasting_delivering queuedEvent w₂ w' hw₂ hlater h₂
      · intro _ w' hw' _
        refine lasting_true.bind_neutral (neutral_metric _ _) hw' trivial ?_
        intro _ t ht _
        exact ensures_wrapUp (neutral_finishObservation ..) ht

theorem neutral_shouldDeadLetter (errorClass : DeliveryErrorClass)
    (attemptCount : ℤ) :
    CallsOnly Neutral (worker.shouldDeadLetter errorClass attemptCount) := by
  unfold EventWorker.shouldDeadLetter
  split
  · exact callsOnly_pure _
  · split
    · exact callsOnly_throw _
    · exact callsOnly_pure _

theorem ensures_afterFailure {attemptCount : ℤ} {startedAt : ℚ}
    {errorClass : DeliveryErrorClass} (hgroup : worker.group = group)
    (hw : redisMachine.Reach (May lib group) w)
    (h : Delivering lib group queuedEvent w) :
    Ensures (M := redisMachine) (May lib group)
      (worker.afterFailure queuedEvent attemptCount startedAt errorClass)
      (fun _ _ => True) w := by
  refine (lasting_delivering queuedEvent).bind_neutral
    (neutral_shouldDeadLetter errorClass attemptCount) hw h ?_
  intro decision w' hw' h'
  have hpending : Ensures (M := redisMachine) (May lib group)
      (worker.leavePending queuedEvent attemptCount startedAt errorClass)
      (fun _ _ => True) w' :=
    ensures_wrapUp (neutral_finishObservation ..) hw'
  split
  · exact ensures_deadLetter hgroup
  · split
    · split
      · exact ensures_retry hw' h'
      · exact hpending
    · exact hpending

theorem ensures_markDeliveryStarted {store : RedisEventStore}
    (hw : redisMachine.Reach (May lib group) w)
    (h : Held lib group w.store queuedEvent.eventId queuedEvent.streamId) :
    Ensures (M := redisMachine) (May lib group)
      (store.markDeliveryStarted queuedEvent)
      (fun _ => Delivering lib group queuedEvent) w := by
  apply ensures_attempt
  · intro w' _ hlater
    exact lasting_held _ _ w w' hw hlater h
  · intro w' now value hw' hlater hrun hresult
    refine ⟨lasting_held _ _ w _ hw hrun h, ?_⟩
    obtain ⟨L, hL⟩ := reach_accounted hw'
    obtain ⟨a, ha, hparses, hheld⟩ :=
      (lasting_held _ _ w w' hw hlater h).account hL.represents
    exact (startDelivery_simulated hL.represents ha hparses hheld
      fun _ _ => trivial).2 value hresult
  · exact fun _ => lasting_delivering queuedEvent

theorem ensures_deliverMessage (hgroup : worker.group = group)
    (hw : redisMachine.Reach (May lib group) w)
    (h : Held lib group w.store queuedEvent.eventId queuedEvent.streamId) :
    Ensures (M := redisMachine) (May lib group)
      (worker.deliverMessage queuedEvent) (fun _ _ => True) w := by
  have hlast : Lasting lib group (Delivering lib group queuedEvent) :=
    lasting_delivering queuedEvent
  refine Ensures.bind (ensures_markDeliveryStarted hw h) ?_
  intro attemptCount w₁ hw₁ h₁
  refine hlast.bind_neutral (callsOnly_perform trivial) hw₁ h₁ ?_
  intro startedAt w₂ hw₂ h₂
  refine hlast.bind_neutral (neutral_metric _ _) hw₂ h₂ fun _ w₃ hw₃ h₃ => ?_
  refine hlast.bind_neutral (neutral_emit _ _) hw₃ h₃ fun _ w₄ hw₄ h₄ => ?_
  have hsink : Ensures (M := redisMachine) (May lib group)
      (App.request (.deliver queuedEvent))
      (fun reply w' => Delivering lib group queuedEvent w' ∧
        (reply = .success → World.Succeeded w' queuedEvent.eventId)) w₄ := by
    apply ensures_perform
    · exact fun _ _ _ => trivial
    · intro s hlater hs reply t hexec t' hlater' ht'
      have hmay : May lib group s (.deliver queuedEvent) := trivial
      have hstep : redisMachine.Later (May lib group) s t :=
        Machine.Later.move hmay hexec
      refine ⟨hlast w₄ t' hw₄ ((hlater.trans hstep).trans hlater') h₄, ?_⟩
      intro hreply
      cases hexec with
      | delivered event reply =>
          apply lasting_succeeded _ _ t' (hs.later hstep) hlater'
          refine ⟨queuedEvent, ?_, rfl⟩
          rw [← hreply]
          exact List.mem_append_right _ List.mem_cons_self
  refine Ensures.bind hsink fun reply w₅ hw₅ h₅ => ?_
  cases reply with
  | success => exact ensures_afterSuccess hgroup hw₅ h₅.1.1 (h₅.2 rfl)
  | failed errorClass => exact ensures_afterFailure hgroup hw₅ h₅.1
  | raised =>
      exact lasting_true.bind_neutral (neutral_finishObservation ..) hw₅
        trivial fun _ _ _ _ => ensures_throw

theorem ensures_ensureConsumerGroup {store : RedisEventStore} :
    Ensures (M := redisMachine) (May lib group)
      (store.ensureConsumerGroup group) (fun _ _ => True) w := by
  refine Ensures.bind (ensures_perform (fun _ _ _ => rfl)
    fun _ _ _ _ _ _ _ _ _ => trivial) ?_
  intro reply w' hw' _
  have hfail : Ensures (M := redisMachine) (May lib group)
      (do store.recordRedisFailure "ensure_consumer_group" none
          throw Raised.eventStoreUnavailable) (fun (_ : Unit) _ => True) w' :=
    lasting_true.bind_neutral (neutral_recordRedisFailure store _ _) hw'
      trivial fun _ _ _ _ => ensures_throw
  split
  · exact ensures_pure fun _ _ _ => trivial
  · split
    · exact ensures_pure fun _ _ _ => trivial
    · exact hfail
  · exact hfail

theorem ensures_releaseDueRetry {store : RedisEventStore} {nowMs : ℤ} :
    Ensures (M := redisMachine) (May lib group)
      (store.releaseDueRetry group nowMs) (fun _ _ => True) w := by
  refine Ensures.bind (ensures_attempt (Q := fun _ _ => True)
    (fun _ _ _ => rfl) (fun _ _ _ _ _ _ _ => trivial)
    fun _ => lasting_true) ?_
  intro released w' hw' _
  split
  · exact lasting_true.bind_neutral (neutral_recordQueueQuarantine store _) hw'
      trivial fun _ _ _ _ => ensures_pure fun _ _ _ => trivial
  · exact ensures_pure fun _ _ _ => trivial

theorem ensures_takeMessage (hgroup : worker.group = group)
    (hlib : worker.store.lib = lib)
    (hw : redisMachine.Reach (May lib group) w) :
    Ensures (M := redisMachine) (May lib group) worker.takeMessage
      (HeldMessage lib group) w := by
  subst hgroup
  refine Ensures.bind (ensures_claimStalePending hlib _ _) ?_
  intro message w' hw' h
  cases message with
  | none =>
      exact (ensures_readNext hlib _).mono fun _ _ _ htaken => htaken.held
  | some queuedEvent =>
      apply ensures_pure
      intro t hlater _
      exact lasting_heldMessage _ w' t hw' hlater h.held

theorem ensures_runOnce (hgroup : worker.group = group)
    (hlib : worker.store.lib = lib) :
    Ensures (M := redisMachine) (May lib group) worker.runOnce
      (fun _ _ => True) w := by
  subst hgroup
  refine Ensures.bind ensures_ensureConsumerGroup fun _ w₁ hw₁ _ => ?_
  refine lasting_true.bind_neutral (callsOnly_perform trivial) hw₁ trivial ?_
  intro now w₂ hw₂ _
  refine Ensures.bind ensures_releaseDueRetry fun _ w₃ hw₃ _ => ?_
  refine Ensures.bind (ensures_takeMessage rfl hlib hw₃) fun message w₄ hw₄ h => ?_
  cases message with
  | none =>
      exact lasting_true.bind_neutral (neutral_workerRefresh worker) hw₄
        trivial fun _ _ _ _ => ensures_pure fun _ _ _ => trivial
  | some queuedEvent =>
      exact ensures_deliverMessage rfl hw₄ (h queuedEvent rfl)

end Worker

section Api

open ProgE

variable (store : RedisEventStore) (observers : Observers)

theorem neutral_enqueue (eventId : UUID) (event : EventRequest) :
    CallsOnly Neutral (store.enqueue eventId event) :=
  callsOnly_bind (callsOnly_bind (callsOnly_perform trivial)
    fun _ => callsOnly_pure _) fun _ =>
      callsOnly_bind (neutral_attempt store trivial) fun _ => callsOnly_pure _

/-- What follows the script of `enqueue_idempotent` at most records a failure
of Redis. -/
theorem callsOnly_readIdempotent {P : Op → Prop} {eventId : UUID}
    (hfailure : CallsOnly P
      (store.recordRedisFailure "enqueue_idempotent" eventId))
    (result : ServerReply) :
    CallsOnly P (store.readIdempotent eventId result) := by
  have hfailed : CallsOnly P (do
      store.recordRedisFailure "enqueue_idempotent" eventId
      throw .eventStoreUnavailable : App UUID) :=
    callsOnly_bind hfailure fun _ => callsOnly_throw _
  unfold RedisEventStore.readIdempotent
  split
  · exact callsOnly_throw _
  · unfold RedisEventStore.decideIdempotent
    split
    case h_2 | h_3 =>
      split
      · exact callsOnly_pure _
      · exact hfailed
    all_goals exact callsOnly_throw _

theorem neutral_enqueueIdempotent (eventId : UUID) (event : EventRequest)
    (idempotencyKey : String) :
    CallsOnly Neutral
      (store.enqueueIdempotent eventId event idempotencyKey) := by
  refine callsOnly_bind (callsOnly_bind (callsOnly_perform trivial)
    fun _ => callsOnly_pure _) fun acceptedAt =>
      callsOnly_bind (neutral_attempt store trivial) fun result =>
        callsOnly_readIdempotent store (neutral_recordRedisFailure store _ _)
          result

theorem neutral_acceptEvent (event : EventRequest)
    (idempotencyKey : Option String) :
    CallsOnly Neutral (acceptEvent store observers event idempotencyKey) := by
  refine callsOnly_bind (callsOnly_perform trivial) fun eventId => ?_
  refine callsOnly_bind (callsOnly_tryCatch ?_ fun raised => ?_) fun _ =>
    callsOnly_bind (neutral_metric _ _) fun _ =>
      callsOnly_bind (neutral_emit _ _) fun _ => callsOnly_pure _
  · cases idempotencyKey with
    | none =>
        exact callsOnly_bind (neutral_enqueue store _ _) fun _ =>
          callsOnly_pure _
    | some key => exact neutral_enqueueIdempotent store _ _ _
  · dsimp only
    split
    · exact callsOnly_bind (neutral_metric _ _) fun _ => callsOnly_throw _
    · split
      · exact callsOnly_bind (neutral_metric _ _) fun _ => callsOnly_throw _
      · exact callsOnly_throw _

theorem neutral_getStatus (eventId : UUID) :
    CallsOnly Neutral (store.getStatus eventId) := by
  refine callsOnly_bind (neutral_attempt store trivial) fun record => ?_
  have hfail : CallsOnly Neutral
      (do store.recordRedisFailure "get_status" eventId
          throw .eventStoreUnavailable :
        App (Option RedisEventStore.EventStatusRecord)) :=
    callsOnly_bind (neutral_recordRedisFailure store _ _)
      fun _ => callsOnly_throw _
  split
  · exact callsOnly_pure _
  · split
    · exact hfail
    · split
      · exact hfail
      · exact callsOnly_pure _

theorem neutral_getEventStatus (eventId : UUID) :
    CallsOnly Neutral (getEventStatus store observers eventId) := by
  refine callsOnly_bind (neutral_getStatus store eventId) fun record => ?_
  cases record with
  | none => exact callsOnly_throw _
  | some record =>
      exact callsOnly_bind (neutral_emit _ _) fun _ => callsOnly_pure _

end Api

/-- Every request of the Redis backend keeps the discipline. -/
theorem redisService_disciplined (lib : Stdlib) (group : String) :
    Service.Disciplined (S := redisService lib group) (May lib group)
      fun _ _ _ => True := by
  intro request w hw henabled
  have hneutral : ∀ {α : Type} {p : App α}, ProgE.CallsOnly Neutral p →
      p.run.Ensures (M := redisMachine) (May lib group)
        (fun _ _ => True) w := by
    intro α p hp
    exact Prog.ensures_of_callsOnly hp.run
      (fun op s hop _ => may_of_neutral op s hop) lasting_true hw trivial
  cases request with
  | acceptEvent store observers event key =>
      exact hneutral (neutral_acceptEvent store observers event key)
  | enqueue store eventId event =>
      exact hneutral (neutral_enqueue store eventId event)
  | enqueueIdempotent store eventId event key =>
      exact hneutral (neutral_enqueueIdempotent store eventId event key)
  | getEventStatus store observers eventId =>
      exact hneutral (neutral_getEventStatus store observers eventId)
  | runOnce worker =>
      exact Prog.Ensures.mono (ensures_runOnce henabled.1 henabled.2)
        fun _ _ _ _ => trivial

end Hooklane
