import Hooklane.Domain.Reordering
import Hooklane.Queue.Guarantees
import Hooklane.Queue.Idempotency

/-!
# Idempotent acceptance

Any number of clients send requests under the same Idempotency-Key, lose
replies and try again.  They all learn of one event, and a request with other
content is refused.
-/

namespace Hooklane

open Redis Support ProgE

variable {lib : Stdlib} {group : String} {w w' : World} {e : UUID}
  {digest : String}

section Origin

/-- An idempotent enqueue is sent for a request that Python can build. -/
def Op.Requested (lib : Stdlib) : Op → Prop
  | .redis (.idempotentEnqueue _ _ eventType payload fingerprint _) =>
      ∃ event : EventRequest, event.WellFormed ∧ eventType = event.eventType ∧
        payload = event.payloadJson ∧ fingerprint = event.fingerprint lib
  | _ => True

theorem requested_of_work (op : Op) (h : op.Work) : op.Requested lib := by
  cases op with
  | redis call => cases call <;> trivial
  | _ => trivial

/-- The answer was given to a request that Python can build. -/
def KeyAnswer.Requested (lib : Stdlib) (a : KeyAnswer) : Prop :=
  ∃ event : EventRequest, event.WellFormed ∧ a.eventType = event.eventType ∧
    a.payload = event.payloadJson ∧ a.fingerprint = event.fingerprint lib

theorem reach_requested
    (h : redisMachine.Reach
      (fun w op => May lib group w op ∧ op.Requested lib) w)
    (digest : String) : ∀ a ∈ w.keyAnswers digest, a.Requested lib := by
  refine reach_invariant (G := fun _ op => op.Requested lib)
    (I := fun w => ∀ a ∈ w.keyAnswers digest, a.Requested lib) ?_ ?_ ?_ h
  · simp [World.keyAnswers, World.initial]
  · intro w event reply hw
    rw [keyAnswers_deliver]
    exact hw
  · intro w L call now _ _ hcall hw a ha
    rw [keyAnswers_run, List.mem_append, Option.mem_toList] at ha
    rcases ha with hold | hnew
    · exact hw a hold
    · obtain rfl := call_of_keyAnswer hnew
      exact hcall

variable (store : RedisEventStore)

theorem requested_attempt {operation : String} {eventId : Option UUID}
    {call : RedisCall} (hcall : Op.Requested lib (.redis call)) :
    CallsOnly (Op.Requested lib) (store.attempt operation eventId call) :=
  callsOnly_attempt (fun _ => trivial) (fun _ => trivial) store hcall

theorem requested_metric (observers : Observers) (call : MetricCall) :
    CallsOnly (Op.Requested lib) (App.metric observers call) :=
  callsOnly_metric (fun _ => trivial) observers call

theorem requested_enqueue (eventId : UUID) (event : EventRequest) :
    CallsOnly (Op.Requested lib) (store.enqueue eventId event) :=
  callsOnly_bind (callsOnly_bind (callsOnly_perform trivial)
    fun _ => callsOnly_pure _) fun _ =>
      callsOnly_bind (requested_attempt store trivial) fun _ =>
        callsOnly_pure _

theorem requested_enqueueIdempotent (hlib : store.lib = lib)
    (eventId : UUID) {event : EventRequest} (hevent : event.WellFormed)
    (key : String) :
    CallsOnly (Op.Requested lib)
      (store.enqueueIdempotent eventId event key) := by
  refine callsOnly_bind (callsOnly_bind (callsOnly_perform trivial)
    fun _ => callsOnly_pure _) fun acceptedAt => ?_
  have hcall : Op.Requested lib (.redis (.idempotentEnqueue eventId
      (store.lib.sha256 key) event.eventType event.payloadJson
      (event.fingerprint store.lib) acceptedAt)) :=
    ⟨event, hevent, rfl, rfl, by rw [hlib]⟩
  exact callsOnly_bind (requested_attempt store hcall) fun result =>
    callsOnly_readIdempotent store (callsOnly_recordRedisFailure
      (fun _ => trivial) (fun _ => trivial) store _ _) result

/-- The requests under a key share the standard library, and Python can build
their payloads. -/
def Posed (lib : Stdlib) : Request → Prop
  | .acceptEvent store _ event (some _) | .enqueueIdempotent store _ event _ =>
      store.lib = lib ∧ event.WellFormed
  | _ => True

theorem requested_acceptEvent (observers : Observers) {event : EventRequest}
    {key : Option String}
    (hposed : Posed lib (.acceptEvent store observers event key)) :
    CallsOnly (Op.Requested lib) (acceptEvent store observers event key) := by
  refine callsOnly_bind (callsOnly_perform trivial) fun eventId => ?_
  refine callsOnly_bind (callsOnly_tryCatch ?_ fun raised => ?_) fun _ =>
    callsOnly_bind (requested_metric _ _) fun _ =>
      callsOnly_bind (callsOnly_emit (fun _ => trivial) _ _) fun _ =>
        callsOnly_pure _
  · cases key with
    | none =>
        exact callsOnly_bind (requested_enqueue store _ _) fun _ =>
          callsOnly_pure _
    | some key =>
        exact requested_enqueueIdempotent store hposed.1 _ hposed.2 _
  · dsimp only
    split
    · exact callsOnly_bind (requested_metric _ _) fun _ => callsOnly_throw _
    · split
      · exact callsOnly_bind (requested_metric _ _) fun _ => callsOnly_throw _
      · exact callsOnly_throw _

/-- Every request asks for enqueues of what it was given. -/
theorem requested_body {request : Request} (hposed : Posed lib request) :
    request.body.CallsOnly (Op.Requested lib) := by
  cases request with
  | acceptEvent store observers event key =>
      exact (requested_acceptEvent store observers hposed).run
  | enqueue store eventId event =>
      exact (requested_enqueue store eventId event).run
  | enqueueIdempotent store eventId event key =>
      exact (requested_enqueueIdempotent store hposed.1 eventId hposed.2
        key).run
  | getEventStatus store observers eventId =>
      exact ((work_getEventStatus store observers eventId).mono
        requested_of_work).run
  | runOnce worker => exact (work_runOnce.mono requested_of_work).run

end Origin

section Outcome

variable {α : Type} {P : Except Raised α → Prop} {F : World → Prop}

/-- Where only neutral calls are made, the ending is read off the program. -/
theorem outcome_neutral {p : App α} (hp : CallsOnly Neutral p)
    (hy : Yields P p) (hF : Lasting lib group F)
    (hw : redisMachine.Reach (May lib group) w) (h : F w) :
    EnsuresOutcome (M := redisMachine) (May lib group) p
      (fun r w' => P r ∧ F w') w :=
  (Prog.ensures_of_callsOnly hp.run
    (fun op s hop _ => may_of_neutral op s hop) hF hw h).and_yields hy

theorem yields_metric {observers : Observers} {call : MetricCall}
    (hcall : call.accepted = true) :
    Yields (fun r => r = .ok ()) (App.metric observers call) := by
  unfold App.metric
  rw [if_pos hcall]
  split
  · exact fun _ => rfl
  · exact yields_pure rfl

theorem yields_emit {observers : Observers} {call : LogCall}
    (hcall : call.accepted = true) :
    Yields (fun r => r = .ok ()) (App.emit observers call) := by
  unfold App.emit
  rw [if_pos hcall]
  split
  · exact fun _ => rfl
  · exact yields_pure rfl

variable (store : RedisEventStore)

theorem yields_recordRedisFailure {operation : String} {eventId : Option UUID}
    (hoperation : redisOperations.contains operation) :
    Yields (fun r => r = .ok ())
      (store.recordRedisFailure operation eventId) := by
  have hmetric : (MetricCall.recordRedisFailure operation).accepted = true :=
    hoperation
  exact (yields_metric hmetric).bind (fun _ _ => yields_emit rfl) fun _ h => h

/-- A failed call raises nothing else. -/
theorem yields_attempt {operation : String} {eventId : Option UUID}
    {call : RedisCall} (hoperation : redisOperations.contains operation) :
    Yields (fun r => ∀ raised, r = .error raised →
        raised = .eventStoreUnavailable)
      (store.attempt operation eventId call) := by
  refine yields_perform.bind (fun reply _ => ?_) fun raised h => ?_
  · cases reply with
    | ok value => exact yields_pure fun raised h => by cases h
    | error err =>
        refine (yields_recordRedisFailure store hoperation).bind
          (fun _ _ => yields_throw ?_) fun raised h => ?_
        · intro raised h
          exact (Except.error.inj h).symm
        · cases h
  · obtain ⟨reply, h⟩ := h
    cases h

/-- How a call under a key ends: with the stored id, or refused, as an answer
under the key says, or without knowing. -/
def KeyOutcome (event : EventRequest) (key : String)
    (r : Except Raised UUID) (w : World) : Prop :=
  match r with
  | .ok id => ∃ a ∈ w.keyAnswers (store.lib.sha256 key),
      a.fingerprint = event.fingerprint store.lib ∧ a.decision ≠ .conflict ∧
      UUID.parse a.storedId = some id
  | .error .idempotencyConflict => ∃ a ∈ w.keyAnswers (store.lib.sha256 key),
      a.fingerprint = event.fingerprint store.lib ∧ a.decision = .conflict
  | .error raised => raised = .eventStoreUnavailable

/-- Answers stay in the history. -/
theorem lasting_keyAnswers (P : KeyAnswer → Prop) :
    Lasting lib group fun w => ∃ a ∈ w.keyAnswers digest, P a := by
  apply lasting_of_moves
  rintro w w' L L' acc fin late - hmoves ⟨a, ha, hP⟩
  exact ⟨a, (hmoves.history.filterMap _).subset ha, hP⟩

variable {store}

theorem lasting_keyOutcome (event : EventRequest) (key : String)
    (r : Except Raised UUID) :
    Lasting lib group (KeyOutcome store event key r) := by
  cases r with
  | ok id => exact lasting_keyAnswers _
  | error raised =>
      cases raised with
      | idempotencyConflict => exact lasting_keyAnswers _
      | _ => exact fun _ _ _ _ h => h

variable {eventId : UUID} {event : EventRequest} {key : String}

theorem outcome_acceptedAt (hw : redisMachine.Reach (May lib group) w) :
    EnsuresOutcome (M := redisMachine) (May lib group)
      RedisEventStore.acceptedAt
      (fun r _ => (∃ text, r = .ok text) ∧ True) w := by
  refine outcome_neutral (callsOnly_bind (callsOnly_perform trivial)
    fun _ => callsOnly_pure _) ?_ lasting_true hw trivial
  exact fun now => ⟨_, rfl⟩

theorem outcome_enqueueIdempotent
    (hw : redisMachine.Reach (May lib group) w) :
    EnsuresOutcome (M := redisMachine) (May lib group)
      (store.enqueueIdempotent eventId event key) (KeyOutcome store event key)
      w := by
  have hlasting : ∀ raised, Machine.Stable (M := redisMachine)
      (May lib group) (KeyOutcome store event key (.error raised)) :=
    fun raised => lasting_keyOutcome event key _
  refine EnsuresOutcome.bind (outcome_acceptedAt hw) (fun acceptedAt w₁ hw₁ _ => ?_)
    (fun raised _ _ h => by obtain ⟨⟨_, h⟩, -⟩ := h; cases h) hlasting
  -- What the server answered is in the history.
  have hattempt : Ensures (M := redisMachine) (May lib group)
      (store.attempt "enqueue_idempotent" eventId (.idempotentEnqueue eventId
        (store.lib.sha256 key) event.eventType event.payloadJson
        (event.fingerprint store.lib) acceptedAt))
      (fun value w' => ∃ a ∈ w'.keyAnswers (store.lib.sha256 key),
        a.fingerprint = event.fingerprint store.lib ∧
        value = .array [.text a.decision.text, .text a.storedId]) w₁ := by
    refine ensures_attempt (fun _ _ _ => trivial) ?_
      fun value => lasting_keyAnswers _
    intro w' now value _ _ _ hvalue
    refine ⟨⟨value.1, value.2, eventId, event.eventType, event.payloadJson,
      event.fingerprint store.lib, acceptedAt⟩, ?_, rfl, rfl⟩
    rw [keyAnswers_run, hvalue]
    exact List.mem_append_right _ (by simp [keyAnswer])
  refine EnsuresOutcome.bind
    (hattempt.and_yields (yields_attempt store (by decide)))
    (fun value w₂ hw₂ h => ?_) (fun raised w₂ _ h => ?_) hlasting
  · obtain ⟨-, h⟩ := h
    obtain ⟨a, ha, hfingerprint, rfl⟩ := h value rfl
    rw [RedisEventStore.readIdempotent_answer]
    split
    · next hconflict =>
      exact ensuresOutcome_throw hw₂ (hlasting _)
        ⟨a, ha, hfingerprint, hconflict⟩
    · next hdecision =>
      split
      · next id hid =>
        exact ensuresOutcome_pure hw₂ (lasting_keyOutcome event key _)
          ⟨a, ha, hfingerprint, hdecision, hid⟩
      · refine EnsuresOutcome.bind (outcome_neutral
          (neutral_recordRedisFailure store _ _)
          (yields_recordRedisFailure store (by decide)) lasting_true hw₂
          trivial) (fun _ w₃ hw₃ _ => ?_)
          (fun raised _ _ h => by cases h.1) hlasting
        exact ensuresOutcome_throw hw₃ (hlasting _) rfl
  · obtain rfl := h.1 raised rfl
    rfl

/-- The route ends as the store does. -/
theorem outcome_acceptEvent {observers : Observers}
    (hw : redisMachine.Reach (May lib group) w) :
    EnsuresOutcome (M := redisMachine) (May lib group)
      (acceptEvent store observers event (some key))
      (KeyOutcome store event key) w := by
  have hlasting : ∀ r, Machine.Stable (M := redisMachine) (May lib group)
      (KeyOutcome store event key r) := lasting_keyOutcome event key
  have huuid : EnsuresOutcome (M := redisMachine) (May lib group)
      (App.request .uuid4) (fun r _ => (∃ id, r = .ok id) ∧ True) w :=
    outcome_neutral (callsOnly_perform trivial) yields_perform lasting_true hw
      trivial
  refine EnsuresOutcome.bind huuid (fun eventId w₁ hw₁ _ => ?_)
    (fun raised _ _ h => by obtain ⟨⟨_, h⟩, -⟩ := h; cases h)
    fun raised => hlasting _
  refine EnsuresOutcome.bind (Q := KeyOutcome store event key)
    (EnsuresOutcome.tryCatch (outcome_enqueueIdempotent hw₁)
      (fun _ _ _ h => h) (fun raised w₂ hw₂ h => ?_) fun id => hlasting _)
    (fun id w₂ hw₂ h => ?_) (fun _ _ _ h => h) fun raised => hlasting _
  · -- The handler observes the failure and raises it again.
    have hagain : ∀ call : MetricCall, call.accepted = true →
        EnsuresOutcome (M := redisMachine) (May lib group)
          (do App.metric observers call
              throw raised : App UUID) (KeyOutcome store event key) w₂ := by
      intro call hcall
      refine EnsuresOutcome.bind (outcome_neutral (neutral_metric observers _)
        (yields_metric hcall) (hlasting _) hw₂ h)
        (fun _ w₃ hw₃ h₃ => ensuresOutcome_throw hw₃ (hlasting _) h₃.2)
        (fun _ _ _ h => by cases h.1) fun raised => hlasting _
    dsimp only
    split
    · exact hagain _ rfl
    · split
      · exact hagain _ rfl
      · exact ensuresOutcome_throw hw₂ (hlasting _) h
  · refine EnsuresOutcome.bind (outcome_neutral (neutral_metric observers _)
      (yields_metric rfl) (hlasting _) hw₂ h) (fun _ w₃ hw₃ h₃ => ?_)
      (fun _ _ _ h => by cases h.1) fun raised => hlasting _
    refine EnsuresOutcome.bind (outcome_neutral (neutral_emit observers _)
      (yields_emit rfl) (hlasting _) hw₃ h₃.2) (fun _ w₄ hw₄ h₄ => ?_)
      (fun _ _ _ h => by cases h.1) fun raised => hlasting _
    exact ensuresOutcome_pure hw₄ (hlasting _) h₄.2

/-- What a finished request says about the answers under its key. -/
def Answered : (request : Request) → request.Result → World → Prop
  | .acceptEvent store _ event (some key), r, w => KeyOutcome store event key r w
  | .enqueueIdempotent store _ event key, r, w => KeyOutcome store event key r w
  | _, _, _ => True

theorem redisService_answered (lib : Stdlib) (group : String) :
    Service.Disciplined (S := redisService lib group) (May lib group)
      Answered := by
  intro request w hw henabled
  have hplain := redisService_disciplined lib group request w hw henabled
  cases request with
  | acceptEvent store observers event key =>
      cases key with
      | none => exact hplain
      | some key => exact outcome_acceptEvent hw
  | enqueueIdempotent store eventId event key =>
      exact outcome_enqueueIdempotent hw
  | _ => exact hplain

end Outcome

section Statement

/-- A finished call under a key, with its request and the way it ended. -/
inductive Returned (key : String) (event : EventRequest)
    (r : Except Raised UUID) :
    ((request : Request) × Prog Op Op.Reply request.Result) → Prop where
  | acceptEvent (store : RedisEventStore) (observers : Observers) :
      Returned key event r
        ⟨.acceptEvent store observers event (some key), .pure r⟩
  | enqueueIdempotent (store : RedisEventStore) (eventId : UUID) :
      Returned key event r
        ⟨.enqueueIdempotent store eventId event key, .pure r⟩

/-- How a call under a key of the event `e`, created for `event`, may end when
it asks for `event'`. -/
def Told (e : UUID) (event event' : EventRequest) :
    Except Raised UUID → Prop
  | .ok id => id = e ∧ event.SameContent event'
  | .error .idempotencyConflict => ¬event.SameContent event'
  | .error raised => raised = .eventStoreUnavailable

/-- A key stands for the event `e`, which was created for `event`. -/
structure StandsFor (lib : Stdlib) (key : String) (e : UUID)
    (event : EventRequest) (w : World) : Prop where
  created : ∃ acceptedAt,
    (w.keyAnswers (lib.sha256 key)).filter (fun a => a.decision = .created) =
      [⟨.created, e.text, e, event.eventType, event.payloadJson,
        event.fingerprint lib, acceptedAt⟩] ∧
    (e, messageFields e event.eventType event.payloadJson acceptedAt) ∈
      w.acceptances ∧
    ∃ id, ⟨id, messageFields e event.eventType event.payloadJson acceptedAt⟩ ∈
      (streamAt w.store .events).entries
  once : (w.acceptances.map Prod.fst).count e = 1
  status : ∃ h, w.store (.event e.text) = some (.hash h) ∧
    h.lookup "event_id" = some e.text
  record : w.store (.idempotency (lib.sha256 key)) =
    some (.hash (keyRecord e (event.fingerprint lib)))
  answered : ∀ a ∈ w.keyAnswers (lib.sha256 key), a.storedId = e.text ∧
    ∃ event' : EventRequest, a.eventType = event'.eventType ∧
      a.payload = event'.payloadJson ∧
      (a.decision = .conflict ↔ ¬event.SameContent event')

variable {event event' : EventRequest} {key : String}

/-- The creating answer and every later one compare with the first
fingerprint. -/
theorem Decided.conflict_iff {db : Store} {first : KeyAnswer}
    {later : List KeyAnswer} (h : Decided db digest (first :: later))
    {a : KeyAnswer} (ha : a ∈ first :: later) :
    a.storedId = first.eventId.text ∧
      (a.decision = .conflict ↔ first.fingerprint ≠ a.fingerprint) := by
  cases h with
  | used _ _ record created stored repeated =>
      rcases List.mem_cons.mp ha with rfl | hlater
      · simp [stored, created]
      · obtain ⟨hid, hdecision⟩ := repeated a hlater
        refine ⟨hid.trans stored, ?_⟩
        rw [hdecision]
        split <;> simp_all

/-- Only the first answer creates. -/
theorem Decided.filter_created {db : Store} {first : KeyAnswer}
    {later : List KeyAnswer} (h : Decided db digest (first :: later)) :
    (first :: later).filter (fun a => a.decision = .created) = [first] := by
  cases h with
  | used _ _ record created stored repeated =>
      have hlater : later.filter (fun a => a.decision = .created) = [] := by
        refine List.filter_eq_nil_iff.mpr fun a ha => ?_
        rw [(repeated a ha).2]
        split <;> simp
      rw [List.filter_cons_of_pos (by rw [created]; rfl), hlater]

/-- The first answer under a key fixes the event for good. -/
theorem standsFor_of_first {L : Ledger} {first : KeyAnswer}
    {later : List KeyAnswer} (hsha : Function.Injective lib.sha256)
    (hL : Accounted lib group w L) (horiginal : Original w)
    (hanswers : w.keyAnswers (lib.sha256 key) = first :: later)
    (hdecided : Decided w.store (lib.sha256 key) (first :: later))
    (hrequested : ∀ a ∈ first :: later, a.Requested lib)
    (hevent : event.WellFormed) (htype : first.eventType = event.eventType)
    (hpayload : first.payload = event.payloadJson)
    (hfingerprint : first.fingerprint = event.fingerprint lib) :
    StandsFor lib key first.eventId event w := by
  have hfirst := hdecided.filter_created
  have hcompare := fun a ha => hdecided.conflict_iff (a := a) ha
  cases hdecided with
  | used _ _ record created stored repeated =>
      have hmem : first ∈ w.keyAnswers (lib.sha256 key) := by
        rw [hanswers]
        exact List.mem_cons_self
      have hacc := acceptance_of_created hmem created
      rw [htype, hpayload] at hacc
      obtain ⟨entry, hentry, hfields⟩ := horiginal.entry _ _ hacc
      obtain ⟨a, ha, -⟩ := horiginal.account hL hacc
      obtain ⟨f, hkey, hshow⟩ := hL.represents.status.hash _ a ha
      refine ⟨⟨first.acceptedAt, ?_, hacc, entry.id, ?_⟩, ?_,
        ⟨f, hkey, hshow.eventId⟩, ?_, ?_⟩
      · rw [hanswers, hfirst, ← htype, ← hpayload, ← hfingerprint, ← stored,
          ← created]
      · rw [← hfields]
        exact hentry
      · exact List.count_eq_one_of_mem horiginal.once
          (List.mem_map.mpr ⟨_, hacc, rfl⟩)
      · rw [record, hfingerprint]
      · intro a ha
        rw [hanswers] at ha
        obtain ⟨event', hevent', htype', hpayload', hfingerprint'⟩ :=
          hrequested a ha
        obtain ⟨hid, hconflict⟩ := hcompare a ha
        refine ⟨hid, event', htype', hpayload', ?_⟩
        rw [hconflict, hfingerprint, hfingerprint', ne_eq,
          EventRequest.fingerprint_eq_iff_sameContent hsha hevent hevent']

/-- A finished call tells what an answer under its key says. -/
theorem told_of_standsFor (hsha : Function.Injective lib.sha256)
    (hfor : StandsFor lib key e event w) (hevent : event.WellFormed)
    (hanswered : ∀ a ∈ w.keyAnswers (lib.sha256 key),
      a.decision = .conflict ↔ event.fingerprint lib ≠ a.fingerprint)
    {store : RedisEventStore} (hlib : store.lib = lib)
    (hevent' : event'.WellFormed) {r : Except Raised UUID}
    (h : KeyOutcome store event' key r w) : Told e event event' r := by
  subst hlib
  have hsame := EventRequest.fingerprint_eq_iff_sameContent hsha hevent hevent'
  cases r with
  | ok id =>
      obtain ⟨a, ha, hfingerprint, hdecision, hid⟩ := h
      refine ⟨?_, ?_⟩
      · rw [(hfor.answered a ha).1, UUID.parse_text] at hid
        exact (Option.some.inj hid).symm
      · rw [ne_eq, hanswered a ha, hfingerprint, not_ne_iff] at hdecision
        exact hsame.mp hdecision
  | error raised =>
      cases raised with
      | idempotencyConflict =>
          obtain ⟨a, ha, hfingerprint, hdecision⟩ := h
          rw [hanswered a ha, hfingerprint] at hdecision
          exact fun hcontent => hdecision (hsame.mpr hcontent)
      | _ => exact h

/-- A finished call under a key was posed with the key, and its outcome agrees
with the answers. -/
theorem keyOutcome_of_returned
    {cfg : ((redisService lib group).only fun _ => Posed lib).Config}
    (hreach : Service.Reachable Service.anyCall cfg)
    {t : (request : Request) × Prog Op Op.Reply request.Result}
    (ht : t ∈ cfg.threads) {r : Except Raised UUID}
    (hreturned : Returned key event r t) :
    ∃ store : RedisEventStore, store.lib = lib ∧ event.WellFormed ∧
      KeyOutcome store event key r cfg.state := by
  have hposed : Posed lib t.1 :=
    Service.Reachable.only_threads (S := redisService lib group)
      (P := fun _ => Posed lib) (Q := Posed lib) (fun _ _ h => h) hreach t ht
  have hthreads : t ∈ cfg.ofOnly.threads := ht
  cases hreturned with
  | acceptEvent store observers =>
      exact ⟨store, hposed.1, hposed.2,
        hreach.ofOnly.post (redisService_answered lib group) hthreads⟩
  | enqueueIdempotent store eventId =>
      exact ⟨store, hposed.1, hposed.2,
        hreach.ofOnly.post (redisService_answered lib group) hthreads⟩

/-- Every configuration of the service is reached by permitted calls that were
sent for requests. -/
theorem reach_of_posed
    {cfg : ((redisService lib group).only fun _ => Posed lib).Config}
    (hreach : Service.Reachable Service.anyCall cfg) :
    redisMachine.Reach (fun w op => May lib group w op ∧ op.Requested lib)
      cfg.state := by
  have hbody : ∀ w request,
      ((redisService lib group).only fun _ => Posed lib).Enabled w request →
      request.body.CallsOnly (Op.Requested lib) :=
    fun w request henabled => requested_body henabled.2
  have hguarded := (hreach.guarded hbody).1
  refine ((hguarded.ofOnly.sound
    (redisService_disciplined lib group)).2).mono ?_
  exact fun w op hop => ⟨hop.1, hop.2.2⟩

/-- Later answers under a key come after the earlier ones. -/
theorem keyAnswers_of_steps
    {cfg cfg' : ((redisService lib group).only fun _ => Posed lib).Config}
    (hsteps : Service.Steps Service.anyCall cfg cfg') (digest : String) :
    World.keyAnswers cfg.state digest <+: World.keyAnswers cfg'.state digest := by
  have hhistory : World.history cfg.state <+: World.history cfg'.state := by
    induction hsteps with
    | refl => exact List.prefix_rfl
    | tail _ hstep ih =>
        refine ih.trans ?_
        cases hstep with
        | start | crash => exact List.prefix_rfl
        | act i c op next reply state thread guard exec => exact exec.history
  exact hhistory.filterMap _

/-- Under any interleaving, with lost replies and retried requests, a key is
unused, or it stands for one event from then on: the event has one creating
answer, one acceptance, one status hash and one record, and every finished call
under the key returns its id, was refused because it asked for something else,
or learnt nothing.  Reuse and conflict leave the whole store alone. -/
theorem idempotency_key_names_one_event (hsha : Function.Injective lib.sha256)
    {cfg : ((redisService lib group).only fun _ => Posed lib).Config}
    (hreach : Service.Reachable Service.anyCall cfg) (key : String) :
    ((World.keyAnswers cfg.state (lib.sha256 key) = [] ∧
        cfg.state.store (.idempotency (lib.sha256 key)) = none ∧
        ∀ t ∈ cfg.threads, ∀ event r, Returned key event r t →
          r = .error .eventStoreUnavailable) ∨
      ∃ e event, event.WellFormed ∧
        ∀ cfg', Service.Steps Service.anyCall cfg cfg' →
          StandsFor lib key e event cfg'.state ∧
          ∀ t ∈ cfg'.threads, ∀ event' r, Returned key event' r t →
            Told e event event' r) ∧
    ∀ e' eventType payload fingerprint acceptedAt now decision id,
      let run := idempotentEnqueueScript now e' (lib.sha256 key) eventType
        payload fingerprint acceptedAt cfg.state.store
      run.1 = .ok (decision, id) →
        (decision ≠ .created → run.2 = cfg.state.store) ∧
        (decision = .created → ∃ streamId,
          (streamAt run.2 .events).entries =
            (streamAt cfg.state.store .events).entries ++
              [⟨streamId, messageFields e' eventType payload acceptedAt⟩]) := by
  have hstate := reach_of_posed hreach
  obtain ⟨L, hL⟩ := reach_accounted (hstate.mono fun _ _ h => h.1)
  have hdecided := reach_decided hstate (lib.sha256 key)
  refine ⟨?_, ?_⟩
  · cases hanswers : World.keyAnswers cfg.state (lib.sha256 key) with
    | nil =>
        left
        rw [hanswers] at hdecided
        obtain ⟨habsent⟩ := hdecided
        refine ⟨rfl, habsent, fun t ht event r hreturned => ?_⟩
        obtain ⟨store, rfl, -, houtcome⟩ :=
          keyOutcome_of_returned hreach ht hreturned
        unfold KeyOutcome at houtcome
        split at houtcome
        · simp [hanswers] at houtcome
        · simp [hanswers] at houtcome
        · rw [houtcome]
    | cons first later =>
        right
        obtain ⟨event, hevent, htype, hpayload, hfingerprint⟩ :=
          reach_requested hstate (lib.sha256 key) first (by simp [hanswers])
        refine ⟨first.eventId, event, hevent, fun cfg' hsteps => ?_⟩
        have hreach' := hreach.steps hsteps
        have hstate' := reach_of_posed hreach'
        obtain ⟨L', hL'⟩ := reach_accounted (hstate'.mono fun _ _ h => h.1)
        obtain ⟨more, hmore⟩ := keyAnswers_of_steps hsteps (lib.sha256 key)
        rw [hanswers, List.cons_append] at hmore
        have hdecided' := reach_decided hstate' (lib.sha256 key)
        have hrequested' := reach_requested hstate' (lib.sha256 key)
        rw [← hmore] at hdecided' hrequested'
        have hfor := standsFor_of_first hsha hL' (reach_original hstate')
          hmore.symm hdecided' hrequested' hevent htype hpayload hfingerprint
        refine ⟨hfor, fun t ht event' r hreturned => ?_⟩
        obtain ⟨store, hlib, hevent', houtcome⟩ :=
          keyOutcome_of_returned hreach' ht hreturned
        refine told_of_standsFor hsha hfor hevent (fun a ha => ?_) hlib hevent'
          houtcome
        rw [← hmore] at ha
        rw [(hdecided'.conflict_iff ha).2, hfingerprint]
  · intro e' eventType payload fingerprint acceptedAt now decision id run hrun
    generalize World.keyAnswers cfg.state (lib.sha256 key) = answers at hdecided
    cases hdecided with
    | unused absent =>
        rcases idempotentEnqueue_fresh hL.represents e' now (lib.sha256 key)
          eventType payload fingerprint acceptedAt absent with
          ⟨msg, hscript⟩ | ⟨-, streamId, st, happend, hscript⟩
        · rw [show run = _ from hscript] at hrun
          cases hrun
        · rw [show run = _ from hscript] at hrun ⊢
          obtain ⟨rfl, -⟩ := Prod.mk.inj (Except.ok.inj hrun)
          refine ⟨fun hne => absurd rfl hne, fun _ => ⟨streamId, ?_⟩⟩
          obtain ⟨-, hentries, -, -⟩ := Stream.append_eq_some happend
          rw [streamAt_update_of_ne _ _ (by simp),
            streamAt_update_of_ne _ _ (by simp), streamAt_update_self, hentries]
    | used first later record created stored repeated =>
        have hscript := idempotentEnqueue_known hL.represents record e' now
          eventType payload fingerprint acceptedAt
        rw [show run = _ from hscript] at hrun ⊢
        refine ⟨fun _ => rfl, fun hcreated => ?_⟩
        obtain ⟨hdecision, -⟩ := Prod.mk.inj (Except.ok.inj hrun)
        rw [hcreated] at hdecision
        split at hdecision <;> cases hdecision

/-- A request with another payload. -/
def otherRequest : EventRequest :=
  ⟨"order.created", [("total", .int 3)], exampleType_valid⟩

theorem exampleRequest_wellFormed : exampleRequest.WellFormed :=
  .obj [] (by simp) (by simp)

theorem otherRequest_wellFormed : otherRequest.WellFormed :=
  .obj [("total", .int 3)] (by simp)
    (List.forall_mem_singleton.mpr (Json.WellFormed.int 3))

/-- A key is used twice, with different payloads. -/
def conflictingSchedule : List (redisOracle.Action
    ((redisService exampleLib "hooklane-workers").only
      fun _ => Posed exampleLib)) :=
  [.start (.enqueueIdempotent exampleStore exampleEvent exampleRequest "key-1")
      fun _ => ⟨trivial, rfl, exampleRequest_wellFormed⟩,
    .act 0 (.number 1), .act 0 (.ran 1000),
    .start (.acceptEvent exampleStore ⟨false, false⟩ otherRequest
      (some "key-1")) fun _ => ⟨trivial, rfl, otherRequest_wellFormed⟩,
    .act 1 (.uuid (UUID.ofNat 2)), .act 1 (.number 2), .act 1 (.ran 2000)]

/-- The second request is refused, and the key keeps the first event. -/
theorem idempotency_key_names_one_event_example :
    ∃ cfg : ((redisService exampleLib "hooklane-workers").only
        fun _ => Posed exampleLib).Config,
      Service.Reachable Service.anyCall cfg ∧
      (World.keyAnswers cfg.state "key-1").map
          (fun a => (a.decision, a.storedId)) =
        [(.created, exampleEvent.text), (.conflict, exampleEvent.text)] ∧
      ∃ event, StandsFor exampleLib "key-1" exampleEvent event cfg.state := by
  have hrun : (redisOracle.play Service.anyCall ⟨World.initial, []⟩
      conflictingSchedule).map (fun cfg => decide
        ((World.keyAnswers cfg.state "key-1").map
            (fun a => (a.decision, a.storedId)) =
          [(.created, exampleEvent.text), (.conflict, exampleEvent.text)])) =
      some true := by
    decide +kernel
  obtain ⟨cfg, hplay, hstate⟩ := Option.map_eq_some_iff.mp hrun
  have hanswers := of_decide_eq_true hstate
  have hreach : Service.Reachable Service.anyCall cfg :=
    Oracle.reachable_of_play rfl hplay
  refine ⟨cfg, hreach, hanswers, ?_⟩
  rcases (idempotency_key_names_one_event (fun _ _ h => h) hreach
    "key-1").1 with ⟨hnone, -⟩ | ⟨e, event, -, hfor⟩
  · rw [show exampleLib.sha256 "key-1" = "key-1" from rfl] at hnone
    rw [hnone] at hanswers
    simp at hanswers
  · have hstands := (hfor cfg Relation.ReflTransGen.refl).1
    have hsome : ∃ a ∈ World.keyAnswers cfg.state "key-1",
        a.storedId = exampleEvent.text := by
      have hmem : (Decision.created, exampleEvent.text) ∈
          (World.keyAnswers cfg.state "key-1").map
            fun a => (a.decision, a.storedId) := by
        rw [hanswers]
        exact List.mem_cons_self
      obtain ⟨a, ha, hpair⟩ := List.mem_map.mp hmem
      exact ⟨a, ha, (Prod.mk.inj hpair).2⟩
    obtain ⟨a, ha, hid⟩ := hsome
    have htext := (hstands.answered a ha).1
    rw [hid] at htext
    obtain rfl := UUID.text_injective htext
    exact ⟨event, hstands⟩

end Statement

end Hooklane
