import Hooklane.Cloudflare.System

/-!
# Which calls the programs issue

Most programs only read and update rows, send references and write traces.
The batch of `accept` is issued by `accept` alone, the sink is called by
`process` alone, and a message is answered by `queue` alone.
-/

namespace Hooklane.Cloudflare

open Support ProgE

variable {e : UUID} {α : Type}

/-- Every call but the batch of `accept`, a call of the sink and the answer to
a message. -/
def Plain : Op → Prop
  | .d1 (.acceptBatch ..) | .deliver _ | .ack _ | .retry .. => False
  | _ => True

/-- A program of plain calls. -/
abbrev PlainOnly (p : App α) : Prop :=
  CallsOnly Plain p

section Store

variable {store : D1EventStore}

theorem plain_request (op : Op) (h : Plain op) : PlainOnly (App.request op) :=
  callsOnly_perform h

theorem plain_execute (call : D1Call)
    (hcall : Plain (.d1 call)) :
    PlainOnly (App.execute call) := by
  refine callsOnly_bind (callsOnly_perform hcall) fun reply => ?_
  cases reply with
  | some value => exact callsOnly_pure _
  | none => exact callsOnly_throw _

theorem plain_emit (transition : String) (attempt : ℕ) (reason : String) :
    PlainOnly (App.emit transition e attempt reason) :=
  plain_request _ trivial

theorem plain_nowMs : PlainOnly App.nowMs :=
  callsOnly_bind (plain_request .time trivial) fun _ => callsOnly_pure _

theorem plain_uuid4Hex : PlainOnly App.uuid4Hex :=
  callsOnly_bind (plain_request .uuid4 trivial) fun _ =>
    callsOnly_pure _

theorem plain_orElseNone {caught : Raised → Bool} {p : App α} (h : PlainOnly p) :
    PlainOnly (App.orElseNone caught p) := by
  apply callsOnly_tryCatch
  · exact callsOnly_bind h fun _ => callsOnly_pure _
  · intro raised
    split
    · exact callsOnly_pure _
    · exact callsOnly_throw _

theorem plain_loadPayloadJson (legacy : String) :
    PlainOnly (D1EventStore.loadPayloadJson e legacy) := by
  refine callsOnly_bind (plain_execute _ trivial) fun chunks => ?_
  split
  · exact callsOnly_pure _
  · split
    · exact callsOnly_pure _
    · exact callsOnly_throw _

theorem plain_loadRecord (row : EventRow) : PlainOnly (store.loadRecord e row) := by
  refine callsOnly_bind (plain_loadPayloadJson _) fun payloadJson => ?_
  dsimp only
  split
  · exact callsOnly_pure _
  · exact callsOnly_throw _

theorem plain_getStatus : PlainOnly (store.getStatus e) := by
  refine callsOnly_bind (plain_execute _ trivial) fun found => ?_
  cases found with
  | none => exact callsOnly_pure _
  | some row =>
      exact callsOnly_bind (plain_loadRecord row) fun _ => callsOnly_pure _

theorem plain_readState : PlainOnly (D1EventStore.readState e) := by
  refine callsOnly_bind (plain_execute _ trivial) fun found => ?_
  cases found with
  | some state => exact callsOnly_pure _
  | none => exact callsOnly_throw _

theorem plain_updateTerminal (status : EventStatus) (reason : Option String)
    (token : String) :
    PlainOnly (D1EventStore.updateTerminal e status reason token) :=
  callsOnly_bind plain_nowMs fun _ =>
    callsOnly_bind (plain_execute _ trivial) fun _ => callsOnly_pure _

theorem plain_markDispatched (token : Option String) :
    PlainOnly (D1EventStore.markDispatched e token) :=
  callsOnly_bind plain_nowMs fun _ =>
    callsOnly_bind (plain_execute _ trivial) fun _ => callsOnly_pure _

end Store

section Acceptance

/-- A result after a trace is written. -/
theorem plain_answer {transition reason : String} {attempt : ℕ} {a : α} :
    PlainOnly (do
      App.emit transition e attempt reason
      return a) :=
  callsOnly_bind (plain_emit _ _ _) fun _ => callsOnly_pure _

theorem plain_dispatch (record : AcceptanceRecord) :
    PlainOnly (AcceptanceService.dispatch record) := by
  refine callsOnly_bind (plain_emit _ _ _) fun _ => ?_
  refine callsOnly_bind (plain_request _ trivial) fun confirmed => ?_
  split
  · exact plain_answer
  · refine callsOnly_bind (plain_orElseNone (plain_markDispatched none)) ?_
    intro dispatched
    split
    · exact plain_answer
    · split <;> exact plain_answer

/-- What `accept` may call: a plain call, or the batch of its event. -/
def AcceptCall (lib : Stdlib) (event : EventRequest) (key : Option String)
    (op : Op) : Prop :=
  Plain op ∨ ∃ proposed chunks nowMs,
    payloadJsonChunks payloadChunkLimitBytes event = some chunks ∧
    op = .d1 (.acceptBatch proposed event.eventType chunks
      (event.fingerprint lib) (idempotencyKeyHash lib key) nowMs)

theorem callsOnly_accept (service : AcceptanceService) (event : EventRequest)
    (key : Option String) (proposed : Option UUID) :
    CallsOnly (AcceptCall service.store.lib event key)
      (service.accept event key proposed) := by
  have hplain : ∀ {α : Type} {p : App α}, PlainOnly p →
      CallsOnly (AcceptCall service.store.lib event key) p :=
    fun h => h.mono fun _ => Or.inl
  have hid : PlainOnly (AcceptanceService.proposedOrNew proposed) := by
    cases proposed with
    | some id => exact callsOnly_pure _
    | none => exact plain_request _ trivial
  refine callsOnly_bind (hplain hid) fun id =>
    callsOnly_bind ?_ fun record => ?_
  · refine callsOnly_bind (hplain plain_nowMs) fun nowMs => ?_
    split
    · exact callsOnly_throw _
    · next chunks hcut =>
      refine callsOnly_bind ?_ fun found => ?_
      · refine callsOnly_bind (callsOnly_perform ?_) fun reply => ?_
        · exact Or.inr ⟨id, chunks, nowMs, hcut, rfl⟩
        · cases reply with
          | some value => exact callsOnly_pure _
          | none => exact callsOnly_throw _
      · split
        · exact callsOnly_throw _
        · split
          · exact callsOnly_throw _
          · exact callsOnly_pure _
  · split
    · exact hplain plain_answer
    · exact hplain (plain_dispatch record)

theorem plain_repairOne (token : String) (outbox : OutboxRecord) :
    PlainOnly (AcceptanceService.repairOne token outbox) := by
  have hrelease : PlainOnly
      (D1EventStore.releaseOutboxClaim outbox.eventId token) :=
    callsOnly_bind plain_nowMs fun _ =>
      callsOnly_bind (plain_execute _ trivial) fun _ => callsOnly_pure _
  refine callsOnly_bind (plain_request _ trivial) fun confirmed => ?_
  split
  · exact callsOnly_bind (plain_orElseNone hrelease) fun _ => plain_answer
  · refine callsOnly_bind (plain_orElseNone (plain_markDispatched _)) ?_
    intro dispatched
    split
    · exact plain_answer
    · split <;> exact plain_answer

theorem plain_repairAll (token : String) (outboxes : List OutboxRecord)
    (repaired deferred : ℕ) :
    PlainOnly (AcceptanceService.repairAll token outboxes repaired deferred) := by
  induction outboxes generalizing repaired deferred with
  | nil => exact callsOnly_pure _
  | cons outbox rest ih =>
      refine callsOnly_bind (plain_repairOne token outbox) fun moved => ?_
      split <;> exact ih _ _

theorem plain_repair (limit : ℤ) : PlainOnly (AcceptanceService.repair limit) :=
  callsOnly_bind plain_uuid4Hex fun _ =>
    callsOnly_bind (callsOnly_bind plain_nowMs fun _ =>
      callsOnly_bind (plain_execute _ trivial) fun _ => callsOnly_pure _) fun _ =>
        plain_repairAll _ _ _ _

end Acceptance

section Delivery

variable {service : DeliveryService} {record : EventRecord} {token : String}

theorem plain_staleResult (attempt : ℕ) :
    PlainOnly (service.staleResult e attempt) := by
  refine callsOnly_bind (plain_emit _ _ _) fun _ => ?_
  refine callsOnly_bind plain_getStatus fun current => ?_
  cases current with
  | none => exact callsOnly_throw _
  | some record =>
      dsimp only
      split <;> exact callsOnly_pure _

theorem plain_afterSuccess : PlainOnly (service.afterSuccess e record token) := by
  refine callsOnly_bind (plain_updateTerminal _ _ _) fun moved => ?_
  split
  · exact plain_staleResult _
  · exact plain_answer

theorem plain_afterFailure (errorClass : DeliveryErrorClass) :
    PlainOnly (service.afterFailure e record token errorClass) := by
  have hdelay : PlainOnly (DeliveryService.retryDelaySeconds record.attemptCount) := by
    unfold DeliveryService.retryDelaySeconds
    split
    · exact callsOnly_throw _
    · exact callsOnly_bind (plain_request (.uniform _ _) trivial)
        fun _ => callsOnly_pure _
  unfold DeliveryService.afterFailure
  split
  · refine callsOnly_bind (plain_updateTerminal _ _ _) fun moved => ?_
    split
    · exact plain_staleResult _
    · exact plain_answer
  · refine callsOnly_bind (plain_updateTerminal _ _ _) fun moved => ?_
    split
    · exact plain_staleResult _
    · exact callsOnly_bind hdelay fun _ => plain_answer

theorem plain_startUnclaimed (nowMs : ℤ) (m : ℕ) :
    PlainOnly (D1EventStore.startUnclaimed e nowMs m) := by
  refine callsOnly_bind plain_readState fun snapshot => ?_
  split
  · exact callsOnly_pure _
  · split
    · refine callsOnly_bind (plain_execute _ trivial) fun changed => ?_
      split
      · exact callsOnly_pure _
      · refine callsOnly_bind plain_readState fun current => ?_
        split
        · exact callsOnly_pure _
        · exact callsOnly_throw _
    · exact callsOnly_throw _

theorem plain_markDeliveryStarted (store : D1EventStore) (m : ℕ) :
    PlainOnly (store.markDeliveryStarted e m) := by
  unfold D1EventStore.markDeliveryStarted
  split
  · exact callsOnly_throw _
  · refine callsOnly_bind plain_nowMs fun nowMs => ?_
    refine callsOnly_bind plain_uuid4Hex fun token => ?_
    refine callsOnly_bind (plain_execute _ trivial) fun claimed => ?_
    cases claimed with
    | some row =>
        exact callsOnly_bind (plain_loadRecord row) fun _ => callsOnly_pure _
    | none => exact plain_startUnclaimed nowMs m

end Delivery

section Handlers

variable {service : DeliveryService}

/-- Every call but the batch of `accept`. -/
def NoBatch : Op → Prop
  | .d1 (.acceptBatch ..) => False
  | _ => True

theorem Plain.noBatch {op : Op} (h : Plain op) : NoBatch op := by
  cases op with
  | d1 call => cases call <;> trivial
  | _ => trivial

theorem noBatch_of_plain {p : App α} (h : PlainOnly p) : CallsOnly NoBatch p :=
  h.mono fun _ => Plain.noBatch

/-- What `process` may call: a plain call, or the sink. -/
def ProcessCall (op : Op) : Prop :=
  Plain op ∨ ∃ record, op = .deliver record

theorem callsOnly_process : CallsOnly ProcessCall (service.process e) := by
  have hplain : ∀ {α : Type} {p : App α}, PlainOnly p →
      CallsOnly ProcessCall p := fun h => h.mono fun _ => Or.inl
  refine callsOnly_bind
    (hplain (plain_markDeliveryStarted _ _)) fun start => ?_
  split
  · exact hplain plain_answer
  · split
    · exact hplain plain_answer
    · split
      · refine callsOnly_bind (hplain (plain_emit _ _ _)) ?_
        intro _
        refine callsOnly_bind (callsOnly_perform (Or.inr ⟨_, rfl⟩)) ?_
        intro reply
        cases reply with
        | success => exact hplain plain_afterSuccess
        | failed errorClass => exact hplain (plain_afterFailure errorClass)
        | raised => exact callsOnly_throw _
      · exact callsOnly_throw _

/-- What the handler of a message may call: what `process` may, and the answer
to the message. -/
def HandleCall (message : Message) (op : Op) : Prop :=
  ProcessCall op ∨ op = .ack message.id ∨
    ∃ delay, op = .retry message.id delay

theorem callsOnly_handleMessage (message : Message) :
    CallsOnly (HandleCall message) (Worker.handleMessage service message) := by
  unfold Worker.handleMessage
  split
  · exact callsOnly_throw _
  · refine callsOnly_bind ?_ fun answer => ?_
    · apply callsOnly_tryCatch
      · exact callsOnly_bind (callsOnly_process.mono fun _ => Or.inl)
          fun _ => callsOnly_pure _
      · intro raised
        split
        · exact callsOnly_pure _
        · exact callsOnly_throw _
    · split
      · exact callsOnly_perform (Or.inr (Or.inr ⟨_, rfl⟩))
      · split
        · exact callsOnly_perform (Or.inr (Or.inl rfl))
        · exact callsOnly_perform (Or.inr (Or.inr ⟨_, rfl⟩))

theorem ProcessCall.noBatch {op : Op} (h : ProcessCall op) : NoBatch op := by
  rcases h with hplain | ⟨record, rfl⟩
  · exact hplain.noBatch
  · trivial

theorem noBatch_process : CallsOnly NoBatch (service.process e) :=
  callsOnly_process.mono fun _ => ProcessCall.noBatch

theorem noBatch_handleMessage (message : Message) :
    CallsOnly NoBatch (Worker.handleMessage service message) := by
  have hcalls : CallsOnly (HandleCall message)
      (Worker.handleMessage service message) :=
    @callsOnly_handleMessage service message
  generalize Worker.handleMessage service message = p at hcalls ⊢
  refine hcalls.mono ?_
  rintro op (hprocess | rfl | ⟨delay, rfl⟩)
  · exact hprocess.noBatch
  · trivial
  · trivial

theorem noBatch_queue (batch : List Message) :
    CallsOnly NoBatch (Worker.queue service batch) := by
  induction batch with
  | nil => exact callsOnly_pure _
  | cons message rest ih =>
      have hhead : CallsOnly NoBatch (Worker.handleMessage service message) :=
        noBatch_handleMessage message
      rw [Worker.queue]
      generalize Worker.handleMessage service message = p at hhead ⊢
      exact callsOnly_bind hhead fun _ => ih

/-- The batches of all requests are those of `accept`. -/
theorem callsOnly_body (request : Request) :
    request.body.CallsOnly fun op => NoBatch op ∨
      ∃ (service : AcceptanceService) (event : EventRequest)
        (key : Option String) (proposed : Option UUID),
        request = .accept service event key proposed ∧
        AcceptCall service.store.lib event key op := by
  have hother : ∀ {α : Type} {p : App α} {P : Op → Prop},
      CallsOnly NoBatch p → p.run.CallsOnly fun op => NoBatch op ∨ P op :=
    fun h => Prog.CallsOnly.mono h.run fun _ => Or.inl
  cases request with
  | accept service event key proposed =>
      refine Prog.CallsOnly.mono
        (callsOnly_accept service event key proposed).run fun op hop => Or.inr ?_
      exact ⟨service, event, key, proposed, rfl, hop⟩
  | repair limit => exact hother (noBatch_of_plain (plain_repair limit))
  | process service e => exact hother noBatch_process
  | queue service batch => exact hother (noBatch_queue batch)
  | getStatus store e => exact hother (noBatch_of_plain plain_getStatus)
  | markDeliveryStarted service e finished =>
      exact hother (noBatch_of_plain (plain_markDeliveryStarted _ _))

end Handlers

end Hooklane.Cloudflare
