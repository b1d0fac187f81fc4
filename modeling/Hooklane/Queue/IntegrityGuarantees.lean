import Hooklane.Queue.Guarantees
import Hooklane.Queue.Integrity
import Hooklane.Queue.Origins
import Hooklane.Support.Outcome
import Mathlib.Tactic.Linarith

/-!
# What is accepted is what is delivered

Besides the API and the workers, any process may call `read_next` and
`claim_stale_pending` here, so that a run shows what each call of these two
methods returns.
-/

namespace Hooklane

open Redis Support ProgE

variable {lib : Stdlib} {group : String} {w : World}

section Readable

variable (store : RedisEventStore)

theorem readable_of_work (op : Op) (h : op.Work) : op.Readable lib := by
  cases op with
  | redis call => cases call <;> trivial
  | _ => trivial

/-- The acceptance time is the numeral of an integer, which the range of the
clock keeps short. -/
theorem yields_acceptedAt :
    Yields (fun r => ∀ text, r = .ok text →
      ∃ n : ℤ, text = toString n ∧ n.natAbs < 10 ^ maxStrDigits)
      RedisEventStore.acceptedAt := by
  refine fun now text htext => ⟨truncate (now.seconds * 1000),
    (Except.ok.inj htext).symm, ?_⟩
  have hclock : |now.seconds * 1000| ≤ (10 ^ 22 : ℕ) := by
    have hseconds := abs_lt.mpr (by simpa using now.inRange)
    rw [abs_mul]
    norm_num at hseconds ⊢
    linarith
  have hsmall : (truncate (now.seconds * 1000)).natAbs ≤ 10 ^ 22 :=
    Nat.cast_le.mp ((natAbs_truncate_le _).trans hclock)
  exact hsmall.trans_lt (Nat.pow_lt_pow_right (by decide) (by decide))

theorem readable_attempt {operation : String} {eventId : Option UUID}
    {call : RedisCall} (hcall : Op.Readable lib (.redis call)) :
    CallsOnly (Op.Readable lib) (store.attempt operation eventId call) :=
  callsOnly_attempt (fun _ => trivial) (fun _ => trivial) store hcall

variable {event : EventRequest} (hevent : event.WellFormed)
  (hlib : lib.ReadsBack (.obj event.payload))

include hevent hlib

theorem readable_enqueue (eventId : UUID) :
    CallsOnly (Op.Readable lib) (store.enqueue eventId event) := by
  refine callsOnly_bind_yields (callsOnly_bind (callsOnly_perform trivial)
    fun _ => callsOnly_pure _) yields_acceptedAt ?_
  rintro _ ⟨n, rfl, hbound⟩
  exact callsOnly_bind (readable_attempt store
    ⟨event, n, hevent, hlib, rfl, rfl, rfl, hbound⟩) fun _ => callsOnly_pure _

theorem readable_enqueueIdempotent (eventId : UUID) (key : String) :
    CallsOnly (Op.Readable lib)
      (store.enqueueIdempotent eventId event key) := by
  refine callsOnly_bind_yields (callsOnly_bind (callsOnly_perform trivial)
    fun _ => callsOnly_pure _) yields_acceptedAt ?_
  rintro _ ⟨n, rfl, hbound⟩
  exact callsOnly_bind (readable_attempt store
    ⟨event, n, hevent, hlib, rfl, rfl, rfl, hbound⟩) fun result =>
      callsOnly_readIdempotent store (callsOnly_recordRedisFailure
        (fun _ => trivial) (fun _ => trivial) store _ _) result

theorem readable_acceptEvent (observers : Observers) (key : Option String) :
    CallsOnly (Op.Readable lib) (acceptEvent store observers event key) := by
  have hmetric : ∀ call, CallsOnly (Op.Readable lib)
      (App.metric observers call) :=
    fun call => callsOnly_metric (fun _ => trivial) observers call
  refine callsOnly_bind (callsOnly_perform trivial) fun eventId => ?_
  refine callsOnly_bind (callsOnly_tryCatch ?_ fun raised => ?_) fun _ =>
    callsOnly_bind (hmetric _) fun _ =>
      callsOnly_bind (callsOnly_emit (fun _ => trivial) _ _) fun _ =>
        callsOnly_pure _
  · cases key with
    | none =>
        exact callsOnly_bind (readable_enqueue store hevent hlib _) fun _ =>
          callsOnly_pure _
    | some key => exact readable_enqueueIdempotent store hevent hlib _ _
  · dsimp only
    split
    · exact callsOnly_bind (hmetric _) fun _ => callsOnly_throw _
    · split
      · exact callsOnly_bind (hmetric _) fun _ => callsOnly_throw _
      · exact callsOnly_throw _

end Readable

section Readers

/-- Python can build the payload, and `json.loads` reads it back. -/
def Request.Readable (lib : Stdlib) : Request → Prop
  | .acceptEvent _ _ event _ | .enqueue _ _ event
  | .enqueueIdempotent _ _ event _ =>
      event.WellFormed ∧ lib.ReadsBack (.obj event.payload)
  | _ => True

/-- A request, or a call of one of the two methods that take a message. -/
inductive Reading where
  | request (request : Request)
  | readNext (store : RedisEventStore) (consumer : String)
  | claimStalePending (store : RedisEventStore) (consumer : String)
      (minIdleMs : ℕ)

@[reducible]
def Reading.Result : Reading → Type
  | .request posed => posed.Result
  | .readNext .. => Except Raised (Option QueuedEvent)
  | .claimStalePending .. => Except Raised (Option QueuedEvent)

/-- The Redis backend with processes that take messages. -/
def readingService (lib : Stdlib) (group : String) : Service redisMachine where
  Call := Reading
  Result := Reading.Result
  Enabled := fun w call =>
    match call with
    | .request request =>
        (redisService lib group).Enabled w request ∧ request.Readable lib
    | .readNext store _ | .claimStalePending store _ _ => store.lib = lib
  body := fun call =>
    match call with
    | .request request => request.body
    | .readNext store consumer => (store.readNext group consumer).run
    | .claimStalePending store consumer minIdleMs =>
        (store.claimStalePending group consumer minIdleMs).run

/-- The message that a finished call took. -/
def tookMessage :
    (call : Reading) × Prog Op Op.Reply call.Result → Option QueuedEvent
  | ⟨.readNext _ _, .pure (.ok message)⟩ => message
  | ⟨.claimStalePending _ _ _, .pure (.ok message)⟩ => message
  | _ => none

/-- What a finished call says about the message that it took. -/
def Taken (lib : Stdlib) (group : String) :
    (call : Reading) → call.Result → World → Prop
  | .request _, _, _ => True
  | .readNext _ _, r, w | .claimStalePending _ _ _, r, w =>
      ∀ message, r = .ok message → TakenMessage lib group message w

theorem readingService_disciplined (lib : Stdlib) (group : String) :
    Service.Disciplined (S := readingService lib group) (May lib group)
      (Taken lib group) := by
  intro call w hw henabled
  cases call with
  | request request =>
      exact redisService_disciplined lib group request w hw henabled.1
  | readNext store consumer => exact ensures_readNext henabled consumer
  | claimStalePending store consumer minIdleMs =>
      exact ensures_claimStalePending henabled consumer minIdleMs

theorem readable_body {request : Request} (h : request.Readable lib) :
    request.body.CallsOnly (Op.Readable lib) := by
  cases request with
  | acceptEvent store observers event key =>
      exact (readable_acceptEvent store h.1 h.2 observers key).run
  | enqueue store eventId event =>
      exact (readable_enqueue store h.1 h.2 eventId).run
  | enqueueIdempotent store eventId event key =>
      exact (readable_enqueueIdempotent store h.1 h.2 eventId key).run
  | getEventStatus store observers eventId =>
      exact ((work_getEventStatus store observers eventId).mono
        readable_of_work).run
  | runOnce worker => exact (work_runOnce.mono readable_of_work).run

theorem readable_call {call : Reading}
    (henabled : (readingService lib group).Enabled w call) :
    ((readingService lib group).body call).CallsOnly (Op.Readable lib) := by
  cases call with
  | request request => exact readable_body henabled.2
  | readNext store consumer =>
      exact ((work_readNext store group consumer).mono readable_of_work).run
  | claimStalePending store consumer minIdleMs =>
      exact ((work_claimStalePending store group consumer minIdleMs).mono
        readable_of_work).run

/-- Every configuration is reached by permitted calls that were sent for
readable requests. -/
theorem reach_of_readable {cfg : (readingService lib group).Config}
    (hreach : Service.Reachable Service.anyCall cfg) :
    redisMachine.Reach (fun w op => May lib group w op ∧ op.Readable lib)
      cfg.state := by
  have hguarded := (hreach.guarded fun _ _ => readable_call).1
  refine ((hguarded.sound (readingService_disciplined lib group)).2).mono ?_
  exact fun w op hop => ⟨hop.1, hop.2.2⟩

/-- The message that was handed out is the one that was accepted. -/
theorem taken_eq {L : Ledger} {e : UUID} {event : EventRequest}
    {acceptedAtMs : ℤ} {queuedEvent : QueuedEvent}
    (hL : Accounted lib group w L) (horiginal : Original w)
    (hevent : event.WellFormed) (hlib : lib.ReadsBack (.obj event.payload))
    (hbound : acceptedAtMs.natAbs < 10 ^ maxStrDigits)
    (hacc : (e, eventMessage e event acceptedAtMs) ∈ w.acceptances)
    (htaken : TakenMessage lib group (some queuedEvent) w)
    (he : queuedEvent.eventId = e) :
    event.SameContent queuedEvent.event ∧
      queuedEvent.acceptedAtMs = acceptedAtMs ∧
      ∃ entry ∈ (streamAt w.store .events).entries,
        entry.id.text = queuedEvent.streamId ∧
        entry.fields = eventMessage e event acceptedAtMs := by
  obtain ⟨fields, hout, hparse⟩ := htaken queuedEvent rfl
  obtain ⟨a, ha, -⟩ := Held.account ⟨fields, queuedEvent, hout, hparse, rfl⟩
    hL.represents
  obtain ⟨entry, hentry, hid', rfl, -⟩ := hout
  obtain ⟨e', hmessage⟩ := horiginal.message hL hentry
  obtain ⟨-, text, htext, hid⟩ := parseMessage_spec hparse
  have heq : e' = e := by
    rw [(horiginal.carries e' _ hmessage).2, Option.some.injEq] at htext
    rw [← htext, UUID.parse_text, Option.some.injEq] at hid
    exact hid.trans he
  subst heq
  have hfields := horiginal.unique hmessage hacc
  rw [hfields] at hparse
  obtain ⟨event', hsame, hread⟩ := parseMessage_eventMessage hlib e'
    hbound queuedEvent.streamId
  rw [hread, Option.some.injEq] at hparse
  have hcontent : event' = queuedEvent.event :=
    congrArg QueuedEvent.event hparse
  have htime : acceptedAtMs = queuedEvent.acceptedAtMs :=
    congrArg QueuedEvent.acceptedAtMs hparse
  rw [← hcontent, ← htime]
  exact ⟨(EventRequest.same_iff_sameContent hevent).mp
    ⟨hsame.1.symm, hsame.2.symm⟩, rfl, entry, hentry, hid', hfields⟩

/-- Under any interleaving every message that is taken for an event, at any
attempt and after any number of requeues, stands in the stream as it was
written and has the id, type, payload and acceptance time with which the event
was accepted; a dead-letter record of the
event is its message followed by the error class, a positive attempt count and
the source stream id; and nothing is ever quarantined. -/
theorem accepted_content_kept {cfg : (readingService lib group).Config}
    (hreach : Service.Reachable Service.anyCall cfg) :
    (∀ e fields, (e, fields) ∈ World.acceptances cfg.state →
      ∃ (event : EventRequest) (acceptedAtMs : ℤ), event.WellFormed ∧
        fields = eventMessage e event acceptedAtMs ∧
        (∀ t ∈ cfg.threads, ∀ queuedEvent, tookMessage t = some queuedEvent →
          queuedEvent.eventId = e →
            event.SameContent queuedEvent.event ∧
            queuedEvent.acceptedAtMs = acceptedAtMs ∧
            ∃ entry ∈ (streamAt cfg.state.store .events).entries,
              entry.id.text = queuedEvent.streamId ∧ entry.fields = fields) ∧
        ∀ record ∈ recordsAt cfg.state.store .deadLetter,
          fieldValue record "event_id" = some e.text →
            ∃ errorClass attempts m, 1 ≤ attempts ∧
              record = fields ++ [("error_class", errorClass),
                ("attempt_count", toString attempts),
                ("source_stream_id", m)]) ∧
    (∀ t ∈ cfg.threads, ∀ queuedEvent, tookMessage t = some queuedEvent →
      ∃ fields, (queuedEvent.eventId, fields) ∈ World.acceptances cfg.state) ∧
    recordsAt cfg.state.store .quarantine = [] := by
  have hstate := reach_of_readable hreach
  obtain ⟨L, hL⟩ := reach_accounted (hstate.mono fun _ _ h => h.1)
  have horiginal := reach_original hstate
  have hintact := reach_intact hstate
  have htaken : ∀ t ∈ cfg.threads, ∀ queuedEvent, tookMessage t = some queuedEvent →
      TakenMessage lib group (some queuedEvent) cfg.state := by
    intro t ht queuedEvent htook
    have hdisciplined := readingService_disciplined lib group
    obtain ⟨call, p⟩ := t
    cases call with
    | request posed => cases htook
    | readNext store consumer =>
        cases p with
        | call op next => cases htook
        | pure r =>
            cases r with
            | error raised => cases htook
            | ok message =>
                obtain rfl : message = some queuedEvent := htook
                exact hreach.post hdisciplined ht _ rfl
    | claimStalePending store consumer minIdleMs =>
        cases p with
        | call op next => cases htook
        | pure r =>
            cases r with
            | error raised => cases htook
            | ok message =>
                obtain rfl : message = some queuedEvent := htook
                exact hreach.post hdisciplined ht _ rfl
  refine ⟨fun e fields hacc => ?_, fun t ht queuedEvent htook => ?_,
    hintact.quarantine⟩
  · obtain ⟨event, acceptedAtMs, hevent, hlib, rfl, hbound⟩ :=
      hintact.intelligible e fields hacc
    refine ⟨event, acceptedAtMs, hevent, rfl, ?_, ?_⟩
    · exact fun t ht queuedEvent htook he => taken_eq hL horiginal hevent hlib
        hbound hacc (htaken t ht queuedEvent htook) he
    · intro record hrecord hid
      obtain ⟨e', fields', errorClass, attempts, m, hacc', hpos, rfl⟩ :=
        hintact.deadLetters record hrecord
      have hcarries := horiginal.carries e' fields' hacc'
      rw [deadLetterRecord, fieldValue_append_left hcarries.1 _,
        Option.some.injEq] at hid
      obtain rfl := UUID.text_injective hid
      rw [← horiginal.unique hacc' hacc]
      exact ⟨errorClass, attempts, m, hpos, rfl⟩
  · obtain ⟨fields, hout, hparse⟩ := htaken t ht queuedEvent htook _ rfl
    obtain ⟨a, ha, -⟩ := Held.account ⟨fields, queuedEvent, hout, hparse, rfl⟩
      hL.represents
    exact ⟨a.fields, horiginal.acceptance hL ha⟩

/-- A worker that does not retry. -/
def strictWorker : EventWorker :=
  { exampleWorker "worker-1" with
    deadLetterPolicy := some { maximumAttempts := 1 } }

theorem exampleRequest_readable (store : RedisEventStore) (e : UUID) :
    (Request.enqueue store e exampleRequest).Readable exampleLib := by
  have hpayload : Json.dumps (.obj exampleRequest.payload) = "{}" := by decide
  refine ⟨.obj [] (by simp) (by simp), .obj [], ?_, rfl⟩
  rw [hpayload]
  rfl

/-- A process takes the message and stops; a worker claims it, its delivery is
rejected, and it is dead-lettered. -/
def rejectedSchedule : List (redisOracle.Action
    (readingService exampleLib "hooklane-workers")) :=
  [.start (.request (.enqueue exampleStore exampleEvent exampleRequest))
      fun _ => ⟨trivial, exampleRequest_readable _ _⟩,
    .act 0 (.number 1), .act 0 (.ran 1000),
    .start (.request (.runOnce strictWorker))
      fun _ => ⟨⟨rfl, rfl⟩, trivial⟩,
    .act 1 (.ran 2000),
    .start (.readNext exampleStore "reader") fun _ => rfl,
    .act 2 (.ran 2000), .act 1 (.number 70), .act 1 (.ran 70000),
    .act 1 (.ran 70000), .act 1 (.ran 70000), .act 1 (.ran 70000),
    .act 1 (.number 70), .act 1 (.sink (.failed .http4xx)),
    .act 1 (.ran 70000)]

/-- The process has read what was accepted, and the dead-letter record holds
it as well. -/
theorem accepted_content_kept_example :
    ∃ cfg : (readingService exampleLib "hooklane-workers").Config,
      Service.Reachable Service.anyCall cfg ∧
      (∃ t ∈ cfg.threads, ∃ queuedEvent, tookMessage t = some queuedEvent ∧
        queuedEvent.eventId = exampleEvent) ∧
      (recordsAt cfg.state.store .deadLetter).map
        (fun record => fieldValue record "event_id") =
          [some exampleEvent.text] ∧
      ∃ (event : EventRequest) (acceptedAtMs : ℤ), event.WellFormed ∧
        (exampleEvent, eventMessage exampleEvent event acceptedAtMs) ∈
          World.acceptances cfg.state ∧
        (∀ t ∈ cfg.threads, ∀ queuedEvent, tookMessage t = some queuedEvent →
          queuedEvent.eventId = exampleEvent →
            event.SameContent queuedEvent.event ∧
            queuedEvent.acceptedAtMs = acceptedAtMs ∧
            ∃ entry ∈ (streamAt cfg.state.store .events).entries,
              entry.id.text = queuedEvent.streamId ∧
              entry.fields = eventMessage exampleEvent event acceptedAtMs) ∧
        recordsAt cfg.state.store .quarantine = [] := by
  have hrun : (redisOracle.play Service.anyCall ⟨World.initial, []⟩
      rejectedSchedule).map (fun cfg => decide
        (cfg.threads.filterMap (fun t => (tookMessage t).map
            fun queuedEvent => queuedEvent.eventId) = [exampleEvent] ∧
          (recordsAt cfg.state.store .deadLetter).map
            (fun record => fieldValue record "event_id") =
              [some exampleEvent.text] ∧
          (World.acceptances cfg.state).map Prod.fst = [exampleEvent])) =
      some true := by
    decide +kernel
  obtain ⟨cfg, hplay, hstate⟩ := Option.map_eq_some_iff.mp hrun
  obtain ⟨htook, hrecords, haccepted⟩ := of_decide_eq_true hstate
  have hreach : Service.Reachable Service.anyCall cfg :=
    Oracle.reachable_of_play rfl hplay
  obtain ⟨hcontent, -, hquarantine⟩ := accepted_content_kept hreach
  have hmem : exampleEvent ∈ (World.acceptances cfg.state).map Prod.fst := by
    rw [haccepted]
    exact List.mem_cons_self
  have htaken : exampleEvent ∈ cfg.threads.filterMap (fun t =>
      (tookMessage t).map fun queuedEvent => queuedEvent.eventId) := by
    rw [htook]
    exact List.mem_cons_self
  obtain ⟨⟨e, fields⟩, hacc, rfl⟩ := List.mem_map.mp hmem
  obtain ⟨t, ht, hsome⟩ := List.mem_filterMap.mp htaken
  obtain ⟨queuedEvent, hmessage, hid⟩ := Option.map_eq_some_iff.mp hsome
  obtain ⟨event, acceptedAtMs, hevent, rfl, hread, -⟩ :=
    hcontent _ fields hacc
  exact ⟨cfg, hreach, ⟨t, ht, queuedEvent, hmessage, hid⟩, hrecords, event,
    acceptedAtMs, hevent, hacc, hread, hquarantine⟩

end Readers

end Hooklane
