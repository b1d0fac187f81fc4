import Hooklane.Cloudflare.Budget
import Hooklane.Cloudflare.Guarantees

/-!
# What the configured queue guarantees

The consumer of `wrangler.jsonc` gives a message up after its fifth `retry()`.
In a reliable environment the messages of an unfinished event stay in the
delivery queue unless its deliveries had to be put off: a deferral uses up a
retry of the message that meets it.
-/

namespace Hooklane.Cloudflare

open Support

variable {lib : Stdlib} {e : UUID} {n : ℕ}

/-- `max_retries` of the consumer. -/
def maxRetries : ℕ := 4

/-- A message that is neither acknowledged nor given up. -/
def World.InDeliveryQueue (w : World) (n : ℕ) : Prop :=
  n < w.messages.length ∧ n ∉ w.acked ∧ w.retried.count n ≤ maxRetries

instance (w : World) (n : ℕ) : Decidable (w.InDeliveryQueue n) :=
  inferInstanceAs (Decidable (_ ∧ _ ∧ _))

/-- What clients, the scheduler and the queue start: the consumer gets messages
of the delivery queue, and the test endpoints are off. -/
def Configured (lib : Stdlib) (w : World) : Request → Prop
  | .accept service event _ _ => service.store.lib = lib ∧ event.WellFormed
  | .queue service batch =>
      service.store.lib = lib ∧ ∀ m ∈ batch, w.InDeliveryQueue m.id
  | .repair _ | .getStatus .. => True
  | .process .. | .markDeliveryStarted .. => False

/-- The configured backend in a reliable environment. -/
abbrev configuredService (lib : Stdlib) : Service (d1Machine.within Reliable) :=
  ((d1Service (· = 5)).within Reliable).only (Configured lib)

section Budget

variable {cfg : (configuredService lib).Config}

theorem wellMade_body {w : World} {request : Request}
    (h : Configured lib w request) : request.body.CallsOnly WellMade := by
  have hother : ∀ op, NoBatch op → WellMade op := by
    intro op hop
    cases op with
    | d1 call =>
        cases call with
        | acceptBatch => exact hop.elim
        | _ => trivial
    | _ => trivial
  refine (callsOnly_body request).mono ?_
  rintro op (hop | ⟨service, event, key, proposed, rfl, hop⟩)
  · exact hother op hop
  · rcases hop with hplain | ⟨id, chunks, nowMs, hcut, rfl⟩
    · exact hother op hplain.noBatch
    · exact ⟨event, h.2, rfl, hcut⟩

theorem formed_of_wellMade {op : Op} (h : WellMade op) : Formed op := by
  cases op with
  | d1 call =>
      cases call with
      | acceptBatch =>
          obtain ⟨event, -, htype, hcut⟩ := h
          exact ⟨event, htype, hcut⟩
      | _ => trivial
  | _ => trivial

/-- The same backend, where each step is known to be well made. -/
abbrev carefulService (lib : Stdlib) : Service (FreshMachine Careful) :=
  (configuredService lib).executing (FreshMachine Careful).exec

theorem reachable_careful (h : Service.Reachable FreshProposals cfg) :
    Service.Reachable (S := carefulService lib) Service.anyCall
      ⟨cfg.state, cfg.threads⟩ := by
  have hbodies : ∀ (w : World) (request : Request),
      (configuredService lib).Enabled w request →
        ((configuredService lib).body request).CallsOnly WellMade :=
    fun _ _ henabled => wellMade_body henabled.2
  refine (h.guarded hbodies).1.executing ?_
  rintro w op reply w' ⟨hfresh, hmade⟩ ⟨hexec, hreliable⟩
  exact ⟨⟨hfresh, formed_of_wellMade hmade⟩, hexec, hreliable, hmade⟩

/-- Every request of the configured backend pays for its retries. -/
theorem carefulService_pays (hlib : Stdlib.ReadsObjects lib) {w : World}
    (hw : FreshReach Careful w) (request : Request)
    (henabled : (carefulService lib).Enabled w request) :
    Prog.Pays (retryRates e n 5) ((carefulService lib).body request)
      (fun _ _ _ => True) 0 w := by
  obtain ⟨hmaximum, hconfigured⟩ := henabled
  cases request with
  | accept service event key proposed =>
      refine (Prog.pays_of_free (callsOnly_accept service event key proposed).run
        ?_ hw).mono fun _ _ _ _ _ => trivial
      rintro t op (hplain | ⟨id, chunks, nowMs, -, rfl⟩)
      · exact price_plain t hplain
      · rfl
  | repair limit =>
      exact (pays_plain hw (plain_repair limit)).mono fun _ _ _ _ _ => trivial
  | getStatus store eventId =>
      exact (pays_plain hw plain_getStatus).mono fun _ _ _ _ _ => trivial
  | queue service batch =>
      obtain ⟨hbound, hplaced⟩ := hmaximum
      obtain ⟨rfl, -⟩ := hconfigured
      exact pays_queue hlib hbound hw hplaced
  | process | markDeliveryStarted => exact hconfigured.elim

/-- The retries of a message of the event, against the claims and deferrals
of the event. -/
theorem retried_le (hlib : Stdlib.ReadsObjects lib)
    (h : Service.Reachable FreshProposals cfg)
    (hmessage : cfg.state.messages[n]? = some e.text) :
    cfg.state.retried.count n ≤ maxRetries + cfg.state.deferrals e := by
  have hspent : paidRetries e n cfg.state ≤ earnedRetries e 5 cfg.state := by
    refine Service.Reachable.spent_le_earned (T := retryRates e n 5)
      (paidRetries e n) (earnedRetries e 5)
      (fun _ _ _ _ hexec => paidRetries_exec hexec.2.1)
      (fun _ _ _ _ hexec => earnedRetries_exec hexec.2.1)
      (fun _ request hw henabled => carefulService_pays hlib hw request henabled)
      ?_ (reachable_careful h)
    rintro w rfl
    exact Nat.zero_le _
  have hinvariant := reach_invariant (reached_of_reachable h.ofOnly.widen)
  have hearly := Journal.claims_below (fun m hm => hm.1)
    (hinvariant.journaled e)
  rw [← early_eq_claims] at hearly
  rw [paidRetries, if_pos (Or.inr hmessage)] at hspent
  have hle : cfg.state.history.countP (Record.early e 5) ≤ maxRetries :=
    hearly.trans (min_le_right _ _)
  exact hspent.trans (Nat.add_le_add_right hle _)

end Budget

section References

variable {cfg : (configuredService lib).Config}

/-- Every unfinished event has a pending outbox row or an unacknowledged
message, and its messages stay in the delivery queue but for its deferrals:
no message of the event is retried more often than `maxRetries` and its
deferrals allow. -/
theorem unfinished_event_redelivered (hlib : Stdlib.ReadsObjects lib)
    (h : Service.Reachable FreshProposals cfg) {e : UUID} {row : EventRow}
    (hrow : cfg.state.db.events.lookup e = some row)
    (hopen : ¬(row.status = .delivered ∨ row.status = .deadLetter)) :
    (∀ n, cfg.state.messages[n]? = some e.text →
      cfg.state.retried.count n ≤ maxRetries + cfg.state.deferrals e) ∧
    (outboxState cfg.state.db e = some .pending ∨
      ∃ n, cfg.state.messages[n]? = some e.text ∧ n ∉ cfg.state.acked) ∧
    (cfg.state.deferrals e = 0 → outboxState cfg.state.db e = some .pending ∨
      ∃ n, cfg.state.messages[n]? = some e.text ∧
        cfg.state.InDeliveryQueue n) := by
  have hretried : ∀ n, cfg.state.messages[n]? = some e.text →
      cfg.state.retried.count n ≤ maxRetries + cfg.state.deferrals e :=
    fun n hmessage => retried_le hlib h hmessage
  have hreached : Service.Reachable Service.anyCall cfg.ofOnly.widen :=
    h.ofOnly.widen.mono fun _ _ _ => trivial
  have hreferenced := (unfinished_event_referenced hreached).1 e row hrow hopen
  refine ⟨hretried, hreferenced, fun hnone => ?_⟩
  refine hreferenced.imp_right ?_
  rintro ⟨n, hmessage, hacked⟩
  have hlt : n < cfg.state.messages.length :=
    (List.getElem?_eq_some_iff.mp hmessage).1
  have hcount := hretried n hmessage
  rw [hnone] at hcount
  exact ⟨n, hmessage, hlt, hacked, hcount⟩

end References

section Samples

/-- The answers of a schedule in the reliable environment. -/
def Answer.reliable : Answer → Bool
  | .lost | .fails | .sink .raised => false
  | _ => true

theorem reliable_of_answer {w w' : World} {op : Op} {answer : Answer}
    {reply : op.Reply} (hanswer : answer.reliable = true)
    (h : w.answer op answer = some (reply, w')) : Reliable w op reply w' := by
  cases op with
  | d1 call =>
      cases answer with
      | ran =>
          obtain ⟨⟨value, db⟩, -, heq⟩ := Option.map_eq_some_iff.mp h
          obtain ⟨rfl, -⟩ := Prod.mk.inj heq
          exact Option.some_ne_none value
      | lost | fails => cases hanswer
      | sink | number | uuid | done => cases h
  | queueSend eventId =>
      cases answer with
      | ran => exact (Prod.mk.inj (Option.some.inj h)).1.symm
      | lost | fails => cases hanswer
      | sink | number | uuid | done => cases h
  | deliver record =>
      cases answer with
      | sink given =>
          obtain ⟨rfl, -⟩ := Prod.mk.inj (Option.some.inj h)
          rintro rfl
          cases hanswer
      | ran | lost | fails | number | uuid | done => cases h
  | time | uuid4 | uniform | emit | ack | retry => trivial

/-- Concrete schedules in the reliable environment. -/
def reliableOracle : Oracle (d1Machine.within Reliable) where
  Answer := Answer
  answer := fun w op answer =>
    if answer.reliable then w.answer op answer else none
  sound := by
    rintro w op answer reply w' h
    obtain ⟨hanswer, h⟩ := Option.ite_none_right_eq_some.mp h
    exact ⟨World.exec_of_answer h, reliable_of_answer hanswer h⟩

/-- A JSON reader for the one payload of the schedules below. -/
def emptyPayloadLib : Stdlib where
  jsonLoads := fun _ => .ok (.obj [])
  sha256 := fun text => text

theorem emptyPayloadLib_readsObjects : Stdlib.ReadsObjects emptyPayloadLib :=
  fun _ _ => ⟨[], rfl⟩

def reliableService : DeliveryService where
  store := ⟨emptyPayloadLib⟩
  positive := sampleService.positive

abbrev ReliableAction := reliableOracle.Action (configuredService emptyPayloadLib)

theorem sampleRequest_wellFormed : sampleRequest.WellFormed :=
  .obj [] List.nodup_nil nofun

/-- The reference of the event at one place of the queue. -/
def sampleMessage (n : ℕ) : Message := ⟨n, sampleEvent.text⟩

/-- The consumer gets the message at a place, if it is in the delivery queue. -/
def consume (n : ℕ) : ReliableAction :=
  .startWhen (.queue reliableService [sampleMessage n])
    (fun w => decide (w.messages[n]? = some sampleEvent.text ∧
      World.InDeliveryQueue w n)) <| by
    intro w h
    obtain ⟨hmessage, hplace⟩ := of_decide_eq_true h
    refine ⟨⟨rfl, ?_⟩, rfl, ?_⟩
    · rintro m hm
      obtain rfl := List.mem_singleton.mp hm
      exact hmessage
    · rintro m hm
      obtain rfl := List.mem_singleton.mp hm
      exact hplace

/-- The client sends the reference while a repair sends it as well, so the
queue holds two messages for the event. -/
def doubledSchedule : List ReliableAction :=
  [.start (.accept ⟨⟨emptyPayloadLib⟩⟩ sampleRequest none (some sampleEvent))
      fun _ => ⟨trivial, rfl, sampleRequest_wellFormed⟩,
    .act 0 (.number 1), .act 0 .ran, .act 0 .done, .act 0 .ran,
    .start (.repair 100) fun _ => ⟨trivial, trivial⟩,
    .act 1 (.uuid (UUID.ofNat 2)), .act 1 (.number 1), .act 1 .ran,
    .act 1 .ran, .act 1 (.number 1), .act 1 .ran, .act 1 .done,
    .act 0 (.number 1), .act 0 .ran, .act 0 .done]

/-- A handler claims the event for the message and calls the sink. -/
def attempted (i n id : ℕ) : List ReliableAction :=
  [consume n, .act i (.number 2), .act i (.uuid (UUID.ofNat id)), .act i .ran,
    .act i .ran, .act i .done]

/-- The sink times out, and the handler retries its message. -/
def timedOut (i : ℕ) : List ReliableAction :=
  [.act i (.sink (.failed .timeout)), .act i (.number 3), .act i .ran,
    .act i (.number 1), .act i .done, .act i .done]

/-- A handler finds the event busy and retries its message. -/
def deferred (i n id : ℕ) : List ReliableAction :=
  [consume n, .act i (.number 2), .act i (.uuid (UUID.ofNat id)), .act i .ran,
    .act i .ran, .act i .done, .act i .done]

/-- Two attempts fail, and during each of them the other message meets the
running attempt four times. -/
def usedUpSchedule : List ReliableAction :=
  doubledSchedule ++ attempted 2 0 3 ++
    (List.range 4).flatMap (fun i => deferred (3 + i) 1 (4 + i)) ++
    timedOut 2 ++ attempted 7 1 8 ++
    (List.range 4).flatMap (fun i => deferred (8 + i) 0 (9 + i)) ++
    timedOut 7

def reliableStart : (configuredService emptyPayloadLib).Config := ⟨{}, []⟩

theorem reachable_of_reliable {schedule : List ReliableAction} {α : Type}
    {f : (configuredService emptyPayloadLib).Config → α} {a : α}
    (h : (reliableOracle.play FreshProposals reliableStart schedule).map f =
      some a) : ∃ cfg, Service.Reachable FreshProposals cfg ∧ f cfg = a := by
  obtain ⟨cfg, hplay, hstate⟩ := Option.map_eq_some_iff.mp h
  exact ⟨cfg, Oracle.reachable_of_play rfl hplay, hstate⟩

/-- After one failed attempt the event is unfinished, and its reference is
still in the delivery queue. -/
theorem unfinished_event_redelivered_example :
    ∃ cfg : (configuredService emptyPayloadLib).Config,
      publicRow cfg.state = some (.retryScheduled, 1) ∧
      outboxState cfg.state.db sampleEvent = some .sent ∧
      cfg.state.deferrals sampleEvent = 0 ∧ cfg.state.retried = [0] ∧
      (cfg.state.deferrals sampleEvent = 0 →
        outboxState cfg.state.db sampleEvent = some .pending ∨
          ∃ n, cfg.state.messages[n]? = some sampleEvent.text ∧
            cfg.state.InDeliveryQueue n) := by
  have hrun : (reliableOracle.play FreshProposals reliableStart
      (doubledSchedule ++ attempted 2 0 3 ++ timedOut 2)).map (fun cfg =>
        (publicRow cfg.state, outboxState cfg.state.db sampleEvent,
          cfg.state.deferrals sampleEvent, cfg.state.retried)) =
      some (some (.retryScheduled, 1), some .sent, 0, [0]) := by
    decide +kernel
  obtain ⟨cfg, hreach, hstate⟩ := reachable_of_reliable hrun
  obtain ⟨hpublic, hstate⟩ := Prod.mk.inj hstate
  obtain ⟨houtbox, hstate⟩ := Prod.mk.inj hstate
  obtain ⟨hdeferrals, hretried⟩ := Prod.mk.inj hstate
  obtain ⟨row, hrow, hstatus, -⟩ := row_of_publicRow hpublic
  refine ⟨cfg, hpublic, houtbox, hdeferrals, hretried, ?_⟩
  exact (unfinished_event_redelivered emptyPayloadLib_readsObjects hreach hrow
    (by simp [hstatus])).2.2

/-- Busy deferrals use up the retries of both messages of an event that waits
for its third attempt. -/
theorem references_used_up :
    ¬∀ cfg : (configuredService emptyPayloadLib).Config,
      Service.Reachable FreshProposals cfg →
      ∀ (e : UUID) (row : EventRow), cfg.state.db.events.lookup e = some row →
        ¬(row.status = .delivered ∨ row.status = .deadLetter) →
        outboxState cfg.state.db e = some .pending ∨
          ∃ n, cfg.state.messages[n]? = some e.text ∧
            cfg.state.InDeliveryQueue n := by
  intro hclaim
  have hrun : (reliableOracle.play FreshProposals reliableStart
      usedUpSchedule).map (fun cfg =>
        (publicRow cfg.state, outboxState cfg.state.db sampleEvent,
          decide (∀ n < cfg.state.messages.length,
            ¬cfg.state.InDeliveryQueue n))) =
      some (some (.retryScheduled, 2), some .sent, true) := by
    decide +kernel
  obtain ⟨cfg, hreach, hstate⟩ := reachable_of_reliable hrun
  obtain ⟨hpublic, hstate⟩ := Prod.mk.inj hstate
  obtain ⟨houtbox, hgone⟩ := Prod.mk.inj hstate
  obtain ⟨row, hrow, hstatus, -⟩ := row_of_publicRow hpublic
  rcases hclaim cfg hreach sampleEvent row hrow (by simp [hstatus]) with
    hpending | ⟨n, hmessage, hplace⟩
  · rw [houtbox] at hpending
    cases hpending
  · exact of_decide_eq_true hgone n hplace.1 hplace

end Samples

end Hooklane.Cloudflare
