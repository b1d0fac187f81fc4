import Hooklane.Cloudflare.Attempts
import Hooklane.Cloudflare.Discipline

/-!
# What the Cloudflare backend guarantees

The results hold for every interleaving of acceptances, repairs, deliveries and
queue batches, with lost replies, failing statements, expiring leases and any
clock.  Where a result needs distinct delivery tokens, its runs are those in
which no claim repeats a token.
-/

namespace Hooklane.Cloudflare

open Support

variable {maxima : ℕ → Prop} {G : World → Op → Prop} {e : UUID}
  {cfg cfg' : (d1Service maxima).Config}

section Runs

theorem reached_of_reachable (h : Service.Reachable G cfg) :
    Reached G maxima cfg.state := by
  have hsound := (h.restrict.sound (d1Service_disciplined maxima G)).1
  exact hsound.reach

theorem onward_of_steps (h : Service.Reachable G cfg)
    (hsteps : Service.Steps G cfg cfg') :
    Onward G maxima cfg.state cfg'.state := by
  have hdisciplined := d1Service_disciplined maxima G
  have hsound := (h.restrict.sound hdisciplined).1
  obtain ⟨-, hlater⟩ :=
    Service.Config.sound_of_steps hdisciplined hsound hsteps.restrict
  exact hlater.mono fun _ _ hmay => hmay.1

theorem post_of_reachable (h : Service.Reachable G cfg) {request : Request}
    {result : request.Result}
    (hthread : (⟨request, .pure result⟩ : (d1Service maxima).Thread) ∈
      cfg.threads) : Post G maxima request result cfg.state :=
  h.restrict.post (d1Service_disciplined maxima G) hthread

theorem lifecycle_of_row {w : World} {row : EventRow}
    (hrow : w.db.events.lookup e = some row) :
    w.lifecycle e = some row.lifecycle := by
  rw [World.lifecycle, hrow, Option.map_some]

theorem row_of_lifecycle {w : World} {l : Lifecycle}
    (h : w.lifecycle e = some l) :
    ∃ row, w.db.events.lookup e = some row ∧ row.status = l.status ∧
      row.attemptCount = l.attemptCount := by
  obtain ⟨row, hrow, rfl⟩ := Option.map_eq_some_iff.mp h
  exact ⟨row, hrow, rfl, rfl⟩

theorem steps_reached (h : Service.Reachable G cfg)
    (hsteps : Service.Steps G cfg cfg') : Reached G maxima cfg'.state :=
  reached_of_reachable (h.steps hsteps)

end Runs

section Samples

/-- A JSON reader that knows the one payload of the schedules below. -/
def sampleLib : Stdlib where
  jsonLoads := fun text =>
    if text = "{}" then .ok (.obj []) else .error .malformed
  sha256 := fun text => text

def sampleStore : D1EventStore := ⟨sampleLib⟩

def sampleEvent : UUID := UUID.ofNat 1

def sampleRequest : EventRequest := ⟨"order.created", [], by decide⟩

/-- The service of the Worker, and one that allows a single attempt. -/
def sampleService : DeliveryService where
  store := sampleStore

def singleAttempt : DeliveryService where
  store := sampleStore
  maximumAttempts := 1

abbrev SampleAction (M : ℕ) := d1Oracle.Action (d1Service (· = M))

/-- The event is stored, and its accepting client stops. -/
def storedSchedule {M : ℕ} : List (SampleAction M) :=
  [.start (.accept ⟨sampleStore⟩ sampleRequest none (some sampleEvent))
      fun _ => trivial,
    .act 0 (.number 1), .act 0 .ran]

/-- A delivery claims the event at `now` under the token of `id`, and the sink
answers. -/
def attemptSchedule {M : ℕ} (i : ℕ) (now : ℚ) (id : ℕ) (reply : SinkReply) :
    List (SampleAction M) :=
  [.act i (.number now), .act i (.uuid (UUID.ofNat id)), .act i .ran,
    .act i .ran, .act i .done, .act i (.sink reply)]

/-- The event is stored and delivered. -/
def deliveredSchedule : List (SampleAction 5) :=
  storedSchedule ++
    [.start (.process sampleService sampleEvent) fun _ => rfl] ++
    attemptSchedule 1 2 7 .success ++
    [.act 1 (.number 3), .act 1 .ran, .act 1 .done]

def sampleStart {M : ℕ} : (d1Service (· = M)).Config := ⟨{}, []⟩

/-- What the row of the event shows. -/
def publicRow (w : World) : Option (EventStatus × ℕ) :=
  (w.db.events.lookup sampleEvent).map fun row =>
    (row.status, row.attemptCount)

theorem row_of_publicRow {w : World} {status : EventStatus} {attempts : ℕ}
    (h : publicRow w = some (status, attempts)) :
    ∃ row, w.db.events.lookup sampleEvent = some row ∧ row.status = status ∧
      row.attemptCount = attempts := by
  obtain ⟨row, hrow, heq⟩ := Option.map_eq_some_iff.mp h
  obtain ⟨hstatus, hattempts⟩ := Prod.mk.inj heq
  exact ⟨row, hrow, hstatus, hattempts⟩

/-- The token that `uuid4` gives to a claim. -/
def sampleToken (id : ℕ) : String :=
  String.ofList ((UUID.ofNat id).digits.map UUID.hexDigit)

/-- The result of the `process` call in a place of the configuration. -/
def processed {M : ℕ} (cfg : (d1Service (· = M)).Config) (i : ℕ) :
    Option DeliveryResult :=
  match cfg.threads[i]? with
  | some ⟨.process .., .pure (.ok result)⟩ => some result
  | _ => none

theorem mem_of_processed {M : ℕ} {cfg : (d1Service (· = M)).Config} {i : ℕ}
    {result : DeliveryResult} (h : processed cfg i = some result) :
    ∃ service e, (⟨.process service e, .pure (.ok result)⟩ :
      (d1Service (· = M)).Thread) ∈ cfg.threads := by
  unfold processed at h
  split at h
  · next service e result' hthread =>
    obtain rfl := Option.some.inj h
    exact ⟨service, e, List.mem_of_getElem? hthread⟩
  · cases h

theorem reachable_of_sample {M : ℕ} {G : d1Machine.State → Op → Prop}
    [∀ (w : d1Machine.State) op, Decidable (G w op)]
    {schedule : List (SampleAction M)} {α : Type}
    {f : (d1Service (· = M)).Config → α} {a : α}
    (h : (d1Oracle.play G sampleStart schedule).map f = some a) :
    ∃ cfg, Service.Reachable G cfg ∧ f cfg = a := by
  obtain ⟨cfg, hplay, hstate⟩ := Option.map_eq_some_iff.mp h
  exact ⟨cfg, Oracle.reachable_of_play rfl hplay, hstate⟩

end Samples

section Acknowledgement

/-- `process` acknowledges finished events only: the result's status and
attempts are those of the row, now and in every later state; a message is
acknowledged only for such an event, and an event is delivered only after the
sink has accepted it. -/
theorem acknowledged_event_finished {M : ℕ}
    {cfg : (d1Service (· = M)).Config}
    (hreach : Service.Reachable DistinctTokens cfg) :
    (∀ (service : DeliveryService) (e : UUID) (result : DeliveryResult),
      (⟨.process service e, .pure (.ok result)⟩ :
        (d1Service (· = M)).Thread) ∈ cfg.threads →
      result.disposition = .ack →
      ∀ cfg', Service.Steps DistinctTokens cfg cfg' →
        ∃ row, cfg'.state.db.events.lookup e = some row ∧
          (row.status = .delivered ∨ row.status = .deadLetter) ∧
          row.status = result.status ∧
          row.attemptCount = result.attemptCount) ∧
    (∀ n ∈ cfg.state.acked, ∃ e : UUID,
      cfg.state.messages[n]? = some e.text ∧ cfg.state.Finished e) ∧
    ∀ e row, cfg.state.db.events.lookup e = some row →
      row.status = .delivered → cfg.state.Succeeded e := by
  have hstrict : Strict DistinctTokens (· = M) :=
    ⟨fun _ _ h => h, fun _ _ hm hm' => hm.trans hm'.symm⟩
  have hreached := reached_of_reachable hreach
  have hinv := reach_invariant hreached
  refine ⟨?_, hinv.acked, ?_⟩
  · intro service e result hthread hack cfg' hsteps
    have hpost := post_of_reachable hreach hthread result rfl hack
    obtain ⟨l, hclosed, hstatus, hattempt⟩ := lasting_answered e _ _ _ _
      hreached (onward_of_steps hreach hsteps) hpost
    obtain ⟨row, hrow, hrowStatus, hrowAttempt⟩ := row_of_lifecycle hclosed.1
    exact ⟨row, hrow, hrowStatus ▸ hclosed.2, hrowStatus.trans hstatus,
      hrowAttempt.trans (hattempt hstrict)⟩
  · intro e row hrow hdelivered
    exact hinv.delivered e row.lifecycle (lifecycle_of_row hrow) hdelivered

/-- The delivery of the sample event is acknowledged. -/
theorem acknowledged_event_finished_example :
    ∃ (cfg : (d1Service (· = 5)).Config) (result : DeliveryResult),
      processed cfg 1 = some result ∧ result.disposition = .ack ∧
      ∃ e row, cfg.state.db.events.lookup e = some row ∧
        row.status = result.status ∧
        row.attemptCount = result.attemptCount := by
  have hrun : (d1Oracle.play DistinctTokens sampleStart
      deliveredSchedule).map (fun cfg => processed cfg 1) =
      some (some ⟨.ack, sampleEvent, 1, .delivered, none⟩) := by
    decide +kernel
  obtain ⟨cfg, hreach, hresult⟩ := reachable_of_sample hrun
  obtain ⟨service, e, hthread⟩ := mem_of_processed hresult
  obtain ⟨row, hrow, -, hstatus, hattempts⟩ :=
    (acknowledged_event_finished hreach).1 service e _ hthread rfl cfg
      Relation.ReflTransGen.refl
  exact ⟨cfg, _, hresult, rfl, e, row, hrow, hstatus, hattempts⟩

end Acknowledgement

section Ownership

end Ownership

section Bounds

/-- With one bound the attempts of an event are its claims up to the bound,
and the sink is called at most once for each claim. -/
theorem attempts_counted {M : ℕ} {cfg : (d1Service (· = M)).Config}
    (hreach : Service.Reachable Service.anyCall cfg) (e : UUID) :
    (∀ row, cfg.state.db.events.lookup e = some row →
      row.attemptCount =
        min (claims (cfg.state.journal e)).length M) ∧
    cfg.state.sinkCalls e ≤ (claims (cfg.state.journal e)).length := by
  refine ⟨?_, sinkCalls_le_claims hreach e⟩
  intro row hrow
  have hlog := (reach_invariant (reached_of_reachable hreach)).journaled e
  rw [lifecycle_of_row hrow] at hlog
  exact hlog.attemptCount_eq (fun _ hm => hm.1) rfl

/-- A service that allows one attempt crashes at the sink, and after the lease
has expired it claims the event again. -/
def reclaimedSchedule : List (SampleAction 1) :=
  storedSchedule ++
    [.start (.process singleAttempt sampleEvent) fun _ => rfl] ++
    attemptSchedule 1 2 7 .raised ++
    [.start (.process singleAttempt sampleEvent) fun _ => rfl] ++
    attemptSchedule 2 40 8 .raised

theorem reclaimed_run :
    ∃ cfg : (d1Service (· = 1)).Config,
      Service.Reachable Service.anyCall cfg ∧
      publicRow cfg.state = some (.delivering, 1) ∧
      (claims (cfg.state.journal sampleEvent)).length = 2 ∧
      cfg.state.sinkCalls sampleEvent = 2 := by
  have hrun : (d1Oracle.play Service.anyCall sampleStart
      reclaimedSchedule).map (fun cfg => (publicRow cfg.state,
        (claims (World.journal cfg.state sampleEvent)).length,
        World.sinkCalls cfg.state sampleEvent)) =
      some (some (.delivering, 1), 2, 2) := by
    decide +kernel
  obtain ⟨cfg, hreach, hstate⟩ := reachable_of_sample hrun
  obtain ⟨hpublic, hcounts⟩ := Prod.mk.inj hstate
  obtain ⟨hclaims, hcalls⟩ := Prod.mk.inj hcounts
  exact ⟨cfg, hreach, hpublic, hclaims, hcalls⟩

/-- An attempt at the bound can be claimed again: then the count falls behind
the claims, and the sink is called more often than the bound. -/
theorem attempts_overrun :
    ¬∀ (M : ℕ) (cfg : (d1Service (· = M)).Config) (e : UUID) (row : EventRow),
      Service.Reachable Service.anyCall cfg →
      cfg.state.db.events.lookup e = some row →
      row.attemptCount = (claims (cfg.state.journal e)).length ∧
        (claims (cfg.state.journal e)).length ≤ M ∧
        cfg.state.sinkCalls e ≤ M := by
  intro hclaim
  obtain ⟨cfg, hreach, hpublic, -, hcalls⟩ := reclaimed_run
  obtain ⟨row, hrow, -, -⟩ := row_of_publicRow hpublic
  have hbound := (hclaim 1 cfg sampleEvent row hreach hrow).2.2
  rw [hcalls] at hbound
  exact absurd hbound (by decide)

/-- The counts in that run. -/
theorem attempts_counted_example :
    ∃ cfg : (d1Service (· = 1)).Config,
      (claims (cfg.state.journal sampleEvent)).length = 2 ∧
      cfg.state.sinkCalls sampleEvent = 2 ∧
      ∃ row, cfg.state.db.events.lookup sampleEvent = some row ∧
        row.attemptCount = 1 ∧
        row.attemptCount =
          min (claims (cfg.state.journal sampleEvent)).length 1 := by
  obtain ⟨cfg, hreach, hpublic, hclaims, hcalls⟩ := reclaimed_run
  obtain ⟨row, hrow, -, hattempts⟩ := row_of_publicRow hpublic
  exact ⟨cfg, hclaims, hcalls, row, hrow, hattempts,
    (attempts_counted hreach sampleEvent).1 row hrow⟩

end Bounds

section Outbox

/-- No event is lost between D1 and the queue: every unfinished event has a
pending outbox row or an unacknowledged message, and an outbox row is `sent`
only after a send for it has succeeded. -/
theorem unfinished_event_referenced
    (hreach : Service.Reachable Service.anyCall cfg) :
    (∀ e row, cfg.state.db.events.lookup e = some row →
      ¬(row.status = .delivered ∨ row.status = .deadLetter) →
      outboxState cfg.state.db e = some .pending ∨
        ∃ n, cfg.state.messages[n]? = some e.text ∧ n ∉ cfg.state.acked) ∧
    ∀ e, outboxState cfg.state.db e = some .sent → cfg.state.Sent e := by
  have hinv := reach_invariant (reached_of_reachable hreach)
  refine ⟨?_, hinv.dispatched⟩
  intro e row hrow hopen
  have hmem : e ∈ cfg.state.db.events :=
    AList.lookup_isSome.mp (by rw [hrow]; rfl)
  obtain ⟨state, hstate⟩ :=
    Option.ne_none_iff_exists'.mp ((hinv.paired e).mp hmem)
  cases state with
  | pending => exact Or.inl hstate
  | sent =>
      obtain ⟨n, hlt, hmessage⟩ :=
        List.getElem_of_mem (hinv.stored e (hinv.dispatched e hstate))
      have hn : cfg.state.messages[n]? = some e.text := by
        rw [List.getElem?_eq_getElem hlt, hmessage]
      refine Or.inr ⟨n, hn, fun hacked => hopen ?_⟩
      obtain ⟨e', hmessage', row', hrow', hterminal⟩ := hinv.acked n hacked
      rw [hn] at hmessage'
      obtain rfl := UUID.text_injective (Option.some.inj hmessage')
      rw [hrow] at hrow'
      obtain rfl := Option.some.inj hrow'
      exact hterminal

/-- The client that stored the event goes on: it sends the reference and marks
the outbox row. -/
def dispatchedSchedule : List (SampleAction 5) :=
  storedSchedule ++ [.act 0 .done, .act 0 .ran, .act 0 (.number 2), .act 0 .ran]

/-- The reference to a dispatched event waits in the queue. -/
theorem unfinished_event_referenced_example :
    ∃ cfg : (d1Service (· = 5)).Config,
      publicRow cfg.state = some (.queued, 0) ∧
      outboxState cfg.state.db sampleEvent = some .sent ∧
      (outboxState cfg.state.db sampleEvent = some .pending ∨
        ∃ n, cfg.state.messages[n]? = some sampleEvent.text ∧
          n ∉ cfg.state.acked) ∧
      cfg.state.Sent sampleEvent := by
  have hrun : (d1Oracle.play Service.anyCall sampleStart
      dispatchedSchedule).map (fun cfg =>
        (publicRow cfg.state, outboxState cfg.state.db sampleEvent)) =
      some (some (.queued, 0), some .sent) := by
    decide +kernel
  obtain ⟨cfg, hreach, hstate⟩ := reachable_of_sample hrun
  obtain ⟨hpublic, houtbox⟩ := Prod.mk.inj hstate
  obtain ⟨row, hrow, hstatus, -⟩ := row_of_publicRow hpublic
  obtain ⟨hreferenced, hsent⟩ := unfinished_event_referenced hreach
  refine ⟨cfg, hpublic, houtbox, ?_, hsent sampleEvent houtbox⟩
  exact hreferenced sampleEvent row hrow (by simp [hstatus])

end Outbox

end Hooklane.Cloudflare
