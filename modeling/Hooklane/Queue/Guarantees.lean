import Hooklane.Queue.Discipline

/-!
# What the Redis backend guarantees

The results hold for every interleaving of API requests and worker iterations.
Two of them need more than the scripts check: `_START_DELIVERY_SCRIPT` and
`_SCHEDULE_RETRY_SCRIPT` compare the stream id but not whether the message is
still pending, so a slow worker can reopen an event that another worker has
finished.  `Timely` names the runs in which that does not happen.
-/

namespace Hooklane

open Redis Support

variable {lib : Stdlib} {group : String} {w w' : World} {L L' : Ledger}
  {e : UUID}

section Timely

/-- No call acts for a message that has left the pending list. -/
def Timely (group : String) (w : World) (op : Op) : Prop :=
  ¬LateCall group w op

instance (group : String) (w : World) (op : Op) :
    Decidable (Timely group w op) :=
  match op with
  | .redis call => inferInstanceAs (Decidable ¬Late group w.store call)
  | .deliver _ | .clock | .perfCounter | .uniform _ _ | .uuid4 | .metrics _
  | .log _ => inferInstanceAs (Decidable ¬False)

/-- Every account is settled. -/
def LedgerSettled (L : Ledger) : Prop :=
  ∀ e a, L e = some a → a.Settled

/-- A step that is not late keeps all accounts settled, and keeps the status
and the attempts of a finished event. -/
theorem LedgerSettled.effect {parses : Fields → Prop} {late : Prop}
    {db db' : Store} {acc : Option UUID} {fin : Option (UUID × Ending)}
    (hlate : ¬late) (hvalid : ∀ e a, L e = some a → a.Valid parses)
    (hL : LedgerSettled L) (h : Effect parses late db db' L acc fin L') :
    LedgerSettled L' ∧ ∀ e a, L e = some a → a.status.Terminal →
      ∃ a', L' e = some a' ∧ a'.status = a.status ∧
        a'.attempts = a.attempts := by
  cases h with
  | silent same => exact ⟨hL, fun e a ha _ => ⟨a, ha, rfl, rfl⟩⟩
  | accept e id fields fresh same =>
      refine ⟨?_, ?_⟩
      · exact Ledger.forall_set (Account.settled_initial id fields)
          fun e' a _ ha => hL e' a ha
      · intro e' a ha _
        have hne : e' ≠ e := by
          rintro rfl
          rw [fresh] at ha
          exact absurd ha (by simp)
        exact ⟨a, by rw [Ledger.set_of_ne L _ hne, ha], rfl, rfl⟩
  | advance e a a' known move same =>
      have hmove := move.mono hlate
      obtain ⟨hsettled, hkept⟩ :=
        (hL e a known).transition (hvalid e a known) hmove
      refine ⟨Ledger.forall_set hsettled fun e' b _ hb => hL e' b hb, ?_⟩
      intro e' b hb hterminal
      by_cases he : e' = e
      · subst he
        rw [known] at hb
        obtain rfl := Option.some.inj hb
        exact ⟨a', Ledger.set_self L e' a', hkept hterminal⟩
      · exact ⟨b, by rw [Ledger.set_of_ne L _ he, hb], rfl, rfl⟩
  | finish e ending a a' known move recorded =>
      obtain ⟨hsettled, hnot⟩ := (hL e a known).finish move
      refine ⟨Ledger.forall_set hsettled fun e' b _ hb => hL e' b hb, ?_⟩
      intro e' b hb hterminal
      by_cases he : e' = e
      · subst he
        rw [known] at hb
        obtain rfl := Option.some.inj hb
        exact absurd hterminal hnot
      · exact ⟨b, by rw [Ledger.set_of_ne L _ he, hb], rfl, rfl⟩

/-- In a timely run every account is settled. -/
theorem reach_settled
    (h : redisMachine.Reach (fun w op => May lib group w op ∧ Timely group w op)
      w) :
    ∃ L, Accounted lib group w L ∧ LedgerSettled L := by
  refine Machine.Reach.induction
    (P := fun w => ∃ L, Accounted lib group w L ∧ LedgerSettled L) ?_ ?_ h
  · rintro w rfl
    exact ⟨_, accounted_initial, by simp [LedgerSettled]⟩
  · rintro w op reply w' - ⟨L, hL, hsettled⟩ ⟨hmay, htimely⟩ hexec
    obtain ⟨L', acc, fin, hmoves⟩ := exists_moves hL.represents hmay hexec
    obtain ⟨hsettled', -⟩ :=
      hsettled.effect htimely hL.represents.valid hmoves.effect
    exact ⟨L', hL.moves hmoves, hsettled'⟩

/-- The status and the attempts of an event are those of a finished
account. -/
def FinishedAs (lib : Stdlib) (group : String) (e : UUID)
    (status : EventStatus) (attempts : ℕ) (w : World) : Prop :=
  ∃ L a, Accounted lib group w L ∧ LedgerSettled L ∧ L e = some a ∧
    a.status = status ∧ a.attempts = attempts

theorem later_finishedAs {status : EventStatus} {attempts : ℕ}
    (hterminal : status.Terminal)
    (h : redisMachine.Reach (fun w op => May lib group w op ∧ Timely group w op)
      w)
    (hlater : redisMachine.Later
      (fun w op => May lib group w op ∧ Timely group w op) w w')
    (hw : FinishedAs lib group e status attempts w) :
    FinishedAs lib group e status attempts w' := by
  refine Machine.Later.stable
    (P := FinishedAs lib group e status attempts) ?_ h hlater hw
  rintro w op reply w' - ⟨L, a, hL, hsettled, ha, rfl, rfl⟩ ⟨hmay, htimely⟩
    hexec
  obtain ⟨L', acc, fin, hmoves⟩ := exists_moves hL.represents hmay hexec
  obtain ⟨hsettled', hkept⟩ :=
    hsettled.effect htimely hL.represents.valid hmoves.effect
  obtain ⟨a', ha', hstatus, hattempts⟩ := hkept e a ha hterminal
  exact ⟨L', a', hL.moves hmoves, hsettled', ha', hstatus, hattempts⟩

/-- A status field that is present belongs to an account. -/
theorem account_of_status {db : Store}
    (h : Represents (Parses lib) group db L) (status : EventStatus)
    (hstatus : statusField db e "status" = some status.value) :
    ∃ a, L e = some a ∧ a.status = status := by
  have hexists : ∃ a, L e = some a := by
    unfold statusField at hstatus
    split at hstatus
    · next f hkey =>
      obtain ⟨e', a, htext, ha⟩ := h.status.known _ _ hkey
      rw [← UUID.text_injective htext] at ha
      exact ⟨a, ha⟩
    · exact absurd hstatus (by simp)
  obtain ⟨a, ha⟩ := hexists
  rw [(statusField_eq h ha).1, Option.some.injEq, EventStatus.value_inj]
    at hstatus
  exact ⟨a, ha, hstatus⟩

/-- Terminal states are final in every timely run: once the status hash of an
event says `delivered` or `dead_letter`, its status and attempt count stay as
they are. -/
theorem terminal_status_final {cfg cfg' : (redisService lib group).Config}
    (hreach : Service.Reachable (Timely group) cfg)
    (hsteps : Service.Steps (Timely group) cfg cfg') (e : UUID)
    (hterminal :
      statusField cfg.state.store e "status" = some "delivered" ∨
      statusField cfg.state.store e "status" = some "dead_letter") :
    statusField cfg'.state.store e "status" =
      statusField cfg.state.store e "status" ∧
    statusField cfg'.state.store e "attempt_count" =
      statusField cfg.state.store e "attempt_count" := by
  have hdisciplined := redisService_disciplined lib group
  obtain ⟨hsound, hstate⟩ := hreach.sound hdisciplined
  obtain ⟨-, hlater⟩ :=
    Service.Config.sound_of_steps hdisciplined hsound hsteps
  obtain ⟨L, hL, hsettled⟩ := reach_settled hstate
  obtain ⟨a, ha, hstatus⟩ : ∃ a, L e = some a ∧ a.status.Terminal := by
    rcases hterminal with hterminal | hterminal
    · obtain ⟨a, ha, hstatus⟩ := account_of_status hL.represents
        .delivered hterminal
      exact ⟨a, ha, Or.inl hstatus⟩
    · obtain ⟨a, ha, hstatus⟩ := account_of_status hL.represents
        .deadLetter hterminal
      exact ⟨a, ha, Or.inr hstatus⟩
  obtain ⟨L', a', hL', -, ha', hstatus', hattempts'⟩ :=
    later_finishedAs hstatus hstate hlater ⟨L, a, hL, hsettled, ha, rfl, rfl⟩
  obtain ⟨h₁, h₂, -⟩ := statusField_eq hL.represents ha
  obtain ⟨h₁', h₂', -⟩ := statusField_eq hL'.represents ha'
  rw [h₁, h₂, h₁', h₂', hstatus', hattempts']
  exact ⟨rfl, rfl⟩

/-- No event is stranded in a timely run: the message that the status hash of
an unfinished event names is still unread or pending. -/
theorem open_status_unacknowledged {cfg : (redisService lib group).Config}
    (hreach : Service.Reachable (Timely group) cfg) (e : UUID)
    (hopen :
      statusField cfg.state.store e "status" = some "queued" ∨
      statusField cfg.state.store e "status" = some "delivering" ∨
      statusField cfg.state.store e "status" = some "retry_scheduled") :
    ∃ entry ∈ (streamAt cfg.state.store .events).entries,
      statusField cfg.state.store e "stream_id" = some entry.id.text ∧
      (streamAt cfg.state.store .events).custody group entry.id ≠
        .acknowledged := by
  obtain ⟨-, hstate⟩ := hreach.sound (redisService_disciplined lib group)
  obtain ⟨L, hL, hsettled⟩ := reach_settled hstate
  obtain ⟨a, ha, hstatus⟩ : ∃ a, L e = some a ∧ ¬a.status.Terminal := by
    rcases hopen with hopen | hopen | hopen
    · obtain ⟨a, ha, hstatus⟩ := account_of_status hL.represents
        .queued hopen
      exact ⟨a, ha, by simp [hstatus, EventStatus.Terminal]⟩
    · obtain ⟨a, ha, hstatus⟩ := account_of_status hL.represents
        .delivering hopen
      exact ⟨a, ha, by simp [hstatus, EventStatus.Terminal]⟩
    · obtain ⟨a, ha, hstatus⟩ := account_of_status hL.represents
        .retryScheduled hopen
      exact ⟨a, ha, by simp [hstatus, EventStatus.Terminal]⟩
  refine ⟨⟨a.current, a.fields⟩, hL.represents.stream.current e a ha,
    (statusField_eq hL.represents ha).2.2, ?_⟩
  rw [hL.represents.stream.custody e a ha]
  exact fun hacked => hstatus ((hsettled e a ha).mp hacked)

section SlowWorker

/-- A JSON reader that knows the one payload of the schedules below. -/
def exampleLib : Stdlib where
  jsonLoads := fun text =>
    if text = "{}" then .ok (.obj []) else .error .malformed
  sha256 := fun text => text

def exampleStore : RedisEventStore := ⟨exampleLib, ⟨false, false⟩⟩

def exampleWorker (consumer : String) : EventWorker :=
  { store := exampleStore, consumer := consumer, observers := ⟨false, false⟩ }

def exampleEvent : UUID := UUID.ofNat 1

theorem exampleType_valid : ValidEventType "order.created" := by
  decide

def exampleRequest : EventRequest := ⟨"order.created", [], exampleType_valid⟩

abbrev ExampleAction :=
  redisOracle.Action (redisService exampleLib "hooklane-workers")

/-- An event is enqueued; one worker reads it and stops before it marks the
start; after 60 seconds another worker claims it and delivers it. -/
def claimedSchedule : List ExampleAction :=
  [.start (.enqueue exampleStore exampleEvent exampleRequest) fun _ => trivial,
    .act 0 (.number 1), .act 0 (.ran 1000),
    .start (.runOnce (exampleWorker "slow")) fun _ => ⟨rfl, rfl⟩,
    .act 1 (.ran 2000), .act 1 (.number 2), .act 1 (.ran 2000),
    .act 1 (.ran 2000), .act 1 (.ran 2000),
    .start (.runOnce (exampleWorker "fast")) fun _ => ⟨rfl, rfl⟩,
    .act 2 (.ran 62000), .act 2 (.number 62), .act 2 (.ran 62000),
    .act 2 (.ran 62000), .act 2 (.ran 62000), .act 2 (.ran 62000),
    .act 2 (.number 62), .act 2 (.sink .success), .act 2 (.ran 62000)]

/-- The first worker continues after the event was delivered. -/
def reopeningSchedule : List ExampleAction := [.act 1 (.ran 63000)]

def exampleStart : (redisService exampleLib "hooklane-workers").Config :=
  ⟨World.initial, []⟩

/-- What a status hash shows. -/
def publicState (w : World) : Option String × Option String :=
  (statusField w.store exampleEvent "status",
    statusField w.store exampleEvent "attempt_count")

/-- Every message was acknowledged. -/
def allAcknowledged (w : World) : Bool :=
  decide (∀ entry ∈ (streamAt w.store .events).entries,
    (streamAt w.store .events).custody "hooklane-workers" entry.id =
      .acknowledged)

theorem reachable_of_schedule {G : redisMachine.State → Op → Prop}
    [∀ (w : redisMachine.State) op, Decidable (G w op)]
    {schedule : List ExampleAction}
    {state : Option String × Option String}
    (h : (redisOracle.play G exampleStart schedule).map
      (fun cfg => publicState cfg.state) = some state) :
    ∃ cfg, Service.Reachable G cfg ∧
      redisOracle.play G exampleStart schedule = some cfg ∧
      publicState cfg.state = state := by
  obtain ⟨cfg, hplay, hstate⟩ := Option.map_eq_some_iff.mp h
  exact ⟨cfg, Oracle.reachable_of_play rfl hplay, hplay, hstate⟩

/-- The run of the slow worker: the event was accepted and finished once, is
open again, and has no unacknowledged message. -/
theorem reopened_run : ∃ cfg, Service.Reachable Service.anyCall cfg ∧
    redisOracle.play Service.anyCall exampleStart
      (claimedSchedule ++ reopeningSchedule) = some cfg ∧
    publicState cfg.state = (some "delivering", some "2") ∧
    allAcknowledged cfg.state = true ∧
    World.finished cfg.state = [(exampleEvent, .complete)] ∧
    (World.history cfg.state).filterMap Record.accepted = [exampleEvent] := by
  have hrun : (redisOracle.play Service.anyCall exampleStart
      (claimedSchedule ++ reopeningSchedule)).map (fun cfg => decide
        (publicState cfg.state = (some "delivering", some "2") ∧
          allAcknowledged cfg.state = true ∧
          World.finished cfg.state = [(exampleEvent, .complete)] ∧
          (World.history cfg.state).filterMap Record.accepted =
            [exampleEvent])) = some true := by
    decide +kernel
  obtain ⟨cfg, hplay, hstate⟩ := Option.map_eq_some_iff.mp hrun
  exact ⟨cfg, Oracle.reachable_of_play rfl hplay, hplay,
    of_decide_eq_true hstate⟩

/-- Without the restriction to timely runs a delivered event is reopened and
gets a second attempt. -/
theorem terminal_status_reopened :
    ¬∀ (lib : Stdlib) (group : String)
      (cfg cfg' : (redisService lib group).Config) (e : UUID),
      Service.Reachable Service.anyCall cfg →
      Service.Steps Service.anyCall cfg cfg' →
      (statusField cfg.state.store e "status" = some "delivered" ∨
        statusField cfg.state.store e "status" = some "dead_letter") →
      statusField cfg'.state.store e "status" =
        statusField cfg.state.store e "status" ∧
      statusField cfg'.state.store e "attempt_count" =
        statusField cfg.state.store e "attempt_count" := by
  intro hfinal
  have hclaimed : (redisOracle.play Service.anyCall exampleStart
      claimedSchedule).map (fun cfg => publicState cfg.state) =
      some (some "delivered", some "1") := by
    decide +kernel
  obtain ⟨cfg, hreach, hplay, hstate⟩ := reachable_of_schedule hclaimed
  obtain ⟨cfg', -, hplay', hstate', -⟩ := reopened_run
  rw [Oracle.play_append, hplay, Option.bind_some] at hplay'
  rw [publicState, Prod.mk.injEq] at hstate hstate'
  have hsame := (hfinal _ _ cfg cfg' exampleEvent hreach
    (Oracle.steps_of_play hplay') (Or.inl hstate.1)).1
  rw [hstate.1, hstate'.1] at hsame
  exact absurd hsame (by decide)

/-- A timely run in which a delivered event stays delivered. -/
theorem terminal_status_final_example :
    ∃ cfg cfg' : (redisService exampleLib "hooklane-workers").Config,
      Service.Reachable (Timely "hooklane-workers") cfg ∧
      Service.Steps (Timely "hooklane-workers") cfg cfg' ∧
      statusField cfg.state.store exampleEvent "status" = some "delivered" ∧
      statusField cfg'.state.store exampleEvent "status" =
        statusField cfg.state.store exampleEvent "status" ∧
      statusField cfg'.state.store exampleEvent "attempt_count" =
        statusField cfg.state.store exampleEvent "attempt_count" := by
  have hclaimed : (redisOracle.play (Timely "hooklane-workers") exampleStart
      claimedSchedule).map (fun cfg => publicState cfg.state) =
      some (some "delivered", some "1") := by
    decide +kernel
  have hdone : (redisOracle.play (Timely "hooklane-workers") exampleStart
      (claimedSchedule ++ [.act 2 (.number 63)])).map
      (fun cfg => publicState cfg.state) =
      some (some "delivered", some "1") := by
    decide +kernel
  obtain ⟨cfg, hreach, hplay, hstate⟩ := reachable_of_schedule hclaimed
  rw [Oracle.play_append, hplay] at hdone
  obtain ⟨cfg', hplay', -⟩ := Option.map_eq_some_iff.mp hdone
  rw [publicState, Prod.mk.injEq] at hstate
  have hsteps := Oracle.steps_of_play hplay'
  exact ⟨cfg, cfg', hreach, hsteps, hstate.1,
    terminal_status_final hreach hsteps exampleEvent (Or.inl hstate.1)⟩

/-- The reopened event says `delivering`, and its message was acknowledged. -/
theorem open_status_stranded :
    ¬∀ (lib : Stdlib) (group : String)
      (cfg : (redisService lib group).Config) (e : UUID),
      Service.Reachable Service.anyCall cfg →
      (statusField cfg.state.store e "status" = some "queued" ∨
        statusField cfg.state.store e "status" = some "delivering" ∨
        statusField cfg.state.store e "status" = some "retry_scheduled") →
      ∃ entry ∈ (streamAt cfg.state.store .events).entries,
        statusField cfg.state.store e "stream_id" = some entry.id.text ∧
        (streamAt cfg.state.store .events).custody group entry.id ≠
          .acknowledged := by
  intro hopen
  obtain ⟨cfg, hreach, -, hstate, hacked, -⟩ := reopened_run
  rw [allAcknowledged, decide_eq_true_iff] at hacked
  rw [publicState, Prod.mk.injEq] at hstate
  obtain ⟨entry, hentry, -, hne⟩ :=
    hopen _ _ cfg exampleEvent hreach (Or.inr (Or.inl hstate.1))
  exact hne (hacked entry hentry)

/-- A timely run with an event that is being delivered. -/
theorem open_status_unacknowledged_example :
    ∃ cfg : (redisService exampleLib "hooklane-workers").Config,
      Service.Reachable (Timely "hooklane-workers") cfg ∧
      statusField cfg.state.store exampleEvent "status" = some "delivering" ∧
      ∃ entry ∈ (streamAt cfg.state.store .events).entries,
        statusField cfg.state.store exampleEvent "stream_id" =
          some entry.id.text ∧
        (streamAt cfg.state.store .events).custody "hooklane-workers"
          entry.id ≠ .acknowledged := by
  have hstarted : (redisOracle.play (Timely "hooklane-workers") exampleStart
      (claimedSchedule.take 16)).map (fun cfg => publicState cfg.state) =
      some (some "delivering", some "1") := by
    decide +kernel
  obtain ⟨cfg, hreach, -, hstate⟩ := reachable_of_schedule hstarted
  rw [publicState, Prod.mk.injEq] at hstate
  exact ⟨cfg, hreach, hstate.1, open_status_unacknowledged hreach exampleEvent
    (Or.inr (Or.inl hstate.1))⟩

end SlowWorker

end Timely

section AllRuns

theorem reachable_accounted {G : World → Op → Prop}
    {cfg : (redisService lib group).Config}
    (hreach : Service.Reachable G cfg) :
    ∃ L, Accounted lib group cfg.state L := by
  obtain ⟨-, hstate⟩ := hreach.sound (redisService_disciplined lib group)
  exact reach_accounted (hstate.mono fun _ _ h => h.1)

/-- No accepted event is lost: a message of it is unacknowledged, the sink has
accepted it, or the dead-letter or the quarantine stream holds a record for
one of its messages. -/
theorem accepted_never_lost {cfg : (redisService lib group).Config}
    (hreach : Service.Reachable Service.anyCall cfg) (e : UUID)
    (haccepted : cfg.state.Accepted e) :
    (∃ entry ∈ (streamAt cfg.state.store .events).entries,
      fieldValue entry.fields "event_id" = some e.text ∧
      (streamAt cfg.state.store .events).custody group entry.id ≠
        .acknowledged) ∨
    cfg.state.Succeeded e ∨
    (∃ fields ∈ recordsAt cfg.state.store .deadLetter,
      fieldValue fields "event_id" = some e.text ∧
      ∃ m, lastFieldValue fields "source_stream_id" = some m ∧
        eventOf cfg.state.store m = some e) ∨
    (∃ fields ∈ recordsAt cfg.state.store .quarantine,
      ∃ m, fieldValue fields "source_stream_id" = some m ∧
        eventOf cfg.state.store m = some e) := by
  obtain ⟨L, hL⟩ := reachable_accounted hreach
  obtain ⟨a, ha⟩ := (hL.accepted e).mp haccepted
  by_cases hacked : a.custody = .acknowledged
  · right
    obtain ⟨⟨_, ending⟩, hmem, rfl⟩ :=
      List.mem_map.mp ((hL.finished e).mpr ⟨a, ha, hacked⟩)
    have hevidence := hL.evidence _ ending hmem
    cases ending with
    | complete => exact Or.inl hevidence
    | deadLetter => exact Or.inr (Or.inl hevidence)
    | quarantine => exact Or.inr (Or.inr hevidence)
  · left
    refine ⟨⟨a.current, a.fields⟩, hL.represents.stream.current e a ha,
      (hL.represents.stream.content e a ha).1, ?_⟩
    rw [hL.represents.stream.custody e a ha]
    exact hacked

/-- The delivered event of the schedule above. -/
theorem accepted_never_lost_example :
    ∃ cfg : (redisService exampleLib "hooklane-workers").Config,
      Service.Reachable Service.anyCall cfg ∧
      cfg.state.Accepted exampleEvent ∧
      ((∃ entry ∈ (streamAt cfg.state.store .events).entries,
        fieldValue entry.fields "event_id" = some exampleEvent.text ∧
        (streamAt cfg.state.store .events).custody "hooklane-workers"
          entry.id ≠ .acknowledged) ∨
      cfg.state.Succeeded exampleEvent ∨
      (∃ fields ∈ recordsAt cfg.state.store .deadLetter,
        fieldValue fields "event_id" = some exampleEvent.text ∧
        ∃ m, lastFieldValue fields "source_stream_id" = some m ∧
          eventOf cfg.state.store m = some exampleEvent) ∨
      (∃ fields ∈ recordsAt cfg.state.store .quarantine,
        ∃ m, fieldValue fields "source_stream_id" = some m ∧
          eventOf cfg.state.store m = some exampleEvent)) := by
  obtain ⟨cfg, hreach, -, -, -, -, hevents⟩ := reopened_run
  have haccepted : cfg.state.Accepted exampleEvent := by
    apply List.mem_filterMap.mp
    rw [hevents]
    exact List.mem_cons_self
  exact ⟨cfg, hreach, haccepted,
    accepted_never_lost hreach exampleEvent haccepted⟩

/-- The relations between the stream, the status hashes and the retry schedule
that hold in every reachable state. -/
theorem representation_invariant {cfg : (redisService lib group).Config}
    (hreach : Service.Reachable Service.anyCall cfg) :
    -- An unacknowledged message is the one that the status hash names.
    (∀ entry ∈ (streamAt cfg.state.store .events).entries,
      ∃ e : UUID, fieldValue entry.fields "event_id" = some e.text ∧
        ((streamAt cfg.state.store .events).custody group entry.id ≠
          .acknowledged →
          statusField cfg.state.store e "stream_id" = some entry.id.text) ∧
        ((streamAt cfg.state.store .events).custody group entry.id = .unread →
          statusField cfg.state.store e "status" = some "queued") ∧
        ((streamAt cfg.state.store .events).custody group entry.id = .pending →
          statusField cfg.state.store e "status" = some "queued" ∨
          statusField cfg.state.store e "status" = some "delivering" ∨
          statusField cfg.state.store e "status" = some "retry_scheduled")) ∧
    -- An event has at most one unacknowledged message.
    (∀ entry ∈ (streamAt cfg.state.store .events).entries,
      ∀ other ∈ (streamAt cfg.state.store .events).entries,
      fieldValue entry.fields "event_id" = fieldValue other.fields "event_id" →
      (streamAt cfg.state.store .events).custody group entry.id ≠
        .acknowledged →
      (streamAt cfg.state.store .events).custody group other.id ≠
        .acknowledged → entry = other) ∧
    -- An event that waits for a retry is scheduled and was attempted.
    (∀ e, statusField cfg.state.store e "status" = some "retry_scheduled" →
      e.text ∈ retrySet cfg.state.store ∧
      ∃ n : ℕ, 1 ≤ n ∧
        statusField cfg.state.store e "attempt_count" = some (toString n)) ∧
    -- The claim script never reports a violated invariant.
    ∀ now consumer minIdle m,
      (claimStalePendingScript now group consumer minIdle
        cfg.state.store).1 ≠ .ok (some (m, .invariantViolation)) := by
  obtain ⟨L, hL⟩ := reachable_accounted hreach
  have hrep := hL.represents
  refine ⟨?_, ?_, ?_, ?_⟩
  · intro entry hentry
    obtain ⟨e, a, ha, hfields, hid⟩ := hrep.stream.carried entry hentry
    obtain ⟨hstatus, -, hstreamId⟩ := statusField_eq hrep ha
    have hcustody := hrep.stream.custody e a ha
    have hcurrent : (streamAt cfg.state.store .events).custody group
        entry.id ≠ .acknowledged → entry.id = a.current := by
      intro hne
      by_contra hother
      exact hne (hid hother)
    refine ⟨e, hfields ▸ (hrep.stream.content e a ha).1, ?_, ?_, ?_⟩
    · intro hne
      rw [hstreamId, hcurrent hne]
    · intro hunread
      rw [hcurrent (by simp [hunread]), hcustody] at hunread
      rw [hstatus, (hrep.valid e a ha).unread hunread]
      rfl
    · intro hpending
      rw [hcurrent (by simp [hpending]), hcustody] at hpending
      rw [hstatus]
      rcases (hrep.valid e a ha).pending hpending with h | h | h <;> rw [h]
      · exact Or.inl rfl
      · exact Or.inr (Or.inl rfl)
      · exact Or.inr (Or.inr rfl)
  · intro entry hentry other hother hsame hopen hopen'
    obtain ⟨e, a, ha, rfl, -⟩ := current_of_unread hrep hentry hopen
    obtain ⟨e', a', ha', rfl, -⟩ := current_of_unread hrep hother hopen'
    have htext : some e.text = some e'.text :=
      (hrep.stream.content e a ha).1.symm.trans
        (hsame.trans (hrep.stream.content e' a' ha').1)
    obtain rfl := UUID.text_injective (Option.some.inj htext)
    rw [ha] at ha'
    obtain rfl := Option.some.inj ha'
    rfl
  · intro e hstatus
    obtain ⟨a, ha, hdue⟩ :=
      account_of_status hrep .retryScheduled hstatus
    obtain ⟨hscheduled, hattempts⟩ := (hrep.valid e a ha).retry hdue
    exact ⟨(hrep.schedule.scheduled e a ha).mp hscheduled, a.attempts,
      hattempts, (statusField_eq hrep ha).2.1⟩
  · intro now consumer minIdle m hclaim
    obtain ⟨hready, -⟩ := (claimStalePending_simulated True hrep now
      consumer minIdle).2 m _ hclaim
    exact absurd hready (by simp)

/-- The invariant in the run that reopens a delivered event: it does not
depend on the run being timely. -/
theorem representation_invariant_example :
    ∃ cfg : (redisService exampleLib "hooklane-workers").Config,
      Service.Reachable Service.anyCall cfg ∧
      publicState cfg.state = (some "delivering", some "2") ∧
      ∀ now consumer minIdle m,
        (claimStalePendingScript now "hooklane-workers" consumer minIdle
          cfg.state.store).1 ≠ .ok (some (m, .invariantViolation)) := by
  obtain ⟨cfg, hreach, -, hstate, -⟩ := reopened_run
  exact ⟨cfg, hreach, hstate, (representation_invariant hreach).2.2.2⟩

/-- Every event is finished at most once: of all executions of
`mark_delivered`, `move_to_dead_letter` and the quarantine script for it at
most one commits. -/
theorem finished_at_most_once {cfg : (redisService lib group).Config}
    (hreach : Service.Reachable Service.anyCall cfg) :
    (∀ e, (cfg.state.finished.filter fun p => p.1 = e).length ≤ 1) ∧
    ((recordsAt cfg.state.store .deadLetter).map
      fun fields => fieldValue fields "event_id").Nodup ∧
    ∀ e, (e, Ending.complete) ∈ cfg.state.finished →
      ∀ fields ∈ recordsAt cfg.state.store .deadLetter,
        fieldValue fields "event_id" ≠ some e.text := by
  obtain ⟨L, hL⟩ := reachable_accounted hreach
  have honce := hL.once
  refine ⟨?_, ?_, ?_⟩
  · intro e
    have hcount := List.nodup_iff_count_le_one.mp honce e
    rw [List.count, List.countP_map, List.countP_eq_length_filter] at hcount
    exact hcount
  · rw [hL.deadLetters]
    have hfiltered : ((cfg.state.finished.filter
        fun p => p.2 = Ending.deadLetter).map Prod.fst).Nodup :=
      honce.sublist (List.filter_sublist.map Prod.fst)
    rw [List.Nodup, List.pairwise_map] at hfiltered ⊢
    refine hfiltered.imp fun hne htext => hne ?_
    exact UUID.text_injective (Option.some.inj htext)
  · intro e hcomplete fields hfields hid
    have hmem : some e.text ∈ (recordsAt cfg.state.store .deadLetter).map
        fun fields => fieldValue fields "event_id" :=
      hid ▸ List.mem_map_of_mem hfields
    rw [hL.deadLetters] at hmem
    obtain ⟨⟨e', ending⟩, hdead, htext⟩ := List.mem_map.mp hmem
    rw [List.mem_filter, decide_eq_true_iff] at hdead
    obtain rfl := UUID.text_injective (Option.some.inj htext)
    have hsame := List.inj_on_of_nodup_map honce hcomplete hdead.1 rfl
    rw [Prod.mk.injEq] at hsame
    have hending : ending = .deadLetter := hdead.2
    rw [hending] at hsame
    exact absurd hsame.2 (by simp)

/-- The schedule above commits one finishing script. -/
theorem finished_at_most_once_example :
    ∃ cfg : (redisService exampleLib "hooklane-workers").Config,
      Service.Reachable Service.anyCall cfg ∧
      cfg.state.finished = [(exampleEvent, .complete)] ∧
      (cfg.state.finished.filter fun p => p.1 = exampleEvent).length ≤ 1 := by
  obtain ⟨cfg, hreach, -, -, -, hfinished, -⟩ := reopened_run
  exact ⟨cfg, hreach, hfinished,
    (finished_at_most_once hreach).1 exampleEvent⟩

end AllRuns

end Hooklane
