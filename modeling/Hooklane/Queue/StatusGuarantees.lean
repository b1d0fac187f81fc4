import Hooklane.Queue.Guarantees

/-!
# The public life of an event

The status that the API shows moves along a small graph: an open event is
started, scheduled for a retry or finished, and it is queued again only by the
release of its retry.  Attempts are never given back.
-/

namespace Hooklane

open Redis Relation Support

variable {lib : Stdlib} {group : String} {w w' : World} {L L' : Ledger}
  {e : UUID}

/-- The moves of the public status. -/
inductive EventStatus.Moves : EventStatus → EventStatus → Prop where
  | start {status : EventStatus} (unfinished : status.Open) :
      Moves status .delivering
  | schedule {status : EventStatus} (unfinished : status.Open) :
      Moves status .retryScheduled
  | release : Moves .retryScheduled .queued
  | deliver {status : EventStatus} (unfinished : status.Open) :
      Moves status .delivered
  | deadLetter : Moves .delivering .deadLetter
  | quarantine : Moves .queued .deadLetter

namespace Account

variable {parses : Fields → Prop} {a a' : Account} {ending : Ending}

theorem Valid.open_of_held (hvalid : a.Valid parses)
    (hheld : a.custody ≠ .unread) (htimely : a.custody = .acknowledged → False) :
    a.status.Open := by
  refine hvalid.pending ?_
  cases hcustody : a.custody with
  | unread => exact absurd hcustody hheld
  | pending => rfl
  | acknowledged => exact (htimely hcustody).elim

/-- What a script that is not late does to the public status. -/
theorem Transition.status_moves (hsettled : a.Settled)
    (hvalid : a.Valid parses) (h : Transition parses False a a') :
    ReflGen EventStatus.Moves a.status a'.status := by
  cases h with
  | read unread => exact .refl
  | start held known timely attempts grows =>
      exact .single (.start (hvalid.open_of_held held timely))
  | schedule held known timely started =>
      exact .single (.schedule (hvalid.open_of_held held timely))
  | requeue id pending due =>
      rw [due]
      exact .single .release
  | unschedule stale => exact .refl
  | discard lost due =>
      -- A scheduled event of a settled account has its copy pending.
      have hopen : a.status.Open := .inr (.inr due)
      have hnot : a.custody ≠ .acknowledged := fun hacked =>
        EventStatus.open_iff.mp hopen (hsettled.mp hacked)
      have hunread : a.custody = .unread := by
        cases hcustody : a.custody with
        | unread => rfl
        | pending => exact absurd hcustody lost
        | acknowledged => exact absurd hcustody hnot
      rw [hvalid.unread hunread] at due
      cases due

theorem Finish.status_moves (hsettled : a.Settled) (hvalid : a.Valid parses)
    (h : Finish parses ending a a') : a.status.Moves a'.status := by
  have hnot := (hsettled.finish h).2
  cases h with
  | complete _ pending known => exact .deliver (hvalid.pending pending)
  | deadLetter _ pending delivering =>
      rw [delivering]
      exact .deadLetter
  | quarantine _ pending unknown =>
      obtain hqueued | hdead := hvalid.unparsed unknown
      · rw [hqueued]
        exact .quarantine
      · exact absurd (.inr hdead) hnot

end Account

/-- A step that is not late moves each public status by at most one edge. -/
theorem LedgerSettled.status_moves {parses : Fields → Prop} {late : Prop}
    {db db' : Store} {acc : Option UUID} {fin : Option (UUID × Ending)}
    (hlate : ¬late) (hvalid : ∀ e a, L e = some a → a.Valid parses)
    (hL : LedgerSettled L) (h : Effect parses late db db' L acc fin L')
    {a a' : Account} (ha : L e = some a) (ha' : L' e = some a') :
    ReflGen EventStatus.Moves a.status a'.status := by
  have hsame : L' e = L e → ReflGen EventStatus.Moves a.status a'.status := by
    intro heq
    rw [heq, ha] at ha'
    obtain rfl := Option.some.inj ha'
    exact .refl
  cases h with
  | silent same => exact hsame rfl
  | accept other id fields fresh same =>
      refine hsame (Ledger.set_of_ne L _ ?_)
      rintro rfl
      rw [fresh] at ha
      cases ha
  | advance other b b' known move same =>
      by_cases he : e = other
      · subst he
        rw [known] at ha
        rw [Ledger.set_self] at ha'
        obtain rfl := Option.some.inj ha
        obtain rfl := Option.some.inj ha'
        exact (move.mono hlate).status_moves (hL e b known) (hvalid e b known)
      · exact hsame (Ledger.set_of_ne L _ he)
  | finish other ending b b' known move recorded =>
      by_cases he : e = other
      · subst he
        rw [known] at ha
        rw [Ledger.set_self] at ha'
        obtain rfl := Option.some.inj ha
        obtain rfl := Option.some.inj ha'
        exact .single (move.status_moves (hL e b known) (hvalid e b known))
      · exact hsame (Ledger.set_of_ne L _ he)

/-- Between two stores an event with the given status keeps a public record;
its status changes as `R` says, and its attempt count does not decrease. -/
def StatusChanges (R : EventStatus → EventStatus → Prop) (e : UUID)
    (status : EventStatus) (db db' : Store) : Prop :=
  ∃ (attempts attempts' : ℕ) (status' : EventStatus),
    statusField db e "attempt_count" = some (toString attempts) ∧
    statusField db' e "status" = some status'.value ∧
    statusField db' e "attempt_count" = some (toString attempts') ∧
    R status status' ∧ attempts ≤ attempts'

/-- The account of an event in two settled ledgers. -/
def AccountMoves (lib : Stdlib) (group : String)
    (R : EventStatus → EventStatus → Prop) (e : UUID) (w w' : World) : Prop :=
  ∀ L a, Accounted lib group w L → LedgerSettled L → L e = some a →
    ∃ L' a', Accounted lib group w' L' ∧ LedgerSettled L' ∧ L' e = some a' ∧
      R a.status a'.status ∧ a.attempts ≤ a'.attempts

/-- One step of the system moves the account by at most one edge. -/
theorem accountMoves_of_move
    (h : ReflGen (redisMachine.Move
      fun w op => May lib group w op ∧ Timely group w op) w w') :
    AccountMoves lib group (ReflGen EventStatus.Moves) e w w' := by
  induction h with
  | refl => exact fun L a hL hsettled ha =>
      ⟨L, a, hL, hsettled, ha, .refl, le_rfl⟩
  | single hmove =>
      obtain ⟨op, reply, ⟨hmay, htimely⟩, hexec⟩ := hmove
      intro L a hL hsettled ha
      obtain ⟨L', acc, fin, hmoves⟩ := exists_moves hL.represents hmay hexec
      have hvalid := hL.represents.valid
      obtain ⟨a', ha', hgrows⟩ := hmoves.effect.attempts_le ha
      exact ⟨L', a', hL.moves hmoves,
        (hsettled.effect htimely hvalid hmoves.effect).1, ha',
        hsettled.status_moves htimely hvalid hmoves.effect ha ha', hgrows⟩

/-- Any number of steps move it along the graph. -/
theorem accountMoves_of_later
    (hlater : redisMachine.Later
      (fun w op => May lib group w op ∧ Timely group w op) w w') :
    AccountMoves lib group (ReflTransGen EventStatus.Moves) e w w' := by
  induction hlater with
  | refl => exact fun L a hL hsettled ha =>
      ⟨L, a, hL, hsettled, ha, .refl, le_rfl⟩
  | tail _ hmove ih =>
      intro L a hL hsettled ha
      obtain ⟨L₁, a₁, hL₁, hsettled₁, ha₁, hpath, hle⟩ := ih L a hL hsettled ha
      obtain ⟨L₂, a₂, hL₂, hsettled₂, ha₂, hedge, hle'⟩ :=
        accountMoves_of_move (.single hmove) L₁ a₁ hL₁ hsettled₁ ha₁
      exact ⟨L₂, a₂, hL₂, hsettled₂, ha₂,
        hpath.trans hedge.to_reflTransGen, hle.trans hle'⟩

theorem AccountMoves.statusChanges {R : EventStatus → EventStatus → Prop}
    (h : AccountMoves lib group R e w w')
    (hw : redisMachine.Reach
      (fun w op => May lib group w op ∧ Timely group w op) w)
    {status : EventStatus}
    (hstatus : statusField w.store e "status" = some status.value) :
    StatusChanges R e status w.store w'.store := by
  obtain ⟨L, hL, hsettled⟩ := reach_settled hw
  obtain ⟨a, ha, rfl⟩ := account_of_status hL.represents status hstatus
  obtain ⟨L', a', hL', -, ha', hR, hle⟩ := h L a hL hsettled ha
  obtain ⟨hstatus', hattempts', -⟩ := statusField_eq hL'.represents ha'
  exact ⟨a.attempts, a'.attempts, a'.status,
    (statusField_eq hL.represents ha).2.1, hstatus', hattempts', hR, hle⟩

/-- In every timely run an event that has a status keeps having one.  Each
single step leaves the status alone or moves it along one edge of the graph,
so that a run moves it along a path; the attempt count never decreases. -/
theorem status_follows_graph {cfg : (redisService lib group).Config}
    (hreach : Service.Reachable (Timely group) cfg) (e : UUID)
    (status : EventStatus)
    (hstatus : statusField cfg.state.store e "status" = some status.value) :
    (∀ cfg', Service.Step (Timely group) cfg cfg' →
      StatusChanges (ReflGen EventStatus.Moves) e status cfg.state.store
        cfg'.state.store) ∧
    ∀ cfg', Service.Steps (Timely group) cfg cfg' →
      StatusChanges (ReflTransGen EventStatus.Moves) e status cfg.state.store
        cfg'.state.store := by
  have hdisciplined := redisService_disciplined lib group
  obtain ⟨hsound, hstate⟩ := hreach.sound hdisciplined
  refine ⟨fun cfg' hstep => ?_, fun cfg' hsteps => ?_⟩
  · exact (accountMoves_of_move (hsound.move_of_step hstep)).statusChanges
      hstate hstatus
  · obtain ⟨-, hlater⟩ :=
      Service.Config.sound_of_steps hdisciplined hsound hsteps
    exact (accountMoves_of_later hlater).statusChanges hstate hstatus

/-- An event from its acceptance to its delivery. -/
theorem status_follows_graph_example :
    ∃ cfg cfg' : (redisService exampleLib "hooklane-workers").Config,
      Service.Reachable (Timely "hooklane-workers") cfg ∧
      Service.Steps (Timely "hooklane-workers") cfg cfg' ∧
      publicState cfg.state = (some "queued", some "0") ∧
      publicState cfg'.state = (some "delivered", some "1") ∧
      (∀ next, Service.Step (Timely "hooklane-workers") cfg next →
        StatusChanges (ReflGen EventStatus.Moves) exampleEvent .queued
          cfg.state.store next.state.store) ∧
      StatusChanges (ReflTransGen EventStatus.Moves) exampleEvent .queued
        cfg.state.store cfg'.state.store := by
  have haccepted : (redisOracle.play (Timely "hooklane-workers") exampleStart
      (claimedSchedule.take 3)).map (fun cfg => publicState cfg.state) =
      some (some "queued", some "0") := by
    decide +kernel
  have hdelivered : (redisOracle.play (Timely "hooklane-workers") exampleStart
      (claimedSchedule.take 3 ++ claimedSchedule.drop 3)).map
      (fun cfg => publicState cfg.state) =
      some (some "delivered", some "1") := by
    decide +kernel
  obtain ⟨cfg, hreach, hplay, hstate⟩ := reachable_of_schedule haccepted
  rw [Oracle.play_append, hplay] at hdelivered
  obtain ⟨cfg', hplay', hstate'⟩ := Option.map_eq_some_iff.mp hdelivered
  have hsteps := Oracle.steps_of_play hplay'
  have hqueued := (Prod.mk.inj hstate).1
  obtain ⟨hedge, hpath⟩ :=
    status_follows_graph hreach exampleEvent .queued hqueued
  exact ⟨cfg, cfg', hreach, hsteps, hstate, hstate', hedge, hpath cfg' hsteps⟩

end Hooklane
