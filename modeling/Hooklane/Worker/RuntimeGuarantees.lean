import Hooklane.Support.Dues
import Hooklane.Support.Schedule
import Hooklane.Worker.Runtime

/-!
# What a graceful shutdown guarantees

An iteration of the worker runs only while it is counted as in flight, so the
drain event is set only when none runs.  Once a shutdown has begun no iteration
is let in, and once the process has drained after that, it does no more work.
-/

namespace Hooklane.Runtime

open Support Service Relation

/-- A begun iteration is the credit with which its task works and finishes; the
work itself gives the credit back. -/
def workTariff : Tariff Op Op.Reply where
  price
    | .finishWork => 1
    | .work => 1
    | _ => 0
  credit
    | .beginWork, reply => reply.toNat
    | .work, _ => 1
    | _, _ => 0

section Programs

open ProgE Hooklane.Runtime.Task

variable {n : ℕ}

theorem affords_request (op : Op) (h : workTariff.price op ≤ n) :
    (Task.request op).Affords workTariff
      (fun reply m => m = n - workTariff.price op + workTariff.credit op reply)
      n :=
  affords_perform h fun _ => rfl

theorem affords_finishWork (h : 1 ≤ n) :
    WorkerRuntime.finishWork.Affords workTariff (fun _ _ => True) n := by
  refine (affords_request .finishWork h).bind fun done m _ => ?_
  cases done with
  | true => exact affords_pure trivial
  | false => exact affords_throw

/-- An iteration pays its work and its end with the credit of its begin. -/
theorem affords_runOnce :
    WorkerRuntime.runOnce.Affords workTariff (fun _ _ => True) n := by
  refine (affords_request .beginWork (Nat.zero_le n)).bind
    fun admitted m hm => ?_
  cases admitted with
  | false => exact affords_pure trivial
  | true =>
      obtain rfl : m = n + 1 := hm
      refine (affords_request .work (Nat.le_add_left 1 n)).bind
        fun result m hm => ?_
      obtain rfl : m = n + 1 := hm
      refine (affords_finishWork (Nat.le_add_left 1 n)).bind fun _ m _ => ?_
      cases result with
      | ok value => exact affords_pure trivial
      | error raised => exact affords_throw

theorem affords_startup :
    WorkerRuntime.startup.Affords workTariff (fun _ _ => True) n := by
  refine (affords_request .ensureConsumerGroup (Nat.zero_le n)).bind
    fun reply m _ => ?_
  cases reply with
  | ok _ =>
      exact (affords_request (.markStarted true) (Nat.zero_le m)).bind
        fun _ _ _ => affords_pure trivial
  | error raised =>
      cases raised with
      | eventStoreUnavailable =>
          exact (affords_request (.markStarted false) (Nat.zero_le m)).bind
            fun _ _ _ => affords_pure trivial
      | runtimeError => exact affords_throw
      | other => exact affords_throw

theorem affords_attemptOnce :
    attemptOnce.Affords workTariff (fun _ _ => True) n := by
  refine Affords.tryCatch
    (affords_runOnce.bind fun _ _ _ => affords_pure trivial) fun raised m => ?_
  split
  · exact affords_pure trivial
  · exact affords_throw

theorem affords_wait {α : Type} {a : α} :
    (do
      Task.request .waitForWork
      return a : Task α).Affords workTariff (fun _ _ => True) n :=
  (affords_request .waitForWork (Nat.zero_le n)).bind
    fun _ _ _ => affords_pure trivial

theorem affords_round : round.Affords workTariff (fun _ _ => True) n := by
  refine (affords_request .requested (Nat.zero_le n)).bind
    fun requested m _ => ?_
  cases requested with
  | true => exact affords_pure trivial
  | false =>
      have hready : readyOrStarted.Affords workTariff (fun _ _ => True) m := by
        refine (affords_request .ready (Nat.zero_le m)).bind fun ready k _ => ?_
        cases ready with
        | true => exact affords_pure trivial
        | false => exact affords_startup
      refine hready.bind fun usable m _ => ?_
      cases usable with
      | false => exact affords_wait
      | true =>
          refine affords_attemptOnce.bind fun result m _ => ?_
          cases result with
          | none =>
              exact (affords_request (.setDependencyReady false)
                (Nat.zero_le m)).bind fun _ _ _ => affords_wait
          | some result =>
              dsimp only
              split
              · exact affords_wait
              · exact affords_pure trivial

theorem solvent_runtimeService : Solvent runtimeService workTariff := by
  intro call
  have hany : ∀ {α : Type} {p : Task α},
      p.Affords workTariff (fun _ _ => True) 0 →
        p.run.Affords workTariff (fun _ _ => True) 0 :=
    fun h => Prog.Affords.mono h fun _ _ _ => trivial
  cases call with
  | startup => exact hany affords_startup
  | runOnce => exact hany affords_runOnce
  | round => exact hany affords_round
  | request =>
      exact hany ((affords_request .request le_rfl).mono fun _ _ _ => trivial)
  | beginShutdown =>
      exact hany ((affords_request .beginShutdown le_rfl).mono
        fun _ _ _ => trivial)
  | waitForDrain =>
      exact hany ((affords_request .waitForDrain le_rfl).mono
        fun _ _ _ => trivial)

end Programs

section Health

variable {w : World}

/-- What holds of the shared objects at any time. -/
structure Consistent (w : World) : Prop where
  drained : w.health.drained = true ↔ w.health.inFlight = 0
  balance : w.begun = w.finished + w.health.inFlight
  requested : w.requested = true → w.health.shuttingDown = true

theorem Consistent.apply (h : Consistent w) (op : Op) :
    Consistent (w.apply op) := by
  obtain ⟨hdrained, hbalance, hrequested⟩ := h
  cases op with
  | beginWork =>
      simp only [World.apply, ServiceHealth.beginWork]
      split
      · exact ⟨hdrained, by simpa using hbalance, hrequested⟩
      · refine ⟨by simp, ?_, hrequested⟩
        simp only [Bool.toNat_true]
        omega
  | finishWork =>
      simp only [World.apply, ServiceHealth.finishWork]
      split
      · exact ⟨hdrained, hbalance, hrequested⟩
      · next health hfinish =>
        split at hfinish
        · cases hfinish
        · next hpositive =>
          obtain rfl := Option.some.inj hfinish
          refine ⟨?_, ?_, hrequested⟩
          · dsimp only
            split
            · next hnone => simp [hnone]
            · next hleft =>
              rw [hdrained]
              omega
          · dsimp only
            omega
  | request =>
      simp only [World.apply]
      split
      · exact ⟨hdrained, hbalance, hrequested⟩
      · exact ⟨hdrained, hbalance, fun _ => rfl⟩
  | beginShutdown => exact ⟨hdrained, hbalance, fun _ => rfl⟩
  | _ => exact ⟨hdrained, hbalance, hrequested⟩

theorem consistent_of_reachable {cfg : runtimeService.Config}
    (hreach : Reachable anyCall cfg) : Consistent cfg.state := by
  obtain ⟨w₀, rfl, hsteps⟩ := hreach
  induction hsteps with
  | refl => exact ⟨by simp, rfl, by simp⟩
  | tail _ hstep ih =>
      cases hstep with
      | start | crash => exact ih
      | act i call op next reply state thread guard exec =>
          obtain rfl := exec.2
          exact ih.apply op

/-- What was paid, and what was earned, by the working tasks. -/
def World.paid (w : World) : ℕ := w.works + w.finished

def World.earned (w : World) : ℕ := w.works + w.begun

theorem paid_apply (w : World) (op : Op) (reply : op.Reply) (w' : World)
    (h : runtimeMachine.exec w op reply w') :
    w'.paid ≤ w.paid + workTariff.price op := by
  obtain ⟨-, rfl⟩ := h
  cases op with
  | finishWork =>
      simp only [World.apply]
      split
      · exact Nat.le_add_right _ _
      · exact Nat.le_refl _
  | request =>
      simp only [World.apply]
      split <;> exact Nat.le_add_right _ _
  | work =>
      simp only [World.apply, World.paid, workTariff]
      omega
  | _ => exact Nat.le_add_right _ _

theorem earned_apply (w : World) (op : Op) (reply : op.Reply) (w' : World)
    (h : runtimeMachine.exec w op reply w') :
    w.earned + workTariff.credit op reply ≤ w'.earned := by
  obtain ⟨hreply, rfl⟩ := h
  cases op with
  | beginWork =>
      obtain rfl : reply = w.health.beginWork.1 := hreply
      simp only [World.apply, World.earned, workTariff]
      omega
  | finishWork | request =>
      simp only [World.apply]
      split <;> exact Nat.le_refl _
  | work =>
      simp only [World.apply, World.earned, workTariff]
      omega
  | _ => exact Nat.le_refl _

/-- How many threads are in an iteration. -/
def busyThreads (cfg : runtimeService.Config) : ℕ :=
  (cfg.threads.map (nextPrice workTariff)).sum

theorem busyThreads_le_inFlight {cfg : runtimeService.Config}
    (hreach : Reachable anyCall cfg) :
    busyThreads cfg ≤ cfg.state.health.inFlight := by
  have hdues := hreach.dues_le_earned World.paid World.earned paid_apply
    earned_apply solvent_runtimeService fun w hw => hw ▸ Nat.le_refl 0
  have hbalance := (consistent_of_reachable hreach).balance
  rw [World.paid, World.earned] at hdues
  rw [busyThreads]
  omega

/-- A thread that is about to work or to finish has its work in flight. -/
theorem inFlight_of_busy {cfg : runtimeService.Config}
    (hreach : Reachable anyCall cfg) {i : ℕ} {call : Call} {op : Op}
    {next : op.Reply → Prog Op Op.Reply call.Result}
    (hthread : cfg.threads[i]? = some ⟨call, .call op next⟩) :
    workTariff.price op ≤ cfg.state.health.inFlight := by
  have hdue : workTariff.price op ≤ busyThreads cfg := nextPrice_le_sum hthread
  exact hdue.trans (busyThreads_le_inFlight hreach)

/-- Every iteration at work is counted as in flight: the drain event is set
only while no task is in one, and `finish_work` always finds its work. -/
theorem in_flight_covers_work {cfg : runtimeService.Config}
    (hreach : Reachable anyCall cfg) :
    busyThreads cfg ≤ cfg.state.health.inFlight ∧
    (cfg.state.health.drained = true ↔ cfg.state.health.inFlight = 0) ∧
    ∀ (i : ℕ) call next, cfg.threads[i]? = some ⟨call, .call .finishWork next⟩ →
      (ServiceHealth.finishWork cfg.state.health).isSome = true := by
  refine ⟨busyThreads_le_inFlight hreach,
    (consistent_of_reachable hreach).drained, ?_⟩
  intro i call next hthread
  have hprice : 1 ≤ cfg.state.health.inFlight := inFlight_of_busy hreach hthread
  rw [ServiceHealth.finishWork, if_neg (Nat.not_lt.mpr hprice)]
  rfl

/-- What a shutdown leaves to happen, seen from the time `w`. -/
structure Closing (w w' : World) : Prop where
  shuttingDown : w'.health.shuttingDown = true
  begun : w'.begun = w.begun
  inFlight : w'.health.inFlight ≤ w.health.inFlight

theorem Closing.apply {w w' : World} (h : Closing w w') (op : Op) :
    Closing w (w'.apply op) := by
  obtain ⟨hdown, hbegun, hflight⟩ := h
  cases op with
  | beginWork =>
      have hready : w'.health.ready = false := by
        simp [ServiceHealth.ready, hdown]
      simp only [World.apply, ServiceHealth.beginWork, hready, Bool.not_false,
        if_true]
      exact ⟨hdown, hbegun, hflight⟩
  | finishWork =>
      simp only [World.apply, ServiceHealth.finishWork]
      split
      · exact ⟨hdown, hbegun, hflight⟩
      · next health hfinish =>
        split at hfinish
        · cases hfinish
        · obtain rfl := Option.some.inj hfinish
          exact ⟨hdown, hbegun, (Nat.sub_le _ _).trans hflight⟩
  | request =>
      simp only [World.apply]
      split
      · exact ⟨hdown, hbegun, hflight⟩
      · exact ⟨rfl, hbegun, hflight⟩
  | beginShutdown => exact ⟨rfl, hbegun, hflight⟩
  | _ => exact ⟨hdown, hbegun, hflight⟩

/-- A task works or finishes only with work in flight. -/
theorem works_apply {op : Op} (hprice : workTariff.price op = 0) (w : World) :
    (w.apply op).works = w.works := by
  cases op with
  | work => cases hprice
  | finishWork => cases hprice
  | request =>
      simp only [World.apply]
      split <;> rfl
  | _ => rfl

/-- What is left of a process that is shutting down, and that a drained one
does no work. -/
theorem closing_steps {cfg cfg' : runtimeService.Config}
    (hreach : Reachable anyCall cfg) (hsteps : Steps anyCall cfg cfg')
    (hdown : cfg.state.health.shuttingDown = true) :
    Closing cfg.state cfg'.state ∧
      (cfg.state.health.inFlight = 0 →
        cfg'.state.works = cfg.state.works) := by
  induction hsteps with
  | refl => exact ⟨⟨hdown, rfl, Nat.le_refl _⟩, fun _ => rfl⟩
  | tail hbefore hstep ih =>
      obtain ⟨hclosing, hworks⟩ := ih
      have hmiddle := hreach.steps hbefore
      cases hstep with
      | start | crash => exact ⟨hclosing, hworks⟩
      | act i call op next reply state thread guard exec =>
          obtain rfl := exec.2
          refine ⟨hclosing.apply op, fun hnone => ?_⟩
          have hprice := inFlight_of_busy hmiddle thread
          have hflight := hclosing.inFlight
          rw [← hworks hnone]
          exact works_apply (by omega) _

/-- From the begin of a shutdown on, the process is not ready, lets no
iteration in and only loses work in flight.  Once it has drained after that, no
task is in an iteration and no further work is done. -/
theorem shutdown_drains {cfg cfg' : runtimeService.Config}
    (hreach : Reachable anyCall cfg) (hsteps : Steps anyCall cfg cfg')
    (hdown : cfg.state.health.shuttingDown = true) :
    (ServiceHealth.ready cfg'.state.health = false ∧
      cfg'.state.begun = cfg.state.begun ∧
      cfg'.state.health.inFlight ≤ cfg.state.health.inFlight) ∧
    (cfg.state.health.drained = true →
      busyThreads cfg' = 0 ∧ cfg'.state.health.drained = true ∧
      cfg'.state.works = cfg.state.works) := by
  obtain ⟨⟨hdown', hbegun, hflight⟩, hworks⟩ :=
    closing_steps hreach hsteps hdown
  refine ⟨⟨by simp [ServiceHealth.ready, hdown'], hbegun, hflight⟩, ?_⟩
  intro hdrained
  have hreach' := hreach.steps hsteps
  have hnone : cfg.state.health.inFlight = 0 :=
    (consistent_of_reachable hreach).drained.mp hdrained
  have hbusy := busyThreads_le_inFlight hreach'
  refine ⟨by omega, ?_, hworks hnone⟩
  exact (consistent_of_reachable hreach').drained.mpr (by omega)

end Health

section Example

/-- The reply of an operation whose dependency answers, or does not. -/
def World.reply (w : World) (answers : Bool) : (op : Op) → op.Reply
  | .ready => w.health.ready
  | .beginWork => w.health.beginWork.1
  | .finishWork => w.health.finishWork.isSome
  | .requested => w.requested
  | .waitForDrain => w.health.drained
  | .ensureConsumerGroup =>
      if answers then .ok () else .error .eventStoreUnavailable
  | .work => if answers then .ok .delivered else .error .eventStoreUnavailable
  | .markStarted _ | .setDependencyReady _ | .beginShutdown | .request
  | .waitForWork => ()

def runtimeOracle : Oracle runtimeMachine where
  Answer := Bool
  answer := fun w op answers => some (w.reply answers op, w.apply op)
  sound := by
    rintro w op answers reply w' h
    obtain ⟨rfl, rfl⟩ := Prod.mk.inj (Option.some.inj h)
    refine ⟨?_, rfl⟩
    cases op with
    | waitForDrain => exact fun h => h
    | ready | beginWork | finishWork | requested => exact rfl
    | _ => exact trivial

abbrev RuntimeAction := runtimeOracle.Action runtimeService

/-- The process starts up, and a task is let in. -/
def admittedSchedule : List RuntimeAction :=
  [.start .startup fun _ => trivial, .act 0 true, .act 0 true,
    .start .runOnce fun _ => trivial, .act 1 true]

/-- A signal arrives during the iteration, which then ends. -/
def stoppedSchedule : List RuntimeAction :=
  [.start .request fun _ => trivial, .act 2 true, .act 1 false, .act 1 true]

def runtimeStart : runtimeService.Config := ⟨{}, []⟩

theorem in_flight_covers_work_example :
    ∃ cfg : runtimeService.Config, Reachable anyCall cfg ∧
      World.begun cfg.state = 1 ∧
      busyThreads cfg ≤ cfg.state.health.inFlight := by
  have hrun : (runtimeOracle.play anyCall runtimeStart admittedSchedule).map
      (fun cfg => World.begun cfg.state) = some 1 := by
    decide +kernel
  obtain ⟨cfg, hplay, hbegun⟩ := Option.map_eq_some_iff.mp hrun
  have hreach : Reachable anyCall cfg := Oracle.reachable_of_play rfl hplay
  exact ⟨cfg, hreach, hbegun, (in_flight_covers_work hreach).1⟩

/-- After the iteration the process has drained, and a round that is started
then does no work. -/
theorem shutdown_drains_example :
    ∃ cfg cfg' : runtimeService.Config, Reachable anyCall cfg ∧
      Steps anyCall cfg cfg' ∧ World.works cfg.state = 1 ∧
      World.works cfg'.state = World.works cfg.state ∧
      busyThreads cfg' = 0 := by
  have hrun : (runtimeOracle.play anyCall runtimeStart
      (admittedSchedule ++ stoppedSchedule)).map (fun cfg => decide
        (World.works cfg.state = 1 ∧
          (World.health cfg.state).shuttingDown = true ∧
          (World.health cfg.state).drained = true)) = some true := by
    decide +kernel
  obtain ⟨cfg, hplay, hstate⟩ := Option.map_eq_some_iff.mp hrun
  obtain ⟨hworks, hdown, hdrained⟩ := of_decide_eq_true hstate
  have hreach : Reachable anyCall cfg := Oracle.reachable_of_play rfl hplay
  have hsteps : Steps anyCall cfg
      ⟨cfg.state, cfg.threads ++ [⟨.round, runtimeService.body .round⟩]⟩ :=
    .single (.start cfg .round trivial)
  obtain ⟨hbusy, -, hkept⟩ := (shutdown_drains hreach hsteps hdown).2 hdrained
  exact ⟨cfg, _, hreach, hsteps, hworks, hkept, hbusy⟩

end Example

end Hooklane.Runtime
