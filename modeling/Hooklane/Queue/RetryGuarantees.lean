import Mathlib.Tactic.NormNum
import Hooklane.Queue.Backoff
import Hooklane.Queue.Budget
import Hooklane.Queue.Guarantees

/-!
# Guarantees about retries

All workers retry, and dead-letter at the same limit `M`.  Then, for any
schedule of workers, stale claims, crashes and lost replies, the attempts of an
event are numbered in order, its retries stay below the limit, and its copies
in the stream within it.  Backoff is kept in the runs whose calls heed the
retries in force.
-/

namespace Hooklane

open Redis Support

section Bounded

variable {lib : Stdlib} {group : String} {M : ℤ} {e : UUID} {w w' : World}
  {op : Op} {reply : op.Reply}

/-- The attempts of an event that were told a number below the limit. -/
def World.early (M : ℤ) (w : World) (e : UUID) : ℕ :=
  (w.starts e).countP fun n => n < M

theorem schedules_le_price (h : World.Exec w op reply w') :
    w'.schedules e ≤ w.schedules e + (retryTariff M e).price op := by
  have hrun : ∀ call now, (w.run call now).schedules e ≤
      w.schedules e + (retryTariff M e).price (.redis call) := by
    intro call now
    rw [schedules_run]
    refine Nat.add_le_add_left ?_ _
    cases call with
    | scheduleRetry e' m errorClass due =>
        cases (RedisCall.scheduleRetry e' m errorClass due).script now w.store
          |>.1 <;> by_cases he : e' = e <;>
            simp [scheduledBy, retryTariff, he]
    | _ => exact Nat.zero_le _
  cases h with
  | answered call now => exact hrun call now
  | replyLost call now => exact hrun call now
  | delivered event reply =>
      rw [schedules_deliver]
      exact Nat.le_add_right _ _
  | _ => exact Nat.le_add_right _ _

theorem credit_le_early (h : World.Exec w op reply w') :
    w.early M e + (retryTariff M e).credit op reply ≤ w'.early M e := by
  have hrun : ∀ call now, (w.run call now).early M e = w.early M e +
      (startedBy e call (call.script now w.store).1).toList.countP
        fun n => n < M := by
    intro call now
    rw [World.early, starts_run, List.countP_append]
    rfl
  cases h with
  | answered call now =>
      rw [hrun]
      refine Nat.add_le_add_left ?_ _
      cases call with
      | startDelivery e' m =>
          cases hscript : (RedisCall.startDelivery e' m).script now w.store
            |>.1 with
          | error message => exact Nat.zero_le _
          | ok n =>
              by_cases he : e' = e <;> by_cases hn : n < M <;>
                simp [startedBy, retryTariff, World.reply, he, hn]
      | _ => exact Nat.zero_le _
  | replyLost call now =>
      rw [hrun]
      cases call <;> exact Nat.le_add_right _ _
  | delivered event reply =>
      rw [World.early, World.early, starts_deliver]
      rfl
  | requestLost call => cases call <;> rfl
  | _ => rfl

theorem countP_range_le (n m : ℕ) :
    ((List.range n).countP fun i => i < m) ≤ min n m := by
  induction n with
  | zero => simp
  | succ n ih =>
      rw [List.range_succ, List.countP_append, List.countP_singleton]
      split
      · next h =>
        have hn := of_decide_eq_true h
        omega
      · omega

/-- Attempts numbered 1, 2, 3 and so on include at most `M - 1` below `M`. -/
theorem early_le {n : ℕ} (hM : 1 ≤ M)
    (h : w.starts e = (List.range n).map fun i : ℕ => (i : ℤ) + 1) :
    (w.early M e : ℤ) ≤ M - 1 := by
  obtain ⟨m, hm⟩ := Int.eq_ofNat_of_zero_le (by omega : 0 ≤ M - 1)
  have hcount : w.early M e = (List.range n).countP fun i => i < m := by
    rw [World.early, h, List.countP_map]
    refine List.countP_congr fun i _ => ?_
    simp only [Function.comp_apply, decide_eq_true_eq]
    omega
  have hle := countP_range_le n m
  omega

/-- The attempts of an event are numbered 1, 2, 3 and so on; fewer than `M` of
its retries commit, each retry is requeued at most once, and the stream holds
at most `M` copies; and an attempt numbered `M` or higher is not retried. -/
theorem retries_bounded (hM : 1 ≤ M)
    {cfg : ((redisService lib group).only
      fun _ request => RetryLimited M request).Config}
    (hreach : Service.Reachable Service.anyCall cfg) (e : UUID) :
    (∃ n : ℕ, World.starts cfg.state e =
      (List.range n).map fun i : ℕ => (i : ℤ) + 1) ∧
    (World.starts cfg.state e).Nodup ∧
    (World.schedules cfg.state e : ℤ) ≤ M - 1 ∧
    World.requeues cfg.state e ≤ World.schedules cfg.state e ∧
    ((copies cfg.state.store e).length : ℤ) ≤ M ∧
    ∀ worker, RetryLimited M (.runOnce worker) →
      ProgE.Bars (ToldLimit M) NoRetry worker.runOnce := by
  have hstate : redisMachine.Reach
      (fun w op => May lib group w op ∧ Service.anyCall w op) cfg.state :=
    (hreach.ofOnly.sound (redisService_disciplined lib group)).2
  obtain ⟨n, hstarts, -⟩ := reach_countsAttempts hstate e
  obtain ⟨hrequeues, hcopies⟩ := reach_covers hstate e
  have hschedules : World.schedules cfg.state e ≤ World.early M cfg.state e := by
    refine hreach.spent_le_earned (fun w : World => w.schedules e)
      (fun w : World => w.early M e) (T := ⟨fun _ => (retryTariff M e).price,
        fun _ => (retryTariff M e).credit⟩)
      (fun w op reply w' => schedules_le_price (M := M))
      (fun w op reply w' => credit_le_early) ?_ ?_
    · rintro w request - ⟨-, hlimited⟩
      exact (affords_body request hlimited).pays w
    · rintro w rfl
      exact le_rfl
  have hearly : (World.early M cfg.state e : ℤ) ≤ M - 1 := early_le hM hstarts
  rw [CoversRequeues] at hrequeues
  rw [CoversCopies] at hcopies
  refine ⟨⟨n, hstarts⟩, ?_, ?_, ?_, ?_, ?_⟩
  · rw [hstarts]
    exact (List.nodup_range).map fun i j h => by simpa using h
  · omega
  · omega
  · omega
  · rintro worker ⟨-, policy, hpolicy, rfl⟩
    exact bars_runOnce hpolicy

/-- A worker that gives up after two attempts. -/
def retryingWorker : EventWorker :=
  { exampleWorker "worker-1" with
    retryPolicy := some {}
    deadLetterPolicy := some { maximumAttempts := 2 } }

theorem retryingWorker_limited : RetryLimited 2 (.runOnce retryingWorker) :=
  ⟨⟨_, rfl⟩, _, rfl, rfl⟩

/-- An event whose first attempt times out is requeued after its retry is due;
its second attempt times out as well, and it is dead-lettered. -/
def exhaustedSchedule : List (redisOracle.Action
    ((redisService exampleLib "hooklane-workers").only
      fun _ request => RetryLimited 2 request)) :=
  [.start (.enqueue exampleStore exampleEvent exampleRequest)
      fun _ => ⟨trivial, trivial⟩,
    .act 0 (.number 1), .act 0 (.ran 1000),
    .start (.runOnce retryingWorker)
      fun _ => ⟨⟨rfl, rfl⟩, retryingWorker_limited⟩,
    .act 1 (.ran 2000), .act 1 (.number 2), .act 1 (.ran 2000),
    .act 1 (.ran 2000), .act 1 (.ran 2000), .act 1 (.ran 2000),
    .act 1 (.number 2), .act 1 (.sink (.failed .timeout)), .act 1 (.number 1),
    .act 1 (.number 2), .act 1 (.ran 2000),
    .start (.runOnce retryingWorker)
      fun _ => ⟨⟨rfl, rfl⟩, retryingWorker_limited⟩,
    .act 2 (.ran 9000), .act 2 (.number 9), .act 2 (.ran 9000),
    .act 2 (.ran 9000), .act 2 (.ran 9000), .act 2 (.ran 9000),
    .act 2 (.number 9), .act 2 (.sink (.failed .timeout)), .act 2 (.ran 9000)]

/-- With two attempts there is one retry, and the stream holds two copies. -/
theorem retries_bounded_example :
    ∃ cfg : ((redisService exampleLib "hooklane-workers").only
        fun _ request => RetryLimited 2 request).Config,
      Service.Reachable Service.anyCall cfg ∧
      World.starts cfg.state exampleEvent = [1, 2] ∧
      World.schedules cfg.state exampleEvent = 1 ∧
      World.requeues cfg.state exampleEvent = 1 ∧
      (copies cfg.state.store exampleEvent).length = 2 ∧
      publicState cfg.state = (some "dead_letter", some "2") ∧
      (World.starts cfg.state exampleEvent).Nodup ∧
      (World.schedules cfg.state exampleEvent : ℤ) ≤ 2 - 1 ∧
      ((copies cfg.state.store exampleEvent).length : ℤ) ≤ 2 ∧
      ProgE.Bars (ToldLimit 2) NoRetry retryingWorker.runOnce := by
  have hrun : (redisOracle.play Service.anyCall ⟨World.initial, []⟩
      exhaustedSchedule).map (fun cfg => decide
        (World.starts cfg.state exampleEvent = [1, 2] ∧
          World.schedules cfg.state exampleEvent = 1 ∧
          World.requeues cfg.state exampleEvent = 1 ∧
          (copies cfg.state.store exampleEvent).length = 2 ∧
          publicState cfg.state = (some "dead_letter", some "2"))) =
      some true := by
    decide +kernel
  obtain ⟨cfg, hplay, hstate⟩ := Option.map_eq_some_iff.mp hrun
  obtain ⟨hstarts, hschedules, hrequeues, hcopies, hstatus⟩ :=
    of_decide_eq_true hstate
  have hreach : Service.Reachable Service.anyCall cfg :=
    Oracle.reachable_of_play rfl hplay
  obtain ⟨-, hnodup, hbelow, -, hwithin, hlimit⟩ :=
    retries_bounded (by decide) hreach exampleEvent
  exact ⟨cfg, hreach, hstarts, hschedules, hrequeues, hcopies,
    hstatus, hnodup, hbelow, hwithin,
    hlimit retryingWorker retryingWorker_limited⟩

end Bounded

section Respected

variable {lib : Stdlib} {group : String}

/-- In a run that heeds the retries in force, a delivery that is started after
a retry of its event was committed is preceded by a requeue of the event at
the due time or later. -/
theorem backoff_respected {cfg : (redisService lib group).Config}
    (hreach : Service.Reachable (HeedsRetry group) cfg) {e : UUID} {d : ℤ}
    {pre mid post : List Record} {s r : Record}
    (hhistory : World.history cfg.state = pre ++ s :: (mid ++ r :: post))
    (hscheduled : s.Schedules e d) (hstarted : r.Starts e) :
    ∃ q ∈ mid, q.RequeuesAfter e d := by
  obtain ⟨-, hstate⟩ := hreach.sound (redisService_disciplined lib group)
  have hrespects := (reach_backsOff hstate e).respects d
  rw [hhistory] at hrespects
  exact hrespects.exists_between hscheduled hstarted

/-- The last record starts a delivery of the event, and an earlier one
schedules its retry. -/
def EndsInStart (e : UUID) (d : ℤ) (w : World) : Prop :=
  (w.history.getLast?.bind (Record.started e)).isSome = true ∧
    (e, d) ∈ w.history.dropLast.filterMap Record.scheduled

instance (e : UUID) (d : ℤ) (w : World) : Decidable (EndsInStart e d w) := by
  unfold EndsInStart
  infer_instance

theorem EndsInStart.split {e : UUID} {d : ℤ} {w : World}
    (h : EndsInStart e d w) : ∃ pre s mid r,
      w.history = pre ++ s :: (mid ++ r :: []) ∧ s.Schedules e d ∧
        r.Starts e := by
  obtain ⟨hlast, hretry⟩ := h
  obtain ⟨s, hs, hscheduled⟩ := List.mem_filterMap.mp hretry
  obtain ⟨pre, mid, hinit⟩ := List.append_of_mem hs
  cases hr : w.history.getLast? with
  | none =>
      rw [hr] at hlast
      cases hlast
  | some r =>
      rw [hr, Option.bind_some] at hlast
      refine ⟨pre, s, mid, r, ?_, hscheduled, hlast⟩
      rw [← List.dropLast_append_getLast? r hr, hinit, List.append_assoc,
        List.cons_append]

/-- The second worker claims the message of the slow one, fails to deliver it
and schedules a retry; then the slow worker starts its delivery. -/
def overtakingSchedule : List ExampleAction :=
  claimedSchedule.take 9 ++
  [.start (.runOnce retryingWorker) fun _ => ⟨rfl, rfl⟩,
    .act 2 (.ran 62000), .act 2 (.number 62), .act 2 (.ran 62000),
    .act 2 (.ran 62000), .act 2 (.ran 62000), .act 2 (.ran 62000),
    .act 2 (.number 62), .act 2 (.sink (.failed .timeout)), .act 2 (.number 1),
    .act 2 (.number 62), .act 2 (.ran 62000), .act 1 (.ran 62000)]

/-- The retry is due at 63 seconds, and the second attempt began at 62 seconds
without a requeue. -/
theorem backoff_bypassed :
    ¬∀ (lib : Stdlib) (group : String)
      (cfg : (redisService lib group).Config) (e : UUID) (d : ℤ)
      (pre mid post : List Record) (s r : Record),
      Service.Reachable Service.anyCall cfg →
      World.history cfg.state = pre ++ s :: (mid ++ r :: post) →
      s.Schedules e d → r.Starts e → ∃ q ∈ mid, q.RequeuesAfter e d := by
  intro hrespected
  have hrun : (redisOracle.play Service.anyCall exampleStart
      overtakingSchedule).map (fun cfg => decide
        (EndsInStart exampleEvent 63000 cfg.state ∧
          (World.history cfg.state).filterMap Record.requeued = [])) =
      some true := by
    decide +kernel
  obtain ⟨cfg, hplay, hstate⟩ := Option.map_eq_some_iff.mp hrun
  obtain ⟨hends, hnone⟩ := of_decide_eq_true hstate
  obtain ⟨pre, s, mid, r, hhistory, hscheduled, hstarted⟩ := hends.split
  obtain ⟨q, hq, nowMs, hrequeued, -⟩ := hrespected _ _ cfg exampleEvent 63000
    pre mid [] s r (Oracle.reachable_of_play rfl hplay) hhistory hscheduled
    hstarted
  have hmem : (exampleEvent.text, nowMs) ∈
      (World.history cfg.state).filterMap Record.requeued := by
    refine List.mem_filterMap.mpr ⟨q, ?_, hrequeued⟩
    rw [hhistory]
    exact List.mem_append_right _
      (List.mem_cons_of_mem _ (List.mem_append_left _ hq))
  rw [hnone] at hmem
  cases hmem

/-- An event is attempted, waits for its retry, and is attempted again. -/
def retriedSchedule : List ExampleAction :=
  [.start (.enqueue exampleStore exampleEvent exampleRequest) fun _ => trivial,
    .act 0 (.number 1), .act 0 (.ran 1000),
    .start (.runOnce retryingWorker) fun _ => ⟨rfl, rfl⟩,
    .act 1 (.ran 2000), .act 1 (.number 2), .act 1 (.ran 2000),
    .act 1 (.ran 2000), .act 1 (.ran 2000), .act 1 (.ran 2000),
    .act 1 (.number 2), .act 1 (.sink (.failed .timeout)), .act 1 (.number 1),
    .act 1 (.number 2), .act 1 (.ran 2000),
    .start (.runOnce retryingWorker) fun _ => ⟨rfl, rfl⟩,
    .act 2 (.ran 9000), .act 2 (.number 9), .act 2 (.ran 9000),
    .act 2 (.ran 9000), .act 2 (.ran 9000), .act 2 (.ran 9000)]

/-- The second attempt follows a requeue at the due time or later. -/
theorem backoff_respected_example :
    ∃ cfg : (redisService exampleLib "hooklane-workers").Config,
      Service.Reachable (HeedsRetry "hooklane-workers") cfg ∧
      World.starts cfg.state exampleEvent = [1, 2] ∧
      ∃ q ∈ World.history cfg.state, q.RequeuesAfter exampleEvent 3000 := by
  have hrun : (redisOracle.play (HeedsRetry "hooklane-workers") exampleStart
      retriedSchedule).map (fun cfg => decide
        (World.starts cfg.state exampleEvent = [1, 2] ∧
          EndsInStart exampleEvent 3000 cfg.state)) = some true := by
    decide +kernel
  obtain ⟨cfg, hplay, hstate⟩ := Option.map_eq_some_iff.mp hrun
  obtain ⟨hstarts, hends⟩ := of_decide_eq_true hstate
  obtain ⟨pre, s, mid, r, hhistory, hscheduled, hstarted⟩ := hends.split
  have hreach : Service.Reachable (HeedsRetry "hooklane-workers") cfg :=
    Oracle.reachable_of_play rfl hplay
  obtain ⟨q, hq, hrequeued⟩ :=
    backoff_respected hreach hhistory hscheduled hstarted
  refine ⟨cfg, hreach, hstarts, q, ?_, hrequeued⟩
  rw [hhistory]
  exact List.mem_append_right _
    (List.mem_cons_of_mem _ (List.mem_append_left _ hq))

end Respected

end Hooklane
