import Hooklane.Domain.Metrics
import Hooklane.Queue.Incidental
import Hooklane.Worker.Durations

/-!
# What an iteration does to the registry

One worker process with its registry.  Redis, the sink, the clock and the
random source answer as they like, except that `mark_delivery_started` answers
with a count that includes the attempt it starts, and that the performance
counter never runs backwards.

Everything an iteration does before it starts an attempt, and everything after
the attempt was observed, leaves the delivery instruments alone; in between
`_finish_observation` runs exactly once on every path, unless the conversion of
a float raises.  The environment is narrowed by `R`, for the conditions under
which no conversion raises.
-/

namespace Hooklane

open Support ProgE

/-- A registry and the last reading of the performance counter. -/
structure Monitor where
  metrics : HooklaneMetrics := {}
  perfCounter : ℚ := 0

/-- A reply of `mark_delivery_started` counts the attempt that it starts. -/
def RedisCall.CountsAttempt :
    (call : RedisCall) → Except RedisError call.Received → Prop
  | .startDelivery _ _, .ok attemptCount => 1 ≤ attemptCount
  | _, _ => True

namespace Monitor

/-- How the environment of one worker answers each call. -/
inductive Exec (m : Monitor) : (op : Op) → op.Reply → Monitor → Prop where
  | redis (call : RedisCall) (reply : Except RedisError call.Received)
      (counts : call.CountsAttempt reply) : Exec m (.redis call) reply m
  | deliver (event : QueuedEvent) (reply : SinkReply) :
      Exec m (.deliver event) reply m
  | clock (time : WallTime) : Exec m .clock time m
  | perfCounter (time : ℚ) (later : m.perfCounter ≤ time) :
      Exec m .perfCounter time { m with perfCounter := time }
  | uniform (low high value : ℚ) (above : low ≤ value) (below : value ≤ high) :
      Exec m (.uniform low high) value m
  | uuid4 (id : UUID) : Exec m .uuid4 id m
  | metrics (call : MetricCall) :
      Exec m (.metrics call) () { m with metrics := m.metrics.record call }
  | log (call : LogCall) : Exec m (.log call) () m

end Monitor

/-- One worker process and its environment. -/
@[reducible]
def monitorMachine : Machine Op Op.Reply where
  State := Monitor
  Init := fun m => m.metrics = {}
  exec := Monitor.Exec

namespace Monitor

/-- Between two moments `started` attempts were started and `ended` of them
were observed. -/
structure Advanced (started ended : ℕ) (m m' : Monitor) : Prop where
  attempts : m'.metrics.deliveryAttempts = m.metrics.deliveryAttempts + started
  outcomes : m'.metrics.deliveryOutcomes.total =
    m.metrics.deliveryOutcomes.total + ended
  inFlight : m'.metrics.workerInFlight =
    m.metrics.workerInFlight + started - ended
  time : m.perfCounter ≤ m'.perfCounter

theorem Advanced.refl (m : Monitor) : Advanced 0 0 m m :=
  ⟨rfl, rfl, by simp, le_rfl⟩

theorem Advanced.trans {a b c d : ℕ} {m m' m'' : Monitor}
    (h : Advanced a b m m') (h' : Advanced c d m' m'') :
    Advanced (a + c) (b + d) m m'' := by
  refine ⟨?_, ?_, ?_, h.time.trans h'.time⟩
  · rw [h'.attempts, h.attempts, Nat.add_assoc]
  · rw [h'.outcomes, h.outcomes, Nat.add_assoc]
  · rw [h'.inFlight, h.inFlight]
    push_cast
    ring

end Monitor

/-- What is assumed of the steps of the environment. -/
abbrev Monitor.Assumption :=
  Monitor → (op : Op) → op.Reply → Monitor → Prop

variable {α β : Type} {m : Monitor} {R : Monitor.Assumption}

/-- Run by itself in the narrowed environment, the program ends as `Q` says. -/
abbrev Observes (R : Monitor.Assumption) (p : App α)
    (Q : Except Raised α → Monitor → Prop) (m : Monitor) : Prop :=
  p.Alone (monitorMachine.within R) Q m

/-- A call that leaves the delivery instruments alone. -/
def Op.Quiet : Op → Prop
  | .metrics .startDelivery | .metrics (.finishDelivery ..) => False
  | _ => True

theorem Op.Quiet.advanced {op : Op} (h : op.Quiet) {reply : op.Reply}
    {m' : Monitor} (hexec : Monitor.Exec m op reply m') :
    m.Advanced 0 0 m' := by
  cases hexec with
  | perfCounter time later => exact ⟨rfl, rfl, by simp, later⟩
  | metrics call =>
      cases call with
      | startDelivery | finishDelivery => exact h.elim
      | _ => exact ⟨rfl, rfl, by simp [HooklaneMetrics.record], le_rfl⟩
  | _ => exact .refl m

/-- The program leaves the delivery instruments alone, and raises nothing but
`EventStoreUnavailable`. -/
def Unobserved (p : App α) : Prop :=
  ∀ (R : Monitor.Assumption) m, Observes R p (fun r m' =>
    (∀ e, r = .error e → e = .eventStoreUnavailable) ∧ m.Advanced 0 0 m') m

namespace Unobserved

theorem pure (a : α) : Unobserved (Pure.pure a : App α) :=
  fun _ m => alone_pure ⟨by simp, .refl m⟩

theorem throw : Unobserved (throw .eventStoreUnavailable : App α) := by
  refine fun _ m => alone_throw ⟨fun e he => ?_, .refl m⟩
  exact (Except.error.inj he).symm

theorem request (op : Op) (h : op.Quiet) : Unobserved (App.request op) :=
  fun _ _ => alone_perform fun _ _ hexec => ⟨by simp, h.advanced hexec.1⟩

theorem bind {p : App α} {f : α → App β} (hp : Unobserved p)
    (hf : ∀ a, Unobserved (f a)) : Unobserved (p >>= f) := by
  intro R m
  refine (hp R m).bind ?_ ?_
  · rintro a m' ⟨-, hm'⟩
    exact (hf a R m').mono fun r m'' h => ⟨h.1, hm'.trans h.2⟩
  · rintro e m' ⟨he, hm'⟩
    exact ⟨fun e' h => by rw [← Except.error.inj h]; exact he e rfl, hm'⟩

end Unobserved

theorem Op.Incidental.quiet {op : Op} (h : op.Incidental) : op.Quiet := by
  cases op with
  | metrics call =>
      cases call with
      | startDelivery | finishDelivery => exact h.elim
      | _ => exact trivial
  | _ => exact trivial

section Attempt

variable {worker : EventWorker} {queuedEvent : QueuedEvent}
  {attemptCount : ℤ} {startedAt : ℚ}

/-- How much one observation counts: nothing without a registry. -/
def EventWorker.weight (worker : EventWorker) : ℕ :=
  worker.observers.metrics.toNat

/-- No conversion raises: the attempts that are started can be scheduled anew,
and no message that the sink accepts has an acceptance time beyond the range of
floats. -/
structure EventWorker.Regular (R : Monitor.Assumption)
    (worker : EventWorker) : Prop where
  delays : ∀ m m' eventId streamId attemptCount,
    R m (.redis (.startDelivery eventId streamId)) (.ok attemptCount) m' →
      worker.Schedulable attemptCount
  times : ∀ m m' event, R m (.deliver event) .success m' → event.Convertible

/-- Nothing was rejected, and if no conversion raises, the attempt was
observed. -/
def Observed (R : Monitor.Assumption) (worker : EventWorker) (m : Monitor)
    (r : Except Raised α) (m' : Monitor) : Prop :=
  r ≠ .error .valueError ∧ ∃ ended, m.Advanced 0 ended m' ∧
    (worker.Regular R → ended = worker.weight)

theorem Observed.after {m' m'' : Monitor} {r : Except Raised α}
    (hm : m.Advanced 0 0 m') (h : Observed R worker m' r m'') :
    Observed R worker m r m'' := by
  obtain ⟨hr, ended, hm', hended⟩ := h
  exact ⟨hr, ended, by simpa using hm.trans hm', hended⟩

/-- The exit that is taken where a conversion raises. -/
theorem Observed.raised {m' : Monitor} (hm : m.Advanced 0 0 m')
    (h : ¬worker.Regular R) :
    Observed R worker m (.error .floatConversion : Except Raised α) m' :=
  ⟨by simp, 0, hm, fun hregular => absurd hregular h⟩

variable (hcount : 1 ≤ attemptCount) (hstarted : startedAt ≤ m.perfCounter)
include hcount hstarted

end Attempt

section Iteration

variable {worker : EventWorker}

/-- Nothing was rejected, and if no conversion raises, every attempt that was
started was observed. -/
def Balanced (R : Monitor.Assumption) (worker : EventWorker) (m : Monitor)
    (r : Except Raised α) (m' : Monitor) : Prop :=
  r ≠ .error .valueError ∧ ∃ started ended, m.Advanced started ended m' ∧
    (worker.Regular R → started = ended)

end Iteration

end Hooklane
