import Hooklane.Queue.System
import Hooklane.Support.Sequential

/-!
# One method of the store, run alone

While the server is available and no other program acts, the store's methods
end as their scripts do: a script's value is returned, and its error is raised
as `EventStoreUnavailable` after the failure was recorded.
-/

namespace Hooklane

open Redis Support ProgE

/-- The server answers every call. -/
def Available : World → (op : Op) → op.Reply → World → Prop
  | _, .redis _, reply, _ => reply ≠ .error .connection
  | _, _, _, _ => True

/-- The environment of a program that runs alone. -/
abbrev AvailableMachine : Machine Op Op.Reply :=
  redisMachine.within Available

/-- A call that the environment can answer. -/
def Answerable : Op → Prop
  | .uniform low high => low ≤ high
  | _ => True

theorem exists_answer (w : World) (op : Op) (h : Answerable op) :
    ∃ reply w', AvailableMachine.exec w op reply w' := by
  cases op with
  | redis call =>
      refine ⟨_, _, .answered call 0, ?_⟩
      cases (call.script 0 w.store).1 <;> exact nofun
  | deliver event => exact ⟨_, _, .delivered event .success, trivial⟩
  | clock => exact ⟨_, _, .clock ⟨0, by norm_num⟩, trivial⟩
  | perfCounter => exact ⟨_, _, .perfCounter 0, trivial⟩
  | uniform low high =>
      exact ⟨_, _, .uniform low high low le_rfl h, trivial⟩
  | uuid4 => exact ⟨_, _, .uuid4 (UUID.ofNat 0), trivial⟩
  | metrics call => exact ⟨_, _, .metrics call, trivial⟩
  | log call => exact ⟨_, _, .log call, trivial⟩

/-- The history only grows. -/
theorem World.Exec.history {w w' : World} {op : Op} {reply : op.Reply}
    (h : World.Exec w op reply w') : w.history <+: w'.history := by
  cases h with
  | answered | replyLost | delivered => exact List.prefix_append _ _
  | _ => exact List.prefix_rfl

section Calls

variable {P : Op → Prop} (hmetrics : ∀ call, P (.metrics call))
  (hlog : ∀ call, P (.log call)) (store : RedisEventStore)

include hmetrics in
theorem callsOnly_metric (observers : Observers) (call : MetricCall) :
    CallsOnly P (App.metric observers call) := by
  unfold App.metric
  split
  · split
    · exact callsOnly_perform (hmetrics call)
    · exact callsOnly_throw _
  · exact callsOnly_pure _

include hlog in
theorem callsOnly_emit (observers : Observers) (call : LogCall) :
    CallsOnly P (App.emit observers call) := by
  unfold App.emit
  split
  · split
    · exact callsOnly_perform (hlog call)
    · exact callsOnly_throw _
  · exact callsOnly_pure _

include hmetrics hlog

theorem callsOnly_recordRedisFailure (operation : String)
    (eventId : Option UUID) :
    CallsOnly P (store.recordRedisFailure operation eventId) :=
  callsOnly_bind (callsOnly_metric hmetrics _ _)
    fun _ => callsOnly_emit hlog _ _

theorem callsOnly_recordQueueQuarantine (reasonCode : String) :
    CallsOnly P (store.recordQueueQuarantine reasonCode) :=
  callsOnly_bind (callsOnly_metric hmetrics _ _)
    fun _ => callsOnly_emit hlog _ _

theorem callsOnly_attempt {operation : String} {eventId : Option UUID}
    {call : RedisCall} (hcall : P (.redis call)) :
    CallsOnly P (store.attempt operation eventId call) := by
  refine callsOnly_bind (callsOnly_perform hcall) fun reply => ?_
  cases reply with
  | ok value => exact callsOnly_pure _
  | error err =>
      exact callsOnly_bind
        (callsOnly_recordRedisFailure hmetrics hlog store _ _)
        fun _ => callsOnly_throw _

end Calls

section Outcomes

variable {α : Type} {w : World} {store : RedisEventStore}

/-- Run alone while the server is available, the program ends as `Q` says. -/
abbrev AloneEnds (p : App α) (Q : Except Raised α → World → Prop)
    (w : World) : Prop :=
  p.Alone AvailableMachine Q w

theorem alone_metric {observers : Observers} {call : MetricCall}
    (hcall : call.accepted = true) :
    AloneEnds (App.metric observers call) (fun r w' => r = .ok () ∧ w' = w)
      w := by
  unfold App.metric
  rw [if_pos hcall]
  split
  · refine alone_perform ?_
    rintro reply t ⟨⟨⟩, -⟩
    exact ⟨rfl, rfl⟩
  · exact alone_pure ⟨rfl, rfl⟩

theorem alone_emit {observers : Observers} {call : LogCall}
    (hcall : call.accepted = true) :
    AloneEnds (App.emit observers call) (fun r w' => r = .ok () ∧ w' = w)
      w := by
  unfold App.emit
  rw [if_pos hcall]
  split
  · refine alone_perform ?_
    rintro reply t ⟨⟨⟩, -⟩
    exact ⟨rfl, rfl⟩
  · exact alone_pure ⟨rfl, rfl⟩

/-- A metric and a log entry, both accepted, leave no trace in the store. -/
theorem alone_observe {observers observers' : Observers}
    {metric : MetricCall} {log : LogCall} (hmetric : metric.accepted = true)
    (hlog : log.accepted = true) :
    AloneEnds (do
      App.metric observers metric
      App.emit observers' log) (fun r w' => r = .ok () ∧ w' = w) w := by
  refine (alone_metric hmetric).bind ?_ fun _ _ h => nomatch h.1
  rintro _ _ ⟨-, rfl⟩
  exact alone_emit hlog

theorem alone_recordRedisFailure {operation : String}
    {eventId : Option UUID} (hoperation : redisOperations.contains operation) :
    AloneEnds (store.recordRedisFailure operation eventId)
      (fun r w' => r = .ok () ∧ w' = w) w :=
  alone_observe hoperation rfl

theorem alone_recordQueueQuarantine {reasonCode : String}
    (hreason : reasonCodes.contains reasonCode) :
    AloneEnds (store.recordQueueQuarantine reasonCode)
      (fun r w' => r = .ok () ∧ w' = w) w := by
  refine alone_observe hreason ?_
  simp [LogCall.accepted, logOutcomes, List.contains_iff_mem.mp hreason]

/-- One call to the server: its value is returned, and its error is raised. -/
theorem alone_attempt {operation : String} {eventId : Option UUID}
    {call : RedisCall} {Q : Except Raised call.Received → World → Prop}
    (hoperation : redisOperations.contains operation)
    (hok : ∀ now value, (call.script now w.store).1 = .ok value →
      Q (.ok (call.receive value)) (w.run call now))
    (herror : ∀ now message, (call.script now w.store).1 = .error message →
      Q (.error .eventStoreUnavailable) (w.run call now)) :
    AloneEnds (store.attempt operation eventId call) Q w := by
  have hreply : AloneEnds (App.request (.redis call)) (fun r w' =>
      ∃ now, r = .ok (World.reply call (call.script now w.store).1) ∧
        w' = w.run call now) w := by
    refine alone_perform ?_
    rintro reply t ⟨hexec, havailable⟩
    cases hexec with
    | answered call now => exact ⟨now, rfl, rfl⟩
    | replyLost | requestLost => exact absurd rfl havailable
  refine hreply.bind ?_ fun _ _ ⟨_, h, _⟩ => nomatch h
  rintro _ _ ⟨now, h, rfl⟩
  obtain rfl := Except.ok.inj h
  cases hscript : (call.script now w.store).1 with
  | ok value => exact alone_pure (hok now value hscript)
  | error message =>
      refine (alone_recordRedisFailure hoperation).bind ?_
        fun _ _ h => nomatch h.1
      rintro _ _ ⟨-, rfl⟩
      exact alone_throw (herror now message hscript)

end Outcomes

end Hooklane
