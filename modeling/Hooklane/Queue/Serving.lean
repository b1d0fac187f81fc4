import Hooklane.Queue.System
import Hooklane.Support.Settling

/-!
# The store's calls on a server that answers

`Serving` is the environment in which every call is answered, beside a register
that the calls write; `Obliging` says which answers may be asked of it.  The
store's calls and observations then return, and what they leave behind is
determined by the script.
-/

namespace Hooklane

open Redis Support ProgE

namespace World

/-- How often the sink was called. -/
def sinkCalls (w : World) : ℕ :=
  w.history.countP fun record =>
    match record with
    | .delivered _ _ => true
    | .executed _ _ _ => false

@[simp]
theorem sinkCalls_run (w : World) (call : RedisCall) (now : UInt64) :
    (w.run call now).sinkCalls = w.sinkCalls := by
  simp [sinkCalls, World.run, List.countP_append]

@[simp]
theorem sinkCalls_deliver (w : World) (event : QueuedEvent)
    (reply : SinkReply) :
    (w.deliver event reply).sinkCalls = w.sinkCalls + 1 := by
  simp [sinkCalls, World.deliver, List.countP_append]

/-- The same contents, and no call of the sink in between. -/
structure Looked (w w' : World) : Prop where
  store : w'.store = w.store
  sinkCalls : w'.sinkCalls = w.sinkCalls

theorem Looked.refl (w : World) : Looked w w := ⟨rfl, rfl⟩

theorem Looked.trans {w w' w'' : World} (h : Looked w w')
    (h' : Looked w' w'') : Looked w w'' :=
  ⟨h'.store.trans h.store, h'.sinkCalls.trans h.sinkCalls⟩

/-- A script that leaves the keyspace as it is only looks. -/
theorem looked_run {w : World} {call : RedisCall} {now : UInt64}
    (h : (call.script now w.store).2 = w.store) : Looked w (w.run call now) :=
  ⟨h, sinkCalls_run w call now⟩

end World

section Environment

variable {N : Type} (after : N → (op : Op) → op.Reply → N)
  (R : World × N → (op : Op) → op.Reply → Prop)

/-- The Redis machine beside a register, where the answers meet `R`. -/
abbrev Serving : Machine Op Op.Reply :=
  (redisMachine.beside after).within fun s op reply _ => R s op reply

/-- The server runs every script and its replies arrive; observations are taken
and the clock can be read. -/
structure Obliging : Prop where
  answers : ∀ s call now,
    R s (.redis call) (World.reply call (call.script now s.1.store).1)
  arrives : ∀ s call reply, R s (.redis call) reply → reply ≠ .error .connection
  metrics : ∀ s call, R s (.metrics call) ()
  clock : ∀ s, ∃ time, R s .clock time

end Environment

variable {N : Type} {after : N → (op : Op) → op.Reply → N}
  {R : World × N → (op : Op) → op.Reply → Prop} {α : Type} {s : World × N}

/-- The program returns as `Q` says. -/
abbrev Gives (after : N → (op : Op) → op.Reply → N)
    (R : World × N → (op : Op) → op.Reply → Prop) (p : App α)
    (Q : α → World × N → Prop) (s : World × N) : Prop :=
  p.Returns (Serving after R) Q s

section Calls

variable (hR : Obliging R)

include hR

theorem Obliging.gives_redis {call : RedisCall}
    {Q : Except RedisError call.Received → World × N → Prop}
    (h : ∀ now, Q (World.reply call (call.script now s.1.store).1)
      (s.1.run call now, after s.2 (.redis call)
        (World.reply call (call.script now s.1.store).1))) :
    Gives after R (App.request (.redis call)) Q s := by
  refine returns_perform ⟨_, (s.1.run call 0, after s.2 (.redis call) _),
    ⟨.answered call 0, rfl⟩, hR.answers s call 0⟩ ?_
  rintro reply ⟨w, n⟩ ⟨⟨hexec, hregister⟩, hallowed⟩
  have harrives := hR.arrives s call reply hallowed
  obtain rfl : n = after s.2 (.redis call) reply := hregister
  cases hexec with
  | answered call now => exact h now
  | replyLost | requestLost => exact absurd rfl harrives

theorem Obliging.gives_clock {Q : WallTime → World × N → Prop}
    (h : ∀ time, R s .clock time → Q time (s.1, after s.2 .clock time)) :
    Gives after R (App.request .clock) Q s := by
  obtain ⟨time, htime⟩ := hR.clock s
  refine returns_perform ⟨time, (s.1, after s.2 .clock time),
    ⟨.clock time, rfl⟩, htime⟩ ?_
  rintro reply ⟨w, n⟩ ⟨⟨hexec, hregister⟩, hallowed⟩
  obtain rfl : n = after s.2 .clock reply := hregister
  cases hexec
  exact h _ hallowed

/-- An accepted metric call, where the registry is there. -/
theorem Obliging.gives_metric {observers : Observers} {call : MetricCall}
    {Q : Unit → World × N → Prop} (haccepted : call.accepted = true)
    (hon : observers.metrics = true →
      Q () (s.1, after s.2 (.metrics call) ()))
    (hoff : observers.metrics = false → Q () s) :
    Gives after R (App.metric observers call) Q s := by
  unfold App.metric
  rw [if_pos haccepted]
  split
  · next hmetrics =>
    refine returns_perform ⟨(), (s.1, after s.2 (.metrics call) ()),
      ⟨.metrics call, rfl⟩, hR.metrics s call⟩ ?_
    rintro reply ⟨w, n⟩ ⟨⟨hexec, hregister⟩, -⟩
    obtain rfl : n = after s.2 (.metrics call) reply := hregister
    cases hexec
    exact hon hmetrics
  · next hmetrics => exact returns_pure (hoff (Bool.eq_false_iff.mpr hmetrics))

/-- A read of the queue snapshot. -/
theorem Obliging.gives_query {call : RedisCall} {value : call.Value}
    {Q : call.Received → World × N → Prop}
    (hvalue : ∀ now, (call.script now s.1.store).1 = .ok value)
    (h : ∀ now, Q (call.receive value)
      (s.1.run call now, after s.2 (.redis call) (.ok (call.receive value)))) :
    Gives after R (RedisEventStore.query call) Q s := by
  refine (hR.gives_redis (Q := fun reply t =>
    reply = .ok (call.receive value) ∧ Q (call.receive value) t) ?_).bind ?_
  · intro now
    rw [hvalue now]
    exact ⟨rfl, h now⟩
  · rintro reply t ⟨rfl, hQ⟩
    exact returns_pure hQ

end Calls

end Hooklane
