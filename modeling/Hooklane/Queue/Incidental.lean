import Hooklane.Queue.Alone

/-!
# Calls beside the delivery

What the store does apart from recording the end of a delivery: it asks Redis,
counts failures and quarantines, and writes log entries.  Such a program makes
no call that delivers, finishes or counts an event, has none of its metrics and
log entries rejected, and raises nothing but `EventStoreUnavailable`.  Taking a
message may raise the `RecursionError` of `json.loads` as well.
-/

namespace Hooklane

open Support ProgE

/-- A call that neither delivers nor finishes an event, nor counts a
delivery. -/
def Op.Incidental : Op → Prop
  | .deliver _ => False
  | .redis (.completeDelivery ..) | .redis (.moveToDeadLetter ..) => False
  | .metrics .startDelivery | .metrics (.finishDelivery ..)
  | .metrics (.recordDeadLetter _) => False
  | _ => True

variable {α β : Type}

/-- A program of incidental calls that raises nothing but
`EventStoreUnavailable`. -/
structure Incidental (p : App α) : Prop where
  calls : CallsOnly Op.Incidental p
  raises : Yields (fun r => ∀ e, r = .error e → e = .eventStoreUnavailable) p

namespace Incidental

theorem pure (a : α) : Incidental (Pure.pure a : App α) :=
  ⟨callsOnly_pure a, yields_pure nofun⟩

theorem throw : Incidental (throw .eventStoreUnavailable : App α) := by
  refine ⟨callsOnly_throw _, yields_throw fun e he => ?_⟩
  exact (Except.error.inj he).symm

theorem request (op : Op) (h : op.Incidental) :
    Incidental (App.request op) := by
  refine ⟨callsOnly_perform h, yields_perform.mono ?_⟩
  rintro _ ⟨reply, rfl⟩ e he
  cases he

theorem bind {p : App α} {f : α → App β} (hp : Incidental p)
    (hf : ∀ a, Incidental (f a)) : Incidental (p >>= f) := by
  refine ⟨callsOnly_bind hp.calls fun a => (hf a).calls, ?_⟩
  refine hp.raises.bind (fun a _ => (hf a).raises) fun e he e' h => ?_
  rw [← Except.error.inj h]
  exact he e rfl

/-- Whatever the guarded program raises is handled. -/
theorem tryCatch {p : App α} {h : Raised → App α}
    (hp : CallsOnly Op.Incidental p) (hh : ∀ e, Incidental (h e)) :
    Incidental (tryCatch p h) := by
  refine ⟨callsOnly_tryCatch hp fun e => (hh e).calls, ?_⟩
  exact (yields_any p).tryCatch (fun a _ e he => by cases he)
    fun e _ => (hh e).raises

theorem metric (observers : Observers) (call : MetricCall)
    (haccepted : call.accepted = true) (h : (Op.metrics call).Incidental) :
    Incidental (App.metric observers call) := by
  unfold App.metric
  rw [if_pos haccepted]
  split
  · exact request _ h
  · exact pure ()

theorem emit (observers : Observers) (call : LogCall)
    (haccepted : call.accepted = true) :
    Incidental (App.emit observers call) := by
  unfold App.emit
  rw [if_pos haccepted]
  split
  · exact request _ trivial
  · exact pure ()

end Incidental

/-- A program of incidental calls that may meet a payload nested too deeply. -/
structure Taking (p : App α) : Prop where
  calls : CallsOnly Op.Incidental p
  raises : Yields (fun r => ∀ e, r = .error e →
    e = .eventStoreUnavailable ∨ e = .recursionError) p

theorem Taking.bind {p : App α} {f : α → App β} (hp : Taking p)
    (hf : ∀ a, Taking (f a)) : Taking (p >>= f) := by
  refine ⟨callsOnly_bind hp.calls fun a => (hf a).calls, ?_⟩
  refine hp.raises.bind (fun a _ => (hf a).raises) fun e he e' h => ?_
  rw [← Except.error.inj h]
  exact he e rfl

variable (store : RedisEventStore)

end Hooklane
