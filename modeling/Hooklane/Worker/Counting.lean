import Hooklane.Queue.Guarantees
import Hooklane.Support.Tracking
import Hooklane.Worker.Monitoring

/-!
# Which event a counter counts

A counter does not say which event it was incremented for.  `deliveryTracker`
does: it follows which event each worker delivered last, and labels every
increment of the completion and dead-letter counters with it.  An iteration
makes such an increment only after its finishing script for that event was
answered, and uses up the answer with it.
-/

namespace Hooklane

open Support ProgE

/-- The event that a program delivered last, and the one whose finishing script
was answered and that was not counted yet. -/
structure Progress where
  delivering : Option UUID
  closed : Option UUID

namespace Progress

def after (note : Progress) : (op : Op) → op.Reply → Progress
  | .deliver event, _ => { note with delivering := some event.eventId }
  | .redis (.completeDelivery e _ _), .ok _ => { note with closed := some e }
  | .redis (.moveToDeadLetter e _ _ _), .ok _ => { note with closed := some e }
  | .metrics call, _ =>
      if call.closes then { note with closed := none } else note
  | _, _ => note

/-- The event that a call counts as completed or dead-lettered. -/
def counted (note : Progress) : Op → Option (Option UUID)
  | .metrics call => if call.closes then some note.delivering else none
  | _ => none

/-- A counting call is made for the event whose finishing script was
answered. -/
def Earned (note : Progress) (op : Op) : Prop :=
  ∀ call, op = .metrics call → call.closes = true →
    ∃ e, note = ⟨some e, some e⟩

/-- The label that a note still holds. -/
def due (label : Option UUID) (note : Progress) : ℕ :=
  (note.closed.toList.map some).count label

end Progress

/-- Labels every increment of the completion and dead-letter counters with the
event that its worker delivered last. -/
@[reducible]
def deliveryTracker : Tracker Op Op.Reply where
  Note := Progress
  Label := Option UUID
  fresh := ⟨none, none⟩
  after := Progress.after
  label := Progress.counted

variable {α β : Type} {note : Progress}

/-- The program counts only what it earned, and ends as `Q` says. -/
abbrev Counts (p : App α) (Q : Except Raised α → Progress → Prop)
    (note : Progress) : Prop :=
  p.Heeds deliveryTracker Progress.Earned Q note

section Requests

variable (store : RedisEventStore) (observers : Observers)

end Requests

section Iteration

variable {worker : EventWorker} {queuedEvent : QueuedEvent}
  {attemptCount : ℤ} {startedAt : ℚ}

end Iteration

variable {lib : Stdlib} {group : String}

end Hooklane
