import Hooklane.Queue.Store

/-!
# The life of one event

An abstract view of the Redis store: for every accepted event an `Account`
with its public status, its attempt count, the stream copy it currently lives
in, where that copy stands in the consumer group, and whether the event is on
the retry schedule.  `Transition` lists everything that the scripts do to an
account; it is deliberately as permissive as the scripts are, so a delivery
may start after the copy was acknowledged.
-/

namespace Hooklane

open Redis

/-- What the store knows about one accepted event. -/
structure Account where
  status : EventStatus
  attempts : ℕ
  current : StreamId
  custody : Custody
  scheduled : Bool
  fields : Fields

/-- The accounts of all accepted events. -/
abbrev Ledger := UUID → Option Account

/-- Whether the workers can parse a message with these fields. -/
def Parses (lib : Stdlib) (fields : Fields) : Prop :=
  (RedisEventStore.parseMessage lib "" fields).isSome

/-- The states in which a worker can still finish an event. -/
def EventStatus.Open (status : EventStatus) : Prop :=
  status = .queued ∨ status = .delivering ∨ status = .retryScheduled

theorem EventStatus.open_iff {status : EventStatus} :
    status.Open ↔ ¬status.Terminal := by
  cases status <;> simp [Open, Terminal]

/-- The three ways in which the current copy is acknowledged for good. -/
inductive Ending where
  | complete
  | deadLetter
  | quarantine
deriving DecidableEq, Repr

namespace Account

variable (parses : Fields → Prop) (late : Prop)

/-- The relations between the components of an account that every script
keeps. -/
structure Valid (a : Account) : Prop where
  unread : a.custody = .unread → a.status = .queued
  pending : a.custody = .pending → a.status.Open
  retry : a.status = .retryScheduled → a.scheduled = true ∧ 1 ≤ a.attempts
  unparsed : ¬parses a.fields → a.status = .queued ∨ a.status = .deadLetter

/-- The account of an event that was just enqueued. -/
def initial (id : StreamId) (fields : Fields) : Account where
  status := .queued
  attempts := 0
  current := id
  custody := .unread
  scheduled := false
  fields := fields

theorem valid_initial (id : StreamId) (fields : Fields) :
    (initial id fields).Valid parses := by
  constructor <;> simp [initial]

/-- What the scripts do to an account while its current copy stays in the
consumer group, or after it left it.  Only a step that is `late` touches the
account of an event whose copy was acknowledged. -/
inductive Transition : Account → Account → Prop where
  | read (a : Account) (unread : a.custody = .unread) :
      Transition a { a with custody := .pending }
  | start (a : Account) (held : a.custody ≠ .unread) (known : parses a.fields)
      (timely : a.custody = .acknowledged → late)
      (attempts : ℕ) (grows : a.attempts ≤ attempts) :
      Transition a { a with status := .delivering, attempts := attempts }
  | schedule (a : Account) (held : a.custody ≠ .unread)
      (known : parses a.fields) (timely : a.custody = .acknowledged → late)
      (started : 1 ≤ a.attempts) :
      Transition a { a with status := .retryScheduled, scheduled := true }
  | requeue (a : Account) (id : StreamId) (pending : a.custody = .pending)
      (due : a.status = .retryScheduled) :
      Transition a
        { a with status := .queued, current := id, custody := .unread,
                 scheduled := false }
  | unschedule (a : Account) (stale : a.status ≠ .retryScheduled) :
      Transition a { a with scheduled := false }
  | discard (a : Account) (lost : a.custody ≠ .pending)
      (due : a.status = .retryScheduled) :
      Transition a { a with status := .deadLetter, scheduled := false }

/-- What the three finishing scripts do to an account. -/
inductive Finish : Ending → Account → Account → Prop where
  | complete (a : Account) (pending : a.custody = .pending)
      (known : parses a.fields) :
      Finish .complete a
        { a with status := .delivered, custody := .acknowledged }
  | deadLetter (a : Account) (pending : a.custody = .pending)
      (delivering : a.status = .delivering) :
      Finish .deadLetter a
        { a with status := .deadLetter, custody := .acknowledged,
                 scheduled := false }
  | quarantine (a : Account) (pending : a.custody = .pending)
      (unknown : ¬parses a.fields) :
      Finish .quarantine a
        { a with status := .deadLetter, custody := .acknowledged }

variable {parses late} {a a' : Account} {ending : Ending}

theorem Valid.transition (hvalid : a.Valid parses)
    (h : Transition parses late a a') : a'.Valid parses := by
  cases h with
  | read unread =>
      refine ⟨by simp, fun _ => Or.inl (hvalid.unread unread), ?_, ?_⟩
      · exact hvalid.retry
      · exact hvalid.unparsed
  | start held known timely attempts grows =>
      refine ⟨fun h => absurd h held, fun _ => Or.inr (Or.inl rfl), by simp, ?_⟩
      exact fun h => absurd known h
  | schedule held known timely started =>
      refine ⟨fun h => absurd h held, fun _ => Or.inr (Or.inr rfl), ?_, ?_⟩
      · exact fun _ => ⟨rfl, started⟩
      · exact fun h => absurd known h
  | requeue id pending due =>
      exact ⟨fun _ => rfl, by simp, by simp, fun _ => Or.inl rfl⟩
  | unschedule stale =>
      refine ⟨hvalid.unread, hvalid.pending, ?_, hvalid.unparsed⟩
      exact fun h => absurd h stale
  | discard lost due =>
      refine ⟨?_, fun h => absurd h lost, by simp, fun _ => Or.inr rfl⟩
      intro h
      have hqueued := hvalid.unread h
      rw [due] at hqueued
      exact absurd hqueued (by simp)

theorem Finish.valid (h : Finish parses ending a a') : a'.Valid parses := by
  cases h with
  | complete _ pending known =>
      exact ⟨by simp, by simp, by simp, fun h => absurd known h⟩
  | deadLetter _ pending delivering =>
      exact ⟨by simp, by simp, by simp, fun _ => Or.inr rfl⟩
  | quarantine _ pending unknown =>
      exact ⟨by simp, by simp, by simp, fun _ => Or.inr rfl⟩

/-- No script gives an attempt back. -/
theorem Transition.attempts_le (h : Transition parses late a a') :
    a.attempts ≤ a'.attempts := by
  cases h with
  | start held known timely attempts grows => exact grows
  | _ => exact le_rfl

theorem Finish.attempts_eq (h : Finish parses ending a a') :
    a'.attempts = a.attempts := by
  cases h <;> rfl

theorem Transition.fields_eq (h : Transition parses late a a') :
    a'.fields = a.fields := by
  cases h <;> rfl

theorem Finish.fields_eq (h : Finish parses ending a a') :
    a'.fields = a.fields := by
  cases h <;> rfl

theorem Finish.acknowledged (h : Finish parses ending a a') :
    a.custody = .pending ∧ a'.custody = .acknowledged := by
  cases h <;> exact ⟨by assumption, rfl⟩

theorem Finish.current_eq (h : Finish parses ending a a') :
    a'.current = a.current := by
  cases h <;> rfl

/-- Outside a finish, a copy leaves the group only by being requeued. -/
theorem Transition.acknowledged_iff (h : Transition parses late a a') :
    a'.custody = .acknowledged ↔ a.custody = .acknowledged := by
  cases h with
  | read unread => simp [unread]
  | requeue id pending due => simp [pending]
  | _ => rfl

/-- The public status tells whether the current copy was acknowledged. -/
def Settled (a : Account) : Prop :=
  a.custody = .acknowledged ↔ a.status.Terminal

theorem settled_initial (id : StreamId) (fields : Fields) :
    (initial id fields).Settled := by
  simp [Settled, initial, EventStatus.Terminal]

/-- A settled account leaves an open state only by a finish, as long as no
step is late. -/
theorem Settled.transition (hsettled : a.Settled) (hvalid : a.Valid parses)
    (h : Transition parses False a a') :
    a'.Settled ∧
      (a.status.Terminal → a'.status = a.status ∧ a'.attempts = a.attempts) := by
  have hopen : a.custody ≠ .acknowledged → ¬a.status.Terminal :=
    fun hne hterminal => hne (hsettled.mpr hterminal)
  cases h with
  | read unread =>
      have hstatus := hvalid.unread unread
      have hnot := hopen (by simp [unread])
      exact ⟨by simp [Settled, hstatus, EventStatus.Terminal],
        fun hterminal => absurd hterminal hnot⟩
  | start held known timely attempts grows =>
      have hnot := hopen timely
      refine ⟨?_, fun hterminal => absurd hterminal hnot⟩
      simpa [Settled, EventStatus.Terminal] using timely
  | schedule held known timely started =>
      have hnot := hopen timely
      refine ⟨?_, fun hterminal => absurd hterminal hnot⟩
      simpa [Settled, EventStatus.Terminal] using timely
  | requeue id pending due =>
      have hnot := hopen (by simp [pending])
      exact ⟨by simp [Settled, EventStatus.Terminal],
        fun hterminal => absurd hterminal hnot⟩
  | unschedule stale => exact ⟨hsettled, fun _ => ⟨rfl, rfl⟩⟩
  | discard lost due =>
      -- A copy that is neither pending nor acknowledged is unread, but then
      -- the event would be queued.
      exfalso
      have hnot : ¬a.status.Terminal := by simp [due, EventStatus.Terminal]
      have hacked : a.custody ≠ .acknowledged :=
        fun hacked => hnot (hsettled.mp hacked)
      have hunread : a.custody = .unread := by
        cases hcustody : a.custody with
        | unread => rfl
        | pending => exact absurd hcustody lost
        | acknowledged => exact absurd hcustody hacked
      have hqueued := hvalid.unread hunread
      rw [due] at hqueued
      exact absurd hqueued (by simp)

theorem Settled.finish (hsettled : a.Settled)
    (h : Finish parses ending a a') :
    a'.Settled ∧ ¬a.status.Terminal := by
  have hpending := h.acknowledged.1
  refine ⟨?_, ?_⟩
  · cases h <;> simp [Settled, EventStatus.Terminal]
  · intro hterminal
    have hacked := hsettled.mpr hterminal
    rw [hpending] at hacked
    exact absurd hacked (by simp)

theorem Transition.mono {late' : Prop} (hlate : late → late')
    (h : Transition parses late a a') : Transition parses late' a a' := by
  cases h with
  | read unread => exact .read a unread
  | start held known timely attempts grows =>
      exact .start a held known (fun hacked => hlate (timely hacked)) attempts
        grows
  | schedule held known timely started =>
      exact .schedule a held known (fun hacked => hlate (timely hacked)) started
  | requeue id pending due => exact .requeue a id pending due
  | unschedule stale => exact .unschedule a stale
  | discard lost due => exact .discard a lost due

end Account

end Hooklane
