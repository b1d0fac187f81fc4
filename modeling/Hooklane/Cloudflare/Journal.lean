import Hooklane.Cloudflare.Tables

/-!
# The life of one event

What a delivery backend with expiring claims owes to a single event, without
tables, leases or clocks.  An event is claimed under a token and settled under
the same token; a claim may be followed by another claim, after which the
older token settles nothing.

`Journal limit log state` says that the entries of `log`, newest first, can
follow one another and lead to `state`, where `limit` holds of the bounds on
the number of attempts.  Everything below is about such logs alone; the D1
store is related to them in `Hooklane.Cloudflare.Refinement`.
-/

namespace Hooklane.Cloudflare

/-- What happens to one event. -/
inductive Entry where
  | accepted
  | claimed (token : String) (attempt : ℕ)
  | settled (status : EventStatus) (token : String)
  | exhausted
deriving DecidableEq, Repr

/-- Where an event stands. -/
structure Lifecycle where
  status : EventStatus
  attemptCount : ℕ
  owner : Option String
deriving DecidableEq, Repr

namespace Lifecycle

/-- No attempt is running and another one may follow. -/
def Waiting (l : Lifecycle) : Prop :=
  l.status = .queued ∨ l.status = .retryScheduled

theorem Waiting.ne_delivering {l : Lifecycle} (h : l.Waiting) :
    l.status ≠ .delivering := by
  rcases h with h | h <;> simp [h]

/-- An attempt may be claimed under the bound `maximum`.  Whether the lease of
a running attempt has expired is left open. -/
def Claimable (l : Lifecycle) (maximum : ℕ) : Prop :=
  l.Waiting ∧ l.attemptCount < maximum ∨
    l.status = .delivering ∧ l.attemptCount ≤ maximum

/-- The event with a new attempt claimed under `token`. -/
def claim (l : Lifecycle) (maximum : ℕ) (token : String) : Lifecycle where
  status := .delivering
  attemptCount := nextAttempt l.status l.attemptCount maximum
  owner := some token

/-- The event with its attempt settled. -/
def settle (l : Lifecycle) (status : EventStatus) : Lifecycle where
  status := status
  attemptCount := l.attemptCount
  owner := none

end Lifecycle

/-- The claims of a log: token and attempt, newest first. -/
def claims (log : List Entry) : List (String × ℕ) :=
  log.filterMap fun
    | .claimed token attempt => some (token, attempt)
    | _ => none

/-- The tokens under which an event was claimed, newest first. -/
def tokens (log : List Entry) : List String :=
  (claims log).map Prod.fst

/-- How the attempt claimed under a token was settled. -/
def outcome (log : List Entry) (token : String) : Option EventStatus :=
  log.findSome? fun
    | .settled status t => if t = token then some status else none
    | _ => none

/-- What the holder of a token knows before it settles: the token was issued,
and a retry follows an attempt below some bound. -/
def Granted (limit : ℕ → Prop) (log : List Entry) (status : EventStatus)
    (token : String) : Prop :=
  (status.Terminal ∨ status = .retryScheduled) ∧
    ∃ attempt, (token, attempt) ∈ claims log ∧
      (status = .retryScheduled → ∃ m, limit m ∧ attempt < m)

/-- The logs of one event and where they lead. -/
inductive Journal (limit : ℕ → Prop) : List Entry → Option Lifecycle → Prop
  where
  | empty : Journal limit [] none
  | accepted {log : List Entry} (before : Journal limit log none) :
      Journal limit (.accepted :: log) (some ⟨.queued, 0, none⟩)
  | claimed {log : List Entry} {l : Lifecycle} {m : ℕ} {token : String}
      (before : Journal limit log (some l)) (bound : limit m)
      (claimable : l.Claimable m) :
      Journal limit (.claimed token (l.claim m token).attemptCount :: log)
        (some (l.claim m token))
  | settled {log : List Entry} {l : Lifecycle} {status : EventStatus}
      {token : String} (before : Journal limit log (some l))
      (running : l.status = .delivering) (owner : l.owner = some token)
      (granted : Granted limit log status token) :
      Journal limit (.settled status token :: log) (some (l.settle status))
  | exhausted {log : List Entry} {l : Lifecycle} {m : ℕ}
      (before : Journal limit log (some l)) (waiting : l.Waiting)
      (bound : limit m) (used : m ≤ l.attemptCount) :
      Journal limit (.exhausted :: log)
        (some { l with status := .deadLetter })

section Log

variable {log : List Entry} {token : String} {attempt : ℕ}
  {status : EventStatus}

@[simp]
theorem claims_nil : claims [] = [] := rfl

@[simp]
theorem claims_accepted : claims (.accepted :: log) = claims log := rfl

@[simp]
theorem claims_claimed :
    claims (.claimed token attempt :: log) = (token, attempt) :: claims log :=
  rfl

@[simp]
theorem claims_settled :
    claims (.settled status token :: log) = claims log := rfl

@[simp]
theorem claims_exhausted : claims (.exhausted :: log) = claims log := rfl

@[simp]
theorem tokens_nil : tokens [] = [] := rfl

@[simp]
theorem tokens_accepted : tokens (.accepted :: log) = tokens log := rfl

@[simp]
theorem tokens_settled :
    tokens (.settled status token :: log) = tokens log := rfl

@[simp]
theorem tokens_exhausted : tokens (.exhausted :: log) = tokens log := rfl

theorem mem_claims : (token, attempt) ∈ claims log ↔
    .claimed token attempt ∈ log := by
  rw [claims, List.mem_filterMap]
  constructor
  · rintro ⟨entry, hentry, hsome⟩
    cases entry with
    | claimed t n =>
        obtain ⟨rfl, rfl⟩ := Prod.mk.inj (Option.some.inj hsome)
        exact hentry
    | accepted | settled | exhausted => cases hsome
  · intro hentry
    exact ⟨_, hentry, rfl⟩

end Log

namespace Journal

variable {limit : ℕ → Prop} {log later : List Entry}
  {state state' : Option Lifecycle} {l : Lifecycle} {entry : Entry}

/-- Only the empty log leaves the event unknown. -/
theorem eq_nil (h : Journal limit log none) : log = [] := by
  cases h with
  | empty => rfl

theorem tail (h : Journal limit (entry :: log) state) :
    ∃ before, Journal limit log before := by
  cases h with
  | accepted before => exact ⟨_, before⟩
  | claimed before => exact ⟨_, before⟩
  | settled before => exact ⟨_, before⟩
  | exhausted before => exact ⟨_, before⟩

theorem of_append (h : Journal limit (later ++ log) state) :
    ∃ before, Journal limit log before := by
  induction later generalizing state with
  | nil => exact ⟨state, h⟩
  | cons entry later ih =>
      obtain ⟨before, hbefore⟩ := h.tail
      exact ih hbefore

/-- A log determines where it leads. -/
theorem unique (h : Journal limit log state) (h' : Journal limit log state') :
    state = state' := by
  induction h generalizing state' with
  | empty => cases h'; rfl
  | accepted => cases h'; rfl
  | claimed before bound claimable ih =>
      generalize hlog : Entry.claimed _ _ :: _ = log' at h'
      cases h' with
      | claimed before' =>
          obtain ⟨hentry, -⟩ := List.cons.inj hlog
          obtain ⟨rfl, hattempt⟩ := Entry.claimed.inj hentry
          simp only [Lifecycle.claim] at hattempt
          simp [Lifecycle.claim, hattempt]
      | empty | accepted | settled | exhausted => cases hlog
  | settled before running owner granted ih =>
      cases h' with
      | settled before' =>
          obtain rfl := Option.some.inj (ih before')
          rfl
  | exhausted before waiting bound used ih =>
      cases h' with
      | exhausted before' =>
          obtain rfl := Option.some.inj (ih before')
          rfl

/-- Nothing happens to a finished event. -/
theorem not_cons (h : Journal limit log (some l)) (hl : l.status.Terminal) :
    ¬Journal limit (entry :: log) state := by
  intro hnext
  cases hnext with
  | accepted before => exact absurd (h.unique before) (by simp)
  | claimed before _ claimable =>
      obtain rfl := Option.some.inj (h.unique before)
      rcases claimable with ⟨waiting | waiting, -⟩ | ⟨running, -⟩
      · simp [waiting, EventStatus.Terminal] at hl
      · simp [waiting, EventStatus.Terminal] at hl
      · simp [running, EventStatus.Terminal] at hl
  | settled before running =>
      obtain rfl := Option.some.inj (h.unique before)
      simp [running, EventStatus.Terminal] at hl
  | exhausted before waiting =>
      obtain rfl := Option.some.inj (h.unique before)
      rcases waiting with waiting | waiting <;>
        simp [waiting, EventStatus.Terminal] at hl

/-- A finished event stays as it is, and its log is closed. -/
theorem terminal_final (h : Journal limit log (some l))
    (hl : l.status.Terminal) (h' : Journal limit (later ++ log) state') :
    later = [] ∧ state' = some l := by
  induction later generalizing state' with
  | nil => exact ⟨rfl, h'.unique h⟩
  | cons entry later ih =>
      obtain ⟨before, hbefore⟩ := h'.tail
      obtain ⟨rfl, -⟩ := ih hbefore
      exact absurd h' (h.not_cons hl)

/-- An attempt is running exactly while somebody owns it, and its owner made
the latest claim. -/
theorem owner_cases (h : Journal limit log state) (hl : state = some l) :
    (l.status = .delivering ∧ ∃ token rest, l.owner = some token ∧
      claims log = (token, l.attemptCount) :: rest) ∨
    (l.status ≠ .delivering ∧ l.owner = none) := by
  induction h generalizing l with
  | empty => cases hl
  | accepted =>
      obtain rfl := Option.some.inj hl
      exact Or.inr ⟨by simp, rfl⟩
  | claimed =>
      obtain rfl := Option.some.inj hl
      exact Or.inl ⟨rfl, _, _, rfl, rfl⟩
  | settled _ _ _ granted =>
      obtain rfl := Option.some.inj hl
      refine Or.inr ⟨?_, rfl⟩
      rcases granted.1 with (rfl | rfl) | rfl <;> simp [Lifecycle.settle]
  | exhausted _ waiting _ _ ih =>
      obtain rfl := Option.some.inj hl
      refine Or.inr ⟨by simp, ?_⟩
      rcases ih rfl with ⟨running, -⟩ | ⟨-, hnone⟩
      · exact absurd running waiting.ne_delivering
      · exact hnone

/-- The owner of a running attempt made the latest claim. -/
theorem owner_claims (h : Journal limit log (some l)) {token : String}
    (howner : l.owner = some token) :
    ∃ rest, claims log = (token, l.attemptCount) :: rest := by
  rcases h.owner_cases rfl with ⟨-, token', rest, howner', hclaims⟩ | ⟨-, hnone⟩
  · rw [howner] at howner'
    obtain rfl := Option.some.inj howner'
    exact ⟨rest, hclaims⟩
  · rw [howner] at hnone
    cases hnone

/-- Under one bound the attempts are the claims, up to that bound. -/
theorem attemptCount_eq {maximum : ℕ} (hlimit : ∀ m, limit m → m = maximum)
    (h : Journal limit log state) (hl : state = some l) :
    l.attemptCount = min (claims log).length maximum := by
  induction h generalizing l with
  | empty => cases hl
  | accepted before =>
      obtain rfl := Option.some.inj hl
      obtain rfl := before.eq_nil
      simp
  | @claimed log l₀ m token before bound claimable ih =>
      obtain rfl := Option.some.inj hl
      obtain rfl := hlimit m bound
      have hcount := ih rfl
      simp only [Lifecycle.claim, claims_claimed, List.length_cons]
      rcases claimable with ⟨waiting, hlt⟩ | ⟨running, hle⟩
      · rw [nextAttempt_of_ne waiting.ne_delivering]
        omega
      · rw [running, nextAttempt_delivering]
        split <;> omega
  | @settled log l₀ status token before running owner granted ih =>
      obtain rfl := Option.some.inj hl
      exact ih (l := l₀) rfl
  | @exhausted log l₀ m before waiting bound used ih =>
      obtain rfl := Option.some.inj hl
      exact ih (l := l₀) rfl

/-- Under one bound fewer claims than the bound stay below it. -/
theorem claims_below {maximum : ℕ} (hlimit : ∀ m, limit m → m = maximum)
    (h : Journal limit log state) :
    (claims log).countP (fun claim => decide (claim.2 < maximum)) ≤
      min (claims log).length (maximum - 1) := by
  induction h with
  | empty => simp
  | accepted before ih => exact ih
  | @claimed log l m token before bound claimable ih =>
      have hnext : Journal limit (.claimed token (l.claim m token).attemptCount
          :: log) (some (l.claim m token)) := before.claimed bound claimable
      have hcount := attemptCount_eq hlimit hnext rfl
      rw [claims_claimed, List.length_cons] at hcount
      rw [claims_claimed, List.countP_cons, List.length_cons, hcount]
      split
      · next hlt =>
        have := of_decide_eq_true hlt
        omega
      · omega
  | settled before running owner granted ih => exact ih
  | exhausted before waiting bound used ih => exact ih

section DistinctTokens

/-- With distinct tokens the owner's claim shows the attempt. -/
theorem attempt_of_owner (h : Journal limit log (some l))
    (hdistinct : (tokens log).Nodup) {token : String}
    (howner : l.owner = some token) {attempt : ℕ}
    (hclaim : (token, attempt) ∈ claims log) : attempt = l.attemptCount := by
  obtain ⟨rest, hclaims⟩ := h.owner_claims howner
  have hhead : (token, l.attemptCount) ∈ claims log :=
    hclaims ▸ List.mem_cons_self
  exact congrArg Prod.snd
    (List.inj_on_of_nodup_map hdistinct hclaim hhead rfl)

/-- Under one bound a waiting event has attempts left. -/
theorem waiting_lt (hsingle : ∀ m m', limit m → limit m' → m = m')
    (hpositive : ∀ m, limit m → 1 ≤ m) (h : Journal limit log state)
    (hl : state = some l) (hdistinct : (tokens log).Nodup)
    (hwaiting : l.Waiting) {m : ℕ} (hm : limit m) : l.attemptCount < m := by
  induction h generalizing l with
  | empty => cases hl
  | accepted =>
      obtain rfl := Option.some.inj hl
      exact hpositive m hm
  | claimed =>
      obtain rfl := Option.some.inj hl
      rcases hwaiting with hwaiting | hwaiting <;> cases hwaiting
  | @settled log l₀ status token before running owner granted =>
      obtain rfl := Option.some.inj hl
      obtain ⟨hstatus, attempt, hclaim, hretry⟩ := granted
      have hstatus : status = .retryScheduled := by
        rcases hwaiting with hwaiting | hwaiting
        · rcases hstatus with (rfl | rfl) | rfl <;> cases hwaiting
        · exact hwaiting
      obtain ⟨m', hm', hlt⟩ := hretry hstatus
      obtain rfl := hsingle m m' hm hm'
      rw [before.attempt_of_owner hdistinct owner hclaim] at hlt
      exact hlt
  | exhausted =>
      obtain rfl := Option.some.inj hl
      rcases hwaiting with hwaiting | hwaiting <;> cases hwaiting

end DistinctTokens

end Journal

end Hooklane.Cloudflare
