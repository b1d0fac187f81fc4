import Mathlib.Data.List.Induction
import Mathlib.Data.List.Nodup

/-!
# Work that is claimed for a time

An item of work is opened, may be claimed under a token until some time, and is
closed once.  A claim ends when its holder releases it, when the holder closes
the item, or when another claim comes after its time.  A log lists what
happened to one item, newest first; it is orderly when every entry was allowed
by what stood before it.
-/

namespace Support

/-- What happens to an item. -/
inductive LeaseEntry (Token Time : Type) where
  | opened
  | claimed (token : Token) (leaseUntil now : Time)
  | released (token : Token)
  | closed (owner : Option Token)
deriving DecidableEq

/-- Where an item stands. -/
inductive Standing (Token Time : Type) where
  | absent
  | free
  | held (token : Token) (leaseUntil : Time)
  | closed
deriving DecidableEq

namespace LeaseEntry

variable {Token Time : Type}

/-- Where an item stands after an entry. -/
def standing : LeaseEntry Token Time → Standing Token Time
  | .opened => .free
  | .claimed token leaseUntil _ => .held token leaseUntil
  | .released _ => .free
  | .closed _ => .closed

/-- The entry may follow where the item stands: a free item may be claimed, or
closed without a token, and a claimed one is left to its holder until its
time. -/
def Allowed [LE Time] : LeaseEntry Token Time → Standing Token Time → Prop
  | .opened, .absent => True
  | .claimed _ _ _, .free => True
  | .claimed _ _ now, .held _ leaseUntil => leaseUntil ≤ now
  | .released token, .held holder _ => token = holder
  | .closed none, .free => True
  | .closed (some token), .held holder _ => token = holder
  | _, _ => False

def isClosing : LeaseEntry Token Time → Bool
  | .closed _ => true
  | _ => false

/-- The token of a claim. -/
def claimToken : LeaseEntry Token Time → Option Token
  | .claimed token _ _ => some token
  | _ => none

end LeaseEntry

section Log

variable {Token Time : Type}
  {log later earlier : List (LeaseEntry Token Time)}
  {entry : LeaseEntry Token Time}

/-- Where the item stands after a log. -/
def standing : List (LeaseEntry Token Time) → Standing Token Time
  | [] => .absent
  | entry :: _ => entry.standing

/-- The tokens of the claims, newest first. -/
def claimTokens (log : List (LeaseEntry Token Time)) : List Token :=
  log.filterMap LeaseEntry.claimToken

/-- Where tokens are distinct, the holder's claim is the newest entry. -/
theorem held_of_claimed {token : Token} {leaseUntil leaseUntil' now : Time}
    (hdistinct : (claimTokens (later ++ .claimed token leaseUntil now ::
      earlier)).Nodup)
    (hheld : standing (later ++ .claimed token leaseUntil now :: earlier) =
      .held token leaseUntil') : later = [] := by
  cases later with
  | nil => rfl
  | cons entry later =>
      exfalso
      cases entry with
      | opened | released | closed => cases hheld
      | claimed token' until' now' =>
          obtain ⟨rfl, -⟩ := Standing.held.inj hheld
          have hnew : token' ∉ claimTokens (later ++ .claimed token' leaseUntil
              now :: earlier) := (List.nodup_cons.mp hdistinct).1
          exact hnew (by simp [claimTokens, LeaseEntry.claimToken])

variable [LE Time]

/-- Every entry was allowed by what stood before it. -/
def Orderly : List (LeaseEntry Token Time) → Prop
  | [] => True
  | entry :: log => Orderly log ∧ entry.Allowed (standing log)

theorem Orderly.of_append (h : Orderly (later ++ log)) : Orderly log := by
  induction later with
  | nil => exact h
  | cons entry later ih => exact ih h.1

theorem Orderly.allowed (h : Orderly (later ++ entry :: log)) :
    entry.Allowed (standing log) :=
  h.of_append.2

/-- Nothing follows where an item is closed. -/
theorem LeaseEntry.not_allowed_closed : ¬entry.Allowed .closed := by
  cases entry with
  | closed owner => cases owner <;> exact id
  | opened | claimed | released => exact id

/-- An item stays closed. -/
theorem Orderly.closed_last {owner : Option Token}
    (h : Orderly (later ++ .closed owner :: earlier)) : later = [] := by
  induction later using List.reverseRecOn with
  | nil => rfl
  | append_singleton later entry ih =>
      rw [List.append_assoc] at h
      exact absurd h.allowed LeaseEntry.not_allowed_closed

/-- An item is closed at most once. -/
theorem Orderly.countP_closing_le (h : Orderly log) :
    log.countP LeaseEntry.isClosing ≤ 1 := by
  induction log with
  | nil => exact Nat.zero_le 1
  | cons entry log ih =>
      rw [List.countP_cons]
      by_cases hclosing : log.countP LeaseEntry.isClosing = 0
      · rw [hclosing]
        split <;> simp
      · obtain ⟨old, hold, hclosed⟩ :=
          List.countP_pos_iff.mp (Nat.pos_of_ne_zero hclosing)
        obtain ⟨between, before, rfl⟩ := List.append_of_mem hold
        cases old with
        | closed owner =>
            have hnil : entry :: between = [] := Orderly.closed_last h
            cases hnil
        | opened | claimed | released => cases hclosed

/-- Between two claims the first one ran out or was released. -/
theorem Orderly.claimed_again {token token' : Token}
    {leaseUntil leaseUntil' now now' : Time}
    {between : List (LeaseEntry Token Time)}
    (h : Orderly (later ++ .claimed token' leaseUntil' now' ::
      (between ++ .claimed token leaseUntil now :: earlier)))
    (hbetween : ∀ entry ∈ between, entry.claimToken = none) :
    leaseUntil ≤ now' ∨ .released token ∈ between := by
  induction between using List.reverseRecOn with
  | nil => exact Or.inl h.allowed
  | append_singleton between entry ih =>
      have hentry : entry.Allowed (.held token leaseUntil) := by
        have h' := h.of_append.1
        rw [List.append_assoc] at h'
        exact h'.allowed
      have hlast : entry ∈ between ++ [entry] := by simp
      cases entry with
      | opened => exact hentry.elim
      | claimed => exact absurd (hbetween _ hlast) (by simp [LeaseEntry.claimToken])
      | released owner =>
          obtain rfl : owner = token := hentry
          exact Or.inr hlast
      | closed owner =>
          rw [List.append_assoc, ← List.cons_append, ← List.append_assoc] at h
          have hnil := Orderly.closed_last h
          simp at hnil

end Log

end Support
