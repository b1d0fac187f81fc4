import Hooklane.Cloudflare.Refinement

/-!
# Distinct delivery tokens

`uuid4` gives every claim its own token.  `DistinctTokens` names the runs in
which no claim is executed under a token of an earlier claim.  In these runs a
token stands for one attempt, and under a single bound an event that waits has
attempts left.
-/

namespace Hooklane.Cloudflare

open Support

variable {maxima : ℕ → Prop} {G : World → Op → Prop} {w w' : World} {e : UUID}

/-- The token of a claim that selected a row. -/
def Record.issued : Record → Option String
  | .executed _ (.claimDelivery _ deliveryToken _ _ _) value =>
      value.map fun _ => deliveryToken
  | _ => none

/-- The tokens of all claims, newest first. -/
def World.issued (w : World) : List String :=
  w.history.filterMap Record.issued

/-- No claim uses the token of an earlier one. -/
def DistinctTokens (w : World) : Op → Prop
  | .d1 (.claimDelivery _ deliveryToken _ _ _) => deliveryToken ∉ w.issued
  | _ => True

instance (w : World) : DecidablePred (DistinctTokens w) := fun op =>
  match op with
  | .d1 (.claimDelivery _ token _ _ _) =>
      inferInstanceAs (Decidable (token ∉ w.issued))
  | .d1 (.acceptBatch ..) | .d1 (.selectEvent _)
  | .d1 (.selectPayloadChunks _) | .d1 (.selectState _)
  | .d1 (.selectOutbox _) | .d1 (.claimOutbox ..) | .d1 (.markDispatched ..)
  | .d1 (.releaseOutboxClaim ..) | .d1 (.deadLetterExhausted ..)
  | .d1 (.updateTerminal ..) | .time | .uuid4 | .uniform .. | .queueSend _
  | .deliver _ | .emit _ | .ack _ | .retry .. => instDecidableTrue

/-- A claim of an event issues its token. -/
theorem issued_of_entry {record : Record} {token : String} {attempt : ℕ}
    (h : record.entry e = some (.claimed token attempt)) :
    record.issued = some token := by
  cases record with
  | executed before call value =>
      obtain ⟨⟨e', entry⟩, hentry, hsome⟩ := Option.bind_eq_some_iff.mp h
      obtain ⟨-, hclaimed⟩ := Option.ite_none_right_eq_some.mp hsome
      obtain rfl := Option.some.inj hclaimed
      cases call with
      | claimDelivery =>
          obtain ⟨row, rfl, heq⟩ := Option.map_eq_some_iff.mp hentry
          obtain ⟨rfl, -⟩ := Entry.claimed.inj (Prod.mk.inj heq).2
          rfl
      | acceptBatch | deadLetterExhausted | updateTerminal =>
          obtain ⟨-, heq⟩ := Option.ite_none_right_eq_some.mp hentry
          cases heq
      | _ => cases hentry
  | sent | delivered => cases h

/-- An event's tokens are among those issued. -/
theorem tokens_sublist (w : World) (e : UUID) :
    (tokens (w.journal e)).Sublist w.issued := by
  rw [World.issued, World.journal]
  induction w.history with
  | nil => exact List.Sublist.refl _
  | cons record history ih =>
      rw [List.filterMap_cons, List.filterMap_cons]
      cases hentry : record.entry e with
      | none =>
          cases record.issued with
          | none => exact ih
          | some token => exact ih.cons token
      | some entry =>
          cases entry with
          | claimed token attempt =>
              rw [issued_of_entry hentry]
              exact ih.cons_cons token
          | accepted | settled | exhausted =>
              cases record.issued with
              | none => exact ih
              | some token => exact ih.cons token

theorem issued_exec {op : Op} {reply : op.Reply} (hdistinct : w.issued.Nodup)
    (hop : DistinctTokens w op) (hexec : World.Exec w op reply w') :
    w'.issued.Nodup := by
  have hran : ∀ (call : D1Call) (value : call.Value) (db : Database),
      DistinctTokens w (.d1 call) → (w.ran call value db).issued.Nodup := by
    intro call value db hcall
    rw [World.issued, World.ran, List.filterMap_cons]
    cases call with
    | claimDelivery =>
        cases value with
        | none => exact hdistinct
        | some row => exact List.nodup_cons.mpr ⟨hcall, hdistinct⟩
    | _ => exact hdistinct
  cases hexec with
  | answered call value returned db => exact hran call value db hop
  | replyLost call value db => exact hran call value db hop
  | _ => exact hdistinct

/-- Where no claim repeats a token, every event's tokens are distinct. -/
theorem reach_distinct (hG : ∀ w op, G w op → DistinctTokens w op)
    (h : (d1Machine.restrict G).Reach (May maxima) w) (e : UUID) :
    (tokens (w.journal e)).Nodup := by
  have hissued : w.issued.Nodup := by
    refine Machine.Reach.induction (P := fun w => World.issued w |>.Nodup)
      ?_ ?_ h
    · rintro w rfl
      exact List.nodup_nil
    · rintro w op reply w' - hw - ⟨hop, hexec⟩
      exact issued_exec hw (hG w op hop) hexec
  exact (tokens_sublist w e).nodup hissued

/-- Tokens are distinct and there is one bound. -/
structure Strict (G : World → Op → Prop) (maxima : ℕ → Prop) : Prop where
  distinct : ∀ w op, G w op → DistinctTokens w op
  single : ∀ m m', maxima m → maxima m' → m = m'

section Strict

variable {l : Lifecycle} {token : String} {attempt : ℕ}

/-- A token that owns an event shows the number of its attempt. -/
theorem Strict.attempt_eq (hs : Strict G maxima)
    (h : (d1Machine.restrict G).Reach (May maxima) w)
    (hl : w.lifecycle e = some l) (howner : l.owner = some token)
    (hclaim : (token, attempt) ∈ claims (w.journal e)) :
    attempt = l.attemptCount := by
  have hjournal := (reach_invariant h).journaled e
  rw [hl] at hjournal
  exact hjournal.attempt_of_owner (reach_distinct hs.distinct h e) howner
    hclaim

/-- An event that waits has attempts left. -/
theorem Strict.waiting_lt (hs : Strict G maxima)
    (h : (d1Machine.restrict G).Reach (May maxima) w)
    (hl : w.lifecycle e = some l) (hwaiting : l.Waiting) {m : ℕ}
    (hm : Bound maxima m) : l.attemptCount < m := by
  have hjournal := (reach_invariant h).journaled e
  exact hjournal.waiting_lt (fun m m' hm hm' => hs.single m m' hm.1 hm'.1)
    (fun _ hm => hm.2) hl (reach_distinct hs.distinct h e) hwaiting hm

end Strict

end Hooklane.Cloudflare
