import Hooklane.Support.Accounting

/-!
# What the threads are about to pay

In balanced books the accounts of the threads cover the prices of the calls
that they issue next.  A call with a price of one that gives its credit back
is a permission: as many threads can be about to issue it as there are credits
outstanding.
-/

namespace Support

namespace Service

variable {Op : Type} {Reply : Op → Type} {M : Machine Op Reply}
  {S : Service M} {T : Tariff Op Reply} {G : M.State → Op → Prop}
  {paid earned : M.State → ℕ}

variable (T) in
/-- The price of a thread's next call; nothing once it has ended. -/
def nextPrice : S.Thread → ℕ
  | ⟨_, .pure _⟩ => 0
  | ⟨_, .call op _⟩ => T.price op

theorem Config.Balanced.dues_le {cfg : S.Config}
    {accounts : List (S.Thread × ℕ)}
    (h : cfg.Balanced T paid earned accounts) :
    paid cfg.state + (cfg.threads.map (nextPrice T)).sum ≤ earned cfg.state := by
  refine le_trans (Nat.add_le_add_left ?_ _) h.balance
  rw [← h.threads, List.map_map]
  refine List.sum_le_sum fun a ha => ?_
  obtain ⟨⟨c, p⟩, n⟩ := a
  have hsolvent := h.solvent _ ha
  cases p with
  | pure r => exact Nat.zero_le n
  | call op next => exact hsolvent.1

variable (paid earned) in
/-- In every interleaving of solvent requests, what was paid and what is due
next was earned. -/
theorem Reachable.dues_le_earned
    (hpaid : ∀ s op reply s', M.exec s op reply s' →
      paid s' ≤ paid s + T.price op)
    (hearned : ∀ s op reply s', M.exec s op reply s' →
      earned s + T.credit op reply ≤ earned s')
    (hS : Solvent S T) (hinit : ∀ s, M.Init s → paid s ≤ earned s)
    {cfg : S.Config} (h : Reachable G cfg) :
    paid cfg.state + (cfg.threads.map (nextPrice T)).sum ≤ earned cfg.state := by
  obtain ⟨s₀, hs₀, hsteps⟩ := h
  have hbalanced : ∃ accounts, cfg.Balanced T paid earned accounts := by
    induction hsteps with
    | refl => exact ⟨[], rfl, nofun, hinit s₀ hs₀⟩
    | tail _ hstep ih =>
        obtain ⟨accounts, haccounts⟩ := ih
        exact haccounts.step hpaid hearned hS hstep
  obtain ⟨accounts, haccounts⟩ := hbalanced
  exact haccounts.dues_le

/-- A thread's own due is part of all dues. -/
theorem nextPrice_le_sum {threads : List S.Thread} {i : ℕ} {t : S.Thread}
    (h : threads[i]? = some t) :
    nextPrice T t ≤ (threads.map (nextPrice T)).sum :=
  List.single_le_sum (fun _ _ => Nat.zero_le _) _
    (List.mem_map_of_mem (List.mem_of_getElem? h))

end Service

end Support
