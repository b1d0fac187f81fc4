import Hooklane.Support.Interleaving
import Mathlib.Algebra.Order.BigOperators.Group.List
import Mathlib.Algebra.Order.Ring.Nat

/-!
# Calls that are paid for by replies

Some calls have a price, and some replies give credits to the program that
receives them.  `Prog.Affords` states that a program never issues a call that
it cannot pay.  If every request can pay its own calls, then in any
interleaving no more is paid than was earned, although credits are never
passed from one program to another and those of a crashed program are lost.
-/

namespace Support

/-- What calls cost and what replies give. -/
structure Tariff (Op : Type) (Reply : Op → Type) where
  price : Op → ℕ
  credit : (op : Op) → Reply op → ℕ

namespace Tariff

variable {Op : Type} {Reply : Op → Type}

/-- A call without a price. -/
def Free (T : Tariff Op Reply) (op : Op) : Prop :=
  T.price op = 0

end Tariff

namespace Prog

variable {Op : Type} {Reply : Op → Type} {α β : Type} {T : Tariff Op Reply}
  {n : ℕ}

variable (T) in
/-- With `n` credits `p` pays all its calls, whatever the replies, and ends
with a value and credits satisfying `Q`. -/
def Affords : Prog Op Reply α → (α → ℕ → Prop) → ℕ → Prop
  | .pure a, Q, n => Q a n
  | .call op next, Q, n => T.price op ≤ n ∧
      ∀ reply, Affords (next reply) Q (n - T.price op + T.credit op reply)

theorem Affords.mono {p : Prog Op Reply α} {Q Q' : α → ℕ → Prop}
    (h : p.Affords T Q n) (hQ : ∀ a m, Q a m → Q' a m) :
    p.Affords T Q' n := by
  induction p generalizing n with
  | pure a => exact hQ a n h
  | call op next ih => exact ⟨h.1, fun reply => ih reply (h.2 reply)⟩

theorem Affords.bind {p : Prog Op Reply α} {f : α → Prog Op Reply β}
    {Q : α → ℕ → Prop} {R : β → ℕ → Prop} (hp : p.Affords T Q n)
    (hf : ∀ a m, Q a m → (f a).Affords T R m) :
    (p >>= f).Affords T R n := by
  induction p generalizing n with
  | pure a => exact hf a n hp
  | call op next ih => exact ⟨hp.1, fun reply => ih reply (hp.2 reply)⟩

/-- A program without paid calls keeps its credits. -/
theorem affords_of_free {p : Prog Op Reply α} (hp : p.CallsOnly T.Free) :
    p.Affords T (fun _ m => n ≤ m) n := by
  have hkeep : ∀ m, n ≤ m → p.Affords T (fun _ m => n ≤ m) m := by
    induction p with
    | pure a => exact fun m hm => hm
    | call op next ih =>
        intro m hm
        have hprice : T.price op = 0 := hp.1
        refine ⟨hprice ▸ Nat.zero_le m, fun reply => ih reply (hp.2 reply) _ ?_⟩
        omega
  exact hkeep n le_rfl

/-- A program without paid calls keeps its credits until it ends. -/
theorem affords_of_yields {p : Prog Op Reply α} {P : α → Prop}
    (hp : p.CallsOnly T.Free) (hy : p.Yields P) :
    p.Affords T (fun a m => P a ∧ n ≤ m) n := by
  have hkeep : ∀ m, n ≤ m → p.Affords T (fun a m => P a ∧ n ≤ m) m := by
    induction p with
    | pure a => exact fun m hm => ⟨hy, hm⟩
    | call op next ih =>
        intro m hm
        have hprice : T.price op = 0 := hp.1
        refine ⟨hprice ▸ Nat.zero_le m,
          fun reply => ih reply (hp.2 reply) (hy reply) _ ?_⟩
        omega
  exact hkeep n le_rfl

end Prog

namespace ProgE

variable {Op : Type} {Reply : Op → Type} {α β ε : Type}
  {T : Tariff Op Reply} {n : ℕ}

variable (T) in
/-- A program that may raise pays all its calls, and satisfies `Q` if it
returns normally. -/
def Affords (p : ProgE Op Reply ε α) (Q : α → ℕ → Prop) (n : ℕ) : Prop :=
  p.run.Affords T (fun r m => ∀ a, r = .ok a → Q a m) n

theorem affords_pure {a : α} {Q : α → ℕ → Prop} (h : Q a n) :
    (pure a : ProgE Op Reply ε α).Affords T Q n := by
  rintro b hb
  obtain rfl := Except.ok.inj hb
  exact h

theorem affords_throw {e : ε} {Q : α → ℕ → Prop} :
    (throw e : ProgE Op Reply ε α).Affords T Q n := by
  rintro b hb
  cases hb

theorem affords_perform {op : Op} {Q : Reply op → ℕ → Prop}
    (hprice : T.price op ≤ n)
    (hQ : ∀ reply, Q reply (n - T.price op + T.credit op reply)) :
    (perform op : ProgE Op Reply ε (Reply op)).Affords T Q n := by
  refine ⟨hprice, fun reply a ha => ?_⟩
  obtain rfl := Except.ok.inj ha
  exact hQ reply

theorem Affords.bind {p : ProgE Op Reply ε α} {f : α → ProgE Op Reply ε β}
    {Q : α → ℕ → Prop} {R : β → ℕ → Prop} (hp : p.Affords T Q n)
    (hf : ∀ a m, Q a m → (f a).Affords T R m) :
    (p >>= f).Affords T R n := by
  rw [Affords, run_bind]
  refine Prog.Affords.bind hp fun r m hr => ?_
  cases r with
  | ok a => exact hf a m (hr a rfl)
  | error e => exact affords_throw

theorem Affords.mono {p : ProgE Op Reply ε α} {Q Q' : α → ℕ → Prop}
    (h : p.Affords T Q n) (hQ : ∀ a m, Q a m → Q' a m) :
    p.Affords T Q' n :=
  Prog.Affords.mono h fun _ m hr a ha => hQ a m (hr a ha)

/-- The handler has to do with the credits left when the guarded program
raised. -/
theorem Affords.tryCatch {p : ProgE Op Reply ε α}
    {h : ε → ProgE Op Reply ε α} {Q : α → ℕ → Prop} (hp : p.Affords T Q n)
    (hh : ∀ e m, (h e).Affords T Q m) : (tryCatch p h).Affords T Q n := by
  rw [Affords, run_tryCatch]
  refine Prog.Affords.bind hp fun r m hr => ?_
  cases r with
  | ok a => exact affords_pure (hr a rfl)
  | error e => exact hh e m

theorem affords_of_free {p : ProgE Op Reply ε α} (hp : CallsOnly T.Free p) :
    p.Affords T (fun _ m => n ≤ m) n :=
  (Prog.affords_of_free hp.run).mono fun _ _ hm _ _ => hm

end ProgE

section Accounts

variable {α : Type} {accounts : List (α × ℕ)} {i : ℕ} {a : α × ℕ}

/-- Replacing one account changes the total by the difference. -/
theorem sum_set_account (h : accounts[i]? = some a) (b : α × ℕ) :
    ((accounts.set i b).map Prod.snd).sum + a.2 =
      (accounts.map Prod.snd).sum + b.2 := by
  obtain ⟨hlt, hget⟩ := List.getElem?_eq_some_iff.mp h
  have hold : accounts = accounts.take i ++ a :: accounts.drop (i + 1) := by
    rw [← hget, List.getElem_cons_drop, List.take_append_drop]
  have hnew : accounts.set i b =
      accounts.take i ++ b :: accounts.drop (i + 1) := by
    rw [List.set_eq_take_append_cons_drop, if_pos hlt]
  rw [hnew]
  nth_rewrite 3 [hold]
  simp only [List.map_append, List.map_cons, List.sum_append, List.sum_cons]
  omega

theorem sum_eraseIdx_account (accounts : List (α × ℕ)) (i : ℕ) :
    ((accounts.eraseIdx i).map Prod.snd).sum ≤
      (accounts.map Prod.snd).sum :=
  ((List.eraseIdx_sublist accounts i).map Prod.snd).sum_le_sum
    fun n _ => Nat.zero_le n

end Accounts

namespace Service

open Relation

variable {Op : Type} {Reply : Op → Type} {M : Machine Op Reply}
  {S : Service M} {T : Tariff Op Reply} {G : M.State → Op → Prop}

/-- Every request pays its own calls. -/
def Solvent (S : Service M) (T : Tariff Op Reply) : Prop :=
  ∀ c, (S.body c).Affords T (fun _ _ => True) 0

/-- The books of a configuration: what each thread has left, and that no more
was spent or is left than was earned. -/
structure Config.Balanced (T : Tariff Op Reply) (paid earned : M.State → ℕ)
    (cfg : S.Config) (accounts : List (S.Thread × ℕ)) : Prop where
  threads : accounts.map Prod.fst = cfg.threads
  solvent : ∀ a ∈ accounts, a.1.2.Affords T (fun _ _ => True) a.2
  balance : paid cfg.state + (accounts.map Prod.snd).sum ≤ earned cfg.state

/-- Every request pays its own calls and keeps the credits that its result
claims. -/
def Honours (S : Service M) (T : Tariff Op Reply)
    (claim : (c : S.Call) → S.Result c → ℕ) : Prop :=
  ∀ c, (S.body c).Affords T (fun a m => claim c a ≤ m) 0

/-- What a thread claims by its result; nothing before it ends. -/
def claimed (claim : (c : S.Call) → S.Result c → ℕ) : S.Thread → ℕ
  | ⟨c, .pure a⟩ => claim c a
  | ⟨_, .call _ _⟩ => 0

/-- The books of a configuration whose results claim credits as well. -/
structure Config.Covered (T : Tariff Op Reply)
    (claim : (c : S.Call) → S.Result c → ℕ) (paid earned : M.State → ℕ)
    (cfg : S.Config) (accounts : List (S.Thread × ℕ)) : Prop where
  threads : accounts.map Prod.fst = cfg.threads
  honest : ∀ a ∈ accounts, a.1.2.Affords T (fun r m => claim a.1.1 r ≤ m) a.2
  balance : paid cfg.state + (accounts.map Prod.snd).sum ≤ earned cfg.state

theorem Config.Covered.claims_le {claim : (c : S.Call) → S.Result c → ℕ}
    {paid earned : M.State → ℕ} {cfg : S.Config}
    {accounts : List (S.Thread × ℕ)}
    (h : cfg.Covered T claim paid earned accounts) :
    paid cfg.state + (cfg.threads.map (claimed claim)).sum ≤
      earned cfg.state := by
  refine le_trans (Nat.add_le_add_left ?_ _) h.balance
  rw [← h.threads, List.map_map]
  refine List.sum_le_sum fun a ha => ?_
  obtain ⟨⟨c, p⟩, n⟩ := a
  have hhonest := h.honest _ ha
  cases p with
  | pure r => exact hhonest
  | call op next => exact Nat.zero_le n

section Balanced

variable {paid earned : M.State → ℕ}
  (hpaid : ∀ s op reply s', M.exec s op reply s' →
    paid s' ≤ paid s + T.price op)
  (hearned : ∀ s op reply s', M.exec s op reply s' →
    earned s + T.credit op reply ≤ earned s')

include hpaid hearned in
theorem Config.Covered.step {claim : (c : S.Call) → S.Result c → ℕ}
    (hS : Honours S T claim) {cfg cfg' : S.Config}
    {accounts : List (S.Thread × ℕ)}
    (h : cfg.Covered T claim paid earned accounts)
    (hstep : Step G cfg cfg') :
    ∃ accounts', cfg'.Covered T claim paid earned accounts' := by
  obtain ⟨hthreads, hsolvent, hbalance⟩ := h
  cases hstep with
  | start c enabled =>
      refine ⟨accounts ++ [(⟨c, S.body c⟩, 0)], ?_, ?_, ?_⟩
      · simp [hthreads]
      · intro a ha
        rcases List.mem_append.mp ha with ha | ha
        · exact hsolvent a ha
        · obtain rfl := List.mem_singleton.mp ha
          exact hS c
      · simpa using hbalance
  | act i c op next reply state thread guard exec =>
      rw [← hthreads, List.getElem?_map] at thread
      obtain ⟨⟨t, n⟩, hget, hfst⟩ := Option.map_eq_some_iff.mp thread
      obtain rfl : t = ⟨c, .call op next⟩ := hfst
      obtain ⟨hprice, hnext⟩ := hsolvent _ (List.mem_of_getElem? hget)
      let account : S.Thread × ℕ :=
        (⟨c, next reply⟩, n - T.price op + T.credit op reply)
      refine ⟨accounts.set i account, ?_, ?_, ?_⟩
      · rw [List.map_set, hthreads]
      · intro a ha
        rcases List.mem_or_eq_of_mem_set ha with ha | rfl
        · exact hsolvent a ha
        · exact hnext reply
      · have hspent := hpaid _ _ _ _ exec
        have hgained := hearned _ _ _ _ exec
        have hsum := sum_set_account hget account
        simp only [account] at hsum hprice ⊢
        omega
  | crash i =>
      refine ⟨accounts.eraseIdx i, ?_, ?_, ?_⟩
      · rw [← List.eraseIdx_map, hthreads]
      · exact fun a ha => hsolvent a (List.mem_of_mem_eraseIdx ha)
      · exact (Nat.add_le_add_left (sum_eraseIdx_account accounts i) _).trans
          hbalance

variable (paid earned) in
include hpaid hearned in
/-- In every interleaving no more is paid, and claimed by the results at hand,
than was earned. -/
theorem Reachable.claims_le_earned {claim : (c : S.Call) → S.Result c → ℕ}
    (hS : Honours S T claim) (hinit : ∀ s, M.Init s → paid s ≤ earned s)
    {cfg : S.Config} (h : Reachable G cfg) :
    paid cfg.state + (cfg.threads.map (claimed claim)).sum ≤
      earned cfg.state := by
  obtain ⟨s₀, hs₀, hsteps⟩ := h
  have hcovered : ∃ accounts, cfg.Covered T claim paid earned accounts := by
    induction hsteps with
    | refl => exact ⟨[], rfl, nofun, hinit s₀ hs₀⟩
    | tail _ hstep ih =>
        obtain ⟨accounts, haccounts⟩ := ih
        exact haccounts.step hpaid hearned hS hstep
  obtain ⟨accounts, haccounts⟩ := hcovered
  exact haccounts.claims_le

include hpaid hearned in
theorem Config.Balanced.step (hS : Solvent S T) {cfg cfg' : S.Config}
    {accounts : List (S.Thread × ℕ)}
    (h : cfg.Balanced T paid earned accounts) (hstep : Step G cfg cfg') :
    ∃ accounts', cfg'.Balanced T paid earned accounts' := by
  have hcovered : cfg.Covered T (fun _ _ => 0) paid earned accounts :=
    ⟨h.threads, fun a ha => (h.solvent a ha).mono fun _ m _ => Nat.zero_le m,
      h.balance⟩
  obtain ⟨accounts', haccounts⟩ := hcovered.step hpaid hearned
    (fun c => (hS c).mono fun _ m _ => Nat.zero_le m) hstep
  exact ⟨accounts', haccounts.threads,
    fun a ha => (haccounts.honest a ha).mono fun _ _ _ => trivial,
    haccounts.balance⟩

variable (paid earned) in
include hpaid hearned in
/-- In every interleaving no more is paid than was earned. -/
theorem Reachable.paid_le_earned (hS : Solvent S T)
    (hinit : ∀ s, M.Init s → paid s ≤ earned s) {cfg : S.Config}
    (h : Reachable G cfg) : paid cfg.state ≤ earned cfg.state := by
  obtain ⟨s₀, hs₀, hsteps⟩ := h
  have hbalanced : ∃ accounts, cfg.Balanced T paid earned accounts := by
    induction hsteps with
    | refl => exact ⟨[], rfl, nofun, hinit s₀ hs₀⟩
    | tail _ hstep ih =>
        obtain ⟨accounts, haccounts⟩ := ih
        exact haccounts.step hpaid hearned hS hstep
  obtain ⟨accounts, -, -, hbalance⟩ := hbalanced
  exact (Nat.le_add_right _ _).trans hbalance

end Balanced

/-- Two threads claim no more than all threads together. -/
theorem claimed_add_le {claim : (c : S.Call) → S.Result c → ℕ}
    {threads : List S.Thread} {i j : ℕ} {t u : S.Thread} (hij : i < j)
    (ht : threads[i]? = some t) (hu : threads[j]? = some u) :
    claimed claim t + claimed claim u ≤
      (threads.map (claimed claim)).sum := by
  have hi : t ∈ threads.take j := by
    have hget : (threads.take j)[i]? = some t := by
      rw [List.getElem?_take_of_lt hij, ht]
    exact List.mem_of_getElem? hget
  have hj : u ∈ threads.drop j := by
    have hget : (threads.drop j)[0]? = some u := by
      rw [List.getElem?_drop, Nat.add_zero, hu]
    exact List.mem_of_getElem? hget
  rw [← List.take_append_drop j threads, List.map_append, List.sum_append]
  exact Nat.add_le_add
    (List.single_le_sum (fun _ _ => Nat.zero_le _) _ (List.mem_map_of_mem hi))
    (List.single_le_sum (fun _ _ => Nat.zero_le _) _ (List.mem_map_of_mem hj))

end Service

end Support
