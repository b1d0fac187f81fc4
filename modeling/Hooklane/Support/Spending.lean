import Hooklane.Support.Accounting
import Hooklane.Support.Outcome

/-!
# Paid calls in a shared environment

`Prog.Affords` accounts for the replies alone.  Where a program can pay its
calls only because of what the environment holds, `Prog.Pays` accounts for the
states as well: prices and credits may depend on the state, and the program
relies on every fact that the steps of others keep.
-/

namespace Support

open Machine

/-- What calls cost and what replies give, in each state. -/
structure Rates {Op : Type} {Reply : Op → Type} (M : Machine Op Reply) where
  price : M.State → Op → ℕ
  credit : M.State → (op : Op) → Reply op → ℕ

namespace Prog

variable {Op : Type} {Reply : Op → Type} {M : Machine Op Reply} {α β : Type}
  {T : Rates M} {n : ℕ} {s s' : M.State}

variable (T) in
/-- Started in `s` with `n` credits, and with steps of others in between, `p`
pays all its calls and ends with a value, credits and a state satisfying
`Q`. -/
def Pays : Prog Op Reply α → (α → ℕ → M.State → Prop) → ℕ → M.State → Prop
  | .pure a, Q, n, s => ∀ s', M.Later Service.anyCall s s' →
      M.Reach Service.anyCall s' → Q a n s'
  | .call op next, Q, n, s => ∀ s', M.Later Service.anyCall s s' →
      M.Reach Service.anyCall s' → T.price s' op ≤ n ∧
        ∀ reply t, M.exec s' op reply t →
          Pays (next reply) Q (n - T.price s' op + T.credit s' op reply) t

theorem Pays.later {p : Prog Op Reply α} {Q : α → ℕ → M.State → Prop}
    (h : p.Pays T Q n s) (hlater : M.Later Service.anyCall s s') :
    p.Pays T Q n s' := by
  cases p with
  | pure a => exact fun t ht hreach => h t (hlater.trans ht) hreach
  | call op next => exact fun t ht hreach => h t (hlater.trans ht) hreach

theorem pays_of_later {p : Prog Op Reply α} {Q : α → ℕ → M.State → Prop}
    (h : ∀ s', M.Later Service.anyCall s s' → M.Reach Service.anyCall s' →
      p.Pays T Q n s') : p.Pays T Q n s := by
  cases p with
  | pure a =>
      exact fun s' hlater hreach => h s' hlater hreach s' (.refl s') hreach
  | call op next =>
      exact fun s' hlater hreach => h s' hlater hreach s' (.refl s') hreach

theorem Pays.mono {p : Prog Op Reply α} {Q Q' : α → ℕ → M.State → Prop}
    (h : p.Pays T Q n s)
    (hQ : ∀ a m s', M.Reach Service.anyCall s' → Q a m s' → Q' a m s') :
    p.Pays T Q' n s := by
  induction p generalizing n s with
  | pure a =>
      exact fun s' hlater hreach => hQ a n s' hreach (h s' hlater hreach)
  | call op next ih =>
      intro s' hlater hreach
      obtain ⟨hprice, hnext⟩ := h s' hlater hreach
      exact ⟨hprice, fun reply t hexec => ih reply (hnext reply t hexec)⟩

theorem Pays.bind {p : Prog Op Reply α} {f : α → Prog Op Reply β}
    {Q : α → ℕ → M.State → Prop} {R : β → ℕ → M.State → Prop}
    (hp : p.Pays T Q n s)
    (hf : ∀ a m s', M.Reach Service.anyCall s' → Q a m s' →
      (f a).Pays T R m s') : (p >>= f).Pays T R n s := by
  induction p generalizing n s with
  | pure a =>
      apply pays_of_later
      exact fun s' hlater hreach => hf a n s' hreach (hp s' hlater hreach)
  | call op next ih =>
      intro s' hlater hreach
      obtain ⟨hprice, hnext⟩ := hp s' hlater hreach
      exact ⟨hprice, fun reply t hexec => ih reply (hnext reply t hexec)⟩

/-- Frame rule: what the steps of others keep still holds at the end. -/
theorem Pays.frame {p : Prog Op Reply α} {Q : α → ℕ → M.State → Prop}
    {F : M.State → Prop} (h : p.Pays T Q n s) (hF : Stable Service.anyCall F)
    (hs : M.Reach Service.anyCall s) (hFs : F s) :
    p.Pays T (fun a m s' => F s' ∧ Q a m s') n s := by
  induction p generalizing n s with
  | pure a =>
      exact fun s' hlater hs' => ⟨hF s s' hs hlater hFs, h s' hlater hs'⟩
  | call op next ih =>
      intro s' hlater hs'
      obtain ⟨hprice, hnext⟩ := h s' hlater hs'
      refine ⟨hprice, fun reply t hexec => ?_⟩
      have hmove : M.Later Service.anyCall s' t := Later.move trivial hexec
      exact ih reply (hnext reply t hexec) (hs'.later hmove)
        (hF s t hs (hlater.trans hmove) hFs)

/-- A disciplined program whose calls are free while `F` holds keeps its
credits. -/
theorem pays_of_ensures {P : Op → Prop} {F : M.State → Prop}
    {p : Prog Op Reply α} {Q : α → M.State → Prop}
    (hp : p.Ensures Service.anyCall Q s) (hcalls : p.CallsOnly P)
    (hfree : ∀ t op, F t → P op → T.price t op = 0)
    (hF : Stable Service.anyCall F) (hs : M.Reach Service.anyCall s)
    (h : F s) : p.Pays T (fun a m s' => Q a s' ∧ n ≤ m) n s := by
  have hkeep : ∀ m, n ≤ m → p.Pays T (fun a m s' => Q a s' ∧ n ≤ m) m s := by
    induction p generalizing s with
    | pure a =>
        exact fun m hm s' hlater hreach => ⟨hp s' hlater hreach, hm⟩
    | call op next ih =>
        intro m hm s' hlater hreach
        have hprice : T.price s' op = 0 :=
          hfree s' op (hF s s' hs hlater h) hcalls.1
        refine ⟨hprice ▸ Nat.zero_le m, fun reply t hexec => ?_⟩
        have hmove : M.Later Service.anyCall s' t := Later.move trivial hexec
        refine ih reply ((hp s' hlater hreach).2 reply t hexec)
          (hcalls.2 reply) (hreach.later hmove)
          (hF s t hs (hlater.trans hmove) h) _ ?_
        omega
  exact hkeep n le_rfl

/-- What a program affords whatever the replies, it can pay in any
environment. -/
theorem Affords.pays {T : Tariff Op Reply} {p : Prog Op Reply α}
    {Q : α → ℕ → Prop} (h : p.Affords T Q n) (s : M.State) :
    p.Pays ⟨fun _ => T.price, fun _ => T.credit⟩ (fun a m _ => Q a m) n s := by
  induction p generalizing n s with
  | pure a => exact fun _ _ _ => h
  | call op next ih =>
      exact fun _ _ _ => ⟨h.1, fun reply t _ => ih reply (h.2 reply) t⟩

/-- A program without paid calls. -/
theorem pays_of_free {P : Op → Prop} {p : Prog Op Reply α}
    (hcalls : p.CallsOnly P) (hfree : ∀ t op, P op → T.price t op = 0)
    (hs : M.Reach Service.anyCall s) :
    p.Pays T (fun _ m _ => n ≤ m) n s :=
  (pays_of_ensures (F := fun _ => True) (Service.ensures_anyCall p s) hcalls
    (fun t op _ => hfree t op) (fun _ _ _ _ h => h) hs trivial).mono
    fun _ _ _ _ h => h.2

end Prog

namespace ProgE

variable {Op : Type} {Reply : Op → Type} {M : Machine Op Reply}
  {α β ε : Type} {T : Rates M} {n : ℕ} {s : M.State}

variable (T) in
/-- A program that may raise pays all its calls, and ends with a value or an
exception as `Q` says. -/
def Pays (p : ProgE Op Reply ε α) (Q : Except ε α → ℕ → M.State → Prop)
    (n : ℕ) (s : M.State) : Prop :=
  p.run.Pays T Q n s

theorem Pays.mono {p : ProgE Op Reply ε α}
    {Q Q' : Except ε α → ℕ → M.State → Prop} (h : p.Pays T Q n s)
    (hQ : ∀ r m s', M.Reach Service.anyCall s' → Q r m s' → Q' r m s') :
    p.Pays T Q' n s :=
  Prog.Pays.mono h hQ

theorem pays_pure {a : α} {Q : Except ε α → ℕ → Prop} (h : Q (.ok a) n) :
    (pure a : ProgE Op Reply ε α).Pays T (fun r m _ => Q r m) n s :=
  fun _ _ _ => h

theorem pays_throw {e : ε} {Q : Except ε α → ℕ → Prop} (h : Q (.error e) n) :
    (throw e : ProgE Op Reply ε α).Pays T (fun r m _ => Q r m) n s :=
  fun _ _ _ => h

/-- A program composed with what follows its value; its exceptions pass. -/
theorem Pays.bind {p : ProgE Op Reply ε α} {f : α → ProgE Op Reply ε β}
    {Q : Except ε α → ℕ → M.State → Prop} {R : Except ε β → ℕ → Prop}
    (hp : p.Pays T Q n s)
    (hok : ∀ a m s', M.Reach Service.anyCall s' → Q (.ok a) m s' →
      (f a).Pays T (fun r m _ => R r m) m s')
    (herror : ∀ e m s', M.Reach Service.anyCall s' → Q (.error e) m s' →
      R (.error e) m) :
    (p >>= f).Pays T (fun r m _ => R r m) n s := by
  rw [Pays, run_bind]
  refine Prog.Pays.bind hp fun r m s' hreach hr => ?_
  cases r with
  | ok a => exact hok a m s' hreach hr
  | error e => exact pays_throw (herror e m s' hreach hr)

theorem Pays.tryCatch {p : ProgE Op Reply ε α} {h : ε → ProgE Op Reply ε α}
    {Q : Except ε α → ℕ → M.State → Prop} {R : Except ε α → ℕ → Prop}
    (hp : p.Pays T Q n s)
    (hok : ∀ a m s', M.Reach Service.anyCall s' → Q (.ok a) m s' →
      R (.ok a) m)
    (herror : ∀ e m s', M.Reach Service.anyCall s' → Q (.error e) m s' →
      (h e).Pays T (fun r m _ => R r m) m s') :
    (tryCatch p h).Pays T (fun r m _ => R r m) n s := by
  rw [Pays, run_tryCatch]
  refine Prog.Pays.bind hp fun r m s' hreach hr => ?_
  cases r with
  | ok a => exact pays_pure (hok a m s' hreach hr)
  | error e => exact herror e m s' hreach hr

end ProgE

namespace Service

open Relation

variable {Op : Type} {Reply : Op → Type} {M : Machine Op Reply}
  {S : Service M} {T : Rates M} {paid earned : M.State → ℕ}

/-- The books of a configuration: what each thread has left, and that no more
was spent or is left than was earned. -/
structure Config.Funded (T : Rates M) (paid earned : M.State → ℕ)
    (cfg : S.Config) (accounts : List (S.Thread × ℕ)) : Prop where
  reach : M.Reach anyCall cfg.state
  threads : accounts.map Prod.fst = cfg.threads
  solvent : ∀ a ∈ accounts,
    a.1.2.Pays T (fun _ _ _ => True) a.2 cfg.state
  balance : paid cfg.state + (accounts.map Prod.snd).sum ≤ earned cfg.state

section Funded

variable (hpaid : ∀ s op reply s', M.exec s op reply s' →
    paid s' ≤ paid s + T.price s op)
  (hearned : ∀ s op reply s', M.exec s op reply s' →
    earned s + T.credit s op reply ≤ earned s')
  (hS : ∀ s c, M.Reach anyCall s → S.Enabled s c →
    (S.body c).Pays T (fun _ _ _ => True) 0 s)

include hpaid hearned hS in
theorem Config.Funded.step {cfg cfg' : S.Config}
    {accounts : List (S.Thread × ℕ)}
    (h : cfg.Funded T paid earned accounts)
    (hstep : Step anyCall cfg cfg') :
    ∃ accounts', cfg'.Funded T paid earned accounts' := by
  obtain ⟨hreach, hthreads, hsolvent, hbalance⟩ := h
  cases hstep with
  | start c enabled =>
      refine ⟨accounts ++ [(⟨c, S.body c⟩, 0)], hreach, ?_, ?_, ?_⟩
      · simp [hthreads]
      · intro a ha
        rcases List.mem_append.mp ha with ha | ha
        · exact hsolvent a ha
        · obtain rfl := List.mem_singleton.mp ha
          exact hS _ c hreach enabled
      · simpa using hbalance
  | act i c op next reply state thread guard exec =>
      rw [← hthreads, List.getElem?_map] at thread
      obtain ⟨⟨t, n⟩, hget, hfst⟩ := Option.map_eq_some_iff.mp thread
      obtain rfl : t = ⟨c, .call op next⟩ := hfst
      have hmove : M.Later anyCall cfg.state state := Later.move trivial exec
      obtain ⟨hprice, hnext⟩ := hsolvent _ (List.mem_of_getElem? hget)
        cfg.state (Later.refl _) hreach
      obtain ⟨hlt, hget'⟩ := List.getElem?_eq_some_iff.mp hget
      let account : S.Thread × ℕ := (⟨c, next reply⟩,
        n - T.price cfg.state op + T.credit cfg.state op reply)
      refine ⟨accounts.set i account, hreach.later hmove, ?_, ?_, ?_⟩
      · rw [List.map_set, hthreads]
      · intro a ha
        rcases List.mem_or_eq_of_mem_set ha with ha | rfl
        · exact (hsolvent a ha).later hmove
        · exact hnext reply state exec
      · have hspent := hpaid _ _ _ _ exec
        have hgained := hearned _ _ _ _ exec
        have hsum := sum_set_account hget account
        simp only [account] at hsum hprice ⊢
        omega
  | crash i =>
      refine ⟨accounts.eraseIdx i, hreach, ?_, ?_, ?_⟩
      · rw [← List.eraseIdx_map, hthreads]
      · exact fun a ha => hsolvent a (List.mem_of_mem_eraseIdx ha)
      · exact (Nat.add_le_add_left (sum_eraseIdx_account accounts i) _).trans
          hbalance

variable (paid earned) in
include hpaid hearned hS in
/-- In every interleaving no more is paid than was earned. -/
theorem Reachable.spent_le_earned
    (hinit : ∀ s, M.Init s → paid s ≤ earned s) {cfg : S.Config}
    (h : Reachable anyCall cfg) : paid cfg.state ≤ earned cfg.state := by
  obtain ⟨s₀, hs₀, hsteps⟩ := h
  have hfunded : ∃ accounts, cfg.Funded T paid earned accounts := by
    induction hsteps with
    | refl => exact ⟨[], ⟨s₀, hs₀, .refl _⟩, rfl, nofun, hinit s₀ hs₀⟩
    | tail _ hstep ih =>
        obtain ⟨accounts, haccounts⟩ := ih
        exact haccounts.step hpaid hearned hS hstep
  obtain ⟨accounts, haccounts⟩ := hfunded
  exact (Nat.le_add_right _ _).trans haccounts.balance

end Funded

end Service

end Support
