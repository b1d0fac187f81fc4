import Hooklane.Support.Interleaving

/-!
# One program at a time

What a program does when no other program acts in between.  `Prog.Runs` is its
big-step relation and `Prog.Alone` the corresponding weakest precondition:
whatever the environment answers, the program ends as the postcondition says.
-/

namespace Support

namespace Prog

variable {Op : Type} {Reply : Op → Type} {α β : Type}

/-- Run alone from `s`, the program can end with `a` in `s'`. -/
inductive Runs (M : Machine Op Reply) :
    Prog Op Reply α → M.State → α → M.State → Prop where
  | pure (a : α) (s : M.State) : Runs M (.pure a) s a s
  | call {op : Op} {next : Reply op → Prog Op Reply α} {reply : Reply op}
      {s t s' : M.State} {a : α} (exec : M.exec s op reply t)
      (rest : Runs M (next reply) t a s') : Runs M (.call op next) s a s'

variable {M : Machine Op Reply} {s s' : M.State}

variable (M) in
/-- Run alone from `s`, the program ends as `Q` says, whatever the
environment answers. -/
def Alone : Prog Op Reply α → (α → M.State → Prop) → M.State → Prop
  | .pure a, Q, s => Q a s
  | .call op next, Q, s =>
      ∀ reply t, M.exec s op reply t → Alone (next reply) Q t

theorem Alone.of_runs {p : Prog Op Reply α} {Q : α → M.State → Prop} {a : α}
    (h : p.Alone M Q s) (hrun : p.Runs M s a s') : Q a s' := by
  induction hrun with
  | pure a s => exact h
  | call exec rest ih => exact ih (h _ _ exec)

theorem Alone.mono {p : Prog Op Reply α} {Q Q' : α → M.State → Prop}
    (h : p.Alone M Q s) (hQ : ∀ a t, Q a t → Q' a t) : p.Alone M Q' s := by
  induction p generalizing s with
  | pure a => exact hQ a s h
  | call op next ih => exact fun reply t hexec => ih reply (h reply t hexec)

/-- What is known of the values from the text of a program. -/
theorem Alone.and_yields {p : Prog Op Reply α} {Q : α → M.State → Prop}
    {P : α → Prop} (h : p.Alone M Q s) (hp : p.Yields P) :
    p.Alone M (fun a t => P a ∧ Q a t) s := by
  induction p generalizing s with
  | pure a => exact ⟨hp, h⟩
  | call op next ih =>
      exact fun reply t hexec => ih reply (h reply t hexec) (hp reply)

theorem Alone.bind {p : Prog Op Reply α} {f : α → Prog Op Reply β}
    {Q : α → M.State → Prop} {R : β → M.State → Prop} (hp : p.Alone M Q s)
    (hf : ∀ a t, Q a t → (f a).Alone M R t) : (p >>= f).Alone M R s := by
  induction p generalizing s with
  | pure a => exact hf a s hp
  | call op next ih => exact fun reply t hexec => ih reply (hp reply t hexec)

/-- A program whose calls are always answered has a run. -/
theorem exists_runs {P : Op → Prop}
    (hM : ∀ s op, P op → ∃ reply t, M.exec s op reply t)
    {p : Prog Op Reply α} (hp : p.CallsOnly P) (s : M.State) :
    ∃ a s', p.Runs M s a s' := by
  induction p generalizing s with
  | pure a => exact ⟨a, s, .pure a s⟩
  | call op next ih =>
      obtain ⟨reply, t, hexec⟩ := hM s op hp.1
      obtain ⟨a, s', hrun⟩ := ih reply (hp.2 reply) t
      exact ⟨a, s', .call hexec hrun⟩

/-- What every step keeps, a run keeps. -/
theorem Runs.invariant {I : M.State → Prop}
    (hM : ∀ s op reply t, M.exec s op reply t → I s → I t)
    {p : Prog Op Reply α} {a : α} (hrun : p.Runs M s a s') (hs : I s) :
    I s' := by
  induction hrun with
  | pure a s => exact hs
  | call exec rest ih => exact ih (hM _ _ _ _ exec hs)

/-- What the steps of the program's calls keep, the program keeps. -/
theorem CallsOnly.alone {P : Op → Prop} {I : M.State → Prop}
    (hM : ∀ s op reply t, P op → M.exec s op reply t → I s → I t)
    {p : Prog Op Reply α} (hp : p.CallsOnly P) (hs : I s) :
    p.Alone M (fun _ t => I t) s := by
  induction p generalizing s with
  | pure a => exact hs
  | call op next ih =>
      exact fun reply t hexec => ih reply (hp.2 reply) (hM _ _ _ _ hp.1 hexec hs)

/-- Whether a property holds of all runs is decided by the outcome, when all
runs agree on it. -/
theorem Alone.forall_runs_iff {P : Op → Prop}
    (hM : ∀ s op, P op → ∃ reply t, M.exec s op reply t)
    {p : Prog Op Reply α} (hp : p.CallsOnly P) {Q R : α → M.State → Prop}
    {c : Prop} (hyes : c → p.Alone M Q s) (hno : ¬c → p.Alone M R s)
    (hdisjoint : ∀ a t, R a t → ¬Q a t) :
    (∀ a t, p.Runs M s a t → Q a t) ↔ c := by
  refine ⟨fun hall => ?_, fun hc a t hrun => (hyes hc).of_runs hrun⟩
  by_contra hc
  obtain ⟨a, t, hrun⟩ := exists_runs hM hp s
  exact hdisjoint a t ((hno hc).of_runs hrun) (hall a t hrun)

end Prog

namespace ProgE

variable {Op : Type} {Reply : Op → Type} {α β ε : Type}
  {M : Machine Op Reply} {s : M.State}

variable (M) in
/-- Run alone, a program that may raise ends with a value or an exception as
`Q` says. -/
def Alone (p : ProgE Op Reply ε α) (Q : Except ε α → M.State → Prop)
    (s : M.State) : Prop :=
  p.run.Alone M Q s

theorem Alone.mono {p : ProgE Op Reply ε α}
    {Q Q' : Except ε α → M.State → Prop} (h : p.Alone M Q s)
    (hQ : ∀ r t, Q r t → Q' r t) : p.Alone M Q' s :=
  Prog.Alone.mono h hQ

theorem alone_pure {a : α} {Q : Except ε α → M.State → Prop}
    (h : Q (.ok a) s) : (pure a : ProgE Op Reply ε α).Alone M Q s := h

theorem alone_throw {e : ε} {Q : Except ε α → M.State → Prop}
    (h : Q (.error e) s) : (throw e : ProgE Op Reply ε α).Alone M Q s := h

theorem alone_perform {op : Op} {Q : Except ε (Reply op) → M.State → Prop}
    (h : ∀ reply t, M.exec s op reply t → Q (.ok reply) t) :
    (perform op : ProgE Op Reply ε (Reply op)).Alone M Q s := h

/-- A program composed with what follows its value; its exceptions pass. -/
theorem Alone.bind {p : ProgE Op Reply ε α} {f : α → ProgE Op Reply ε β}
    {Q : Except ε α → M.State → Prop} {R : Except ε β → M.State → Prop}
    (hp : p.Alone M Q s) (hok : ∀ a t, Q (.ok a) t → (f a).Alone M R t)
    (herror : ∀ e t, Q (.error e) t → R (.error e) t) :
    (p >>= f).Alone M R s := by
  rw [Alone, run_bind]
  refine Prog.Alone.bind hp fun r t hr => ?_
  cases r with
  | ok a => exact hok a t hr
  | error e => exact herror e t hr

/-- A postcondition for the values, and one for the exceptions. -/
def ends {S : Type} (P : α → S → Prop) (E : ε → S → Prop) :
    Except ε α → S → Prop
  | .ok a => P a
  | .error e => E e

/-- The rule of composition, where the exceptions keep their
postcondition. -/
theorem Alone.next {p : ProgE Op Reply ε α} {f : α → ProgE Op Reply ε β}
    {P : α → M.State → Prop} {R : β → M.State → Prop}
    {E : ε → M.State → Prop} (hp : p.Alone M (ends P E) s)
    (hf : ∀ a t, P a t → (f a).Alone M (ends R E) t) :
    (p >>= f).Alone M (ends R E) s :=
  hp.bind hf fun _ _ h => h

theorem Alone.ends_mono {p : ProgE Op Reply ε α}
    {P P' : α → M.State → Prop} {E E' : ε → M.State → Prop}
    (h : p.Alone M (ends P E) s) (hP : ∀ a t, P a t → P' a t)
    (hE : ∀ e t, E e t → E' e t) : p.Alone M (ends P' E') s := by
  refine h.mono fun r t hr => ?_
  cases r with
  | ok a => exact hP a t hr
  | error e => exact hE e t hr

theorem Alone.tryCatch {p : ProgE Op Reply ε α}
    {h : ε → ProgE Op Reply ε α} {Q R : Except ε α → M.State → Prop}
    (hp : p.Alone M Q s) (hok : ∀ a t, Q (.ok a) t → R (.ok a) t)
    (herror : ∀ e t, Q (.error e) t → (h e).Alone M R t) :
    (tryCatch p h).Alone M R s := by
  rw [Alone, run_tryCatch]
  refine Prog.Alone.bind hp fun r t hr => ?_
  cases r with
  | ok a => exact hok a t hr
  | error e => exact herror e t hr

end ProgE

end Support
