import Hooklane.Support.Sequential

/-!
# Programs that run to an end

`Prog.Settles` is the total form of `Prog.Alone`: the environment answers every
call of the program, and whatever it answers, the program ends as the
postcondition says.  `ProgE.Returns` adds that it raises nothing.
`Machine.beside` adds a register that is rewritten after every call, for
results about what a program tells its surroundings.
-/

namespace Support

/-- The environment beside a register that is rewritten after every call. -/
@[reducible]
def Machine.beside {Op : Type} {Reply : Op → Type} (M : Machine Op Reply)
    {N : Type} (after : N → (op : Op) → Reply op → N) : Machine Op Reply where
  State := M.State × N
  Init := fun s => M.Init s.1
  exec := fun s op reply s' =>
    M.exec s.1 op reply s'.1 ∧ s'.2 = after s.2 op reply

namespace Prog

variable {Op : Type} {Reply : Op → Type} {α β : Type} {M : Machine Op Reply}
  {s : M.State}

variable (M) in
/-- Run alone from `s`, every call of the program is answered, and the program
ends as `Q` says. -/
def Settles : Prog Op Reply α → (α → M.State → Prop) → M.State → Prop
  | .pure a, Q, s => Q a s
  | .call op next, Q, s => (∃ reply t, M.exec s op reply t) ∧
      ∀ reply t, M.exec s op reply t → Settles (next reply) Q t

theorem Settles.alone {p : Prog Op Reply α} {Q : α → M.State → Prop}
    (h : p.Settles M Q s) : p.Alone M Q s := by
  induction p generalizing s with
  | pure a => exact h
  | call op next ih => exact fun reply t hexec => ih reply (h.2 reply t hexec)

theorem Settles.exists_runs {p : Prog Op Reply α} {Q : α → M.State → Prop}
    (h : p.Settles M Q s) : ∃ a t, p.Runs M s a t ∧ Q a t := by
  induction p generalizing s with
  | pure a => exact ⟨a, s, .pure a s, h⟩
  | call op next ih =>
      obtain ⟨⟨reply, t, hexec⟩, hnext⟩ := h
      obtain ⟨a, t', hrun, hQ⟩ := ih reply (hnext reply t hexec)
      exact ⟨a, t', .call hexec hrun, hQ⟩

theorem Settles.mono {p : Prog Op Reply α} {Q Q' : α → M.State → Prop}
    (h : p.Settles M Q s) (hQ : ∀ a t, Q a t → Q' a t) :
    p.Settles M Q' s := by
  induction p generalizing s with
  | pure a => exact hQ a s h
  | call op next ih =>
      exact ⟨h.1, fun reply t hexec => ih reply (h.2 reply t hexec)⟩

theorem Settles.bind {p : Prog Op Reply α} {f : α → Prog Op Reply β}
    {Q : α → M.State → Prop} {R : β → M.State → Prop} (hp : p.Settles M Q s)
    (hf : ∀ a t, Q a t → (f a).Settles M R t) :
    (p >>= f).Settles M R s := by
  induction p generalizing s with
  | pure a => exact hf a s hp
  | call op next ih =>
      exact ⟨hp.1, fun reply t hexec => ih reply (hp.2 reply t hexec)⟩

/-- A property of the outcome that is decided before the run holds of all runs
exactly when it is decided so: some run exists. -/
theorem Settles.forall_runs_iff {p : Prog Op Reply α}
    {Q R : α → M.State → Prop} {c : Prop} (h : p.Settles M Q s)
    (hR : ∀ a t, Q a t → (R a t ↔ c)) :
    (∀ a t, p.Runs M s a t → R a t) ↔ c := by
  constructor
  · intro hall
    obtain ⟨a, t, hrun, hQ⟩ := h.exists_runs
    exact (hR a t hQ).mp (hall a t hrun)
  · intro hc a t hrun
    exact (hR a t (h.alone.of_runs hrun)).mpr hc

end Prog

namespace ProgE

variable {Op : Type} {Reply : Op → Type} {α β ε : Type}
  {M : Machine Op Reply} {s : M.State}

variable (M) in
/-- Run alone from `s`, the program ends without an exception, and with a value
as `Q` says. -/
def Returns (p : ProgE Op Reply ε α) (Q : α → M.State → Prop) (s : M.State) :
    Prop :=
  p.run.Settles M (fun r t => ∃ a, r = .ok a ∧ Q a t) s

theorem Returns.mono {p : ProgE Op Reply ε α} {Q Q' : α → M.State → Prop}
    (h : p.Returns M Q s) (hQ : ∀ a t, Q a t → Q' a t) :
    p.Returns M Q' s := by
  refine Prog.Settles.mono h ?_
  rintro r t ⟨a, rfl, ha⟩
  exact ⟨a, rfl, hQ a t ha⟩

theorem returns_pure {a : α} {Q : α → M.State → Prop} (h : Q a s) :
    (pure a : ProgE Op Reply ε α).Returns M Q s := ⟨a, rfl, h⟩

theorem returns_perform {op : Op} {Q : Reply op → M.State → Prop}
    (hanswer : ∃ reply t, M.exec s op reply t)
    (h : ∀ reply t, M.exec s op reply t → Q reply t) :
    (perform op : ProgE Op Reply ε (Reply op)).Returns M Q s :=
  ⟨hanswer, fun reply t hexec => ⟨reply, rfl, h reply t hexec⟩⟩

theorem Returns.bind {p : ProgE Op Reply ε α} {f : α → ProgE Op Reply ε β}
    {Q : α → M.State → Prop} {R : β → M.State → Prop} (hp : p.Returns M Q s)
    (hf : ∀ a t, Q a t → (f a).Returns M R t) :
    (p >>= f).Returns M R s := by
  rw [Returns, run_bind]
  refine Prog.Settles.bind hp ?_
  rintro r t ⟨a, rfl, ha⟩
  exact hf a t ha

/-- A program that returns has no use for its handler. -/
theorem Returns.tryCatch {p : ProgE Op Reply ε α}
    {h : ε → ProgE Op Reply ε α} {Q : α → M.State → Prop}
    (hp : p.Returns M Q s) : (tryCatch p h).Returns M Q s := by
  rw [Returns, run_tryCatch]
  refine Prog.Settles.bind hp ?_
  rintro r t ⟨a, rfl, ha⟩
  exact ⟨a, rfl, ha⟩

/-- Every run of a program that returns ends so, and there is one. -/
theorem Returns.forall_runs_iff {p : ProgE Op Reply ε α}
    {Q : α → M.State → Prop} {R : Except ε α → M.State → Prop} {c : Prop}
    (h : p.Returns M Q s) (hR : ∀ a t, Q a t → (R (.ok a) t ↔ c)) :
    (∀ r t, p.run.Runs M s r t → R r t) ↔ c := by
  refine Prog.Settles.forall_runs_iff h ?_
  rintro r t ⟨a, rfl, ha⟩
  exact hR a t ha

end ProgE

end Support
