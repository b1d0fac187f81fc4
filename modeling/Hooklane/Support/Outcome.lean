import Hooklane.Support.Interleaving

/-!
# Programs judged by their outcome

`ProgE.EnsuresOutcome` is the rely/guarantee judgement for programs whose
exceptions say something about the state as well as their values do.
`Prog.Commits` relates the calls that have an effect to the outcomes that are
still possible after them.
-/

namespace Support

namespace Machine

variable {Op : Type} {Reply : Op → Type} {M : Machine Op Reply}

/-- A fact that permitted calls cannot undo. -/
def Stable (May : M.State → Op → Prop) (F : M.State → Prop) : Prop :=
  ∀ s s', M.Reach May s → M.Later May s s' → F s → F s'

end Machine

namespace ProgE

open Machine

variable {Op : Type} {Reply : Op → Type} {M : Machine Op Reply}
  {May : M.State → Op → Prop} {α β ε : Type} {s : M.State}

variable (May) in
/-- A program that may raise is disciplined, and ends with a value or an
exception as `Q` says. -/
def EnsuresOutcome (p : ProgE Op Reply ε α)
    (Q : Except ε α → M.State → Prop) (s : M.State) : Prop :=
  p.run.Ensures May Q s

theorem EnsuresOutcome.mono {p : ProgE Op Reply ε α}
    {Q Q' : Except ε α → M.State → Prop} (h : p.EnsuresOutcome May Q s)
    (hQ : ∀ r s', M.Reach May s' → Q r s' → Q' r s') :
    p.EnsuresOutcome May Q' s :=
  Prog.Ensures.mono h hQ

theorem ensuresOutcome_pure {a : α} {Q : Except ε α → M.State → Prop}
    (hs : M.Reach May s) (hstable : Stable May (Q (.ok a))) (h : Q (.ok a) s) :
    (pure a : ProgE Op Reply ε α).EnsuresOutcome May Q s :=
  fun s' hlater _ => hstable s s' hs hlater h

theorem ensuresOutcome_throw {e : ε} {Q : Except ε α → M.State → Prop}
    (hs : M.Reach May s) (hstable : Stable May (Q (.error e)))
    (h : Q (.error e) s) :
    (throw e : ProgE Op Reply ε α).EnsuresOutcome May Q s :=
  fun s' hlater _ => hstable s s' hs hlater h

theorem ensuresOutcome_perform {op : Op}
    {Q : Except ε (Reply op) → M.State → Prop}
    (hmay : ∀ s', M.Later May s s' → M.Reach May s' → May s' op)
    (hQ : ∀ s', M.Later May s s' → M.Reach May s' → ∀ reply t,
      M.exec s' op reply t → Q (.ok reply) t)
    (hstable : ∀ reply, Stable May (Q (.ok reply))) :
    (perform op : ProgE Op Reply ε (Reply op)).EnsuresOutcome May Q s := by
  intro s' hlater hreach
  have hop := hmay s' hlater hreach
  refine ⟨hop, fun reply t hexec t' hlater' hreach' => ?_⟩
  have ht : M.Reach May t := hreach.later (Later.move hop hexec)
  exact hstable reply t t' ht hlater' (hQ s' hlater hreach reply t hexec)

/-- A program composed with what follows its value; its exceptions pass. -/
theorem EnsuresOutcome.bind {p : ProgE Op Reply ε α}
    {f : α → ProgE Op Reply ε β} {Q : Except ε α → M.State → Prop}
    {R : Except ε β → M.State → Prop} (hp : p.EnsuresOutcome May Q s)
    (hok : ∀ a s', M.Reach May s' → Q (.ok a) s' →
      (f a).EnsuresOutcome May R s')
    (herror : ∀ e s', M.Reach May s' → Q (.error e) s' → R (.error e) s')
    (hstable : ∀ e, Stable May (R (.error e))) :
    (p >>= f).EnsuresOutcome May R s := by
  rw [EnsuresOutcome, run_bind]
  refine Prog.Ensures.bind hp fun r s' hreach hr => ?_
  cases r with
  | ok a => exact hok a s' hreach hr
  | error e =>
      exact ensuresOutcome_throw hreach (hstable e) (herror e s' hreach hr)

/-- The handler starts from what the exception says. -/
theorem EnsuresOutcome.tryCatch {p : ProgE Op Reply ε α}
    {h : ε → ProgE Op Reply ε α} {Q R : Except ε α → M.State → Prop}
    (hp : p.EnsuresOutcome May Q s)
    (hok : ∀ a s', M.Reach May s' → Q (.ok a) s' → R (.ok a) s')
    (hh : ∀ e s', M.Reach May s' → Q (.error e) s' →
      (h e).EnsuresOutcome May R s')
    (hstable : ∀ a, Stable May (R (.ok a))) :
    (tryCatch p h).EnsuresOutcome May R s := by
  rw [EnsuresOutcome, run_tryCatch]
  refine Prog.Ensures.bind hp fun r s' hreach hr => ?_
  cases r with
  | ok a => exact ensuresOutcome_pure hreach (hstable a) (hok a s' hreach hr)
  | error e => exact hh e s' hreach hr

end ProgE

namespace Prog

section Values

variable {Op : Type} {Reply : Op → Type} {M : Machine Op Reply}
  {May : M.State → Op → Prop} {α : Type} {s : M.State}

/-- What is known of the values from the text of a program adds to what it
ensures. -/
theorem Ensures.and_yields {p : Prog Op Reply α} {Q : α → M.State → Prop}
    {P : α → Prop} (h : p.Ensures May Q s) (hp : p.Yields P) :
    p.Ensures May (fun a s' => P a ∧ Q a s') s := by
  induction p generalizing s with
  | pure a => exact fun s' hlater hs' => ⟨hp, h s' hlater hs'⟩
  | call op next ih =>
      intro s' hlater hs'
      obtain ⟨hmay, hnext⟩ := h s' hlater hs'
      exact ⟨hmay, fun reply t hexec =>
        ih reply (hnext reply t hexec) (hp reply)⟩

end Values

variable {Op : Type} {Reply : Op → Type} {α β : Type}
  {touches : (op : Op) → Reply op → Prop}

variable (touches) in
/-- Once a call has touched the state, `p` can end only as `Good` says. -/
def Commits (Good : α → Prop) : Prog Op Reply α → Prop
  | .pure _ => True
  | .call op next => ∀ reply, (touches op reply → (next reply).Yields Good) ∧
      (next reply).Commits Good

theorem commits_of_yields {Good : α → Prop} {p : Prog Op Reply α}
    (hp : p.Yields Good) : p.Commits touches Good := by
  induction p with
  | pure a => trivial
  | call op next ih => exact fun reply => ⟨fun _ => hp reply, ih reply (hp reply)⟩

theorem commits_of_callsOnly {Good : α → Prop} {p : Prog Op Reply α}
    (hp : p.CallsOnly fun op => ∀ reply, ¬touches op reply) :
    p.Commits touches Good := by
  induction p with
  | pure a => trivial
  | call op next ih =>
      exact fun reply => ⟨fun h => absurd h (hp.1 reply), ih reply (hp.2 reply)⟩

theorem Commits.bind {P : α → Prop} {Good : β → Prop} {p : Prog Op Reply α}
    {f : α → Prog Op Reply β} (hp : p.Commits touches P)
    (hgood : ∀ a, P a → (f a).Yields Good)
    (hf : ∀ a, (f a).Commits touches Good) :
    (p >>= f).Commits touches Good := by
  induction p with
  | pure a => exact hf a
  | call op next ih =>
      exact fun reply => ⟨fun h => ((hp reply).1 h).bind hgood,
        ih reply (hp reply).2⟩

variable (touches) in
/-- Once a reply has met `touches`, `p` issues only calls satisfying `P`. -/
def Bars (P : Op → Prop) : Prog Op Reply α → Prop
  | .pure _ => True
  | .call op next => ∀ reply, (touches op reply → (next reply).CallsOnly P) ∧
      (next reply).Bars P

theorem bars_of_callsOnly {P : Op → Prop} {p : Prog Op Reply α}
    (hp : p.CallsOnly P) : p.Bars touches P := by
  induction p with
  | pure a => trivial
  | call op next ih =>
      exact fun reply => ⟨fun _ => hp.2 reply, ih reply (hp.2 reply)⟩

/-- A program that meets the trigger without a reply of its own. -/
theorem bars_of_quiet {P : Op → Prop} {p : Prog Op Reply α}
    (hp : p.CallsOnly fun op => ∀ reply, ¬touches op reply) :
    p.Bars touches P := by
  induction p with
  | pure a => trivial
  | call op next ih =>
      exact fun reply => ⟨fun h => absurd h (hp.1 reply), ih reply (hp.2 reply)⟩

theorem callsOnly_bind_yields {P : Op → Prop} {Good : α → Prop}
    {p : Prog Op Reply α} {f : α → Prog Op Reply β} (hp : p.CallsOnly P)
    (hy : p.Yields Good) (hf : ∀ a, Good a → (f a).CallsOnly P) :
    (p >>= f).CallsOnly P := by
  induction p with
  | pure a => exact hf a hy
  | call op next ih =>
      exact ⟨hp.1, fun reply => ih reply (hp.2 reply) (hy reply)⟩

/-- A value that tells whether the trigger was met decides what may follow. -/
theorem Bars.bind {P : Op → Prop} {Good : α → Prop} {p : Prog Op Reply α}
    {f : α → Prog Op Reply β} (hp : p.CallsOnly P)
    (hcommits : p.Commits touches Good)
    (hgood : ∀ a, Good a → (f a).CallsOnly P)
    (hf : ∀ a, (f a).Bars touches P) : (p >>= f).Bars touches P := by
  induction p with
  | pure a => exact hf a
  | call op next ih =>
      refine fun reply => ⟨fun h => ?_,
        ih reply (hp.2 reply) (hcommits reply).2⟩
      exact callsOnly_bind_yields (hp.2 reply) ((hcommits reply).1 h) hgood

end Prog

namespace ProgE

variable {Op : Type} {Reply : Op → Type} {α β ε : Type}
  {touches : (op : Op) → Reply op → Prop}

variable (touches) in
/-- Once a call has touched the state, the value or the exception of `p` is as
`Good` says. -/
def Commits (Good : Except ε α → Prop) (p : ProgE Op Reply ε α) : Prop :=
  p.run.Commits touches Good

theorem commits_of_yields {Good : Except ε α → Prop} {p : ProgE Op Reply ε α}
    (hp : Yields Good p) : Commits touches Good p :=
  Prog.commits_of_yields hp

theorem commits_of_callsOnly {Good : Except ε α → Prop}
    {p : ProgE Op Reply ε α}
    (hp : CallsOnly (fun op => ∀ reply, ¬touches op reply) p) :
    Commits touches Good p :=
  Prog.commits_of_callsOnly hp.run

theorem commits_perform {op : Op} {Good : Except ε (Reply op) → Prop}
    (h : ∀ reply, touches op reply → Good (.ok reply)) :
    Commits touches Good (perform op : ProgE Op Reply ε (Reply op)) :=
  fun reply => ⟨h reply, trivial⟩

theorem Commits.bind {P : Except ε α → Prop} {Good : Except ε β → Prop}
    {p : ProgE Op Reply ε α} {f : α → ProgE Op Reply ε β}
    (hp : Commits touches P p) (hok : ∀ a, P (.ok a) → Yields Good (f a))
    (herror : ∀ e, P (.error e) → Good (.error e))
    (hf : ∀ a, Commits touches Good (f a)) :
    Commits touches Good (p >>= f) := by
  rw [Commits, run_bind]
  refine Prog.Commits.bind hp (fun r hr => ?_) fun r => ?_
  · cases r with
    | ok a => exact hok a hr
    | error e => exact herror e hr
  · cases r with
    | ok a => exact hf a
    | error e => trivial

theorem callsOnly_bind_yields {P : Op → Prop} {Good : α → Prop}
    {p : ProgE Op Reply ε α} {f : α → ProgE Op Reply ε β}
    (hp : CallsOnly P p) (hy : Yields (fun r => ∀ a, r = .ok a → Good a) p)
    (hf : ∀ a, Good a → CallsOnly P (f a)) : CallsOnly P (p >>= f) := by
  refine callsOnly_of_run ?_
  rw [run_bind]
  refine Prog.callsOnly_bind_yields hp.run hy fun r hr => ?_
  cases r with
  | ok a => exact (hf a (hr a rfl)).run
  | error e => trivial

variable (touches) in
/-- Once a reply has met `touches`, a program that may raise issues only calls
satisfying `P`. -/
def Bars (P : Op → Prop) (p : ProgE Op Reply ε α) : Prop :=
  p.run.Bars touches P

theorem bars_of_callsOnly {P : Op → Prop} {p : ProgE Op Reply ε α}
    (hp : CallsOnly P p) : Bars touches P p :=
  Prog.bars_of_callsOnly hp.run

theorem bars_of_quiet {P : Op → Prop} {p : ProgE Op Reply ε α}
    (hp : CallsOnly (fun op => ∀ reply, ¬touches op reply) p) :
    Bars touches P p :=
  Prog.bars_of_quiet hp.run

theorem Bars.bind {P : Op → Prop} {Good : α → Prop} {p : ProgE Op Reply ε α}
    {f : α → ProgE Op Reply ε β} (hp : CallsOnly P p)
    (hcommits : Commits touches (fun r => ∀ a, r = .ok a → Good a) p)
    (hgood : ∀ a, Good a → CallsOnly P (f a))
    (hf : ∀ a, Bars touches P (f a)) : Bars touches P (p >>= f) := by
  rw [Bars, run_bind]
  refine Prog.Bars.bind hp.run hcommits (fun r hr => ?_) fun r => ?_
  · cases r with
    | ok a => exact (hgood a (hr a rfl)).run
    | error e => trivial
  · cases r with
    | ok a => exact hf a
    | error e => trivial

/-- A program without the trigger in front. -/
theorem Bars.after_quiet {P : Op → Prop} {p : ProgE Op Reply ε α}
    {f : α → ProgE Op Reply ε β}
    (hp : CallsOnly (fun op => P op ∧ ∀ reply, ¬touches op reply) p)
    (hf : ∀ a, Bars touches P (f a)) : Bars touches P (p >>= f) :=
  Bars.bind (hp.mono fun _ h => h.1)
    (commits_of_callsOnly (hp.mono fun _ h => h.2))
    (fun _ (h : False) => h.elim) hf

end ProgE

namespace Service

open Machine

variable {Op : Type} {Reply : Op → Type} {M : Machine Op Reply}

/-- Where nothing is forbidden, a program without a specification of its own
is disciplined. -/
theorem ensures_anyCall {α : Type} (p : Prog Op Reply α) (s : M.State) :
    p.Ensures (anyCall (M := M)) (fun _ _ => True) s := by
  induction p generalizing s with
  | pure a => exact fun _ _ _ => trivial
  | call op next ih => exact fun s' _ _ => ⟨trivial, fun reply t _ => ih reply t⟩

/-- Where nothing is forbidden, a program ends with the values it yields, and
keeps what cannot be undone. -/
theorem ensures_of_yields {α : Type} {p : Prog Op Reply α} {P : α → Prop}
    {F : M.State → Prop} (hp : p.Yields P)
    (hF : Stable (anyCall (M := M)) F) {s : M.State}
    (hs : M.Reach anyCall s) (h : F s) :
    p.Ensures (anyCall (M := M)) (fun a s' => P a ∧ F s') s := by
  induction p generalizing s with
  | pure a => exact fun s' hlater _ => ⟨hp, hF s s' hs hlater h⟩
  | call op next ih =>
      intro s' hlater hs'
      refine ⟨trivial, fun reply t hexec => ?_⟩
      have hmove : M.Later anyCall s' t := Later.move trivial hexec
      exact ih reply (hp reply) (hs'.later hmove)
        (hF s t hs (hlater.trans hmove) h)

/-- What holds of every request and passes from a call to what follows it
holds of every thread. -/
theorem Reachable.inherited {S : Service M} {G : M.State → Op → Prop}
    {Φ : (c : S.Call) → Prog Op Reply (S.Result c) → Prop}
    (hbody : ∀ c, Φ c (S.body c))
    (hnext : ∀ c op next reply, Φ c (.call op next) → Φ c (next reply))
    {cfg : S.Config} (h : Reachable G cfg) :
    ∀ t ∈ cfg.threads, Φ t.1 t.2 := by
  obtain ⟨s₀, hinit, hsteps⟩ := h
  induction hsteps with
  | refl => simp
  | @tail mid cfg _ hstep ih =>
      cases hstep with
      | start c enabled =>
          intro t ht
          rcases List.mem_append.mp ht with ht | ht
          · exact ih t ht
          · obtain rfl := List.mem_singleton.mp ht
            exact hbody c
      | act i c op next reply state thread guard exec =>
          have hold := ih _ (List.mem_of_getElem? thread)
          intro t ht
          rcases List.mem_or_eq_of_mem_set ht with ht | rfl
          · exact ih t ht
          · exact hnext c op next reply hold
      | crash i => exact fun t ht => ih t (List.mem_of_mem_eraseIdx ht)

end Service

end Support
