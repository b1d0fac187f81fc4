import Hooklane.Support.Interleaving

/-!
# One program among others

What one program of an interleaving meets, and what it is told.  A run of the
program lists its own calls, each with the state that the call met and the
reply that it got; between two of them the others act as the discipline
permits.  So a condition on one run can speak about the states in which the
program looks, which its result alone does not show.
-/

namespace Support

open Machine

/-- A call of one program: the state that it met, and its reply. -/
structure Own {Op : Type} {Reply : Op → Type} (M : Machine Op Reply) where
  state : M.State
  op : Op
  reply : Reply op

namespace Prog

variable {Op : Type} {Reply : Op → Type} {M : Machine Op Reply}
  {May : M.State → Op → Prop} {α β ε : Type} {s t u : M.State}
  {own own' : List (Own M)}

variable (May) in
/-- Begun in `s`, the program makes the calls `own` and ends with a value,
while permitted calls of others come in between. -/
inductive Amid :
    Prog Op Reply α → M.State → List (Own M) → α → M.State → Prop where
  | pure (a : α) {s t : M.State} (others : M.Later May s t) :
      Amid (.pure a) s [] a t
  | call {op : Op} {next : Reply op → Prog Op Reply α} {reply : Reply op}
      {s t t' u : M.State} {own : List (Own M)} {a : α}
      (others : M.Later May s t) (exec : M.exec t op reply t')
      (rest : Amid (next reply) t' own a u) :
      Amid (.call op next) s (⟨t, op, reply⟩ :: own) a u

namespace Amid

/-- Permitted calls of others may come before the first call. -/
theorem after {p : Prog Op Reply α} {a : α} (hlater : M.Later May s t)
    (h : p.Amid May t own a u) : p.Amid May s own a u := by
  cases h with
  | pure a others => exact .pure a (hlater.trans others)
  | call others exec rest => exact .call (hlater.trans others) exec rest

theorem bind {p : Prog Op Reply α} {f : α → Prog Op Reply β} {a : α} {b : β}
    (hp : p.Amid May s own a t) (hf : (f a).Amid May t own' b u) :
    (p >>= f).Amid May s (own ++ own') b u := by
  induction hp with
  | pure a others => exact hf.after others
  | call others exec rest ih => exact .call others exec (ih hf)

theorem of_bind {p : Prog Op Reply α} {f : α → Prog Op Reply β} {b : β}
    (h : (p >>= f).Amid May s own b u) :
    ∃ first a t rest, p.Amid May s first a t ∧ (f a).Amid May t rest b u ∧
      own = first ++ rest := by
  induction p generalizing s own with
  | pure a => exact ⟨[], a, s, own, .pure a (Later.refl s), h, rfl⟩
  | call op next ih =>
      cases h with
      | call others exec rest =>
          obtain ⟨first, a, t, last, hfirst, hlast, rfl⟩ := ih _ rest
          exact ⟨_, a, t, last, .call others exec hfirst, hlast, rfl⟩

theorem of_pure {a b : α} (h : (Prog.pure a : Prog Op Reply α).Amid May s own
    b t) : b = a ∧ own = [] ∧ M.Later May s t := by
  cases h with
  | pure a others => exact ⟨rfl, rfl, others⟩

theorem of_perform {op : Op} {reply : Reply op}
    (h : (perform op : Prog Op Reply (Reply op)).Amid May s own reply u) :
    ∃ t t', M.Later May s t ∧ M.exec t op reply t' ∧ M.Later May t' u ∧
      own = [⟨t, op, reply⟩] := by
  cases h with
  | call others exec rest =>
      obtain ⟨rfl, rfl, hlater⟩ := of_pure rest
      exact ⟨_, _, others, exec, hlater, rfl⟩

/-- A run ends with a value that the program can end with. -/
theorem yields {P : α → Prop} {p : Prog Op Reply α} {a : α}
    (hp : p.Yields P) (h : p.Amid May s own a t) : P a := by
  induction h with
  | pure a others => exact hp
  | call others exec rest ih => exact ih (hp _)

end Amid

end Prog

namespace ProgE

variable {Op : Type} {Reply : Op → Type} {M : Machine Op Reply}
  {May : M.State → Op → Prop} {α β ε : Type} {s t u : M.State}
  {own own' : List (Own M)}

variable (May) in
/-- A run of a program that may raise. -/
def Amid (p : ProgE Op Reply ε α) (s : M.State) (own : List (Own M))
    (r : Except ε α) (t : M.State) : Prop :=
  p.run.Amid May s own r t

namespace Amid

theorem bind {p : ProgE Op Reply ε α} {f : α → ProgE Op Reply ε β} {a : α}
    {r : Except ε β} (hp : p.Amid May s own (.ok a) t)
    (hf : (f a).Amid May t own' r u) :
    (p >>= f).Amid May s (own ++ own') r u := by
  rw [Amid, run_bind]
  exact Prog.Amid.bind hp hf

/-- A run of two programs in sequence: the first one raises, or both run. -/
theorem of_bind {p : ProgE Op Reply ε α} {f : α → ProgE Op Reply ε β}
    {r : Except ε β} (h : (p >>= f).Amid May s own r u) :
    (∃ e t, p.Amid May s own (.error e) t ∧ M.Later May t u ∧
      r = .error e) ∨
    ∃ first a t rest, p.Amid May s first (.ok a) t ∧
      (f a).Amid May t rest r u ∧ own = first ++ rest := by
  rw [Amid, run_bind] at h
  obtain ⟨first, q, t, rest, hp, hf, rfl⟩ := h.of_bind
  cases q with
  | error e =>
      obtain ⟨rfl, rfl, hlater⟩ := hf.of_pure
      rw [List.append_nil]
      exact Or.inl ⟨e, t, hp, hlater, rfl⟩
  | ok a => exact Or.inr ⟨first, a, t, rest, hp, hf, rfl⟩

theorem of_pure {a : α} {r : Except ε α}
    (h : (pure a : ProgE Op Reply ε α).Amid May s own r t) :
    r = .ok a ∧ own = [] ∧ M.Later May s t :=
  Prog.Amid.of_pure h

theorem of_throw {e : ε} {r : Except ε α}
    (h : (throw e : ProgE Op Reply ε α).Amid May s own r t) :
    r = .error e ∧ own = [] ∧ M.Later May s t :=
  Prog.Amid.of_pure h

theorem of_perform {op : Op} {r : Except ε (Reply op)}
    (h : (perform op : ProgE Op Reply ε (Reply op)).Amid May s own r u) :
    ∃ t reply t', M.Later May s t ∧ M.exec t op reply t' ∧
      M.Later May t' u ∧ own = [⟨t, op, reply⟩] ∧ r = .ok reply := by
  obtain ⟨first, reply, t, rest, hp, hf, rfl⟩ := Prog.Amid.of_bind h
  obtain ⟨rfl, rfl, hlater⟩ := hf.of_pure
  obtain ⟨s', t', hbefore, hexec, hafter, rfl⟩ := hp.of_perform
  exact ⟨s', reply, t', hbefore, hexec, hafter.trans hlater, rfl, rfl⟩

theorem yields {P : Except ε α → Prop} {p : ProgE Op Reply ε α}
    {r : Except ε α} (hp : Yields P p) (h : p.Amid May s own r t) : P r :=
  Prog.Amid.yields hp h

end Amid

theorem amid_pure (a : α) (hlater : M.Later May s t) :
    (pure a : ProgE Op Reply ε α).Amid May s [] (.ok a) t :=
  Prog.Amid.pure _ hlater

theorem amid_throw (e : ε) (hlater : M.Later May s t) :
    (throw e : ProgE Op Reply ε α).Amid May s [] (.error e) t :=
  Prog.Amid.pure _ hlater

theorem amid_perform {op : Op} {reply : Reply op}
    (hlater : M.Later May s t) (hexec : M.exec t op reply u) :
    (perform op : ProgE Op Reply ε (Reply op)).Amid May s [⟨t, op, reply⟩]
      (.ok reply) u :=
  Prog.Amid.call hlater hexec (Prog.Amid.pure _ (Later.refl u))

end ProgE

namespace Service

variable {Op : Type} {Reply : Op → Type} {M : Machine Op Reply}
  {S : Service M} {May : M.State → Op → Prop}
  {Post : (c : S.Call) → S.Result c → M.State → Prop}

variable (May) in
/-- The thread is a request that was begun in a reached state and has run
amid the others since. -/
def Begun (t : S.Thread) (now : M.State) : Prop :=
  ∃ s own, M.Reach May s ∧ S.Enabled s t.1 ∧ ∀ rest a u,
    t.2.Amid May now rest a u → (S.body t.1).Amid May s (own ++ rest) a u

theorem Begun.later {t : S.Thread} {now now' : M.State}
    (h : Begun May t now) (hlater : M.Later May now now') :
    Begun May t now' := by
  obtain ⟨s, own, hs, henabled, hrun⟩ := h
  exact ⟨s, own, hs, henabled, fun rest a u hrest =>
    hrun rest a u (hrest.after hlater)⟩

theorem begun_of_step {cfg cfg' : S.Config} (hsound : cfg.Sound May Post)
    (h : ∀ t ∈ cfg.threads, Begun May t cfg.state)
    (hstep : Step anyCall cfg cfg') :
    ∀ t ∈ cfg'.threads, Begun May t cfg'.state := by
  cases hstep with
  | start c enabled =>
      intro t ht
      rcases List.mem_append.mp ht with ht | ht
      · exact h t ht
      · rw [List.mem_singleton] at ht
        subst t
        exact ⟨cfg.state, [], hsound.reach, enabled, fun _ _ _ hrest => hrest⟩
  | act i c op next reply state thread guard exec =>
      have hmay := (hsound.may thread).1
      have hlater : M.Later May cfg.state state := Later.move hmay exec
      intro t ht
      rcases List.mem_or_eq_of_mem_set ht with ht | rfl
      · exact (h t ht).later hlater
      · obtain ⟨s, own, hs, henabled, hrun⟩ :=
          h _ (List.mem_of_getElem? thread)
        refine ⟨s, own ++ [⟨cfg.state, op, reply⟩], hs, henabled, ?_⟩
        intro rest a u hrest
        rw [List.append_assoc]
        exact hrun _ a u (.call (Later.refl _) exec hrest)
  | crash i =>
      intro t ht
      exact h t (List.mem_of_mem_eraseIdx ht)

/-- Every request of an interleaving of disciplined programs runs amid
permitted calls. -/
theorem Reachable.begun {cfg : S.Config} (hS : Disciplined May Post)
    (h : Reachable anyCall cfg) :
    ∀ t ∈ cfg.threads, Begun May t cfg.state := by
  obtain ⟨s₀, hinit, hsteps⟩ := h
  have h₀ : (⟨s₀, []⟩ : S.Config).Sound May Post :=
    ⟨⟨s₀, hinit, Later.refl _⟩, by simp⟩
  induction hsteps with
  | refl => simp
  | tail hrun hstep ih =>
      exact begun_of_step (Config.sound_of_steps hS h₀ hrun).1 ih hstep

/-- A finished request has a run that ends with its result. -/
theorem Reachable.amid {cfg : S.Config} (hS : Disciplined May Post)
    (h : Reachable anyCall cfg) {c : S.Call} {a : S.Result c}
    (hthread : (⟨c, .pure a⟩ : S.Thread) ∈ cfg.threads) :
    ∃ s own, M.Reach May s ∧ S.Enabled s c ∧
      (S.body c).Amid May s own a cfg.state := by
  obtain ⟨s, own, hs, henabled, hrun⟩ := h.begun hS _ hthread
  have hlast := hrun [] a cfg.state (.pure a (Later.refl _))
  exact ⟨s, own ++ [], hs, henabled, hlast⟩

end Service

end Support
