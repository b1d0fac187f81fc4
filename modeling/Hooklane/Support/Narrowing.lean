import Hooklane.Support.Sequential

/-!
# Narrower environments and services

A result about every run of a service is a result about the runs in which the
environment takes only some of its steps, or in which only some requests are
started.  Both are services of their own here, so that an assumption on the
environment or on the requests is part of the service a theorem is about.
-/

namespace Support

open Relation

variable {Op : Type} {Reply : Op → Type}

namespace Machine

variable (M : Machine Op Reply)

/-- The environment that takes only the steps meeting `R`. -/
@[reducible]
def within (R : M.State → (op : Op) → Reply op → M.State → Prop) :
    Machine Op Reply where
  State := M.State
  Init := M.Init
  exec := fun s op reply s' => M.exec s op reply s' ∧ R s op reply s'

end Machine

namespace Prog

variable {M : Machine Op Reply} {α : Type}
  {R R' : M.State → (op : Op) → Reply op → M.State → Prop}
  {p : Prog Op Reply α} {a : α} {s s' : M.State}

/-- A run is a run of any environment that can take its steps. -/
theorem Runs.executing {E : M.State → (op : Op) → Reply op → M.State → Prop}
    (hE : ∀ s op reply t, M.exec s op reply t → E s op reply t)
    (h : p.Runs M s a s') : p.Runs (.mk M.State M.Init E) s a s' := by
  induction h with
  | pure a s => exact Runs.pure (M := .mk M.State M.Init E) a s
  | call exec rest ih =>
      exact Runs.call (M := .mk M.State M.Init E) (hE _ _ _ _ exec) ih

theorem Runs.widen (h : p.Runs (M.within R) s a s') : p.Runs M s a s' :=
  Runs.executing (M := M.within R) (fun _ _ _ _ hexec => hexec.1) h

end Prog

namespace Service

variable {M : Machine Op Reply} (S : Service M)

section Environment

variable (R : M.State → (op : Op) → Reply op → M.State → Prop)

/-- The same requests in the narrower environment. -/
@[reducible]
def within : Service (M.within R) where
  Call := S.Call
  Result := S.Result
  Enabled := S.Enabled
  body := S.body

variable {S R} {G : M.State → Op → Prop}

@[reducible]
def Config.widen (cfg : (S.within R).Config) : S.Config :=
  ⟨cfg.state, cfg.threads⟩

theorem Step.widen {cfg cfg' : (S.within R).Config}
    (h : Step (S := S.within R) G cfg cfg') :
    Step G cfg.widen cfg'.widen := by
  cases h with
  | start c enabled => exact Step.start cfg.widen c enabled
  | act i c op next reply state thread guard exec =>
      exact Step.act cfg.widen i c op next reply state thread guard exec.1
  | crash i => exact Step.crash cfg.widen i

theorem Steps.widen {cfg cfg' : (S.within R).Config}
    (h : Steps (S := S.within R) G cfg cfg') :
    Steps G cfg.widen cfg'.widen := by
  induction h with
  | refl => exact ReflTransGen.refl
  | tail _ hstep ih => exact ReflTransGen.tail ih hstep.widen

theorem Reachable.widen {cfg : (S.within R).Config}
    (h : Reachable (S := S.within R) G cfg) :
    Reachable G cfg.widen := by
  obtain ⟨s₀, hinit, hsteps⟩ := h
  exact ⟨s₀, hinit, hsteps.widen⟩

end Environment

section Requests

variable (P : M.State → S.Call → Prop)

/-- The same environment, where requests are started only when they meet
`P`. -/
@[reducible]
def only : Service M where
  Call := S.Call
  Result := S.Result
  Enabled := fun s c => S.Enabled s c ∧ P s c
  body := S.body

variable {S P} {G : M.State → Op → Prop}

@[reducible]
def Config.ofOnly (cfg : (S.only P).Config) : S.Config :=
  ⟨cfg.state, cfg.threads⟩

theorem Step.ofOnly {cfg cfg' : (S.only P).Config} (h : Step G cfg cfg') :
    Step G cfg.ofOnly cfg'.ofOnly := by
  cases h with
  | start c enabled => exact Step.start cfg.ofOnly c enabled.1
  | act i c op next reply state thread guard exec =>
      exact Step.act cfg.ofOnly i c op next reply state thread guard exec
  | crash i => exact Step.crash cfg.ofOnly i

theorem Steps.ofOnly {cfg cfg' : (S.only P).Config} (h : Steps G cfg cfg') :
    Steps G cfg.ofOnly cfg'.ofOnly := by
  induction h with
  | refl => exact ReflTransGen.refl
  | tail _ hstep ih => exact ReflTransGen.tail ih hstep.ofOnly

theorem Reachable.ofOnly {cfg : (S.only P).Config} (h : Reachable G cfg) :
    Reachable G cfg.ofOnly := by
  obtain ⟨s₀, hinit, hsteps⟩ := h
  exact ⟨s₀, hinit, hsteps.ofOnly⟩

/-- What holds of every request that is started holds of every thread. -/
theorem Reachable.only_threads {Q : S.Call → Prop}
    (hQ : ∀ s c, P s c → Q c) {cfg : (S.only P).Config}
    (h : Reachable G cfg) : ∀ t ∈ cfg.threads, Q t.1 := by
  obtain ⟨s₀, hinit, hsteps⟩ := h
  induction hsteps with
  | refl => simp
  | @tail mid cfg _ hstep ih =>
      cases hstep with
      | start c enabled =>
          intro t ht
          rcases List.mem_append.mp ht with ht | ht
          · exact ih t ht
          · obtain rfl := List.mem_singleton.mp ht
            exact hQ _ _ enabled.2
      | act i c op next reply state thread guard exec =>
          have hold := ih _ (List.mem_of_getElem? thread)
          intro t ht
          rcases List.mem_or_eq_of_mem_set ht with ht | rfl
          · exact ih t ht
          · exact hold
      | crash i => exact fun t ht => ih t (List.mem_of_mem_eraseIdx ht)

end Requests

section Guarded

variable {S} {G : M.State → Op → Prop} {P : Op → Prop}

/-- When every call that a started request can issue meets `P`, so does every
call executed in a run. -/
theorem Reachable.guarded
    (hS : ∀ s c, S.Enabled s c → (S.body c).CallsOnly P) {cfg : S.Config}
    (h : Reachable G cfg) :
    Reachable (fun s op => G s op ∧ P op) cfg ∧
      ∀ t ∈ cfg.threads, t.2.CallsOnly P := by
  obtain ⟨s₀, hinit, hsteps⟩ := h
  induction hsteps with
  | refl => exact ⟨⟨s₀, hinit, ReflTransGen.refl⟩, by simp⟩
  | @tail mid cfg _ hstep ih =>
      obtain ⟨hreach, hcalls⟩ := ih
      cases hstep with
      | start c enabled =>
          refine ⟨hreach.steps (.single (.start mid c enabled)), ?_⟩
          intro t ht
          rcases List.mem_append.mp ht with ht | ht
          · exact hcalls t ht
          · obtain rfl := List.mem_singleton.mp ht
            exact hS _ c enabled
      | act i c op next reply state thread guard exec =>
          obtain ⟨hop, hnext⟩ := hcalls _ (List.mem_of_getElem? thread)
          refine ⟨hreach.steps (.single
            (.act mid i c op next reply state thread ⟨guard, hop⟩ exec)), ?_⟩
          intro t ht
          rcases List.mem_or_eq_of_mem_set ht with ht | rfl
          · exact hcalls t ht
          · exact hnext reply
      | crash i =>
          refine ⟨hreach.steps (.single (.crash mid i)), ?_⟩
          exact fun t ht => hcalls t (List.mem_of_mem_eraseIdx ht)

end Guarded

section Transfer

variable {S} {G : M.State → Op → Prop}
  {E : M.State → (op : Op) → Reply op → M.State → Prop}

/-- The same requests, where the calls are executed as `E` says. -/
@[reducible]
def executing (S : Service M)
    (E : M.State → (op : Op) → Reply op → M.State → Prop) :
    Service (Machine.mk M.State M.Init E) where
  Call := S.Call
  Result := S.Result
  Enabled := S.Enabled
  body := S.body

/-- A run is a run of any environment that can take its steps. -/
theorem Reachable.executing
    (hE : ∀ s op reply s', G s op → M.exec s op reply s' → E s op reply s')
    {cfg : S.Config} (h : Reachable G cfg) :
    Reachable (S := S.executing E) anyCall ⟨cfg.state, cfg.threads⟩ := by
  obtain ⟨s₀, hinit, hsteps⟩ := h
  refine ⟨s₀, hinit, ?_⟩
  induction hsteps with
  | refl => exact ReflTransGen.refl
  | @tail mid cfg _ hstep ih =>
      refine ReflTransGen.tail ih ?_
      cases hstep with
      | start c enabled =>
          exact Step.start (S := S.executing E) ⟨mid.state, mid.threads⟩ c
            enabled
      | act i c op next reply state thread guard exec =>
          exact Step.act (S := S.executing E) ⟨mid.state, mid.threads⟩ i c op
            next reply state thread trivial (hE _ _ _ _ guard exec)
      | crash i =>
          exact Step.crash (S := S.executing E) ⟨mid.state, mid.threads⟩ i

end Transfer

end Service

end Support
