import Hooklane.Support.Narrowing
import Hooklane.Support.Sequential

/-!
# Playing a concrete schedule

A schedule names which request starts, which thread acts and how the
environment answers.  Playing it is a computation, and its result is reached
by steps of the interleaving semantics, so a concrete run is exhibited by
evaluating its schedule.
-/

namespace Support

open Relation

/-- A computable selection among the answers that a machine allows. -/
structure Oracle {Op : Type} {Reply : Op → Type} (M : Machine Op Reply) where
  Answer : Type
  answer : M.State → (op : Op) → Answer → Option (Reply op × M.State)
  sound : ∀ s op ans reply s', answer s op ans = some (reply, s') →
    M.exec s op reply s'

namespace Oracle

variable {Op : Type} {Reply : Op → Type} {M : Machine Op Reply}
  (O : Oracle M) (S : Service M)

/-- One line of a schedule. -/
inductive Action where
  | start (c : S.Call) (enabled : ∀ s, S.Enabled s c)
  | startWhen (c : S.Call) (check : M.State → Bool)
      (enabled : ∀ s, check s = true → S.Enabled s c)
  | act (i : ℕ) (answer : O.Answer)

variable {S} (G : M.State → Op → Prop) [∀ s op, Decidable (G s op)]

/-- Play one line; `none` when it does not apply or breaks `G`. -/
def playOne (cfg : S.Config) : O.Action S → Option S.Config
  | .start c _ => some ⟨cfg.state, cfg.threads ++ [⟨c, S.body c⟩]⟩
  | .startWhen c check _ =>
      if check cfg.state then
        some ⟨cfg.state, cfg.threads ++ [⟨c, S.body c⟩]⟩
      else none
  | .act i answer =>
      match cfg.threads[i]? with
      | some ⟨c, .call op next⟩ =>
          if G cfg.state op then
            (O.answer cfg.state op answer).map fun (reply, state) =>
              ⟨state, cfg.threads.set i ⟨c, next reply⟩⟩
          else none
      | _ => none

/-- Play a whole schedule. -/
def play (cfg : S.Config) (schedule : List (O.Action S)) : Option S.Config :=
  schedule.foldlM (O.playOne G) cfg

theorem play_append (cfg : S.Config) (first rest : List (O.Action S)) :
    O.play G cfg (first ++ rest) =
      (O.play G cfg first).bind fun mid => O.play G mid rest :=
  List.foldlM_append

variable {O G}

theorem step_of_playOne {cfg cfg' : S.Config} {action : O.Action S}
    (h : O.playOne G cfg action = some cfg') : Service.Step G cfg cfg' := by
  cases action with
  | start c enabled =>
      obtain rfl := Option.some.inj h
      exact .start cfg c (enabled cfg.state)
  | startWhen c check enabled =>
      rw [playOne] at h
      split at h
      · next hcheck =>
        obtain rfl := Option.some.inj h
        exact .start cfg c (enabled cfg.state hcheck)
      · cases h
  | act i answer =>
      unfold playOne at h
      dsimp only at h
      split at h
      · next c op next hthread =>
        split at h
        · next hguard =>
          obtain ⟨⟨reply, state⟩, hanswer, rfl⟩ := Option.map_eq_some_iff.mp h
          exact .act cfg i c op next reply state hthread hguard
            (O.sound _ _ _ _ _ hanswer)
        · exact absurd h (by simp)
      · exact absurd h (by simp)

theorem steps_of_play {cfg cfg' : S.Config} {schedule : List (O.Action S)}
    (h : O.play G cfg schedule = some cfg') : Service.Steps G cfg cfg' := by
  induction schedule generalizing cfg with
  | nil =>
      obtain rfl := Option.some.inj h
      exact ReflTransGen.refl
  | cons action rest ih =>
      rw [play, List.foldlM_cons] at h
      obtain ⟨mid, hfirst, hrest⟩ := Option.bind_eq_some_iff.mp h
      exact ReflTransGen.head (step_of_playOne hfirst) (ih hrest)

/-- A schedule played from an initial state ends in a reachable
configuration. -/
theorem reachable_of_play {s₀ : M.State} (hinit : M.Init s₀)
    {cfg : S.Config} {schedule : List (O.Action S)}
    (h : O.play G ⟨s₀, []⟩ schedule = some cfg) : Service.Reachable G cfg :=
  ⟨s₀, hinit, steps_of_play h⟩

section Within

variable {R : M.State → (op : Op) → Reply op → M.State → Prop}

/-- The answer of a line meets `p`. -/
def Action.answers (p : O.Answer → Bool) : O.Action S → Bool
  | .start _ _ | .startWhen _ _ _ => true
  | .act _ answer => p answer

/-- When the answers of a schedule are steps of a narrower environment, it is
played there as well. -/
theorem steps_within_of_play {p : O.Answer → Bool}
    (hR : ∀ s op ans reply s', p ans = true →
      O.answer s op ans = some (reply, s') → R s op reply s')
    {cfg cfg' : S.Config} {schedule : List (O.Action S)}
    (hp : ∀ action ∈ schedule, action.answers p = true)
    (h : O.play G cfg schedule = some cfg') :
    Service.Steps (S := S.within R) G ⟨cfg.state, cfg.threads⟩
      ⟨cfg'.state, cfg'.threads⟩ := by
  induction schedule generalizing cfg with
  | nil =>
      obtain rfl := Option.some.inj h
      exact ReflTransGen.refl
  | cons action rest ih =>
      rw [play, List.foldlM_cons] at h
      obtain ⟨mid, hfirst, hrest⟩ := Option.bind_eq_some_iff.mp h
      have hmid := ih (fun a ha => hp a (List.mem_cons_of_mem _ ha)) hrest
      refine ReflTransGen.head ?_ hmid
      cases action with
      | start c enabled =>
          obtain rfl := Option.some.inj hfirst
          exact Service.Step.start (S := S.within R)
            ⟨cfg.state, cfg.threads⟩ c (enabled cfg.state)
      | startWhen c check enabled =>
          rw [playOne] at hfirst
          split at hfirst
          · next hcheck =>
            obtain rfl := Option.some.inj hfirst
            exact Service.Step.start (S := S.within R)
              ⟨cfg.state, cfg.threads⟩ c (enabled cfg.state hcheck)
          · cases hfirst
      | act i answer =>
          unfold playOne at hfirst
          dsimp only at hfirst
          split at hfirst
          · next c op next hthread =>
            split at hfirst
            · next hguard =>
              obtain ⟨⟨reply, state⟩, hanswer, rfl⟩ :=
                Option.map_eq_some_iff.mp hfirst
              exact Service.Step.act (S := S.within R)
                ⟨cfg.state, cfg.threads⟩ i c op next reply state hthread
                hguard ⟨O.sound _ _ _ _ _ hanswer,
                  hR _ _ _ _ _ (hp _ List.mem_cons_self) hanswer⟩
            · exact absurd hfirst (by simp)
          · exact absurd hfirst (by simp)

end Within

section Drive

variable {α : Type}

variable (O) in
/-- Run one program alone, every call answered by the same selection. -/
def drive (ans : O.Answer) : Prog Op Reply α → M.State → Option (α × M.State)
  | .pure a, s => some (a, s)
  | .call op next, s =>
      (O.answer s op ans).bind fun r => drive ans (next r.1) r.2

theorem runs_of_drive {ans : O.Answer} {p : Prog Op Reply α} {a : α}
    {s s' : M.State} (h : O.drive ans p s = some (a, s')) :
    p.Runs M s a s' := by
  induction p generalizing s with
  | pure b =>
      obtain ⟨rfl, rfl⟩ := Prod.mk.inj (Option.some.inj h)
      exact .pure b s
  | call op next ih =>
      obtain ⟨⟨reply, t⟩, hanswer, hrest⟩ := Option.bind_eq_some_iff.mp h
      exact .call (O.sound _ _ _ _ _ hanswer) (ih reply hrest)

end Drive

end Oracle

end Support
