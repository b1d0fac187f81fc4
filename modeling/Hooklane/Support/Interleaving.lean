import Hooklane.Support.Program
import Mathlib.Data.Nat.Notation
import Mathlib.Logic.Relation

/-!
# Interleaved programs over one shared environment

Any number of programs run against one shared state.  A call of a program is
one atomic step; between two calls every other program may act, and a program
may stop for ever after any call.

Reasoning follows the rely/guarantee pattern, with the rely condition fixed
once and for all: a *discipline* `May s op` says when the call `op` is
permitted in state `s`, and the only thing one program may assume about the
others is that they issue permitted calls.  `Prog.Ensures` states that a
program keeps to the discipline and establishes its postcondition under that
assumption.  `Service.Config.sound_of_steps` then reduces every interleaving
of disciplined programs to a run of single permitted calls.
-/

namespace Support

open Relation

/-- A shared environment: how each call may change the state and what it may
answer. -/
structure Machine (Op : Type) (Reply : Op → Type) where
  State : Type
  Init : State → Prop
  exec : State → (op : Op) → Reply op → State → Prop

namespace Machine

variable {Op : Type} {Reply : Op → Type} (M : Machine Op Reply)

/-- The environment that executes only the calls meeting `G`. -/
@[reducible]
def restrict (G : M.State → Op → Prop) : Machine Op Reply where
  State := M.State
  Init := M.Init
  exec := fun s op reply s' => G s op ∧ M.exec s op reply s'

/-- One permitted call is executed. -/
def Move (May : M.State → Op → Prop) (s s' : M.State) : Prop :=
  ∃ op reply, May s op ∧ M.exec s op reply s'

/-- Some sequence of permitted calls leads from `s` to `s'`. -/
def Later (May : M.State → Op → Prop) : M.State → M.State → Prop :=
  ReflTransGen (M.Move May)

/-- `s` is reached from an initial state by permitted calls. -/
def Reach (May : M.State → Op → Prop) (s : M.State) : Prop :=
  ∃ s₀, M.Init s₀ ∧ M.Later May s₀ s

variable {M} {May May' : M.State → Op → Prop}

theorem Later.refl (s : M.State) : M.Later May s s :=
  ReflTransGen.refl

theorem Later.trans {s s' s'' : M.State}
    (h : M.Later May s s') (h' : M.Later May s' s'') :
    M.Later May s s'' :=
  ReflTransGen.trans h h'

theorem Later.move {s s' : M.State} {op : Op} {reply : Reply op}
    (hmay : May s op) (hexec : M.exec s op reply s') :
    M.Later May s s' :=
  ReflTransGen.single ⟨op, reply, hmay, hexec⟩

theorem Later.mono (hmay : ∀ s op, May s op → May' s op) {s s' : M.State}
    (h : M.Later May s s') : M.Later May' s s' := by
  refine ReflTransGen.mono ?_ s s' h
  rintro a b ⟨op, reply, hop, hexec⟩
  exact ⟨op, reply, hmay a op hop, hexec⟩

theorem Reach.later {s s' : M.State}
    (hs : M.Reach May s) (h : M.Later May s s') : M.Reach May s' := by
  obtain ⟨s₀, hinit, hs₀⟩ := hs
  exact ⟨s₀, hinit, hs₀.trans h⟩

theorem Reach.mono (hmay : ∀ s op, May s op → May' s op) {s : M.State}
    (hs : M.Reach May s) : M.Reach May' s := by
  obtain ⟨s₀, hinit, hs₀⟩ := hs
  exact ⟨s₀, hinit, hs₀.mono hmay⟩

/-- Invariant rule: what holds initially and survives every permitted call
from a reachable state holds in every reachable state. -/
theorem Reach.induction {P : M.State → Prop}
    (hinit : ∀ s, M.Init s → P s)
    (hstep : ∀ s op reply s', M.Reach May s → P s → May s op →
      M.exec s op reply s' → P s')
    {s : M.State} (hs : M.Reach May s) : P s := by
  obtain ⟨s₀, h₀, hrun⟩ := hs
  induction hrun with
  | refl => exact hinit s₀ h₀
  | tail hrun hmove ih =>
      obtain ⟨op, reply, hop, hexec⟩ := hmove
      exact hstep _ op reply _ ⟨s₀, h₀, hrun⟩ ih hop hexec

/-- Stability rule: what survives every permitted call from a reachable state
survives every run from a reachable state. -/
theorem Later.stable {P : M.State → Prop}
    (hstep : ∀ s op reply s', M.Reach May s → P s → May s op →
      M.exec s op reply s' → P s')
    {s s' : M.State} (hs : M.Reach May s) (h : M.Later May s s') (hP : P s) :
    P s' := by
  induction h with
  | refl => exact hP
  | tail hrun hmove ih =>
      obtain ⟨op, reply, hop, hexec⟩ := hmove
      exact hstep _ op reply _ (hs.later hrun) ih hop hexec

end Machine

namespace Prog

open Machine

variable {Op : Type} {Reply : Op → Type} {M : Machine Op Reply}
  {May : M.State → Op → Prop} {α β ε : Type}

variable (May) in
/-- Started in `s`, and with permitted calls of others in between, `p` issues
only permitted calls and ends with a value and a state satisfying `Q`. -/
def Ensures : Prog Op Reply α → (α → M.State → Prop) → M.State → Prop
  | .pure a, Q, s => ∀ s', M.Later May s s' → M.Reach May s' → Q a s'
  | .call op next, Q, s => ∀ s', M.Later May s s' → M.Reach May s' →
      May s' op ∧ ∀ reply s'', M.exec s' op reply s'' →
        Ensures (next reply) Q s''

theorem Ensures.later {p : Prog Op Reply α} {Q : α → M.State → Prop}
    {s s' : M.State} (h : p.Ensures May Q s) (hlater : M.Later May s s') :
    p.Ensures May Q s' := by
  cases p with
  | pure a =>
      intro s'' h'' hreach
      exact h s'' (hlater.trans h'') hreach
  | call op next =>
      intro s'' h'' hreach
      exact h s'' (hlater.trans h'') hreach

theorem ensures_of_later {p : Prog Op Reply α} {Q : α → M.State → Prop}
    {s : M.State}
    (h : ∀ s', M.Later May s s' → M.Reach May s' → p.Ensures May Q s') :
    p.Ensures May Q s := by
  cases p with
  | pure a =>
      intro s' hlater hreach
      exact h s' hlater hreach s' (Later.refl s') hreach
  | call op next =>
      intro s' hlater hreach
      exact h s' hlater hreach s' (Later.refl s') hreach

theorem Ensures.mono {p : Prog Op Reply α} {Q Q' : α → M.State → Prop}
    {s : M.State} (h : p.Ensures May Q s)
    (hQ : ∀ a s', M.Reach May s' → Q a s' → Q' a s') :
    p.Ensures May Q' s := by
  induction p generalizing s with
  | pure a =>
      intro s' hlater hreach
      exact hQ a s' hreach (h s' hlater hreach)
  | call op next ih =>
      intro s' hlater hreach
      obtain ⟨hmay, hnext⟩ := h s' hlater hreach
      exact ⟨hmay, fun reply s'' hexec => ih reply (hnext reply s'' hexec)⟩

/-- A disciplined program composed with a continuation that is disciplined
from every state the program may end in. -/
theorem Ensures.bind {p : Prog Op Reply α} {f : α → Prog Op Reply β}
    {Q : α → M.State → Prop} {R : β → M.State → Prop} {s : M.State}
    (hp : p.Ensures May Q s)
    (hf : ∀ a s', M.Reach May s' → Q a s' → (f a).Ensures May R s') :
    (p >>= f).Ensures May R s := by
  induction p generalizing s with
  | pure a =>
      apply ensures_of_later
      intro s' hlater hreach
      exact hf a s' hreach (hp s' hlater hreach)
  | call op next ih =>
      intro s' hlater hreach
      obtain ⟨hmay, hnext⟩ := hp s' hlater hreach
      exact ⟨hmay, fun reply s'' hexec => ih reply (hnext reply s'' hexec)⟩

/-- Frame rule: what permitted calls keep still holds at the end. -/
theorem Ensures.frame {p : Prog Op Reply α} {Q : α → M.State → Prop}
    {F : M.State → Prop} {s : M.State} (h : p.Ensures May Q s)
    (hstable : ∀ s s', M.Reach May s → M.Later May s s' → F s → F s')
    (hs : M.Reach May s) (hF : F s) :
    p.Ensures May (fun a s' => F s' ∧ Q a s') s := by
  induction p generalizing s with
  | pure a =>
      intro s' hlater hreach
      exact ⟨hstable s s' hs hlater hF, h s' hlater hreach⟩
  | call op next ih =>
      intro s' hlater hreach
      obtain ⟨hmay, hnext⟩ := h s' hlater hreach
      refine ⟨hmay, fun reply s'' hexec => ?_⟩
      have hmove : M.Later May s' s'' := Later.move hmay hexec
      exact ih reply (hnext reply s'' hexec) (hreach.later hmove)
        (hstable s s'' hs (hlater.trans hmove) hF)

/-- A program whose calls are all permitted in every reachable state is
disciplined, and keeps every fact that permitted calls keep. -/
theorem ensures_of_callsOnly {P : Op → Prop} {p : Prog Op Reply α}
    {F : M.State → Prop}
    (hp : p.CallsOnly P)
    (hmay : ∀ op s, P op → M.Reach May s → May s op)
    (hstable : ∀ s s', M.Reach May s → M.Later May s s' → F s → F s')
    {s : M.State} (hs : M.Reach May s) (hF : F s) :
    p.Ensures May (fun _ => F) s := by
  induction p generalizing s with
  | pure a =>
      intro s' hlater hreach
      exact hstable s s' hs hlater hF
  | call op next ih =>
      intro s' hlater hreach
      have hop := hmay op s' hp.1 hreach
      refine ⟨hop, fun reply s'' hexec => ?_⟩
      have hmove : M.Later May s' s'' := Later.move hop hexec
      have hs'' := hreach.later hmove
      exact ih reply (hp.2 reply) hs''
        (hstable s s'' hs (hlater.trans hmove) hF)

end Prog

namespace ProgE

open Machine

variable {Op : Type} {Reply : Op → Type} {M : Machine Op Reply}
  {May : M.State → Op → Prop} {α β ε : Type} {s : M.State}

variable (May) in
/-- A program that may raise is disciplined, and satisfies `Q` if it returns
normally. -/
def Ensures (p : ProgE Op Reply ε α) (Q : α → M.State → Prop)
    (s : M.State) : Prop :=
  p.run.Ensures May (fun r s' => ∀ a, r = .ok a → Q a s') s

theorem Ensures.mono {p : ProgE Op Reply ε α} {Q Q' : α → M.State → Prop}
    (h : p.Ensures May Q s)
    (hQ : ∀ a s', M.Reach May s' → Q a s' → Q' a s') :
    p.Ensures May Q' s :=
  Prog.Ensures.mono h fun _ s' hreach hr a ha => hQ a s' hreach (hr a ha)

theorem ensures_pure {a : α} {Q : α → M.State → Prop}
    (h : ∀ s', M.Later May s s' → M.Reach May s' → Q a s') :
    (pure a : ProgE Op Reply ε α).Ensures May Q s := by
  intro s' hlater hreach b hb
  obtain rfl := Except.ok.inj hb
  exact h s' hlater hreach

theorem ensures_throw {e : ε} {Q : α → M.State → Prop} :
    (throw e : ProgE Op Reply ε α).Ensures May Q s := by
  intro s' _ _ b hb
  cases hb

theorem Ensures.bind {p : ProgE Op Reply ε α} {f : α → ProgE Op Reply ε β}
    {Q : α → M.State → Prop} {R : β → M.State → Prop}
    (hp : p.Ensures May Q s)
    (hf : ∀ a s', M.Reach May s' → Q a s' → (f a).Ensures May R s') :
    (p >>= f).Ensures May R s := by
  rw [Ensures, run_bind]
  refine Prog.Ensures.bind hp fun r s' hreach hr => ?_
  cases r with
  | ok a => exact hf a s' hreach (hr a rfl)
  | error e => exact ensures_throw

/-- The handler starts in whatever state the guarded program raised in. -/
theorem Ensures.tryCatch {p : ProgE Op Reply ε α}
    {h : ε → ProgE Op Reply ε α} {Q : α → M.State → Prop}
    (hp : p.Ensures May Q s)
    (hstable : ∀ a s s', M.Reach May s → M.Later May s s' → Q a s → Q a s')
    (hh : ∀ e s', M.Reach May s' → (h e).Ensures May Q s') :
    (tryCatch p h).Ensures May Q s := by
  rw [Ensures, run_tryCatch]
  refine Prog.Ensures.bind hp fun r s' hreach hr => ?_
  cases r with
  | ok a =>
      apply ensures_pure
      intro t hlater _
      exact hstable a s' t hreach hlater (hr a rfl)
  | error e => exact hh e s' hreach

theorem ensures_perform {op : Op} {Q : Reply op → M.State → Prop}
    (hmay : ∀ s', M.Later May s s' → M.Reach May s' → May s' op)
    (hQ : ∀ s', M.Later May s s' → M.Reach May s' → ∀ reply t,
      M.exec s' op reply t → ∀ t', M.Later May t t' →
        M.Reach May t' → Q reply t') :
    (perform op : ProgE Op Reply ε (Reply op)).Ensures May Q s := by
  intro s' hlater hreach
  refine ⟨hmay s' hlater hreach, ?_⟩
  intro reply t hexec t' hlater' hreach' a ha
  obtain rfl := Except.ok.inj ha
  exact hQ s' hlater hreach reply t hexec t' hlater' hreach'

theorem ensures_of_callsOnly {P : Op → Prop} {p : ProgE Op Reply ε α}
    {F : M.State → Prop} (hp : CallsOnly P p)
    (hmay : ∀ op s, P op → M.Reach May s → May s op)
    (hstable : ∀ s s', M.Reach May s → M.Later May s s' → F s → F s')
    (hs : M.Reach May s) (hF : F s) :
    p.Ensures May (fun _ => F) s :=
  (Prog.ensures_of_callsOnly hp.run hmay hstable hs hF).mono
    fun _ _ _ h _ _ => h

section Raising

variable {Q : α → M.State → Prop} {E : ε → Prop}

variable (May) in
/-- A program that may raise is disciplined, satisfies `Q` if it returns
normally, and raises only what `E` allows. -/
def EnsuresElse (p : ProgE Op Reply ε α) (Q : α → M.State → Prop)
    (E : ε → Prop) (s : M.State) : Prop :=
  p.run.Ensures May
    (fun r s' => (∀ a, r = .ok a → Q a s') ∧ ∀ e, r = .error e → E e) s

theorem EnsuresElse.ensures {p : ProgE Op Reply ε α}
    (h : p.EnsuresElse May Q E s) : p.Ensures May Q s :=
  Prog.Ensures.mono h fun _ _ _ hr => hr.1

theorem Ensures.ensuresElse {p : ProgE Op Reply ε α}
    (h : p.Ensures May Q s) : p.EnsuresElse May Q (fun _ => True) s :=
  Prog.Ensures.mono h fun _ _ _ hr => ⟨hr, fun _ _ => trivial⟩

theorem EnsuresElse.mono {p : ProgE Op Reply ε α} {Q' : α → M.State → Prop}
    {E' : ε → Prop} (h : p.EnsuresElse May Q E s)
    (hQ : ∀ a s', M.Reach May s' → Q a s' → Q' a s')
    (hE : ∀ e, E e → E' e) : p.EnsuresElse May Q' E' s :=
  Prog.Ensures.mono h fun _ s' hreach hr =>
    ⟨fun a ha => hQ a s' hreach (hr.1 a ha), fun e he => hE e (hr.2 e he)⟩

theorem EnsuresElse.frame {p : ProgE Op Reply ε α} {F : M.State → Prop}
    (h : p.EnsuresElse May Q E s)
    (hstable : ∀ s s', M.Reach May s → M.Later May s s' → F s → F s')
    (hs : M.Reach May s) (hF : F s) :
    p.EnsuresElse May (fun a s' => F s' ∧ Q a s') E s :=
  Prog.Ensures.mono (Prog.Ensures.frame h hstable hs hF)
    fun _ _ _ ⟨hF', hr⟩ => ⟨fun a ha => ⟨hF', hr.1 a ha⟩, hr.2⟩

theorem ensuresElse_pure {a : α}
    (h : ∀ s', M.Later May s s' → M.Reach May s' → Q a s') :
    (pure a : ProgE Op Reply ε α).EnsuresElse May Q E s := by
  intro s' hlater hreach
  refine ⟨fun b hb => ?_, fun e he => ?_⟩
  · obtain rfl := Except.ok.inj hb
    exact h s' hlater hreach
  · cases he

theorem ensuresElse_throw {e : ε} (h : E e) :
    (throw e : ProgE Op Reply ε α).EnsuresElse May Q E s := by
  intro s' _ _
  refine ⟨fun a ha => ?_, fun e' he => ?_⟩
  · cases ha
  · obtain rfl := Except.error.inj he
    exact h

theorem EnsuresElse.bind {p : ProgE Op Reply ε α}
    {f : α → ProgE Op Reply ε β} {R : β → M.State → Prop}
    (hp : p.EnsuresElse May Q E s)
    (hf : ∀ a s', M.Reach May s' → Q a s' →
      (f a).EnsuresElse May R E s') :
    (p >>= f).EnsuresElse May R E s := by
  rw [EnsuresElse, run_bind]
  refine Prog.Ensures.bind hp fun r s' hreach hr => ?_
  cases r with
  | ok a => exact hf a s' hreach (hr.1 a rfl)
  | error e => exact ensuresElse_throw (hr.2 e rfl)

theorem ensuresElse_perform {op : Op} {Q : Reply op → M.State → Prop}
    (hmay : ∀ s', M.Later May s s' → M.Reach May s' → May s' op)
    (hQ : ∀ s', M.Later May s s' → M.Reach May s' → ∀ reply t,
      M.exec s' op reply t → ∀ t', M.Later May t t' →
        M.Reach May t' → Q reply t') :
    (perform op : ProgE Op Reply ε (Reply op)).EnsuresElse May Q E s := by
  intro s' hlater hreach
  refine ⟨hmay s' hlater hreach, ?_⟩
  intro reply t hexec t' hlater' hreach'
  refine ⟨fun a ha => ?_, fun e he => ?_⟩
  · obtain rfl := Except.ok.inj ha
    exact hQ s' hlater hreach reply t hexec t' hlater' hreach'
  · cases he

end Raising

end ProgE

/-- The requests that may be started against a machine, and the program each
one runs. -/
structure Service {Op : Type} {Reply : Op → Type} (M : Machine Op Reply) where
  Call : Type
  Result : Call → Type
  Enabled : M.State → Call → Prop
  body : (c : Call) → Prog Op Reply (Result c)

namespace Service

open Machine

variable {Op : Type} {Reply : Op → Type} {M : Machine Op Reply}
  (S : Service M)

/-- A started request and what is left of its program. -/
abbrev Thread := (c : S.Call) × Prog Op Reply (S.Result c)

/-- The shared state and every request started so far. -/
structure Config where
  state : M.State
  threads : List S.Thread

variable {S}

/-- One step of an interleaving in which every executed call meets `G`. -/
inductive Step (G : M.State → Op → Prop) : S.Config → S.Config → Prop where
  | start (cfg : S.Config) (c : S.Call) (enabled : S.Enabled cfg.state c) :
      Step G cfg ⟨cfg.state, cfg.threads ++ [⟨c, S.body c⟩]⟩
  | act (cfg : S.Config) (i : ℕ) (c : S.Call) (op : Op)
      (next : Reply op → Prog Op Reply (S.Result c))
      (reply : Reply op) (state : M.State)
      (thread : cfg.threads[i]? = some ⟨c, .call op next⟩)
      (guard : G cfg.state op)
      (exec : M.exec cfg.state op reply state) :
      Step G cfg ⟨state, cfg.threads.set i ⟨c, next reply⟩⟩
  | crash (cfg : S.Config) (i : ℕ) :
      Step G cfg ⟨cfg.state, cfg.threads.eraseIdx i⟩

/-- Any number of steps, every executed call meeting `G`. -/
def Steps (G : M.State → Op → Prop) : S.Config → S.Config → Prop :=
  ReflTransGen (Step G)

/-- Reached from an initial state with no request started, every executed
call meeting `G`. -/
def Reachable (G : M.State → Op → Prop) (cfg : S.Config) : Prop :=
  ∃ s₀, M.Init s₀ ∧ Steps G ⟨s₀, []⟩ cfg

/-- Every call may be executed. -/
def anyCall (_ : M.State) (_ : Op) : Prop := True

instance (s : M.State) (op : Op) : Decidable (anyCall (M := M) s op) :=
  instDecidableTrue

theorem Step.mono {G G' : M.State → Op → Prop}
    (hG : ∀ s op, G s op → G' s op) {cfg cfg' : S.Config}
    (h : Step G cfg cfg') : Step G' cfg cfg' := by
  cases h with
  | start c enabled => exact .start cfg c enabled
  | act i c op next reply state thread guard exec =>
      exact .act cfg i c op next reply state thread (hG _ _ guard) exec
  | crash i => exact .crash cfg i

theorem Steps.mono {G G' : M.State → Op → Prop}
    (hG : ∀ s op, G s op → G' s op) {cfg cfg' : S.Config}
    (h : Steps G cfg cfg') : Steps G' cfg cfg' :=
  ReflTransGen.mono (fun _ _ hstep => hstep.mono hG) cfg cfg' h

theorem Reachable.mono {G G' : M.State → Op → Prop}
    (hG : ∀ s op, G s op → G' s op) {cfg : S.Config} (h : Reachable G cfg) :
    Reachable G' cfg := by
  obtain ⟨s₀, hinit, hsteps⟩ := h
  exact ⟨s₀, hinit, hsteps.mono hG⟩

theorem Reachable.steps {G : M.State → Op → Prop} {cfg cfg' : S.Config}
    (h : Reachable G cfg) (hsteps : Steps G cfg cfg') : Reachable G cfg' := by
  obtain ⟨s₀, hinit, h₀⟩ := h
  exact ⟨s₀, hinit, ReflTransGen.trans h₀ hsteps⟩

section Sound

variable (May : M.State → Op → Prop)
  (Post : (c : S.Call) → S.Result c → M.State → Prop)

/-- Every request's program keeps to the discipline. -/
def Disciplined : Prop :=
  ∀ (c : S.Call) (s : M.State), M.Reach May s → S.Enabled s c →
    (S.body c).Ensures May (Post c) s

/-- Every thread of the configuration keeps to the discipline from here on. -/
structure Config.Sound (cfg : S.Config) : Prop where
  reach : M.Reach May cfg.state
  threads : ∀ t ∈ cfg.threads, t.2.Ensures May (Post t.1) cfg.state

variable {May Post}

theorem Config.Sound.later {cfg : S.Config} (h : cfg.Sound May Post)
    {s : M.State} (hlater : M.Later May cfg.state s) :
    ∀ t ∈ cfg.threads, t.2.Ensures May (Post t.1) s := by
  intro t ht
  exact (h.threads t ht).later hlater

/-- A call about to be executed in a sound configuration is permitted. -/
theorem Config.Sound.may {cfg : S.Config} (h : cfg.Sound May Post)
    {i : ℕ} {c : S.Call} {op : Op}
    {next : Reply op → Prog Op Reply (S.Result c)}
    (hthread : cfg.threads[i]? = some ⟨c, .call op next⟩) :
    May cfg.state op ∧ ∀ reply s', M.exec cfg.state op reply s' →
      (next reply).Ensures May (Post c) s' :=
  h.threads _ (List.mem_of_getElem? hthread) cfg.state (Later.refl _) h.reach

/-- One step executes at most one call, and that call is permitted. -/
theorem Config.Sound.move_of_step {G : M.State → Op → Prop}
    {cfg cfg' : S.Config} (h : cfg.Sound May Post) (hstep : Step G cfg cfg') :
    ReflGen (M.Move fun s op => May s op ∧ G s op) cfg.state cfg'.state := by
  cases hstep with
  | start c enabled => exact .refl
  | act i c op next reply state thread guard exec =>
      exact .single ⟨op, reply, ⟨(h.may thread).1, guard⟩, exec⟩
  | crash i => exact .refl

theorem Config.sound_of_step {G : M.State → Op → Prop} {cfg cfg' : S.Config}
    (hS : Disciplined May Post) (h : cfg.Sound May Post)
    (hstep : Step G cfg cfg') :
    cfg'.Sound May Post ∧
      M.Later (fun s op => May s op ∧ G s op) cfg.state cfg'.state := by
  refine ⟨?_, (h.move_of_step hstep).to_reflTransGen⟩
  cases hstep with
  | start c enabled =>
      refine ⟨h.reach, ?_⟩
      intro t ht
      rcases List.mem_append.mp ht with ht | ht
      · exact h.threads t ht
      · rw [List.mem_singleton] at ht
        subst t
        exact hS c cfg.state h.reach enabled
  | act i c op next reply state thread guard exec =>
      obtain ⟨hmay, hnext⟩ := h.may thread
      have hlater : M.Later May cfg.state state := Later.move hmay exec
      refine ⟨h.reach.later hlater, ?_⟩
      intro t ht
      rcases List.mem_or_eq_of_mem_set ht with ht | rfl
      · exact h.later hlater t ht
      · exact hnext reply state exec
  | crash i =>
      refine ⟨h.reach, ?_⟩
      intro t ht
      exact h.threads t (List.mem_of_mem_eraseIdx ht)

theorem Config.sound_of_steps {G : M.State → Op → Prop} {cfg cfg' : S.Config}
    (hS : Disciplined May Post) (h : cfg.Sound May Post)
    (hsteps : Steps G cfg cfg') :
    cfg'.Sound May Post ∧
      M.Later (fun s op => May s op ∧ G s op) cfg.state cfg'.state := by
  induction hsteps with
  | refl => exact ⟨h, Later.refl _⟩
  | tail _ hstep ih =>
      obtain ⟨hsound, hlater⟩ := sound_of_step hS ih.1 hstep
      exact ⟨hsound, ih.2.trans hlater⟩

theorem Reachable.sound {G : M.State → Op → Prop} {cfg : S.Config}
    (hS : Disciplined May Post) (h : Reachable G cfg) :
    cfg.Sound May Post ∧
      M.Reach (fun s op => May s op ∧ G s op) cfg.state := by
  obtain ⟨s₀, hinit, hsteps⟩ := h
  have h₀ : (⟨s₀, []⟩ : S.Config).Sound May Post :=
    ⟨⟨s₀, hinit, Later.refl _⟩, by simp⟩
  obtain ⟨hsound, hlater⟩ := Config.sound_of_steps hS h₀ hsteps
  exact ⟨hsound, s₀, hinit, hlater⟩

/-- A finished request of a reachable configuration satisfies its
postcondition in the present state, however long ago it finished. -/
theorem Reachable.post {G : M.State → Op → Prop} {cfg : S.Config}
    (hS : Disciplined May Post) (h : Reachable G cfg)
    {c : S.Call} {a : S.Result c}
    (hthread : (⟨c, .pure a⟩ : S.Thread) ∈ cfg.threads) :
    Post c a cfg.state := by
  obtain ⟨hsound, -⟩ := h.sound hS
  exact hsound.threads _ hthread cfg.state (Later.refl _) hsound.reach

end Sound

section Restrict

variable (S) (G : M.State → Op → Prop)

/-- The same requests against the environment that executes only the calls
meeting `G`. -/
@[reducible]
def restrict : Service (M.restrict G) where
  Call := S.Call
  Result := S.Result
  Enabled := S.Enabled
  body := S.body

variable {S G}

/-- A configuration of one service is a configuration of the other. -/
@[reducible]
def Config.restrict (cfg : S.Config) : (S.restrict G).Config :=
  ⟨cfg.state, cfg.threads⟩

theorem Step.restrict {cfg cfg' : S.Config} (h : Step G cfg cfg') :
    Step anyCall (cfg.restrict (G := G)) cfg'.restrict := by
  cases h with
  | start c enabled =>
      exact Step.start (S := S.restrict G) cfg.restrict c enabled
  | act i c op next reply state thread guard exec =>
      exact Step.act (S := S.restrict G) cfg.restrict i c op next reply state
        thread trivial ⟨guard, exec⟩
  | crash i => exact Step.crash (S := S.restrict G) cfg.restrict i

theorem Steps.restrict {cfg cfg' : S.Config} (h : Steps G cfg cfg') :
    Steps anyCall (cfg.restrict (G := G)) cfg'.restrict := by
  induction h with
  | refl => exact ReflTransGen.refl
  | tail _ hstep ih => exact ReflTransGen.tail ih hstep.restrict

theorem Reachable.restrict {cfg : S.Config} (h : Reachable G cfg) :
    Reachable anyCall (cfg.restrict (G := G)) := by
  obtain ⟨s₀, hinit, hsteps⟩ := h
  exact ⟨s₀, hinit, hsteps.restrict⟩

end Restrict

end Service

end Support
