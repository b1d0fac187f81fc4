import Mathlib.Logic.Function.Basic

/-!
# Programs that act through atomic calls

A program is a tree of calls to its environment.  Each call is answered by a
reply of the type the call asks for, and the reply selects the rest of the
program.  Nothing is assumed here about who answers: the interleaving
semantics of `Hooklane.Support.Interleaving` supplies one shared environment
to many programs.

Exceptions are layered on top with `ExceptT`, so a `try`/`except` block of the
modelled source is a `tryCatch` here.
-/

namespace Support

/-- A program over calls `Op`, where a call `op` is answered in `Reply op`. -/
inductive Prog (Op : Type) (Reply : Op → Type) (α : Type) : Type where
  | pure (value : α) : Prog Op Reply α
  | call (op : Op) (next : Reply op → Prog Op Reply α) : Prog Op Reply α

namespace Prog

variable {Op : Type} {Reply : Op → Type} {α β ε : Type}

/-- Run `p`, then continue with its value. -/
def bind : Prog Op Reply α → (α → Prog Op Reply β) → Prog Op Reply β
  | .pure value, f => f value
  | .call op next, f => .call op fun reply => (next reply).bind f

instance : Monad (Prog Op Reply) where
  pure := Prog.pure
  bind := Prog.bind

/-- Issue one call and return its reply. -/
def perform (op : Op) : Prog Op Reply (Reply op) :=
  .call op .pure

@[simp]
theorem pure_bind (a : α) (f : α → Prog Op Reply β) :
    (Pure.pure a : Prog Op Reply α) >>= f = f a := rfl

@[simp]
theorem call_bind
    (op : Op) (next : Reply op → Prog Op Reply α) (f : α → Prog Op Reply β) :
    (Prog.call op next) >>= f = Prog.call op fun reply => next reply >>= f := rfl

/-- Every call that `p` can ever issue satisfies `P`, whatever the replies. -/
def CallsOnly (P : Op → Prop) : Prog Op Reply α → Prop
  | .pure _ => True
  | .call op next => P op ∧ ∀ reply, (next reply).CallsOnly P

theorem CallsOnly.mono {P Q : Op → Prop} {p : Prog Op Reply α}
    (hp : p.CallsOnly P) (hPQ : ∀ op, P op → Q op) : p.CallsOnly Q := by
  induction p with
  | pure a => exact trivial
  | call op next ih =>
      exact ⟨hPQ op hp.1, fun reply => ih reply (hp.2 reply)⟩

theorem callsOnly_bind
    {P : Op → Prop} {p : Prog Op Reply α} {f : α → Prog Op Reply β}
    (hp : p.CallsOnly P) (hf : ∀ a, (f a).CallsOnly P) :
    (p >>= f).CallsOnly P := by
  induction p with
  | pure a => exact hf a
  | call op next ih =>
      exact ⟨hp.1, fun reply => ih reply (hp.2 reply)⟩

/-- Every value that `p` can end with satisfies `P`, whatever the replies. -/
def Yields (P : α → Prop) : Prog Op Reply α → Prop
  | .pure a => P a
  | .call _ next => ∀ reply, (next reply).Yields P

theorem Yields.bind {P : α → Prop} {Q : β → Prop} {p : Prog Op Reply α}
    {f : α → Prog Op Reply β} (hp : p.Yields P)
    (hf : ∀ a, P a → (f a).Yields Q) : (p >>= f).Yields Q := by
  induction p with
  | pure a => exact hf a hp
  | call op next ih => exact fun reply => ih reply (hp reply)

theorem Yields.mono {P Q : α → Prop} {p : Prog Op Reply α} (hp : p.Yields P)
    (hPQ : ∀ a, P a → Q a) : p.Yields Q := by
  induction p with
  | pure a => exact hPQ a hp
  | call op next ih => exact fun reply => ih reply (hp reply)

theorem yields_any (p : Prog Op Reply α) : p.Yields fun _ => True := by
  induction p with
  | pure a => exact trivial
  | call op next ih => exact ih

/-- Every value that `p` can end with satisfies `P`, as long as the replies
meet `Answers`. -/
def YieldsGiven (Answers : (op : Op) → Reply op → Prop) (P : α → Prop) :
    Prog Op Reply α → Prop
  | .pure a => P a
  | .call op next => ∀ reply, Answers op reply →
      (next reply).YieldsGiven Answers P

section Given

variable {Answers : (op : Op) → Reply op → Prop} {P : α → Prop} {Q : β → Prop}

theorem Yields.given {p : Prog Op Reply α} (hp : p.Yields P) :
    p.YieldsGiven Answers P := by
  induction p with
  | pure a => exact hp
  | call op next ih => exact fun reply _ => ih reply (hp reply)

theorem YieldsGiven.yields {p : Prog Op Reply α}
    (hp : p.YieldsGiven (fun _ _ => True) P) : p.Yields P := by
  induction p with
  | pure a => exact hp
  | call op next ih => exact fun reply => ih reply (hp reply trivial)

theorem YieldsGiven.bind {p : Prog Op Reply α} {f : α → Prog Op Reply β}
    (hp : p.YieldsGiven Answers P)
    (hf : ∀ a, P a → (f a).YieldsGiven Answers Q) :
    (p >>= f).YieldsGiven Answers Q := by
  induction p with
  | pure a => exact hf a hp
  | call op next ih =>
      exact fun reply hreply => ih reply (hp reply hreply)

end Given

end Prog

/-- A program that may raise. -/
abbrev ProgE (Op : Type) (Reply : Op → Type) (ε : Type) :=
  ExceptT ε (Prog Op Reply)

namespace ProgE

variable {Op : Type} {Reply : Op → Type} {α β ε : Type}

/-- Issue one call from a program that may raise. -/
def perform (op : Op) : ProgE Op Reply ε (Reply op) :=
  ExceptT.lift (Prog.perform op)

/-- What follows a program that may raise: its value, or its exception. -/
def cont (f : α → ProgE Op Reply ε β) :
    Except ε α → Prog Op Reply (Except ε β)
  | .ok a => (f a).run
  | .error e => .pure (.error e)

/-- What a handler does with the outcome of the guarded program. -/
def handle (h : ε → ProgE Op Reply ε α) :
    Except ε α → Prog Op Reply (Except ε α)
  | .ok a => .pure (.ok a)
  | .error e => (h e).run

theorem run_bind (p : ProgE Op Reply ε α) (f : α → ProgE Op Reply ε β) :
    (p >>= f).run = p.run >>= cont f := by
  change Prog.bind _ _ = Prog.bind _ _
  congr 1
  funext r
  cases r <;> rfl

theorem run_tryCatch (p : ProgE Op Reply ε α) (h : ε → ProgE Op Reply ε α) :
    (tryCatch p h).run = p.run >>= handle h := by
  change Prog.bind _ _ = Prog.bind _ _
  congr 1
  funext r
  cases r <;> rfl

/-- Every call of a program that may raise satisfies `P`. -/
def CallsOnly (P : Op → Prop) (p : ProgE Op Reply ε α) : Prop :=
  p.run.CallsOnly P

section CallsOnly

variable {P : Op → Prop}

theorem CallsOnly.mono {Q : Op → Prop} {p : ProgE Op Reply ε α}
    (hp : CallsOnly P p) (hPQ : ∀ op, P op → Q op) : CallsOnly Q p :=
  Prog.CallsOnly.mono hp hPQ

theorem callsOnly_pure (a : α) :
    CallsOnly P (pure a : ProgE Op Reply ε α) := trivial

theorem callsOnly_throw (e : ε) :
    CallsOnly P (throw e : ProgE Op Reply ε α) := trivial

theorem callsOnly_perform {op : Op} (hop : P op) :
    CallsOnly P (perform op : ProgE Op Reply ε (Reply op)) :=
  ⟨hop, fun _ => trivial⟩

theorem callsOnly_bind {p : ProgE Op Reply ε α} {f : α → ProgE Op Reply ε β}
    (hp : CallsOnly P p) (hf : ∀ a, CallsOnly P (f a)) :
    CallsOnly P (p >>= f) := by
  rw [CallsOnly, run_bind]
  refine Prog.callsOnly_bind hp fun r => ?_
  cases r with
  | ok a => exact hf a
  | error e => exact trivial

theorem callsOnly_tryCatch {p : ProgE Op Reply ε α}
    {h : ε → ProgE Op Reply ε α}
    (hp : CallsOnly P p) (hh : ∀ e, CallsOnly P (h e)) :
    CallsOnly P (tryCatch p h) := by
  rw [CallsOnly, run_tryCatch]
  refine Prog.callsOnly_bind hp fun r => ?_
  cases r with
  | ok a => exact trivial
  | error e => exact hh e

theorem callsOnly_of_run {p : ProgE Op Reply ε α}
    (h : p.run.CallsOnly P) : CallsOnly P p := h

theorem CallsOnly.run {p : ProgE Op Reply ε α}
    (h : CallsOnly P p) : p.run.CallsOnly P := h

end CallsOnly

-- The elaborator would unfold the judgement into the calls of the program.
attribute [irreducible] CallsOnly

/-- Every value or exception of a program that may raise satisfies `P`. -/
def Yields (P : Except ε α → Prop) (p : ProgE Op Reply ε α) : Prop :=
  p.run.Yields P

section Yields

variable {P : Except ε α → Prop}

theorem yields_pure {a : α} (h : P (.ok a)) :
    Yields P (pure a : ProgE Op Reply ε α) := h

theorem yields_throw {e : ε} (h : P (.error e)) :
    Yields P (throw e : ProgE Op Reply ε α) := h

theorem yields_any (p : ProgE Op Reply ε α) : Yields (fun _ => True) p :=
  Prog.yields_any p.run

theorem yields_perform {op : Op} :
    Yields (fun r => ∃ reply, r = .ok reply)
      (perform op : ProgE Op Reply ε (Reply op)) :=
  fun reply => ⟨reply, rfl⟩

theorem Yields.mono {Q : Except ε α → Prop} {p : ProgE Op Reply ε α}
    (hp : Yields P p) (hPQ : ∀ r, P r → Q r) : Yields Q p :=
  Prog.Yields.mono hp hPQ

theorem Yields.bind {p : ProgE Op Reply ε α} {f : α → ProgE Op Reply ε β}
    {Q : Except ε β → Prop} (hp : Yields P p)
    (hok : ∀ a, P (.ok a) → Yields Q (f a))
    (herror : ∀ e, P (.error e) → Q (.error e)) : Yields Q (p >>= f) := by
  rw [Yields, run_bind]
  refine Prog.Yields.bind hp fun r hr => ?_
  cases r with
  | ok a => exact hok a hr
  | error e => exact herror e hr

theorem Yields.tryCatch {p : ProgE Op Reply ε α}
    {h : ε → ProgE Op Reply ε α} {Q : Except ε α → Prop} (hp : Yields P p)
    (hok : ∀ a, P (.ok a) → Q (.ok a))
    (herror : ∀ e, P (.error e) → Yields Q (h e)) :
    Yields Q (tryCatch p h) := by
  rw [Yields, run_tryCatch]
  refine Prog.Yields.bind hp fun r hr => ?_
  cases r with
  | ok a => exact hok a hr
  | error e => exact herror e hr

end Yields

/-- Every value or exception of a program that may raise satisfies `P`, as long
as the replies meet `Answers`. -/
def YieldsGiven (Answers : (op : Op) → Reply op → Prop)
    (P : Except ε α → Prop) (p : ProgE Op Reply ε α) : Prop :=
  p.run.YieldsGiven Answers P

section Given

variable {Answers : (op : Op) → Reply op → Prop} {P : Except ε α → Prop}

theorem Yields.given {p : ProgE Op Reply ε α} (hp : Yields P p) :
    YieldsGiven Answers P p :=
  Prog.Yields.given hp

theorem YieldsGiven.yields {p : ProgE Op Reply ε α}
    (hp : YieldsGiven (fun _ _ => True) P p) : Yields P p :=
  Prog.YieldsGiven.yields hp

theorem YieldsGiven.bind {p : ProgE Op Reply ε α} {f : α → ProgE Op Reply ε β}
    {Q : Except ε β → Prop} (hp : YieldsGiven Answers P p)
    (hok : ∀ a, P (.ok a) → YieldsGiven Answers Q (f a))
    (herror : ∀ e, P (.error e) → Q (.error e)) :
    YieldsGiven Answers Q (p >>= f) := by
  rw [YieldsGiven, run_bind]
  refine Prog.YieldsGiven.bind hp fun r hr => ?_
  cases r with
  | ok a => exact hok a hr
  | error e => exact herror e hr

theorem YieldsGiven.tryCatch {p : ProgE Op Reply ε α}
    {h : ε → ProgE Op Reply ε α} {Q : Except ε α → Prop}
    (hp : YieldsGiven Answers P p) (hok : ∀ a, P (.ok a) → Q (.ok a))
    (herror : ∀ e, P (.error e) → YieldsGiven Answers Q (h e)) :
    YieldsGiven Answers Q (tryCatch p h) := by
  rw [YieldsGiven, run_tryCatch]
  refine Prog.YieldsGiven.bind hp fun r hr => ?_
  cases r with
  | ok a => exact hok a hr
  | error e => exact herror e hr

end Given

end ProgE

end Support
