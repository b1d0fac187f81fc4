import Hooklane.GoalLoop.Loop
import Hooklane.Support.Schedule

/-!
# Guarantees of the runner

The two promises about a run that its source states: attempts at one feature
are bounded, and a run that started an agent leaves its record behind.  Both
fail for some documents that agents leave, and hold exactly otherwise.
-/

namespace Hooklane.GoalLoop

open Support ProgE Runner

variable {w t : World}

/-- Reading the features before a run tells whether they are well formed. -/
theorem ends_readFeatures_initial :
    Ends (readFeatures .initial)
      (fun document t => w.Signalled t ∧ loadContents w.features = .ok document)
      (fun e t => Failure e ∧ w.Signalled t) w := by
  refine Alone.next (P := fun contents t => w.Signalled t ∧
    contents = w.features) (alone_perform ?_) ?_
  · rintro reply t ⟨v, hv, rfl, rfl⟩
    exact ⟨hv, hv.same.features⟩
  · rintro contents w₁ ⟨h₁, rfl⟩
    cases hload : loadContents w.features with
    | ok document => exact alone_pure ⟨h₁, rfl⟩
    | error e => exact alone_throw ⟨failure_of_loadContents hload, h₁⟩

/-- The rule of `run_loop`: before its loop it leaves the world as it was. -/
theorem ends_runLoop (settings : Settings) {Q : ℤ → World → Prop}
    {R : Raised → World → Prop}
    (hraise : ∀ e t, Failure e → Same w t → R e t)
    (hstop : ∀ code t, Same w t → Idle w.features code → Q code t)
    (hloop : ∀ run w₁, Same w w₁ →
      Ends (iterate settings run settings.maxIterations 1 ∅) Q R w₁) :
    Ends (runLoop settings) Q R w := by
  refine (ends_readFeatures_initial.ends_mono (fun _ _ h => h)
    fun e t h => hraise e t h.1 h.2.same).next ?_
  rintro initialDocument w₁ ⟨hsignalled, hload⟩
  have h₁ := hsignalled.same
  split
  · next hpending =>
    exact (ends_noSelectableFeature hload hpending).ends_mono
      (fun code t h => hstop code t (h₁.trans h.1) h.2)
      fun e t h => hraise e t h.1 (h₁.trans h.2)
  · -- The steps before the loop write no file that the loop reads.
    have hquiet : ∀ {α : Type} {p : Runner α} {w₂ : World}, Same w w₂ →
        Within Op.Quiet Failure p →
        Ends p (fun _ t => Same w t) R w₂ := fun h hp =>
      hp.same.ends_mono (fun _ _ ht => h.trans ht)
        fun e t ht => hraise e t ht.1 (h.trans ht.2)
    refine (hquiet h₁ (Within.request .utcNow trivial)).next ?_
    intro startedAt w₂ h₂
    refine (hquiet h₂ (Within.request .gitSnapshot trivial)).next ?_
    intro git w₃ h₃
    refine (hquiet h₃ (Within.request .createRunDir trivial)).next ?_
    intro created w₄ h₄
    refine (hquiet h₄ (Within.orRaise created)).next ?_
    intro runDir w₅ h₅
    refine (hquiet h₅ (Within.effect (.gitBefore _) trivial)).next ?_
    intro _ w₆ h₆
    refine (hquiet h₆ (Within.request .readPrompt trivial)).next ?_
    intro prompt w₇ h₇
    cases prompt with
    | ok text => exact hloop _ w₇ h₇
    | error e =>
        refine alone_throw (hraise _ _ ?_ h₇)
        cases e <;> simp [Failure, ReadError.raised]

/-- No run is cut off: the loop of `finalize_iteration` ends. -/
theorem ends_runLoop_accounts (settings : Settings) (hfresh : w.Fresh) :
    Ends (runLoop settings)
      (fun code t => t.launches = [] ∨ Accounts t code)
      (fun e _ => Failure e) w := by
  refine ends_runLoop settings (fun _ _ h _ => h) ?_ ?_
  · exact fun _ _ h _ => .inl (h.launches.trans hfresh.launches)
  · intro run w₁ h₁
    refine (ends_iterate_accounts settings run settings.maxIterations 1 ∅ w₁
      (by omega) settings.iterations_pos ?_ ?_).ends_mono
      (fun _ _ h => .inr h) fun _ _ h => h
    · exact h₁.runMetadata.trans hfresh.runMetadata
    · intro contents hmem
      rw [h₁.opened, hfresh.opened] at hmem
      cases hmem

theorem ends_runLoop_bounded (settings : Settings)
    (hlaunches : w.launches = []) :
    Ends (runLoop settings) (fun _ t => Bounded settings t)
      (fun e t => Failure e ∧ Bounded settings t) w := by
  have hnone : ∀ {t : World}, Same w t → t.launches = [] := fun h =>
    h.launches.trans hlaunches
  have hbounded : ∀ {t : World}, Same w t → Bounded settings t := fun h =>
    ⟨hnone h ▸ trivial, by simp [hnone h]⟩
  refine ends_runLoop settings (fun _ _ he h => ⟨he, hbounded h⟩)
    (fun _ _ h _ => hbounded h) ?_
  intro run w₁ h₁
  refine ends_iterate_bounded settings run _ 1 ∅ w₁ ?_
  have hpos := settings.attempts_pos
  refine ⟨hnone h₁ ▸ trivial, ?_, ?_, by simp [hnone h₁]⟩
  · intro featureId hle
    rw [hnone h₁] at hle
    simp [startedOn] at hle
    omega
  · intro featureId
    rw [hnone h₁]
    rfl

/-! ## A concrete environment -/

/-- The agents succeed, and leave the given features files one after the
other. -/
def exampleAnswer (w : World) : (op : Op) → List Contents →
    Option (op.Reply × World)
  | .isFile _, _ => some (true, w)
  | .readFeatures place, _ => some (w.features, w.reading place)
  | .readFinal, _ => some (.ok "", w)
  | .readPrompt, _ => some (.ok "", w)
  | .effect action, _ => some (none, w.write action)
  | .createRunDir, _ => some (.ok ⟨"logs/run", "run"⟩, w)
  | .popen assignment, _ =>
      some (.started, w.launch assignment.featureId)
  | .wait _, left =>
      some (some 0, { w with
        features := (left[w.launches.length - 1]?).getD w.features })
  | .poll, _ => some (some 0, w)
  | .killpg _, _ => some ((), w)
  | .receivedSignal, _ => some (w.signal, w)
  | .utcNow, _ => some ("2026-01-01T00:00:00.000000Z", w)
  | .elapsed, _ => some ("0.0", w)
  | .gitSnapshot, _ => some ((none, ""), w)
  | .testActivity, _ => some (.ok (false, false), w)
  | .codexThreadId, _ => some (.ok none, w)

def exampleOracle : Oracle runnerMachine where
  Answer := List Contents
  answer w op := exampleAnswer (w.touching op) op
  sound := by
    intro w op left reply t h
    refine ⟨w, .none, ?_⟩
    cases op with
    | popen assignment =>
        obtain ⟨rfl, rfl⟩ := Prod.mk.inj (Option.some.inj h)
        exact .inl ⟨rfl, rfl⟩
    | effect action =>
        obtain ⟨rfl, rfl⟩ := Prod.mk.inj (Option.some.inj h)
        exact .inl ⟨rfl, rfl⟩
    | wait seconds =>
        obtain ⟨rfl, rfl⟩ := Prod.mk.inj (Option.some.inj h)
        exact ⟨_, rfl⟩
    | readFeatures place =>
        obtain ⟨rfl, rfl⟩ := Prod.mk.inj (Option.some.inj h)
        exact ⟨rfl, rfl⟩
    | receivedSignal =>
        obtain ⟨rfl, rfl⟩ := Prod.mk.inj (Option.some.inj h)
        exact ⟨rfl, rfl⟩
    | _ =>
        obtain ⟨rfl, rfl⟩ := Prod.mk.inj (Option.some.inj h)
        rfl

theorem exampleAttempts_pos : 1 ≤ 1 := Nat.le_refl 1

theorem exampleIterations_pos : 1 ≤ 3 := Nat.le_add_left 1 2

def exampleSettings : Settings where
  agent := .codex
  maxIterations := 3
  iterationTimeout := "1800.0"
  terminationGrace := "5.0"
  maxAttemptsPerFeature := 1
  strictIncomplete := none
  iterations_pos := exampleIterations_pos
  attempts_pos := exampleAttempts_pos

/-- A feature of the examples. -/
def exampleFeature (id : String) (passes blocked : Bool) : Json :=
  .obj [("id", .str id), ("passes", .bool passes), ("blocked", .bool blocked)]

/-- A features file of the examples. -/
def exampleFile (features : List Json) : Contents :=
  .ok (.obj [("features", .arr features)])

def exampleWorld (features : Contents) : World where
  features := features
  signal := none
  launches := []
  opened := []
  runMetadata := none
  summary := none
  receipts := []
  iterations := []
  touched := []

theorem exampleWorld_fresh (features : Contents) :
    (exampleWorld features).Fresh := ⟨rfl, rfl, rfl, rfl, rfl, rfl, rfl, rfl⟩

/-- The run of the examples on a features file, with what the agents leave. -/
def exampleRun (features : Contents) (left : List Contents) :
    Option (Except Raised ℤ × World) :=
  exampleOracle.drive left (runLoop exampleSettings).run
    (exampleWorld features)

theorem runs_of_exampleRun {features : Contents} {left : List Contents}
    {r : Except Raised ℤ} {t : World}
    (h : exampleRun features left = some (r, t)) :
    (runLoop exampleSettings).run.Runs runnerMachine (exampleWorld features) r
      t :=
  Oracle.runs_of_drive h

theorem returned_of_toOption {α : Type} {r : Except Raised α} {a : α}
    (h : r.toOption = some a) : r = .ok a := by
  cases r with
  | error e => cases h
  | ok other => rw [Option.some.inj h]

/-! ## Bounded attempts -/

/-- In every run, at most the given number of agents is started, and at most
the given number on each feature, exactly when no agent is given a features
file that selects a feature which had been recorded as passing after its last
attempt. -/
theorem attempts_bounded (settings : Settings) (w t : World)
    (r : Except Raised ℤ) (hfresh : w.Fresh)
    (hrun : (runLoop settings).run.Runs runnerMachine w r t) :
    (t.launches.length ≤ settings.maxIterations ∧
      ∀ featureId, startedOn t.launches featureId ≤
        settings.maxAttemptsPerFeature) ↔
    NeverReopened settings.maxAttemptsPerFeature t.launches := by
  have hends : Bounded settings t := by
    have hbounded := Prog.Alone.of_runs
      (ends_runLoop_bounded settings hfresh.launches) hrun
    cases r with
    | ok code => exact hbounded
    | error e => exact hbounded.2
  rw [hends.paced.startedOn_le_iff]
  exact and_iff_right hends.length

/-- Two features, with what the document records of them. -/
def twoFeatures (first second : Bool) : Contents :=
  exampleFile [exampleFeature "F001" first false,
    exampleFeature "F002" second false]

/-- A run over two features that both agents complete. -/
theorem attempts_bounded_example :
    ∃ r t, exampleRun (twoFeatures false false)
        [twoFeatures true false, twoFeatures true true] = some (r, t) ∧
      t.launches.length = 2 ∧
      ((t.launches.length ≤ exampleSettings.maxIterations ∧
        ∀ featureId, startedOn t.launches featureId ≤ 1) ↔
      NeverReopened 1 t.launches) := by
  have hdrive : (exampleRun (twoFeatures false false)
      [twoFeatures true false, twoFeatures true true]).map
        (fun p => p.2.launches.length) = some 2 := by decide +kernel
  obtain ⟨⟨r, t⟩, hrun, hlength⟩ := Option.map_eq_some_iff.mp hdrive
  exact ⟨r, t, hrun, hlength, attempts_bounded exampleSettings _ t r
    (exampleWorld_fresh _) (runs_of_exampleRun hrun)⟩

/-- The agent of the second feature records the first one as not passing, and
the third iteration gives it another agent. -/
theorem attempts_exceeded :
    ∃ r t, (runLoop exampleSettings).run.Runs runnerMachine
        (exampleWorld (twoFeatures false false)) r t ∧
      exampleSettings.maxAttemptsPerFeature <
        startedOn t.launches "F001" := by
  have hdrive : (exampleRun (twoFeatures false false)
      [twoFeatures true false, twoFeatures false true,
        twoFeatures true true]).map
      (fun p => startedOn p.2.launches "F001") = some 2 := by decide +kernel
  obtain ⟨⟨r, t⟩, hrun, hcount⟩ := Option.map_eq_some_iff.mp hdrive
  have hcount : startedOn t.launches "F001" = 2 := hcount
  refine ⟨r, t, runs_of_exampleRun hrun, ?_⟩
  rw [hcount]
  decide

/-! ## The record of the run -/

/-- A run that started an agent and returns an exit code has recorded that
code in both files of its directory, exactly when each of its iterations was
opened with a feature to select. -/
theorem run_recorded (settings : Settings) (w t : World) (code : ℤ)
    (hfresh : w.Fresh)
    (hrun : (runLoop settings).run.Runs runnerMachine w (.ok code) t)
    (hstarted : t.launches ≠ []) :
    Recorded t code ↔ AlwaysSelectable t := by
  obtain hnone | haccounts :=
    Prog.Alone.of_runs (ends_runLoop_accounts settings hfresh) hrun
  · exact absurd hnone hstarted
  · exact haccounts.recorded_iff

/-- A run whose agent completes the only feature. -/
theorem run_recorded_example :
    ∃ t, exampleRun (exampleFile [exampleFeature "F001" false false])
        [exampleFile [exampleFeature "F001" true false]] =
          some (.ok 0, t) ∧
      (Recorded t 0 ↔ AlwaysSelectable t) := by
  have hdrive : (exampleRun
      (exampleFile [exampleFeature "F001" false false])
      [exampleFile [exampleFeature "F001" true false]]).map
      (fun p => (p.1.toOption, p.2.launches.length)) =
        some (some 0, 1) := by decide +kernel
  obtain ⟨⟨r, t⟩, hrun, hvalue⟩ := Option.map_eq_some_iff.mp hdrive
  obtain ⟨hcode, hlength⟩ := Prod.mk.inj hvalue
  have hr : r = .ok 0 := returned_of_toOption hcode
  rw [hr] at hrun
  refine ⟨t, hrun, run_recorded exampleSettings _ t 0 (exampleWorld_fresh _)
    (runs_of_exampleRun hrun) ?_⟩
  intro hnone
  simp [hnone] at hlength

/-- The agent completes its feature while the other one is blocked: the next
iteration returns from its start, and the run leaves no record. -/
theorem run_unrecorded :
    ∃ t, (runLoop exampleSettings).run.Runs runnerMachine
        (exampleWorld (exampleFile [exampleFeature "F001" false false,
          exampleFeature "F002" false true])) (.ok 2) t ∧
      t.launches ≠ [] ∧ t.summary = none ∧ ¬Recorded t 2 := by
  have hdrive : (exampleRun
      (exampleFile [exampleFeature "F001" false false,
        exampleFeature "F002" false true])
      [exampleFile [exampleFeature "F001" true false,
        exampleFeature "F002" false true]]).map
      (fun p => (p.1.toOption, p.2.launches.length, p.2.summary)) =
        some (some 2, 1, none) := by decide +kernel
  obtain ⟨⟨r, t⟩, hrun, hvalue⟩ := Option.map_eq_some_iff.mp hdrive
  obtain ⟨hcode, hrest⟩ := Prod.mk.inj hvalue
  obtain ⟨hlength, hsummary⟩ := Prod.mk.inj hrest
  have hr : r = .ok 2 := returned_of_toOption hcode
  rw [hr] at hrun
  refine ⟨t, runs_of_exampleRun hrun, ?_, hsummary, ?_⟩
  · intro hnone
    simp [hnone] at hlength
  · rintro ⟨_, summary, -, hsome, -⟩
    cases hsome.symm.trans hsummary

end Hooklane.GoalLoop
