import Hooklane.GoalLoop.Session

/-!
# What a successful exit means

The finalization of an iteration starts no agent, leaves the features file
alone, and returns what `determine_outcome` says.  In strict mode the exit
code 0 is therefore earned: the last agent's feature was recorded as passing,
or there was nothing left to do.
-/

namespace Hooklane.GoalLoop

open Support ProgE Runner

variable {w v t : World}

/-! ## The finalization -/

/-- A call that starts no agent and cannot change the features file. -/
def Op.Files : Op → Prop
  | .wait _ | .effect (.features _) | .popen _ => False
  | _ => True

/-- No agent was started, and the features file was left alone. -/
structure Filed (w t : World) : Prop where
  launches : t.launches = w.launches
  features : t.features = w.features

theorem Filed.refl (w : World) : Filed w w := ⟨rfl, rfl⟩

theorem Filed.trans (h : Filed w v) (h' : Filed v t) : Filed w t where
  launches := h'.launches.trans h.launches
  features := h'.features.trans h.features

theorem filed_of_exec {op : Op} {reply : op.Reply} (hop : op.Files)
    (h : runnerMachine.exec w op reply t) : Filed w t := by
  obtain ⟨v, hv, hanswer⟩ := h
  have hsame := hv.same_touching op
  refine Filed.trans (v := v.touching op) ⟨hsame.launches, hsame.features⟩ ?_
  cases op with
  | readFeatures place =>
      obtain ⟨-, rfl⟩ := hanswer
      cases place <;> exact ⟨rfl, rfl⟩
  | effect action =>
      obtain ⟨-, rfl⟩ | ⟨-, rfl⟩ := hanswer
      · cases action with
        | features => exact hop.elim
        | _ => exact ⟨rfl, rfl⟩
      · exact .refl _
  | popen assignment => exact hop.elim
  | wait seconds => exact hop.elim
  | receivedSignal =>
      obtain ⟨-, rfl⟩ := hanswer
      exact .refl _
  | _ =>
      obtain rfl : t = v.touching _ := hanswer
      exact .refl _

/-- A program of such calls, run after others. -/
theorem Within.filed {α : Type} {E : Raised → Prop} {p : Runner α}
    (h : Within Op.Files E p) (hv : Filed w v) :
    Ends p (fun _ t => Filed w t) (fun _ _ => True) v :=
  (h.alone (fun _ _ _ _ hop hexec hw => hw.trans (filed_of_exec hop hexec))
    hv).ends_mono (fun _ _ h => h) fun _ _ _ => trivial

section Finalization

variable (settings : Settings) (runStartedAt : String)
  (record : IterationRecord)

/-- `determine_outcome` gives the exit code, for some value of the signal. -/
def Determined (code : Option ℤ) : Prop :=
  ∃ signal,
    (determineOutcome settings signal record.seen).runnerExitCode = code

theorem within_writeRunRecord (outcome : IterationOutcome) :
    Within Op.Files Failure
      (writeRunRecord settings runStartedAt record outcome) :=
  (Within.request .utcNow trivial).bind fun _ =>
    (Within.effect (.runMetadata _) trivial).bind fun _ =>
      Within.effect (.summary _) trivial

theorem ends_finalizePass_determined :
    Ends (finalizePass settings runStartedAt record)
      (fun result t => Filed w t ∧
        ∀ code, result = some code → Determined settings record code)
      (fun _ _ => True) w := by
  have hsignal : ∀ {v : World}, Filed w v →
      Ends receivedSignal (fun _ t => Filed w t) (fun _ _ => True) v :=
    (Within.request (E := Failure) .receivedSignal trivial).filed
  refine (hsignal (.refl w)).next fun before w₁ h₁ => ?_
  refine (hsignal h₁).next fun signal w₂ h₂ => ?_
  refine ((Within.effect (.iterationMetadata _ _) trivial).filed h₂).next
    fun _ w₃ h₃ => ?_
  split
  · next hnone =>
    refine (hsignal h₃).next fun after w₄ h₄ => ?_
    split
    · exact alone_pure ⟨h₄, by simp⟩
    · exact alone_pure ⟨h₄, by simpa using ⟨signal, hnone⟩⟩
  · next code hcode =>
    refine ((within_writeRunRecord settings runStartedAt record _).filed
      h₃).next fun _ w₄ h₄ => ?_
    refine (hsignal h₄).next fun after w₅ h₅ => ?_
    split
    · exact alone_pure ⟨h₅, by simp⟩
    · refine ((Within.effect (.print _) trivial).filed h₅).next
        fun _ w₆ h₆ => ?_
      refine (hsignal h₆).next fun last w₇ h₇ => ?_
      split
      · exact alone_pure ⟨h₇, by simp⟩
      · exact alone_pure ⟨h₇, by simpa using ⟨signal, hcode⟩⟩

theorem ends_finalizeIteration_determined (passes : ℕ) :
    ∀ w, Ends (finalizeIteration settings runStartedAt record passes)
      (fun code t => Filed w t ∧ Determined settings record code)
      (fun _ _ => True) w := by
  induction passes with
  | zero => exact fun _ => alone_throw trivial
  | succ passes ih =>
      intro w
      refine (ends_finalizePass_determined settings runStartedAt record).next ?_
      rintro result w₁ ⟨h₁, hresult⟩
      cases result with
      | some code => exact alone_pure ⟨h₁, hresult code rfl⟩
      | none =>
          exact (ih w₁).ends_mono (fun _ _ h => ⟨h₁.trans h.1, h.2⟩)
            fun _ _ h => h

end Finalization

/-! ## The exit code 0 -/

/-- The features file records the feature of the newest agent as passing. -/
def Completed (t : World) : Prop :=
  ∃ launch earlier, t.launches = launch :: earlier ∧
    recordedPassing t.features launch.featureId

theorem number_nonneg (signal : Signal) : 0 ≤ signal.number := by
  cases signal <;> decide

/-- In strict mode the outcome of an iteration is 0 only for a feature that
the agent completed. -/
theorem determineOutcome_success {settings : Settings}
    {receivedSignal : Option Signal} {seen : Observation}
    (hstrict : settings.strictIncomplete = some "1")
    (h : (determineOutcome settings receivedSignal seen).runnerExitCode =
      some 0) :
    seen.processResult.timedOut = false ∧ seen.artifactError = false ∧
      seen.processResult.exitCode = some 0 ∧
      seen.selectedState.passes = some true := by
  cases receivedSignal with
  | some signal =>
      have hnumber := number_nonneg signal
      have hcode := Option.some.inj h
      omega
  | none =>
      simp only [determineOutcome] at h
      split_ifs at h with htime hart hexit hpass <;>
        simp_all [timeoutExitCode]

section Success

variable (settings : Settings) (run : RunStart)

theorem ends_runIteration_success
    (hstrict : settings.strictIncomplete = some "1") (iteration : ℕ)
    (document : Document) (feature : Feature) (attempt : ℕ) :
    Ends (runIteration settings run iteration document feature attempt)
      (fun code t => (code = some 0 → Completed t) ∧
        (code = none → iteration ≠ settings.maxIterations))
      (fun _ _ => True) w := by
  refine ((within_prepareIteration settings run _).same.ends_mono
    (fun _ _ h => h) fun _ _ _ => trivial).next fun _ w₁ _ => ?_
  refine ((ends_runAgent settings _).ends_mono (fun _ _ h => h)
    fun _ _ _ => trivial).next fun result w₂ h₂ => ?_
  refine ((ends_observeIteration settings run iteration document feature
    attempt result).ends_mono (fun _ _ h => h)
    fun _ _ _ => trivial).next fun record w₃ h₃ => ?_
  refine (ends_finalizeIteration_determined settings run.startedAt record 2
    w₃).ends_mono ?_ fun _ _ h => h
  rintro code t ⟨hfiled, signal, hcode⟩
  refine ⟨fun hzero => ?_, fun hnone => ?_⟩
  · subst hzero
    obtain ⟨htime, hartifact, hexit, hpasses⟩ :=
      determineOutcome_success hstrict hcode
    rw [h₃.processResult] at htime hexit
    obtain hran | ⟨-, hmissing, -⟩ := h₂
    · have hlaunches := hfiled.launches.trans
        (h₃.kept.launches.trans hran.launches)
      refine ⟨_, _, hlaunches, ?_⟩
      rw [hfiled.features]
      exact h₃.passes htime hartifact hpasses
    · rw [hmissing] at hexit
      cases hexit
  · subst hnone
    obtain ⟨-, -, -, -, hfinal, -⟩ := determineOutcome_continues hcode
    rw [h₃.finalIteration] at hfinal
    exact of_decide_eq_false hfinal

/-- Nothing is left to do, or the newest agent has completed its feature. -/
def Succeeded (t : World) : Prop :=
  Completed t ∨ Idle t.features 0

theorem ends_iterate_success (hstrict : settings.strictIncomplete = some "1")
    (left : ℕ) :
    ∀ (iteration : ℕ) (attempts : Counter String) (w : World),
      iteration + left = settings.maxIterations + 1 →
      iteration ≤ settings.maxIterations →
      Ends (iterate settings run left iteration attempts)
        (fun code t => code = 0 → Succeeded t) (fun _ _ => True) w := by
  induction left with
  | zero => intros; omega
  | succ left ih =>
      intro iteration attempts w hcount hle
      refine ends_iterate_succ settings run (fun _ _ _ _ => trivial) ?_ ?_
      · rintro code t hopens hidle rfl
        rw [← hopens.features] at hidle
        exact .inr hidle
      · intro document feature w₁ _ _
        refine (ends_runIteration_success settings run hstrict iteration
          document feature _).next ?_
        rintro code w₂ ⟨hzero, hnone⟩
        cases code with
        | none =>
            have hlast := hnone rfl
            exact ih _ _ w₂ (by omega) (by omega)
        | some code =>
            refine alone_pure fun h => ?_
            rw [h] at hzero
            exact .inl (hzero rfl)

/-- In strict mode a run of the runner that exits with 0 has earned it: the
features file, as the run leaves it, records the feature of its last agent as
passing, or it has features that all pass, or no features. -/
theorem success_earned (w t : World)
    (hstrict : settings.strictIncomplete = some "1")
    (hrun : (main settings .run).run.Runs runnerMachine w (.ok 0) t) :
    Completed t ∨ ∃ document, loadContents t.features = .ok document ∧
      (document.allFeaturesPass = true ∨ document.features = []) := by
  have hends : Ends (main settings .run)
      (fun code t => code = 0 → Succeeded t) (fun _ _ => True) w := by
    refine ends_main settings (fun _ _ h => absurd h (by decide))
      (fun _ _ _ _ => trivial) fun w₁ _ => ?_
    have hloop : Ends (runLoop settings)
        (fun code t => code = 0 → Succeeded t) (fun _ _ => True) w₁ := by
      refine ends_runLoop settings (fun _ _ _ _ => trivial) ?_ ?_
      · rintro code t hsame hidle rfl
        rw [← hsame.features] at hidle
        exact .inr hidle
      · intro run w₂ _
        exact ends_iterate_success settings run hstrict _ 1 ∅ w₂
          (Nat.add_comm 1 _) settings.iterations_pos
    -- After a failure the exit code is 3.
    exact hloop.ends_mono (fun _ _ h => h) fun e t _ =>
      ⟨fun _ => trivial, fun _ t' _ =>
        ⟨fun h => absurd h (by decide), fun _ _ => trivial⟩⟩
  obtain hcompleted | ⟨document, hload, -, hdone⟩ :=
    Prog.Alone.of_runs hends hrun rfl
  · exact .inl hcompleted
  · exact .inr ⟨document, hload, hdone rfl⟩

end Success

/-- A strict run whose agent completes the only feature. -/
theorem success_earned_example :
    ∃ t, (main { exampleSettings with strictIncomplete := some "1" }
        .run).run.Runs runnerMachine
        (exampleWorld (exampleFile [exampleFeature "F001" false false]))
        (.ok 0) t ∧
      (Completed t ∨ ∃ document, loadContents t.features = .ok document ∧
        (document.allFeaturesPass = true ∨ document.features = [])) := by
  have hdrive : (exampleOracle.drive
      [exampleFile [exampleFeature "F001" true false]]
      (main { exampleSettings with strictIncomplete := some "1" } .run).run
      (exampleWorld (exampleFile [exampleFeature "F001" false false]))).map
      (fun p => p.1.toOption) = some (some 0) := by decide +kernel
  obtain ⟨⟨r, t⟩, hrun, hcode⟩ := Option.map_eq_some_iff.mp hdrive
  have hr : r = .ok 0 := returned_of_toOption hcode
  subst hr
  have hruns := Oracle.runs_of_drive hrun
  exact ⟨t, hruns, success_earned _ _ t rfl hruns⟩

end Hooklane.GoalLoop
