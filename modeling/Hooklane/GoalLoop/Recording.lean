import Hooklane.GoalLoop.Iteration

/-!
# The record of a run

`finalize_iteration` writes the record of the run exactly when it returns an
exit code, and what it wrote last records that code, although a signal may
arrive between any two of its steps.  At most one signal is kept, so its loop
is left in the second pass at the latest.
-/

namespace Hooklane.GoalLoop

open Support ProgE Runner

/-- Both files of the run record the exit code. -/
def Recorded (w : World) (code : ℤ) : Prop :=
  ∃ metadata summary, w.runMetadata = some metadata ∧
    w.summary = some summary ∧ MetadataRecords metadata code ∧
    SummaryRecords summary code

variable {w v t : World}

theorem Kept.recorded {code : ℤ} (h : Kept v t) (hv : Recorded v code) :
    Recorded t code := by
  obtain ⟨metadata, summary, hmetadata, hsummary, hboth⟩ := hv
  exact ⟨metadata, summary, h.runMetadata.trans hmetadata,
    h.summary.trans hsummary, hboth⟩

/-- A signal that was not there before has come in between. -/
theorem Steady.signal_changed (h : Steady v t) (hne : t.signal ≠ v.signal) :
    v.signal = none ∧ t.signal ≠ none := by
  cases hv : v.signal with
  | none => exact ⟨rfl, fun ht => hne (ht.trans hv.symm)⟩
  | some signal => exact absurd ((h.signal signal hv).trans hv.symm) hne

theorem Steady.signal_none (h : Steady w v) (hv : v.signal = none) :
    w.signal = none := by
  cases hw : w.signal with
  | none => rfl
  | some signal =>
      rw [h.signal signal hw] at hv
      cases hv

theorem ends_receivedSignal :
    Ends receivedSignal (fun signal t => Same w t ∧ t.signal = signal)
      (fun _ _ => False) w := by
  refine alone_perform ?_
  rintro reply t ⟨v, hv, rfl, rfl⟩
  exact ⟨hv.same, rfl⟩

/-- An action takes effect, or the world stays as it was. -/
theorem ends_effect (action : Effect) :
    Ends (Runner.effect action)
      (fun _ t => ∃ v, Same w v ∧ t = v.write action)
      (fun e t => Failure e ∧ Same w t) w := by
  refine Alone.next (P := fun reply t =>
    reply = none ∧ (∃ v, Same w v ∧ t = v.write action) ∨
    reply ≠ none ∧ Same w t) (alone_perform ?_) ?_
  · rintro reply t ⟨v, hv, ⟨hreply, rfl⟩ | ⟨hreply, rfl⟩⟩
    · exact .inl ⟨hreply, _, hv.same_touching _, rfl⟩
    · exact .inr ⟨hreply, hv.same_touching _⟩
  · intro reply w₁ h₁
    cases reply with
    | none =>
        obtain ⟨-, h⟩ | ⟨h, -⟩ := h₁
        · exact alone_pure h
        · exact absurd rfl h
    | some message =>
        obtain ⟨h, -⟩ | ⟨-, h⟩ := h₁
        · cases h
        · exact alone_throw ⟨by simp [Failure], h⟩

section Finalization

variable (settings : Settings) (runStartedAt : String)
  (record : IterationRecord)

/-- How a pass ends: it is repeated for a signal that arrived meanwhile, or
it leaves the run open, or it has recorded the exit code. -/
def PassEnds (w : World) : Option (Option ℤ) → World → Prop
  | none, t => Steady w t ∧ w.signal = none ∧ t.signal ≠ none
  | some none, t => Same w t ∧ w.signal = none ∧
      (determineOutcome settings none record.seen).runnerExitCode = none
  | some (some code), t => Steady w t ∧ Recorded t code

theorem ends_writeRunRecord {outcome : IterationOutcome} {code : ℤ}
    (hcode : outcome.runnerExitCode = some code) :
    Ends (writeRunRecord settings runStartedAt record outcome)
      (fun _ t => Steady w t ∧ Recorded t code)
      (fun e t => Failure e ∧ Steady w t) w := by
  refine ((Within.request .utcNow trivial).same.ends_mono (fun _ _ h => h)
    fun _ _ h => ⟨h.1, h.2.toSteady⟩).next ?_
  intro endedAt w₁ h₁
  refine ((ends_effect _).ends_mono (fun _ _ h => h)
    fun _ _ h => ⟨h.1, (h₁.trans h.2).toSteady⟩).next ?_
  rintro - w₂ ⟨v, hv, rfl⟩
  have hfirst : Steady w (v.write (.runMetadata (.obj (runMetadata
      (iterationMetadata settings record outcome) runStartedAt endedAt)))) :=
    h₁.toSteady.trans ⟨hv.launches, hv.opened, hv.signal⟩
  refine (ends_effect _).ends_mono ?_ ?_
  · rintro - t ⟨v', hv', rfl⟩
    refine ⟨hfirst.trans ⟨hv'.launches, hv'.opened, hv'.signal⟩, ?_⟩
    exact ⟨_, _, hv'.runMetadata, rfl, metadataRecords_runMetadata hcode _ _,
      summaryRecords_terminalSummary hcode _ _ _⟩
  · exact fun e t h => ⟨h.1, hfirst.trans h.2.toSteady⟩

theorem ends_finalizePass :
    Ends (finalizePass settings runStartedAt record)
      (PassEnds settings record w)
      (fun e t => Failure e ∧ Steady w t) w := by
  refine (ends_receivedSignal.ends_mono (fun _ _ h => h)
    fun _ _ h => h.elim).next ?_
  rintro _ w₁ ⟨h₁, rfl⟩
  refine (ends_receivedSignal.ends_mono (fun _ _ h => h)
    fun _ _ h => h.elim).next ?_
  rintro _ w₂ ⟨h₂, rfl⟩
  refine ((Within.effect (.iterationMetadata _ _) trivial).same.ends_mono
    (fun _ _ h => h)
    fun _ _ h => ⟨h.1, ((h₁.trans h₂).trans h.2).toSteady⟩).next ?_
  intro _ w₃ h₃
  have hsame := (h₁.trans h₂).trans h₃
  -- A signal that a later test finds has arrived since the pass began.
  have hchanged : ∀ {t : World}, Steady w₃ t → t.signal ≠ w₁.signal →
      PassEnds settings record w none t := by
    intro t h hne
    have hall := ((h₂.trans h₃).toSteady.trans h)
    obtain ⟨hnone, hsome⟩ := hall.signal_changed hne
    exact ⟨h₁.toSteady.trans hall, h₁.toSteady.signal_none hnone, hsome⟩
  split
  · next hnone =>
    refine (ends_receivedSignal.ends_mono (fun _ _ h => h)
      fun _ _ h => h.elim).next ?_
    rintro _ w₄ ⟨h₄, rfl⟩
    split
    · next hne => exact alone_pure (hchanged h₄.toSteady hne)
    · obtain ⟨hsignal, -⟩ := determineOutcome_continues hnone
      rw [hsignal] at hnone
      exact alone_pure ⟨hsame.trans h₄,
        (h₁.trans h₂).toSteady.signal_none hsignal, hnone⟩
  · next code hcode =>
    refine ((ends_writeRunRecord settings runStartedAt record
      hcode).ends_mono (fun _ _ h => h)
      fun _ _ h => ⟨h.1, hsame.toSteady.trans h.2⟩).next ?_
    rintro _ w₄ ⟨h₄, hrecorded⟩
    refine (ends_receivedSignal.ends_mono (fun _ _ h => h)
      fun _ _ h => h.elim).next ?_
    rintro _ w₅ ⟨h₅, rfl⟩
    have hsteady := h₄.trans h₅.toSteady
    split
    · next hne => exact alone_pure (hchanged hsteady hne)
    · refine ((Within.effect (.print _) trivial).same.ends_mono
        (fun _ _ h => h) fun _ _ h =>
          ⟨h.1, hsame.toSteady.trans (hsteady.trans h.2.toSteady)⟩).next ?_
      intro _ w₆ h₆
      refine (ends_receivedSignal.ends_mono (fun _ _ h => h)
        fun _ _ h => h.elim).next ?_
      rintro _ w₇ ⟨h₇, rfl⟩
      have hlast := h₆.trans h₇
      split
      · next hne =>
        exact alone_pure (hchanged (hsteady.trans hlast.toSteady) hne)
      · exact alone_pure
          ⟨hsame.toSteady.trans (hsteady.trans hlast.toSteady),
            (h₅.trans hlast).toKept.recorded hrecorded⟩

/-- How the finalization ends: it leaves the run open, or it has recorded the
exit code. -/
def FinalizationEnds (w : World) : Option ℤ → World → Prop
  | none, t => Same w t ∧
      (determineOutcome settings none record.seen).runnerExitCode = none
  | some code, t => Steady w t ∧ Recorded t code

/-- A second pass starts with a signal, so there is no third one. -/
theorem ends_finalizeIteration :
    Ends (finalizeIteration settings runStartedAt record 2)
      (FinalizationEnds settings record w)
      (fun e t => Failure e ∧ Steady w t) w := by
  refine (ends_finalizePass settings runStartedAt record).next ?_
  intro first w₁ h₁
  cases first with
  | some code =>
      cases code with
      | none => exact alone_pure ⟨h₁.1, h₁.2.2⟩
      | some code => exact alone_pure h₁
  | none =>
      obtain ⟨hsteady, -, hsignal⟩ := h₁
      refine ((ends_finalizePass settings runStartedAt record).ends_mono
        (fun _ _ h => h) fun _ _ h => ⟨h.1, hsteady.trans h.2⟩).next ?_
      intro second w₂ h₂
      cases second with
      | none => exact absurd h₂.2.1 hsignal
      | some code =>
          cases code with
          | none => exact absurd h₂.2.1 hsignal
          | some code => exact alone_pure ⟨hsteady.trans h₂.1, h₂.2⟩

end Finalization

/-! ## The whole iteration -/

section Iteration

variable (settings : Settings) (run : RunStart) (iteration : ℕ)
  (document : Document) (feature : Feature) (attempt : ℕ)

/-- How an iteration ends.  It goes on only after its agent ran, and then the
features file records the feature as passing or attempts are left. -/
def IterationEnds (w : World) : Option ℤ → World → Prop
  | none, t => Kept (w.launch feature.id) t ∧
      iteration ≠ settings.maxIterations ∧
      (recordedPassing t.features feature.id ∨
        attempt < settings.maxAttemptsPerFeature)
  | some code, t => (Steady (w.launch feature.id) t ∨ Steady w t) ∧
      Recorded t code

theorem within_prepareIteration (assignment : Assignment) :
    Within Op.Quiet Failure (prepareIteration settings run assignment) := by
  refine (Within.effect _ trivial).bind fun _ => ?_
  refine (Within.effect _ trivial).bind fun _ => ?_
  refine (Within.effect _ trivial).bind fun _ => ?_
  exact Within.effect _ trivial

theorem ends_runIteration :
    Ends (runIteration settings run iteration document feature attempt)
      (IterationEnds settings iteration feature attempt w)
      (fun e t => Failure e ∧ (Steady (w.launch feature.id) t ∨ Steady w t))
      w := by
  refine ((within_prepareIteration settings run _).same.ends_mono
    (fun _ _ h => h) fun _ _ h => ⟨h.1, .inr h.2.toSteady⟩).next ?_
  intro _ w₁ h₁
  have hstart : ∀ {t : World}, Kept (w₁.launch feature.id) t ∨ Kept w₁ t →
      Kept (w.launch feature.id) t ∨ Kept w t := by
    rintro t (h | h)
    · exact .inl ((h₁.launch _).trans h)
    · exact .inr (h₁.toKept.trans h)
  refine ((ends_runAgent settings _).ends_mono (fun _ _ h => h)
    fun _ _ h => ⟨h.1, (hstart h.2).imp Kept.toSteady Kept.toSteady⟩).next ?_
  intro result w₂ h₂
  refine ((ends_observeIteration settings run iteration document feature
    attempt result).ends_mono (fun _ _ h => h) fun _ _ h =>
      ⟨h.1, (hstart (h₂.kept h.2)).imp Kept.toSteady Kept.toSteady⟩).next ?_
  intro record w₃ h₃
  have hagent := hstart (h₂.kept h₃.kept)
  have hsteady : ∀ {t : World}, Steady w₃ t →
      Steady (w.launch feature.id) t ∨ Steady w t := fun h =>
    hagent.imp (fun hkept => hkept.toSteady.trans h)
      fun hkept => hkept.toSteady.trans h
  refine (ends_finalizeIteration settings run.startedAt record).ends_mono ?_
    fun _ _ h => ⟨h.1, hsteady h.2⟩
  intro code t h
  cases code with
  | some code => exact ⟨hsteady h.1, h.2⟩
  | none =>
      obtain ⟨hsame, houtcome⟩ := h
      obtain ⟨-, htimeout, herror, hexit, hfinal, hgoesOn⟩ :=
        determineOutcome_continues houtcome
      rw [h₃.processResult] at htimeout hexit
      have hran : Kept (w.launch feature.id) w₃ := by
        obtain h | ⟨-, hmissing, -⟩ := h₂
        · exact (h₁.launch _).trans (h.trans h₃.kept)
        · rw [hmissing] at hexit
          cases hexit
      refine ⟨hran.trans hsame.toKept, ?_, ?_⟩
      · rw [h₃.finalIteration] at hfinal
        exact of_decide_eq_false hfinal
      · rw [hsame.features, ← h₃.attempt]
        exact hgoesOn.imp_left (h₃.passes htimeout herror)

end Iteration

end Hooklane.GoalLoop
