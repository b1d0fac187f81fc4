import Hooklane.GoalLoop.Guarantees

/-!
# Sessions of the runner

What `main` adds to the loop: its guards, the two modes that only look at the
features file, and the exit code after a failure.
-/

namespace Hooklane.GoalLoop

open Support ProgE Runner

variable {w t : World}

section Modes

variable (settings : Settings)

theorem within_printStatus (document : Document) :
    Within Op.Inspects Failure (printStatus document) :=
  (Within.effect _ trivial).bind fun _ => Within.effect _ trivial

/-- The handler of `main` prints and returns 3. -/
theorem ends_reportFailure (message : String) :
    Ends (do
      effect (.printError s!"[artifact-error] {message}\n")
      effect (.printError "[runner-exit] 3\n")
      return (3 : ℤ))
      (fun code t => code = 3 ∧ w.Signalled t)
      (fun e t => Failure e ∧ w.Signalled t) w := by
  refine ((Within.effect (.printError _) trivial).signalled .none).next
    fun _ w₁ h₁ => ?_
  refine ((Within.effect (.printError _) trivial).signalled h₁).next
    fun _ w₂ h₂ => ?_
  exact alone_pure ⟨rfl, h₂⟩

/-- An inspection reads the features and prints. -/
theorem callsOnly_perform_inspection {mode : Mode} (hmode : mode ≠ .run) :
    CallsOnly Op.Inspects (perform settings mode) := by
  have hread : CallsOnly Op.Inspects (readFeatures .initial) := by
    refine callsOnly_bind (callsOnly_perform trivial) fun contents => ?_
    cases loadContents contents with
    | ok document => exact callsOnly_pure document
    | error e => exact callsOnly_throw e
  cases mode with
  | run => exact absurd rfl hmode
  | status =>
      refine callsOnly_bind hread fun document => ?_
      exact callsOnly_bind (within_printStatus document).calls fun _ =>
        callsOnly_pure 0
  | dryRun =>
      refine callsOnly_bind hread fun document => ?_
      refine callsOnly_bind (within_printStatus document).calls fun _ => ?_
      exact callsOnly_bind (Within.effect (.print _) trivial).calls fun _ =>
        callsOnly_pure 0

/-- An inspection ends with 0 only on well formed features. -/
theorem ends_perform_inspection {mode : Mode} (hmode : mode ≠ .run) :
    Ends (perform settings mode)
      (fun code t => w.Signalled t ∧ code = 0 ∧
        ∃ document, loadContents w.features = .ok document)
      (fun e t => Failure e ∧ w.Signalled t) w := by
  cases mode with
  | run => exact absurd rfl hmode
  | status =>
      refine ends_readFeatures_initial.next ?_
      rintro document w₁ ⟨h₁, hload⟩
      refine ((within_printStatus document).signalled h₁).next ?_
      intro _ w₂ h₂
      exact alone_pure ⟨h₂, rfl, document, hload⟩
  | dryRun =>
      refine ends_readFeatures_initial.next ?_
      rintro document w₁ ⟨h₁, hload⟩
      refine ((within_printStatus document).signalled h₁).next ?_
      intro _ w₂ h₂
      refine ((Within.effect (.print _) trivial).signalled h₂).next ?_
      intro _ w₃ h₃
      exact alone_pure ⟨h₃, rfl, document, hload⟩

/-- The rule of `main`: a refusal before anything was read, or the guarded
part, whose failures are reported. -/
theorem ends_main {mode : Mode} {Q : ℤ → World → Prop}
    {R : Raised → World → Prop}
    (hrefuse : ∀ t, w.Signalled t → Q 66 t)
    (hraise : ∀ e t, Failure e → w.Signalled t → R e t)
    (hguarded : ∀ w₁, w.Signalled w₁ →
      Ends (perform settings mode) Q
        (fun e t => (e = .unfinished → R e t) ∧ (Failure e → ∀ t',
          t.Signalled t' → Q 3 t' ∧ ∀ e', Failure e' → R e' t')) w₁) :
    Ends (main settings mode) Q R w := by
  have hrefused : ∀ {w₁ : World} (text : String), w.Signalled w₁ →
      Ends (do effect (.printError text); return (66 : ℤ)) Q R w₁ := by
    intro w₁ text h₁
    refine (((Within.effect (.printError text) trivial).signalled
      h₁).ends_mono (fun _ _ h => h) fun e t h => hraise e t h.1 h.2).next ?_
    exact fun _ t h => alone_pure (hrefuse t h)
  have hasked : ∀ {w₁ : World} (path : String), w.Signalled w₁ →
      Ends (request (.isFile path)) (fun _ t => w.Signalled t) R w₁ :=
    fun path h₁ => ((Within.request (.isFile path) trivial).signalled
      h₁).ends_mono (fun _ _ h => h) fun e t h => hraise e t h.1 h.2
  refine (hasked "PROMPT.md" .none).next ?_
  intro prompt w₁ h₁
  cases prompt with
  | false => exact hrefused _ h₁
  | true =>
      refine (hasked "docs/features.json" h₁).next ?_
      intro features w₂ h₂
      cases features with
      | false => exact hrefused _ h₂
      | true =>
          refine (hguarded w₂ h₂).tryCatch (fun _ _ h => h) ?_
          rintro e t ⟨hunfinished, hreported⟩
          by_cases he : e = .unfinished
          · subst he
            exact alone_throw (hunfinished rfl)
          · cases e with
            | unfinished => exact absurd rfl he
            | _ =>
                refine (ends_reportFailure _).ends_mono ?_ ?_
                · rintro _ t' ⟨rfl, h⟩
                  exact (hreported he t' h).1
                · exact fun e' t' h => (hreported he t' h.2).2 e' h.1

/-- Unless it is asked for a run, so does all of `main`. -/
theorem callsOnly_main_inspection {mode : Mode} (hmode : mode ≠ .run) :
    CallsOnly Op.Inspects (main settings mode) := by
  have hprints : ∀ text : String,
      CallsOnly Op.Inspects (effect (.printError text)) :=
    fun text => (Within.effect (.printError text) trivial).calls
  refine callsOnly_bind (callsOnly_perform trivial) fun prompt => ?_
  cases prompt with
  | false => exact callsOnly_bind (hprints _) fun _ => callsOnly_pure 66
  | true =>
      refine callsOnly_bind (callsOnly_perform trivial) fun features => ?_
      cases features with
      | false => exact callsOnly_bind (hprints _) fun _ => callsOnly_pure 66
      | true =>
          refine callsOnly_tryCatch
            (callsOnly_perform_inspection settings hmode) fun e => ?_
          cases e with
          | unfinished => exact callsOnly_throw _
          | _ =>
              refine callsOnly_bind (hprints _) fun _ => ?_
              exact callsOnly_bind (hprints _) fun _ => callsOnly_pure 3

/-- Without a run, the features file alone decides whether `main` can succeed,
and nothing is changed. -/
theorem ends_main_inspection {mode : Mode} (hmode : mode ≠ .run) :
    Ends (main settings mode)
      (fun code t => w.Signalled t ∧ (code = 0 ∧
        (∃ document, loadContents w.features = .ok document) ∨
        code = 3 ∨ code = 66))
      (fun e t => Failure e ∧ w.Signalled t) w := by
  refine ends_main settings (fun t h => ⟨h, .inr (.inr rfl)⟩)
    (fun e t he h => ⟨he, h⟩) ?_
  intro w₁ h₁
  refine (ends_perform_inspection settings hmode).ends_mono ?_ ?_
  · rintro code t ⟨h, rfl, hload⟩
    rw [h₁.same.features] at hload
    exact ⟨h₁.trans h, .inl ⟨rfl, hload⟩⟩
  · rintro e t ⟨he, h⟩
    refine ⟨fun hunfinished => absurd hunfinished he, fun _ t' h' => ?_⟩
    have ht' := h₁.trans (h.trans h')
    exact ⟨⟨ht', .inr (.inl rfl)⟩, fun e' he' => ⟨he', ht'⟩⟩

/-- A session is a run or less. -/
theorem ends_main_bounded (mode : Mode) (hfresh : w.Fresh) :
    Ends (main settings mode) (fun _ t => Bounded settings t)
      (fun e t => Failure e ∧ Bounded settings t) w := by
  have hnone : ∀ {t : World}, w.Signalled t → t.launches = [] := fun h =>
    h.same.launches.trans hfresh.launches
  have hbounded : ∀ {t : World}, w.Signalled t → Bounded settings t :=
    fun h => ⟨hnone h ▸ trivial, by simp [hnone h]⟩
  refine ends_main settings (fun t h => hbounded h)
    (fun e t he h => ⟨he, hbounded h⟩) ?_
  intro w₁ h₁
  -- A report after the failure starts no agent.
  have hreported : ∀ {e : Raised} {t : World}, Failure e →
      Bounded settings t →
      (e = .unfinished → Failure e ∧ Bounded settings t) ∧
      (Failure e → ∀ t', t.Signalled t' → Bounded settings t' ∧
        ∀ e', Failure e' → Failure e' ∧ Bounded settings t') := by
    intro e t he ht
    refine ⟨fun hunfinished => absurd hunfinished he, fun _ t' h => ?_⟩
    have ht' : Bounded settings t' := ht.congr settings h.same.launches
    exact ⟨ht', fun e' he' => ⟨he', ht'⟩⟩
  by_cases hmode : mode = .run
  · subst hmode
    exact (ends_runLoop_bounded settings (hnone h₁)).ends_mono
      (fun _ _ h => h) fun e t h => hreported h.1 h.2
  · refine (ends_perform_inspection settings hmode).ends_mono ?_ ?_
    · exact fun code t h => hbounded (h₁.trans h.1)
    · exact fun e t h => hreported h.1 (hbounded (h₁.trans h.2))

end Modes

/-! ## After a timeout -/

/-- What is left of a document where the claim of one feature was withdrawn:
the feature does not pass, and nothing else has changed. -/
structure Withdrawn (document : Document) (featureId : String)
    (selected : Option Feature) (updated : Document) : Prop where
  found : updated.featureById featureId = selected
  passes : ∀ feature, selected = some feature → feature.passes = false
  blocked : selected.map Feature.blocked =
    (document.featureById featureId).map Feature.blocked
  others : ∀ other, other ≠ featureId →
    updated.featureById other = document.featureById other

theorem withdrawn_update {document : Document} {featureId : String}
    {feature : Feature} (h : document.featureById featureId = some feature) :
    Withdrawn document featureId (some feature.withdrawn)
      (document.update feature.withdrawn) := by
  have hid : feature.id = featureId := document.featureById_id h
  subst hid
  constructor
  · exact document.featureById_update h
  · rintro _ ⟨⟩
    exact feature.withdrawn_passes
  · rw [h]
    simp
  · exact fun other hother => document.featureById_update_ne _ hother

/-- The features file is written only where the feature claims something. -/
theorem ends_keepTimedOutFeaturePending {document : Document}
    (hload : loadContents w.features = .ok document) (featureId : String) :
    Ends (keepTimedOutFeaturePending document featureId)
      (fun kept t => loadContents t.features = .ok kept.2 ∧
        Withdrawn document featureId kept.1 kept.2)
      (fun e t => Failure e ∧ Same w t) w := by
  unfold keepTimedOutFeaturePending
  split
  · next hnone =>
    refine alone_pure ⟨hload, hnone, ?_, by rw [hnone], fun _ _ => rfl⟩
    intro feature h
    cases h
  · next feature hsome =>
    split
    · refine (ends_effect _).next ?_
      rintro _ _ ⟨v, hv, rfl⟩
      refine alone_pure ⟨?_, withdrawn_update hsome⟩
      simp [World.write, loadContents, Document.loadFeatureDocument_toJson]
    · next hclaimed =>
      refine alone_pure ⟨hload, hsome, ?_, by rw [hsome], fun _ _ => rfl⟩
      rintro _ ⟨⟩
      have hnot : feature.passes = false ∧
          isPresent (feature.fields.lookup "verified_at") = false := by
        simpa [Feature.claimed] using hclaimed
      exact hnot.1

/-- Keeping the feature of a timed out agent pending leaves a features file
that does not record it as passing, and changes no other feature. -/
theorem timeout_withdraws (document updated : Document) (featureId : String)
    (selected : Option Feature) (w t : World)
    (hload : loadContents w.features = .ok document)
    (hrun : (keepTimedOutFeaturePending document featureId).run.Runs
      runnerMachine w (.ok (selected, updated)) t) :
    loadContents t.features = .ok updated ∧
      recordedPassing t.features featureId = false ∧
      Withdrawn document featureId selected updated := by
  obtain ⟨hupdated, hwithdrawn⟩ := Prog.Alone.of_runs
    (ends_keepTimedOutFeaturePending hload featureId) hrun
  refine ⟨hupdated, ?_, hwithdrawn⟩
  rw [recordedPassing, hupdated]
  dsimp only
  rw [hwithdrawn.found]
  cases selected with
  | none => rfl
  | some feature => simp [featureState, hwithdrawn.passes feature rfl]

/-- The agent had recorded its feature as passing. -/
theorem timeout_withdraws_example :
    ∃ document selected updated t,
      loadContents (twoFeatures true false) = .ok document ∧
      recordedPassing (twoFeatures true false) "F001" = true ∧
      loadContents (World.features t) = .ok updated ∧
      recordedPassing (World.features t) "F001" = false ∧
      Withdrawn document "F001" selected updated := by
  have hdrive : ((loadContents (twoFeatures true false)).toOption.bind
      fun document => (exampleOracle.drive []
        (keepTimedOutFeaturePending document "F001").run
        (exampleWorld (twoFeatures true false))).bind fun p =>
          p.1.toOption.map fun q => q.1.isSome) = some true := by
    decide +kernel
  obtain ⟨document, hdocument, hrest⟩ := Option.bind_eq_some_iff.mp hdrive
  obtain ⟨⟨r, t⟩, hrun, hvalue⟩ := Option.bind_eq_some_iff.mp hrest
  obtain ⟨⟨selected, updated⟩, hkept, -⟩ := Option.map_eq_some_iff.mp hvalue
  have hload := returned_of_toOption hdocument
  have hr : r = .ok (selected, updated) := returned_of_toOption hkept
  subst hr
  obtain ⟨hupdated, hpasses, hwithdrawn⟩ := timeout_withdraws document updated
    "F001" selected (exampleWorld (twoFeatures true false)) t hload
    (Oracle.runs_of_drive hrun)
  exact ⟨document, selected, updated, t, hload, by decide +kernel, hupdated,
    hpasses, hwithdrawn⟩

/-! ## The guarantees of a session -/

/-- Asked for its status or for a dry run, `main` starts no agent and acts on
no file, whatever it is answered: it asks for two files, reads the features and
prints.  So the world stays as it was, but for a signal; and `main` succeeds
only on a well formed features file, and otherwise returns 3, or 66 where a
file is missing. -/
theorem inspection_harmless (settings : Settings) (mode : Mode)
    (hmode : mode ≠ .run) :
    (main settings mode).run.CallsOnly Op.Inspects ∧
    ∀ (w t : World) (r : Except Raised ℤ),
      (main settings mode).run.Runs runnerMachine w r t →
      w.Signalled t ∧ t.touched = w.touched ∧ ∀ code, r = .ok code →
        code = 0 ∧ (∃ document, loadContents w.features = .ok document) ∨
        code = 3 ∨ code = 66 := by
  refine ⟨(callsOnly_main_inspection settings hmode).run, ?_⟩
  intro w t r hrun
  have hends := Prog.Alone.of_runs (ends_main_inspection settings hmode) hrun
  cases r with
  | ok code =>
      refine ⟨hends.1, hends.1.touched, fun other hother => ?_⟩
      obtain rfl := Except.ok.inj hother
      exact hends.2
  | error e =>
      refine ⟨hends.2, hends.2.touched, fun code hcode => ?_⟩
      cases hcode

/-- What is selected neither passes nor is blocked. -/
theorem exists_of_selectedIn {contents : Contents} {featureId : String}
    (h : selectedIn contents = some featureId) :
    ∃ document feature, loadContents contents = .ok document ∧
      document.pendingFeature = some feature ∧ feature.id = featureId ∧
      feature.passes = false ∧ feature.blocked = false := by
  unfold selectedIn at h
  split at h
  · next document hload =>
    obtain ⟨feature, hpending, hid⟩ := Option.map_eq_some_iff.mp h
    exact ⟨document, feature, hload, hpending, hid,
      document.pendingFeature_selectable hpending⟩
  · cases h

theorem Paced.selected {limit : ℕ} {launches : List Launch}
    (h : Paced limit launches) {launch : Launch} (hmem : launch ∈ launches) :
    selectedIn launch.given = some launch.featureId := by
  induction launches with
  | nil => cases hmem
  | cons newest earlier ih =>
      obtain ⟨hnewest, -, hearlier⟩ := h
      obtain rfl | hmem := List.mem_cons.mp hmem
      · exact hnewest
      · exact ih hearlier hmem

/-- A session is never cut off inside its loops, starts at most the given
number of agents, and each of them on the first feature of the features file
that neither passes nor is blocked. -/
theorem agents_selected (settings : Settings) (mode : Mode) (w t : World)
    (r : Except Raised ℤ) (hfresh : w.Fresh)
    (hrun : (main settings mode).run.Runs runnerMachine w r t) :
    r ≠ .error .unfinished ∧
    t.launches.length ≤ settings.maxIterations ∧
    ∀ launch ∈ t.launches, ∃ document feature,
      loadContents launch.given = .ok document ∧
      document.pendingFeature = some feature ∧
      feature.id = launch.featureId ∧
      feature.passes = false ∧ feature.blocked = false := by
  have hends := Prog.Alone.of_runs (ends_main_bounded settings mode hfresh) hrun
  have hbounded : r ≠ .error .unfinished ∧ Bounded settings t := by
    cases r with
    | ok code => exact ⟨by simp, hends⟩
    | error e => exact ⟨fun h => hends.1 (Except.error.inj h), hends.2⟩
  refine ⟨hbounded.1, hbounded.2.length, fun launch hmem => ?_⟩
  exact exists_of_selectedIn (hbounded.2.paced.selected hmem)

/-- A dry run over two features. -/
theorem inspection_harmless_example :
    ∃ t, (main exampleSettings .dryRun).run.Runs runnerMachine
        (exampleWorld (twoFeatures false false)) (.ok 0) t ∧
      (exampleWorld (twoFeatures false false)).Signalled t ∧
      World.touched t = [] := by
  have hdrive : (exampleOracle.drive [] (main exampleSettings .dryRun).run
      (exampleWorld (twoFeatures false false))).map
      (fun p => p.1.toOption) = some (some 0) := by decide +kernel
  obtain ⟨⟨r, t⟩, hrun, hcode⟩ := Option.map_eq_some_iff.mp hdrive
  have hr : r = .ok 0 := returned_of_toOption hcode
  subst hr
  have hruns := Oracle.runs_of_drive hrun
  obtain ⟨-, hharmless⟩ :=
    inspection_harmless exampleSettings .dryRun (by decide)
  obtain ⟨hsignalled, htouched, -⟩ := hharmless _ t (.ok 0) hruns
  exact ⟨t, hruns, hsignalled, htouched⟩

/-- A session that completes two features. -/
theorem agents_selected_example :
    ∃ r t, (main exampleSettings .run).run.Runs runnerMachine
        (exampleWorld (twoFeatures false false)) r t ∧
      t.launches.length = 2 ∧ ∀ launch ∈ t.launches, ∃ document feature,
        loadContents launch.given = .ok document ∧
        document.pendingFeature = some feature ∧
        feature.id = launch.featureId ∧
        feature.passes = false ∧ feature.blocked = false := by
  have hdrive : (exampleOracle.drive
      [twoFeatures true false, twoFeatures true true]
      (main exampleSettings .run).run
      (exampleWorld (twoFeatures false false))).map
        (fun p => p.2.launches.length) = some 2 := by decide +kernel
  obtain ⟨⟨r, t⟩, hrun, hlength⟩ := Option.map_eq_some_iff.mp hdrive
  have hruns := Oracle.runs_of_drive hrun
  exact ⟨r, t, hruns, hlength, (agents_selected exampleSettings .run _ t r
    (exampleWorld_fresh _) hruns).2.2⟩

end Hooklane.GoalLoop
