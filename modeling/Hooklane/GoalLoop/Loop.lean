import Hooklane.GoalLoop.Recording

/-!
# The loop

Two properties of every run, each by induction on the iterations left.  The
record of the run is missing exactly when an iteration was opened with nothing
to select, and a feature is given to an agent beyond its attempts only when its
last attempt had left it recorded as passing.
-/

namespace Hooklane.GoalLoop

open Support ProgE Runner

variable {w v t : World}

/-- The feature that an iteration selects from the features file. -/
def selectedIn (contents : Contents) : Option String :=
  match loadContents contents with
  | .ok document => document.pendingFeature.map Feature.id
  | .error _ => none

theorem selectedIn_of_load {contents : Contents} {document : Document}
    (h : loadContents contents = .ok document) :
    selectedIn contents = document.pendingFeature.map Feature.id := by
  rw [selectedIn, h]

/-- The next iteration has been opened with the features file as it is. -/
structure Opens (w t : World) : Prop where
  features : t.features = w.features
  launches : t.launches = w.launches
  opened : t.opened = w.features :: w.opened
  runMetadata : t.runMetadata = w.runMetadata

theorem Opens.same (h : Opens w v) (h' : Same v t) : Opens w t where
  features := h'.features.trans h.features
  launches := h'.launches.trans h.launches
  opened := h'.opened.trans h.opened
  runMetadata := h'.runMetadata.trans h.runMetadata

theorem failure_of_loadContents {contents : Contents} {e : Raised}
    (h : loadContents contents = .error e) : Failure e := by
  unfold loadContents at h
  split at h
  · split at h
    · cases h
    · cases h
      simp [Failure]
  · next e' =>
    cases h
    cases e' <;> simp [Failure, ReadError.raised]

theorem ends_readFeatures_opening :
    Ends (readFeatures .opening)
      (fun document t => Opens w t ∧ loadContents w.features = .ok document)
      (fun e t => Failure e ∧ Opens w t) w := by
  refine Alone.next (P := fun reply t => reply = w.features ∧ Opens w t)
    (alone_perform ?_) ?_
  · rintro reply t ⟨v, hv, rfl, rfl⟩
    have hsame := hv.same_touching (.readFeatures .opening)
    refine ⟨hsame.features, hsame.features, hsame.launches, ?_,
      hsame.runMetadata⟩
    rw [World.reading, hsame.features, hsame.opened]
  · rintro contents w₁ ⟨rfl, h₁⟩
    cases hload : loadContents w.features with
    | ok document => exact alone_pure ⟨h₁, rfl⟩
    | error e => exact alone_throw ⟨failure_of_loadContents hload, h₁⟩

/-- The features file selects nothing, and the exit code says why: with 0
every feature passes, or there is none. -/
def Idle (contents : Contents) (code : ℤ) : Prop :=
  ∃ document, loadContents contents = .ok document ∧
    document.pendingFeature = none ∧
    (code = 0 → document.allFeaturesPass = true ∨ document.features = [])

theorem Idle.selectedIn {contents : Contents} {code : ℤ}
    (h : Idle contents code) : selectedIn contents = none := by
  obtain ⟨document, hload, hpending, -⟩ := h
  rw [selectedIn_of_load hload, hpending]
  rfl

theorem ends_noSelectableFeature {contents : Contents} {document : Document}
    (hload : loadContents contents = .ok document)
    (hpending : document.pendingFeature = none) :
    Ends (noSelectableFeature document)
      (fun code t => Same w t ∧ Idle contents code)
      (fun e t => Failure e ∧ Same w t) w := by
  have hprint : ∀ {action : Effect} {code : ℤ}, Op.Quiet (.effect action) →
      Idle contents code →
      Ends (do effect action; return code)
        (fun code t => Same w t ∧ Idle contents code)
        (fun e t => Failure e ∧ Same w t) w := fun hquiet hidle =>
    (Within.effect _ hquiet).same.next fun _ _ h => alone_pure ⟨h, hidle⟩
  unfold noSelectableFeature
  split
  · next hall =>
    exact hprint trivial ⟨document, hload, hpending, fun _ => .inl hall⟩
  · next hall =>
    split
    · exact hprint trivial ⟨document, hload, hpending, by simp⟩
    · next hblocked =>
      refine hprint trivial ⟨document, hload, hpending, fun _ => .inr ?_⟩
      obtain h | h | h := document.no_selectable_feature hpending
      · exact absurd h hall
      · exact absurd h hblocked
      · exact h

section Loop

variable (settings : Settings) (run : RunStart)

/-- What follows an iteration: its exit code, or the iterations left. -/
def afterIteration (left iteration : ℕ) (attempts : Counter String) :
    Option ℤ → Runner ℤ
  | some code => return code
  | none => iterate settings run left (iteration + 1) attempts

/-- The rule of the loop: the features cannot be read, or nothing can be
selected, or an iteration runs on the selected feature. -/
theorem ends_iterate_succ {Q : ℤ → World → Prop} {R : Raised → World → Prop}
    {left iteration : ℕ} {attempts : Counter String}
    (hraise : ∀ e t, Failure e → Opens w t → R e t)
    (hstop : ∀ code t, Opens w t → Idle w.features code → Q code t)
    (hselect : ∀ document feature w₁, Opens w w₁ →
      selectedIn w.features = some feature.id →
      Ends (runIteration settings run iteration document feature
          (attempts.value feature.id + 1) >>=
        afterIteration settings run left iteration (attempts.inc feature.id))
        Q R w₁) :
    Ends (iterate settings run (left + 1) iteration attempts) Q R w := by
  refine (ends_readFeatures_opening.ends_mono (fun _ _ h => h)
    fun e t h => hraise e t h.1 h.2).next ?_
  rintro document w₁ ⟨h₁, hload⟩
  have hselected := selectedIn_of_load hload
  cases hpending : document.pendingFeature with
  | none =>
      exact (ends_noSelectableFeature hload hpending).ends_mono
        (fun code t h => hstop code t (h₁.same h.1) h.2)
        fun e t h => hraise e t h.1 (h₁.same h.2)
  | some feature =>
      rw [hpending] at hselected
      have hrun := hselect document feature w₁ h₁ hselected
      rw [← Counter.value_inc] at hrun
      exact hrun

end Loop

/-! ## The record -/

/-- Every iteration so far was opened with a feature to select. -/
def AlwaysSelectable (w : World) : Prop :=
  ∀ contents ∈ w.opened, (selectedIn contents).isSome

/-- The record tells whether an iteration was opened with nothing to
select. -/
def Accounts (t : World) (code : ℤ) : Prop :=
  Recorded t code ∧ AlwaysSelectable t ∨
    t.runMetadata = none ∧ ¬AlwaysSelectable t

theorem Accounts.recorded_iff {code : ℤ} (h : Accounts t code) :
    Recorded t code ↔ AlwaysSelectable t := by
  obtain ⟨hrecorded, hselectable⟩ | ⟨hnone, hnot⟩ := h
  · exact iff_of_true hrecorded hselectable
  · refine iff_of_false ?_ hnot
    rintro ⟨metadata, _, hsome, -⟩
    rw [hnone] at hsome
    cases hsome

theorem Opens.alwaysSelectable (h : Opens w t) (hw : AlwaysSelectable w)
    (hselected : (selectedIn w.features).isSome) : AlwaysSelectable t := by
  intro contents hmem
  rw [h.opened] at hmem
  obtain rfl | hmem := List.mem_cons.mp hmem
  · exact hselected
  · exact hw contents hmem

theorem alwaysSelectable_congr (h : t.opened = w.opened)
    (hw : AlwaysSelectable w) : AlwaysSelectable t := by
  rw [AlwaysSelectable, h]
  exact hw

section Record

variable (settings : Settings) (run : RunStart)

/-- The loop returns with the record written, or from the start of an
iteration without any.  The last iteration always ends the run. -/
theorem ends_iterate_accounts (left : ℕ) :
    ∀ (iteration : ℕ) (attempts : Counter String) (w : World),
      iteration + left = settings.maxIterations + 1 →
      iteration ≤ settings.maxIterations → w.runMetadata = none →
      AlwaysSelectable w →
      Ends (iterate settings run left iteration attempts)
        (fun code t => Accounts t code) (fun e _ => Failure e) w := by
  induction left with
  | zero => intros; omega
  | succ left ih =>
      intro iteration attempts w hcount hle hnone hall
      refine ends_iterate_succ settings run (fun _ _ h _ => h) ?_ ?_
      · intro code t hopens hidle
        refine .inr ⟨hopens.runMetadata.trans hnone, fun h => ?_⟩
        have hsome := h w.features (by rw [hopens.opened]; simp)
        simp [hidle.selectedIn] at hsome
      · intro document feature w₁ hopens hselected
        have hselectable : AlwaysSelectable w₁ :=
          hopens.alwaysSelectable hall (by simp [hselected])
        refine ((ends_runIteration settings run iteration document feature
          _).ends_mono (fun _ _ h => h) fun _ _ h => h.1).next ?_
        intro code w₂ h₂
        cases code with
        | none =>
            obtain ⟨hkept, hlast, -⟩ := h₂
            refine ih _ _ w₂ (by omega) (by omega) ?_ ?_
            · exact hkept.runMetadata.trans (hopens.runMetadata.trans hnone)
            · exact alwaysSelectable_congr hkept.opened hselectable
        | some code =>
            refine alone_pure (.inl ⟨h₂.2, ?_⟩)
            have hopened : w₂.opened = w₁.opened := by
              obtain h | h := h₂.1 <;> exact h.opened
            exact alwaysSelectable_congr hopened hselectable

end Record

/-! ## The attempts -/

/-- How many agents were started on the feature. -/
def startedOn (launches : List Launch) (featureId : String) : ℕ :=
  launches.countP fun launch => launch.featureId = featureId

/-- The feature has used its attempts, and the features file recorded it as
passing when the last of them ended.  `left` is the file after the newest
agent. -/
def Spent (limit : ℕ) : Contents → List Launch → String → Prop
  | _, [], _ => False
  | left, launch :: earlier, featureId =>
      launch.featureId = featureId ∧ startedOn earlier featureId + 1 = limit ∧
        recordedPassing left featureId ∨
      Spent limit launch.given earlier featureId

/-- No agent was given a features file that selects a feature which had been
recorded as passing after its last attempt. -/
def NeverReopened (limit : ℕ) : List Launch → Prop
  | [] => True
  | launch :: earlier =>
      (∀ featureId, selectedIn launch.given = some featureId →
        ¬Spent limit launch.given earlier featureId) ∧
      NeverReopened limit earlier

/-- The runner started each agent on the selected feature, and only after
each feature without attempts left had been recorded as passing. -/
def Paced (limit : ℕ) : List Launch → Prop
  | [] => True
  | launch :: earlier =>
      selectedIn launch.given = some launch.featureId ∧
      (∀ featureId, limit ≤ startedOn earlier featureId →
        Spent limit launch.given earlier featureId) ∧
      Paced limit earlier

section Launches

variable {limit : ℕ} {launches : List Launch}

@[simp]
theorem startedOn_cons (launch : Launch) (earlier : List Launch)
    (featureId : String) :
    startedOn (launch :: earlier) featureId =
      startedOn earlier featureId +
        if launch.featureId = featureId then 1 else 0 := by
  simp [startedOn, List.countP_cons]

theorem Spent.limit_le {left : Contents} {featureId : String}
    (h : Spent limit left launches featureId) :
    limit ≤ startedOn launches featureId := by
  induction launches generalizing left with
  | nil => exact h.elim
  | cons launch earlier ih =>
      rw [startedOn_cons]
      obtain ⟨hid, hlimit, -⟩ | h := h
      · rw [if_pos hid, hlimit]
      · exact (ih h).trans (Nat.le_add_right _ _)

/-- In a paced history the attempts are exceeded exactly by reopening. -/
theorem Paced.startedOn_le_iff (h : Paced limit launches) :
    (∀ featureId, startedOn launches featureId ≤ limit) ↔
      NeverReopened limit launches := by
  induction launches with
  | nil => simp [startedOn, NeverReopened]
  | cons launch earlier ih =>
      obtain ⟨hselected, hspent, hearlier⟩ := h
      rw [NeverReopened, ← ih hearlier]
      constructor
      · intro hall
        refine ⟨fun featureId hid hreopened => ?_, fun featureId => ?_⟩
        · obtain rfl : launch.featureId = featureId := by
            rw [hselected] at hid
            exact Option.some.inj hid
          have hlaunch := hall launch.featureId
          have hbefore := hreopened.limit_le
          simp only [startedOn_cons, if_true] at hlaunch
          omega
        · have hlaunch := hall featureId
          rw [startedOn_cons] at hlaunch
          omega
      · rintro ⟨hnever, hall⟩ featureId
        rw [startedOn_cons]
        split
        · next hid =>
          subst hid
          have hfresh : ¬limit ≤ startedOn earlier launch.featureId :=
            fun hle => hnever _ hselected (hspent _ hle)
          omega
        · exact hall featureId

end Launches

/-- What holds of the attempts when an iteration is opened. -/
structure Counting (settings : Settings) (left : ℕ)
    (attempts : Counter String) (w : World) : Prop where
  paced : Paced settings.maxAttemptsPerFeature w.launches
  spent : ∀ featureId,
    settings.maxAttemptsPerFeature ≤ startedOn w.launches featureId →
    Spent settings.maxAttemptsPerFeature w.features w.launches featureId
  attempts : ∀ featureId,
    attempts.value featureId = startedOn w.launches featureId
  length : w.launches.length + left ≤ settings.maxIterations

/-- What holds of the launches at any end. -/
structure Bounded (settings : Settings) (t : World) : Prop where
  paced : Paced settings.maxAttemptsPerFeature t.launches
  length : t.launches.length ≤ settings.maxIterations

section Attempts

variable (settings : Settings) (run : RunStart) {left : ℕ}
  {attempts : Counter String}

theorem Counting.bounded (h : Counting settings left attempts w) :
    Bounded settings w :=
  ⟨h.paced, by have := h.length; omega⟩

theorem Bounded.congr (h : Bounded settings w)
    (hlaunches : t.launches = w.launches) : Bounded settings t :=
  ⟨hlaunches ▸ h.paced, hlaunches ▸ h.length⟩

/-- Opening the iteration changes nothing that is counted. -/
theorem Counting.opens (h : Counting settings left attempts w)
    (hopens : Opens w t) : Counting settings left attempts t where
  paced := hopens.launches ▸ h.paced
  spent := by
    rw [hopens.launches, hopens.features]
    exact h.spent
  attempts := by
    rw [hopens.launches]
    exact h.attempts
  length := hopens.launches ▸ h.length

/-- Starting the agent keeps the history paced. -/
theorem Counting.launch_bounded (h : Counting settings (left + 1) attempts w)
    {featureId : String} (hselected : selectedIn w.features = some featureId)
    (hlaunches : t.launches = (w.launch featureId).launches) :
    Bounded settings t := by
  have hlength := h.length
  constructor
  · rw [hlaunches]
    exact ⟨hselected, h.spent, h.paced⟩
  · rw [hlaunches, World.launch, List.length_cons]
    omega

/-- An iteration that goes on has counted its agent, and a feature without
attempts left was recorded as passing. -/
theorem Counting.next (h : Counting settings (left + 1) attempts w)
    {featureId : String} (hselected : selectedIn w.features = some featureId)
    (hlaunches : t.launches = (w.launch featureId).launches)
    (hgoesOn : recordedPassing t.features featureId ∨
      attempts.value featureId + 1 < settings.maxAttemptsPerFeature) :
    Counting settings left (attempts.inc featureId) t where
  paced := (h.launch_bounded settings hselected hlaunches).paced
  spent := by
    intro other hother
    rw [hlaunches, World.launch, startedOn_cons] at hother
    rw [hlaunches, World.launch, Spent]
    by_cases hid : featureId = other
    · subst hid
      rw [h.attempts] at hgoesOn
      rw [if_pos rfl] at hother
      by_cases hexact : startedOn w.launches featureId + 1 =
          settings.maxAttemptsPerFeature
      · obtain hpassing | hless := hgoesOn
        · exact .inl ⟨rfl, hexact, hpassing⟩
        · omega
      · exact .inr (h.spent featureId (by omega))
    · rw [if_neg hid] at hother
      exact .inr (h.spent other hother)
  attempts := by
    intro other
    rw [hlaunches, World.launch, startedOn_cons]
    by_cases hid : featureId = other
    · subst hid
      rw [Counter.value_inc, h.attempts, if_pos rfl]
    · rw [Counter.value_inc_ne _ (Ne.symm hid), h.attempts, if_neg hid]
      rfl
  length := by
    have hlength := h.length
    rw [hlaunches, World.launch, List.length_cons]
    omega

theorem ends_iterate_bounded (left : ℕ) :
    ∀ (iteration : ℕ) (attempts : Counter String) (w : World),
      Counting settings left attempts w →
      Ends (iterate settings run left iteration attempts)
        (fun _ t => Bounded settings t)
        (fun e t => Failure e ∧ Bounded settings t) w := by
  induction left with
  | zero =>
      intro iteration attempts w h
      exact alone_pure (h.bounded settings)
  | succ left ih =>
      intro iteration attempts w h
      refine ends_iterate_succ settings run ?_ ?_ ?_
      · intro e t he hopens
        exact ⟨he, (h.opens settings hopens).bounded settings⟩
      · intro code t hopens _
        exact (h.opens settings hopens).bounded settings
      · intro document feature w₁ hopens hselected
        have h₁ := h.opens settings hopens
        rw [← hopens.features] at hselected
        have hbounded : ∀ {t : World},
            Steady (w₁.launch feature.id) t ∨ Steady w₁ t →
            Bounded settings t := by
          rintro t (ht | ht)
          · exact h₁.launch_bounded settings hselected ht.launches
          · exact (h₁.bounded settings).congr settings ht.launches
        refine ((ends_runIteration settings run iteration document feature
          _).ends_mono (fun _ _ h => h)
            fun _ _ h => ⟨h.1, hbounded h.2⟩).next ?_
        intro code w₂ h₂
        cases code with
        | none =>
            obtain ⟨hkept, -, hgoesOn⟩ := h₂
            exact ih _ _ w₂
              (h₁.next settings hselected hkept.launches hgoesOn)
        | some code => exact alone_pure (hbounded h₂.1)

end Attempts

end Hooklane.GoalLoop
