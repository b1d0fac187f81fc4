import Hooklane.Domain.Json

/-!
# The features document

The model of the functions of `goal_loop_runner.py` that read and select from
`docs/features.json`.  A document is a JSON object as `json.loads` returns it.
A `Feature` carries its string identifier, and a `Document` its features, so
that only what `load_feature_document` accepts can be built.
-/

namespace Hooklane.GoalLoop

/-! ## Members of an object -/

/-- `fields[key] = value`: the member keeps its place, or comes last. -/
def setField (key : String) (value : Json) :
    List (String × Json) → List (String × Json)
  | [] => [(key, value)]
  | (other, old) :: rest =>
      if key = other then (other, value) :: rest
      else (other, old) :: setField key value rest

section SetField

variable (key : String) (value : Json) (fields : List (String × Json))

@[simp]
theorem lookup_setField :
    (setField key value fields).lookup key = some value := by
  induction fields with
  | nil => simp [setField]
  | cons field rest ih =>
      obtain ⟨other, old⟩ := field
      by_cases h : key = other
      · simp [setField, h]
      · simp [setField, h, List.lookup_cons, beq_eq_false_iff_ne.mpr h, ih]

theorem lookup_setField_ne {other : String} (h : other ≠ key) :
    (setField key value fields).lookup other = fields.lookup other := by
  induction fields with
  | nil => simp [setField, List.lookup_cons, beq_eq_false_iff_ne.mpr h]
  | cons field rest ih =>
      obtain ⟨name, old⟩ := field
      by_cases hname : key = name
      · subst hname
        simp [setField, List.lookup_cons, beq_eq_false_iff_ne.mpr h]
      · simp [setField, hname, List.lookup_cons, ih]

end SetField

/-- `value is True`. -/
def isTrue : Option Json → Bool
  | some (.bool true) => true
  | _ => false

/-- `value is not None`. -/
def isPresent : Option Json → Bool
  | none | some .null => false
  | _ => true

/-- The truth value of a JSON value. -/
def truthy : Json → Bool
  | .null | .bool false | .int 0 | .str "" | .arr [] | .obj [] => false
  | .float literal => literal ≠ "0.0" && literal ≠ "-0.0"
  | _ => true

/-! ## Features -/

/-- A JSON object with a string identifier. -/
structure Feature where
  fields : List (String × Json)
  id : String
  hasId : fields.lookup "id" = some (.str id)

namespace Feature

def toJson (feature : Feature) : Json := .obj feature.fields

def ofJson : Json → Option Feature
  | .obj fields =>
      match h : fields.lookup "id" with
      | some (.str id) => some ⟨fields, id, h⟩
      | _ => none
  | _ => none

theorem toJson_of_ofJson {value : Json} {feature : Feature}
    (h : ofJson value = some feature) : feature.toJson = value := by
  unfold ofJson at h
  split at h
  · split at h
    · obtain rfl := Option.some.inj h
      rfl
    · cases h
  · cases h

@[simp]
theorem ofJson_toJson (feature : Feature) :
    ofJson feature.toJson = some feature := by
  obtain ⟨fields, id, hasId⟩ := feature
  dsimp only [toJson, ofJson]
  split
  · rename_i other h
    obtain rfl : id = other := by simpa [hasId] using h
    rfl
  · rename_i h
    exact absurd hasId (h id)

/-- `feature.get("passes") is True`. -/
def passes (feature : Feature) : Bool := isTrue (feature.fields.lookup "passes")

/-- `feature.get("blocked") is True`. -/
def blocked (feature : Feature) : Bool :=
  isTrue (feature.fields.lookup "blocked")

/-- The feature can be assigned to an agent. -/
def selectable (feature : Feature) : Bool :=
  !feature.passes && !feature.blocked

/-- `feature.get("title") or feature.get("description")`. -/
def title (feature : Feature) : Json :=
  match feature.fields.lookup "title" with
  | some text =>
      if truthy text then text
      else (feature.fields.lookup "description").getD .null
  | none => (feature.fields.lookup "description").getD .null

/-- Overwrite a member other than the identifier. -/
def set (feature : Feature) (key : String) (value : Json) (h : "id" ≠ key) :
    Feature :=
  ⟨setField key value feature.fields, feature.id,
    (lookup_setField_ne key value feature.fields h).trans feature.hasId⟩

/-- What `keep_timed_out_feature_pending` makes of a feature. -/
def withdrawn (feature : Feature) : Feature :=
  (feature.set "passes" (.bool false) (by decide)).set "verified_at" .null
    (by decide)

@[simp]
theorem withdrawn_id (feature : Feature) : feature.withdrawn.id = feature.id :=
  rfl

@[simp]
theorem withdrawn_passes (feature : Feature) :
    feature.withdrawn.passes = false := by
  simp [withdrawn, set, passes, isTrue,
    lookup_setField_ne "verified_at" _ _ (show "passes" ≠ _ by decide)]

@[simp]
theorem withdrawn_blocked (feature : Feature) :
    feature.withdrawn.blocked = feature.blocked := by
  simp [withdrawn, set, blocked,
    lookup_setField_ne "verified_at" _ _ (show "blocked" ≠ _ by decide),
    lookup_setField_ne "passes" _ _ (show "blocked" ≠ _ by decide)]

/-- The feature is recorded as passing, or as verified at some time. -/
def claimed (feature : Feature) : Bool :=
  feature.passes || isPresent (feature.fields.lookup "verified_at")

end Feature

/-- `feature_state`: two truth values, or nothing for a missing feature. -/
structure FeatureState where
  passes : Option Bool
  blocked : Option Bool
deriving DecidableEq, Repr

def featureState : Option Feature → FeatureState
  | none => ⟨none, none⟩
  | some feature => ⟨some feature.passes, some feature.blocked⟩

/-! ## Documents -/

/-- The checks of `load_feature_document` on the features, the first of which
has the given index. -/
def loadFeatures : ℕ → List Json → Except String (List Feature)
  | _, [] => .ok []
  | index, item :: rest =>
      match Feature.ofJson item with
      | some feature => do
          let features ← loadFeatures (index + 1) rest
          return feature :: features
      | none => .error s!"features[\x7b{index}\x7d] must contain a string id"

theorem loadFeatures_eq_ok {index : ℕ} {items : List Json}
    {features : List Feature} (h : loadFeatures index items = .ok features) :
    features.map Feature.toJson = items := by
  induction items generalizing index features with
  | nil =>
      obtain rfl := Except.ok.inj h
      rfl
  | cons item rest ih =>
      unfold loadFeatures at h
      cases hitem : Feature.ofJson item with
      | none => simp [hitem] at h
      | some feature =>
          cases hrest : loadFeatures (index + 1) rest with
          | error message => simp [hitem, hrest, bind, Except.bind] at h
          | ok others =>
              simp only [hitem, hrest, bind, Except.bind, pure, Except.pure,
                Except.ok.injEq] at h
              subst h
              simp [Feature.toJson_of_ofJson hitem, ih hrest]

@[simp]
theorem loadFeatures_toJson (index : ℕ) (features : List Feature) :
    loadFeatures index (features.map Feature.toJson) = .ok features := by
  induction features generalizing index with
  | nil => rfl
  | cons feature rest ih =>
      simp [loadFeatures, ih, bind, Except.bind, pure, Except.pure]

/-- A JSON object whose member `features` lists features. -/
structure Document where
  fields : List (String × Json)
  features : List Feature
  hasFeatures :
    fields.lookup "features" = some (.arr (features.map Feature.toJson))

/-- `load_feature_document`, from the value that `json.loads` returns. -/
def loadFeatureDocument : Json → Except String Document
  | .obj fields =>
      match h : fields.lookup "features" with
      | some (.arr items) =>
          match hitems : loadFeatures 0 items with
          | .ok features =>
              .ok ⟨fields, features, by rw [h, loadFeatures_eq_ok hitems]⟩
          | .error message => .error message
      | _ => .error "docs/features.json must contain a features array"
  | _ => .error "docs/features.json must contain a features array"

namespace Document

def toJson (document : Document) : Json := .obj document.fields

/-- `pending_feature`: the first feature that neither passes nor is blocked. -/
def pendingFeature (document : Document) : Option Feature :=
  document.features.find? Feature.selectable

/-- `feature_by_id`: the first feature with the identifier. -/
def featureById (document : Document) (featureId : String) : Option Feature :=
  document.features.find? fun feature => feature.id = featureId

/-- `all_features_pass`. -/
def allFeaturesPass (document : Document) : Bool :=
  !document.features.isEmpty && document.features.all Feature.passes

/-- `all_remaining_features_blocked`. -/
def allRemainingFeaturesBlocked (document : Document) : Bool :=
  let incomplete := document.features.filter fun feature => !feature.passes
  !incomplete.isEmpty && incomplete.all Feature.blocked

/-- The document with its first feature of the identifier replaced. -/
def replaceFirst (featureId : String) (new : Feature) :
    List Feature → List Feature
  | [] => []
  | feature :: rest =>
      if feature.id = featureId then new :: rest
      else feature :: replaceFirst featureId new rest

/-- Write a feature back under its identifier. -/
def update (document : Document) (new : Feature) : Document :=
  let features := replaceFirst new.id new document.features
  ⟨setField "features" (.arr (features.map Feature.toJson)) document.fields,
    features, lookup_setField _ _ _⟩

/-- `feature_counts`. -/
structure Counts where
  total : ℕ
  passed : ℕ
  blocked : ℕ
  pending : ℕ
deriving DecidableEq, Repr

def featureCounts (document : Document) : Counts where
  total := document.features.length
  passed := document.features.countP Feature.passes
  blocked := document.features.countP fun feature =>
    !feature.passes && feature.blocked
  pending := document.features.countP Feature.selectable

/-- What `json.dumps` wrote of a document is read back as that document. -/
@[simp]
theorem loadFeatureDocument_toJson (document : Document) :
    loadFeatureDocument document.toJson = .ok document := by
  obtain ⟨fields, features, hasFeatures⟩ := document
  dsimp only [toJson, loadFeatureDocument]
  split
  · rename_i items h
    obtain rfl : features.map Feature.toJson = items := by
      simpa [hasFeatures] using h
    split
    · rename_i others hothers
      obtain rfl : features = others := by simpa using hothers
      rfl
    · rename_i message hmessage
      simp at hmessage
  · rename_i h
    exact absurd hasFeatures (h _)

end Document

namespace Document

variable (document : Document)

theorem pendingFeature_selectable {feature : Feature}
    (h : document.pendingFeature = some feature) :
    feature.passes = false ∧ feature.blocked = false := by
  have hselectable := List.find?_some h
  simpa [Feature.selectable] using hselectable

theorem featureById_id {featureId : String} {feature : Feature}
    (h : document.featureById featureId = some feature) :
    feature.id = featureId := by
  simpa using List.find?_some h

theorem find_replaceFirst {features : List Feature} {old new : Feature}
    (h : features.find? (fun f => f.id = new.id) = some old) :
    (replaceFirst new.id new features).find? (fun f => f.id = new.id) =
      some new := by
  induction features with
  | nil => cases h
  | cons feature rest ih =>
      by_cases hid : feature.id = new.id
      · simp [replaceFirst, hid]
      · have hrest : rest.find? (fun f => f.id = new.id) = some old := by
          simpa [hid] using h
        simp [replaceFirst, hid, ih hrest]

/-- The updated feature is the one found under its identifier. -/
theorem featureById_update {old new : Feature}
    (h : document.featureById new.id = some old) :
    (document.update new).featureById new.id = some new :=
  find_replaceFirst h

theorem find_replaceFirst_ne (features : List Feature) (new : Feature)
    {other : String} (h : other ≠ new.id) :
    (replaceFirst new.id new features).find? (fun f => f.id = other) =
      features.find? (fun f => f.id = other) := by
  induction features with
  | nil => rfl
  | cons feature rest ih =>
      by_cases hid : feature.id = new.id
      · simp [replaceFirst, hid, h.symm]
      · by_cases hother : feature.id = other
        · simp [replaceFirst, hother, h]
        · simp [replaceFirst, hid, hother, ih]

/-- Every other identifier finds what it found before. -/
theorem featureById_update_ne (new : Feature) {other : String}
    (h : other ≠ new.id) :
    (document.update new).featureById other = document.featureById other :=
  find_replaceFirst_ne document.features new h

/-- Nothing can be selected exactly when every feature passes or is
blocked. -/
theorem pendingFeature_eq_none_iff :
    document.pendingFeature = none ↔
      ∀ feature ∈ document.features, feature.passes ∨ feature.blocked := by
  rw [pendingFeature, List.find?_eq_none]
  refine forall₂_congr fun feature _ => ?_
  cases hp : feature.passes <;> cases hb : feature.blocked <;>
    simp [Feature.selectable, hp, hb]

/-- The three messages of a run without a selectable feature: the last one is
left for the empty document. -/
theorem no_selectable_feature (h : document.pendingFeature = none) :
    document.allFeaturesPass ∨ document.allRemainingFeaturesBlocked ∨
      document.features = [] := by
  have hall := document.pendingFeature_eq_none_iff.mp h
  by_cases hempty : document.features = []
  · exact .inr (.inr hempty)
  · by_cases hpass : ∀ feature ∈ document.features, feature.passes = true
    · left
      simpa [allFeaturesPass, hempty] using hpass
    · right
      left
      push Not at hpass
      obtain ⟨feature, hmem, hfeature⟩ := hpass
      rw [allRemainingFeaturesBlocked]
      have hblocked : ∀ f ∈ document.features,
          f.passes = false → f.blocked = true := by
        intro f hf hnot
        simpa [hnot] using hall f hf
      simp only [Bool.and_eq_true, List.all_eq_true, List.mem_filter]
      constructor
      · simp only [Bool.not_eq_eq_eq_not, Bool.not_true,
          List.isEmpty_eq_false_iff]
        exact List.ne_nil_of_mem (List.mem_filter.mpr ⟨hmem, by simpa using hfeature⟩)
      · intro f hf
        exact hblocked f hf.1 (by simpa using hf.2)

end Document

end Hooklane.GoalLoop
