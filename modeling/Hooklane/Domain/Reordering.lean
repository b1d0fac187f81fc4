import Hooklane.Domain.Canonical

/-!
# Equality of JSON values

Two JSON values are equal when one can be turned into the other by moving the
members of objects, at any depth.  `canonical_request` compares requests by
exactly this equality.
-/

namespace Hooklane

namespace Json

/-- The least congruence under which the members of an object may change
places. -/
inductive Alike : Json → Json → Prop where
  | refl (a : Json) : Alike a a
  | trans {a b c : Json} (first : Alike a b) (second : Alike b c) : Alike a c
  | item {a b : Json} (pre post : List Json) (alike : Alike a b) :
      Alike (.arr (pre ++ a :: post)) (.arr (pre ++ b :: post))
  | member {a b : Json} (key : String) (pre post : List (String × Json))
      (alike : Alike a b) :
      Alike (.obj (pre ++ (key, a) :: post)) (.obj (pre ++ (key, b) :: post))
  | permute {fields fields' : List (String × Json)}
      (perm : fields.Perm fields') : Alike (.obj fields) (.obj fields')

variable {a b : Json}

theorem Alike.symm (h : a.Alike b) : b.Alike a := by
  induction h with
  | refl a => exact .refl a
  | trans first second ih ih' => exact .trans ih' ih
  | item pre post alike ih => exact .item pre post ih
  | member key pre post alike ih => exact .member key pre post ih
  | permute perm => exact .permute perm.symm

section Canonical

theorem alike_items {items : List Json}
    (h : ∀ item ∈ items, item.Alike item.canonical) (pre : List Json) :
    (Json.arr (pre ++ items)).Alike (.arr (pre ++ items.map canonical)) := by
  induction items generalizing pre with
  | nil => exact .refl _
  | cons item rest ih =>
      have hrest := ih (fun x hx => h x (List.mem_cons_of_mem _ hx))
        (pre ++ [item.canonical])
      rw [List.append_assoc, List.append_assoc] at hrest
      exact .trans (.item pre rest (h item List.mem_cons_self)) hrest

theorem alike_members {fields : List (String × Json)}
    (h : ∀ m ∈ fields, m.2.Alike m.2.canonical)
    (pre : List (String × Json)) :
    (Json.obj (pre ++ fields)).Alike
      (.obj (pre ++ fields.map fun m => (m.1, m.2.canonical))) := by
  induction fields generalizing pre with
  | nil => exact .refl _
  | cons m rest ih =>
      obtain ⟨key, value⟩ := m
      have hrest := ih (fun x hx => h x (List.mem_cons_of_mem _ hx))
        (pre ++ [(key, value.canonical)])
      rw [List.append_assoc, List.append_assoc] at hrest
      exact .trans (.member key pre rest (h _ List.mem_cons_self)) hrest

/-- The canonical value only has its members in another order. -/
theorem alike_canonical (a : Json) : a.Alike a.canonical := by
  induction a using Json.induction with
  | null | bool | int | float | str => exact .refl _
  | arr items ih =>
      rw [canonical_arr]
      exact alike_items ih []
  | obj fields ih =>
      rw [canonical, canonicalMembers_eq]
      exact .trans (alike_members ih [])
        (.permute (List.perm_insertionSort _ _).symm)

/-- Members with distinct keys have one order. -/
theorem canonical_permute {fields fields' : List (String × Json)}
    (hdistinct : (fields.map Prod.fst).Nodup) (hperm : fields.Perm fields') :
    canonical (.obj fields) = canonical (.obj fields') := by
  have : Std.Total fun a b : String × Json => a.1 ≤ b.1 :=
    ⟨fun a b => le_total a.1 b.1⟩
  have : IsTrans (String × Json) fun a b => a.1 ≤ b.1 :=
    ⟨fun _ _ _ => le_trans⟩
  have hsorted : sortFields fields = sortFields fields' := by
    refine List.Perm.eq_of_pairwise ?_ (List.pairwise_insertionSort _ _)
      (List.pairwise_insertionSort _ _) ?_
    · intro m m' hm hm' hle hge
      exact List.inj_on_of_nodup_map hdistinct (mem_sortFields.mp hm)
        (hperm.mem_iff.mpr (mem_sortFields.mp hm')) (le_antisymm hle hge)
    · exact ((List.perm_insertionSort _ _).trans hperm).trans
        (List.perm_insertionSort _ _).symm
  rw [canonical_obj, canonical_obj, hsorted]

/-- Moving members keeps a value well formed and its canonical form. -/
theorem Alike.canonical_eq (h : a.Alike b) (ha : a.WellFormed) :
    b.WellFormed ∧ a.Equiv b := by
  induction h with
  | refl a => exact ⟨ha, rfl⟩
  | trans first second ih ih' =>
      obtain ⟨hb, hab⟩ := ih ha
      obtain ⟨hc, hbc⟩ := ih' hb
      exact ⟨hc, Eq.trans hab hbc⟩
  | @item a b pre post alike ih =>
      cases ha with
      | arr _ all =>
        obtain ⟨hb, hab⟩ := ih (all a (by simp))
        refine ⟨.arr _ fun x hx => ?_, ?_⟩
        · rw [List.mem_append, List.mem_cons] at hx
          rcases hx with hx | rfl | hx
          · exact all x (by simp [hx])
          · exact hb
          · exact all x (by simp [hx])
        · rw [Equiv] at hab
          rw [Equiv, canonical_arr, canonical_arr]
          simp [hab]
  | @member a b key pre post alike ih =>
      cases ha with
      | obj _ distinct all =>
        obtain ⟨hb, hab⟩ := ih (all (key, a) (by simp))
        refine ⟨.obj _ (by simpa using distinct) fun m hm => ?_, ?_⟩
        · rw [List.mem_append, List.mem_cons] at hm
          rcases hm with hm | rfl | hm
          · exact all m (by simp [hm])
          · exact hb
          · exact all m (by simp [hm])
        · rw [Equiv] at hab
          rw [Equiv, canonical, canonical, canonicalMembers_eq,
            canonicalMembers_eq]
          simp [hab]
  | permute perm =>
      cases ha with
      | obj _ distinct all =>
        refine ⟨.obj _ ((perm.map Prod.fst).nodup_iff.mp distinct) ?_, ?_⟩
        · exact fun m hm => all m (perm.mem_iff.mpr hm)
        · exact canonical_permute distinct perm

end Canonical

/-- On the values that Python can build the two notions of equality agree. -/
theorem alike_iff_equiv (ha : a.WellFormed) : a.Alike b ↔ a.Equiv b := by
  refine ⟨fun h => (h.canonical_eq ha).2, fun h => ?_⟩
  have hcanonical : a.Alike b.canonical := h ▸ alike_canonical a
  exact hcanonical.trans (alike_canonical b).symm

end Json

namespace EventRequest

/-- A request with the same type and, up to the order of members, the same
payload. -/
def SameContent (event event' : EventRequest) : Prop :=
  event.eventType = event'.eventType ∧
    (Json.obj event.payload).Alike (.obj event'.payload)

variable {event event' : EventRequest} {lib : Stdlib}

theorem same_iff_sameContent (h : event.WellFormed) :
    event.Same event' ↔ event.SameContent event' := by
  rw [SameContent, Same, Json.alike_iff_equiv h]

/-- With a hash that does not collide the fingerprint tells the content. -/
theorem fingerprint_eq_iff_sameContent (hsha : Function.Injective lib.sha256)
    (h : event.WellFormed) (h' : event'.WellFormed) :
    event.fingerprint lib = event'.fingerprint lib ↔
      event.SameContent event' := by
  rw [fingerprint_eq_iff hsha h h', same_iff_sameContent h]

/-- Two requests have one canonical text, which `_request_fingerprint` hashes,
exactly when their types and their payloads are equal. -/
theorem canonicalRequest_exact {event event' : EventRequest}
    (h : event.WellFormed) (h' : event'.WellFormed) :
    event.canonicalRequest = event'.canonicalRequest ↔
      event.eventType = event'.eventType ∧
        (Json.obj event.payload).Alike (.obj event'.payload) := by
  rw [canonicalRequest_eq_iff h h', Same, Json.alike_iff_equiv h]

/-- Moving members at two levels keeps the text, and a string of digits is not
a number. -/
theorem canonicalRequest_exact_example :
    let line : Json := .obj [("sku", .str "a-1"), ("count", .int 2)]
    let line' : Json := .obj [("count", .int 2), ("sku", .str "a-1")]
    let event : EventRequest := ⟨"order.created",
      [("total", .int 3), ("lines", .arr [line, .null])], by decide⟩
    let event' : EventRequest := ⟨"order.created",
      [("lines", .arr [line', .null]), ("total", .int 3)], by decide⟩
    let other : EventRequest := ⟨"order.created",
      [("lines", .arr [line', .null]), ("total", .str "3")], by decide⟩
    event.canonicalRequest = event'.canonicalRequest ∧
      ¬(Json.obj event.payload).Alike (.obj other.payload) := by
  intro line line' event event' other
  have hlist : ∀ x : Json, x.WellFormed → (Json.arr [x, .null]).WellFormed :=
    fun x hx => .arr _ (List.forall_mem_cons.mpr
      ⟨hx, List.forall_mem_singleton.mpr .null⟩)
  have hline : line.WellFormed := .pair (by decide) (.str _) (.int 2)
  have hline' : line'.WellFormed := .pair (by decide) (.int 2) (.str _)
  have hevent : event.WellFormed :=
    .pair (by decide) (.int 3) (hlist line hline)
  have hevent' : event'.WellFormed :=
    .pair (by decide) (hlist line' hline') (.int 3)
  have hother : other.WellFormed :=
    .pair (by decide) (hlist line' hline') (.str _)
  have hlines : line.Alike line' := .permute (List.Perm.swap _ _ [])
  have hpayload : (Json.obj event.payload).Alike (.obj event'.payload) :=
    .trans (.member "lines" [("total", .int 3)] [] (.item [] [.null] hlines))
      (.permute (List.Perm.swap _ _ []))
  refine ⟨(canonicalRequest_exact hevent hevent').mpr ⟨rfl, hpayload⟩, ?_⟩
  intro halike
  have hsame := (canonicalRequest_exact hevent hother).mpr ⟨rfl, halike⟩
  exact absurd hsame (by decide +kernel)

end EventRequest

end Hooklane
