import Mathlib.Data.List.Basic

/-!
# Obligations in a history

An entry of a history may open an obligation that a later entry closes.  While
an obligation is outstanding some entries are barred.
-/

namespace Support

variable {α : Type} {opens closes barred : α → Prop} {l : List α} {b : α}

/-- An obligation was opened and has not been closed since. -/
def Outstanding (opens closes : α → Prop) (l : List α) : Prop :=
  ∃ pre a post, l = pre ++ a :: post ∧ opens a ∧ ∀ c ∈ post, ¬closes c

/-- Every barred entry stands where nothing is outstanding. -/
def Respects (opens closes barred : α → Prop) (l : List α) : Prop :=
  ∀ pre b post, l = pre ++ b :: post → barred b →
    ¬Outstanding opens closes pre

/-- A split of an extended history is at the new entry or in the old part. -/
theorem split_append_singleton {pre post : List α} {a : α}
    (h : l ++ [b] = pre ++ a :: post) :
    (l = pre ∧ b = a ∧ post = []) ∨
      ∃ post', post = post' ++ [b] ∧ l = pre ++ a :: post' := by
  rcases List.eq_nil_or_concat post with rfl | ⟨post', c, rfl⟩
  · obtain ⟨hpre, hlast⟩ := List.append_inj' h rfl
    exact Or.inl ⟨hpre, List.singleton_inj.mp hlast, rfl⟩
  · rw [List.concat_eq_append, ← List.cons_append, ← List.append_assoc] at h
    obtain ⟨hpre, hlast⟩ := List.append_inj' h rfl
    obtain rfl := List.singleton_inj.mp hlast
    exact Or.inr ⟨post', List.concat_eq_append, hpre⟩

theorem not_outstanding_nil : ¬Outstanding opens closes ([] : List α) := by
  rintro ⟨pre, a, post, h, -⟩
  simp at h

/-- What one more entry does to the obligations. -/
theorem Outstanding.of_append_singleton
    (h : Outstanding opens closes (l ++ [b])) :
    opens b ∨ Outstanding opens closes l ∧ ¬closes b := by
  obtain ⟨pre, a, post, hsplit, hopen, hpost⟩ := h
  rcases split_append_singleton hsplit with ⟨-, rfl, -⟩ | ⟨post', rfl, rfl⟩
  · exact Or.inl hopen
  · refine Or.inr ⟨⟨pre, a, post', rfl, hopen, fun c hc => ?_⟩, ?_⟩
    · exact hpost c (List.mem_append_left _ hc)
    · exact hpost b (List.mem_append_right _ List.mem_cons_self)

theorem respects_nil : Respects opens closes barred [] := by
  intro pre b post h
  simp at h

theorem Respects.append_singleton (h : Respects opens closes barred l)
    (hb : barred b → ¬Outstanding opens closes l) :
    Respects opens closes barred (l ++ [b]) := by
  intro pre c post hsplit hc
  rcases split_append_singleton hsplit with ⟨rfl, rfl, -⟩ | ⟨post', -, rfl⟩
  · exact hb hc
  · exact h pre c post' rfl hc

/-- Between an opening entry and a barred one stands a closing one. -/
theorem Respects.exists_between {pre mid post : List α} {a : α}
    (h : Respects opens closes barred (pre ++ a :: (mid ++ b :: post)))
    (ha : opens a) (hb : barred b) : ∃ c ∈ mid, closes c := by
  by_contra hnone
  refine h (pre ++ a :: mid) b post (by simp) hb ⟨pre, a, mid, rfl, ha, ?_⟩
  exact fun c hc hcloses => hnone ⟨c, hc, hcloses⟩

end Support
