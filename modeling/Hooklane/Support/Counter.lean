import Mathlib.Algebra.Order.BigOperators.Group.List
import Mathlib.Algebra.Order.Ring.Nat
import Mathlib.Data.List.AList

/-!
# Labelled counters

A counter keeps one count for each label that was ever incremented.  Its total
over all labels grows by exactly one with every increment.
-/

namespace Support

/-- One count for each label seen so far. -/
abbrev Counter (Label : Type) :=
  AList fun _ : Label => ℕ

namespace Counter

variable {Label : Type} [DecidableEq Label]

/-- The count of a label, which is zero until its first increment. -/
def value (c : Counter Label) (label : Label) : ℕ :=
  (c.lookup label).getD 0

def inc (c : Counter Label) (label : Label) : Counter Label :=
  c.insert label (c.value label + 1)

@[simp]
theorem value_empty (label : Label) : (∅ : Counter Label).value label = 0 := rfl

@[simp]
theorem value_inc (c : Counter Label) (label : Label) :
    (c.inc label).value label = c.value label + 1 := by
  rw [value, inc, AList.lookup_insert]
  rfl

theorem value_inc_ne (c : Counter Label) {label other : Label}
    (h : other ≠ label) : (c.inc label).value other = c.value other := by
  rw [value, inc, AList.lookup_insert_ne h]
  rfl

/-- The sum over all labels. -/
def total (c : Counter Label) : ℕ :=
  (c.entries.map Sigma.snd).sum

/-- A label contributes its count to the total. -/
theorem sum_kerase (entries : List (Sigma fun _ : Label => ℕ))
    (label : Label) :
    ((entries.kerase label).map Sigma.snd).sum +
      (entries.dlookup label).getD 0 = (entries.map Sigma.snd).sum := by
  induction entries with
  | nil => rfl
  | cons entry rest ih =>
      obtain ⟨other, n⟩ := entry
      by_cases h : label = other
      · subst h
        simp [Nat.add_comm]
      · rw [List.kerase_cons_ne h, List.dlookup_cons_ne rest ⟨other, n⟩ h]
        simp only [List.map_cons, List.sum_cons]
        omega

omit [DecidableEq Label] in
@[simp]
theorem total_empty : (∅ : Counter Label).total = 0 := rfl

@[simp]
theorem total_inc (c : Counter Label) (label : Label) :
    (c.inc label).total = c.total + 1 := by
  have hsum := sum_kerase c.entries label
  have hvalue : (c.entries.dlookup label).getD 0 = c.value label := rfl
  have hinc : (c.inc label).total = c.value label + 1 +
      ((c.entries.kerase label).map Sigma.snd).sum := rfl
  rw [hinc, total]
  omega

end Counter

end Support
