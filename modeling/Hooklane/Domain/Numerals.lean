import Hooklane.Domain.Canonical

/-!
# Reading back decimal numerals

`int(str(n))` is `n` unless `n` has too many digits.
-/

namespace Hooklane

/-- The value of a decimal digit. -/
theorem hexValue_of_isDigit {c : Char} (h : c.isDigit = true) :
    ∃ d : Fin 16, hexValue c = some d ∧ (d : ℕ) = c.toNat - '0'.toNat ∧
      (d : ℕ) < 10 := by
  have hrange : 48 ≤ c.toNat ∧ c.toNat ≤ 57 := by
    simpa [Char.isDigit, UInt32.le_iff_toNat_le] using h
  refine ⟨⟨c.toNat - 48, by omega⟩, ?_, rfl, ?_⟩
  · rw [hexValue]
    exact dif_pos hrange
  · dsimp only
    omega

/-- A nonempty text of digits is read digit by digit. -/
theorem digitsOf_decimal {cs : List Char} (hne : cs ≠ [])
    (h : ∀ c ∈ cs, c.isDigit = true) :
    ∃ ds, digitsOf 10 cs = some ds ∧ ds.length = cs.length ∧ ∀ n : ℕ,
      ds.foldl (fun n (d : Fin 16) => 10 * n + (d : ℕ)) n =
        Nat.ofDigitChars 10 cs n := by
  induction cs with
  | nil => exact absurd rfl hne
  | cons c rest ih =>
      obtain ⟨d, hd, hvalue, hlt⟩ := hexValue_of_isDigit (h c List.mem_cons_self)
      cases rest with
      | nil =>
          refine ⟨[d], ?_, rfl, fun n => ?_⟩
          · simp [digitsOf, hd, hlt]
          · simp [Nat.ofDigitChars, hvalue]
      | cons c' rest =>
          obtain ⟨ds, hds, hlength, hfold⟩ := ih (by simp)
            fun x hx => h x (List.mem_cons_of_mem _ hx)
          have hne' : c' ≠ '_' := by
            rintro rfl
            have hdigit := h '_' (by simp)
            exact absurd hdigit (by decide)
          refine ⟨d :: ds, ?_, by simp [hlength], fun n => ?_⟩
          · rw [digitsOf]
            · simp [hd, hds, hlt]
            · simp
            · intro x y hxy
              exact hne' (List.cons.inj hxy).1
          · rw [List.foldl_cons, hfold, hvalue]
            rfl

theorem dropBasePrefix_ten (cs : List Char) : dropBasePrefix 10 cs = cs := by
  unfold dropBasePrefix
  split <;> simp

theorem plainChar_of_isDigit {c : Char} (h : c.isDigit = true) :
    PlainChar c := by
  have hrange : 48 ≤ c.toNat ∧ c.toNat ≤ 57 := by
    simpa [Char.isDigit, UInt32.le_iff_toNat_le] using h
  have hne : ∀ d : Char, d.isDigit = false → c ≠ d := by
    rintro d hd rfl
    rw [h] at hd
    cases hd
  refine ⟨by omega, ?_, hne '-' rfl, hne '+' rfl⟩
  simp only [isAsciiSpace, Bool.or_eq_false_iff, Bool.and_eq_false_iff,
    decide_eq_false_iff_not, beq_eq_false_iff_ne]
  exact ⟨hne ' ' rfl, by omega⟩

/-- `int(str(n))` is `n` if `n` has at most 4300 digits. -/
theorem pyInt_toString {n : ℤ} (h : n.natAbs < 10 ^ maxStrDigits) :
    pyInt 10 (toString n).toList = some n := by
  have hmagnitude : ∀ m : ℕ, m < 10 ^ maxStrDigits → ∃ ds,
      digitsOf 10 (dropBasePrefix 10 (Nat.toDigits 10 m)) = some ds ∧
      ds.length ≤ maxStrDigits ∧ digitsValue 10 ds = m := by
    intro m hm
    have hdigits : ∀ c ∈ Nat.toDigits 10 m, c.isDigit = true :=
      fun c hc => Json.isDigit_of_mem_digits hc
    obtain ⟨ds, hds, hlength, hfold⟩ :=
      digitsOf_decimal Nat.toDigits_ne_nil hdigits
    refine ⟨ds, dropBasePrefix_ten _ ▸ hds, ?_, ?_⟩
    · rw [hlength, Nat.length_toDigits_le_iff (by decide) (by decide)]
      exact hm
    · have hvalue := (hfold 0).trans Nat.ofDigitChars_ten_toDigits
      simpa [digitsValue, ← List.map_eq_flatMap, List.foldl_map] using hvalue
  have hplain : ∀ m : ℕ, ∀ c ∈ Nat.toDigits 10 m, PlainChar c :=
    fun m c hc => plainChar_of_isDigit (Json.isDigit_of_mem_digits hc)
  rcases Json.toString_int_cases n with ⟨m, rfl, htext⟩ | ⟨m, rfl, htext⟩
  · obtain ⟨ds, hds, hlength, hvalue⟩ := hmagnitude m h
    rw [htext, pyInt_plain (hplain m) hds (Or.inr hlength), hvalue]
  · obtain ⟨ds, hds, hlength, hvalue⟩ := hmagnitude (m + 1) (by omega)
    rw [htext, pyInt_minus (hplain _) hds (Or.inr hlength), hvalue]

end Hooklane
