import Mathlib.Data.Int.Notation
import Mathlib.Data.Nat.Notation
import Mathlib.Data.List.TakeDrop

/-!
# Decimal text

Redis keeps numbers as text: hash fields hold decimal integers and a stream id
is two decimal numbers joined by a dash.  This module fixes the readers used
by the commands and shows that each one inverts the corresponding writer.
-/

namespace Redis

/-- The value of a nonempty sequence of decimal digits. -/
def parseDigits (cs : List Char) : Option ℕ :=
  if cs ≠ [] ∧ cs.all Char.isDigit then some (Nat.ofDigitChars 10 cs 0) else none

theorem parseDigits_toDigits (n : ℕ) :
    parseDigits (Nat.toDigits 10 n) = some n := by
  have hdigits : (Nat.toDigits 10 n).all Char.isDigit := by
    rw [List.all_eq_true]
    intro c hc
    exact Nat.isDigit_of_mem_toDigits (by decide) (by decide) hc
  rw [parseDigits, if_pos ⟨Nat.toDigits_ne_nil, hdigits⟩,
    Nat.ofDigitChars_ten_toDigits]

/-- A number of 64 bits has at most twenty digits. -/
theorem length_toDigits_le {n : ℕ} (h : n < UInt64.size) :
    (Nat.toDigits 10 n).length ≤ 20 := by
  have hbound : UInt64.size ≤ 10 ^ 20 := by decide
  exact (Nat.length_toDigits_le_iff (by decide) (by decide)).mpr
    (Nat.lt_of_lt_of_le h hbound)

theorem dash_notMem_toDigits (n : ℕ) : '-' ∉ Nat.toDigits 10 n := by
  intro h
  have hdigit : ('-').isDigit = true :=
    Nat.isDigit_of_mem_toDigits (by decide) (by decide) h
  exact absurd hdigit (by decide)

/-- The smallest and one past the largest signed 64-bit integer. -/
def int64Bound : ℤ := 9223372036854775808

/-- `string2ll`: exactly the canonical texts of signed 64-bit integers. -/
def string2ll (text : String) : Option ℤ :=
  let value : Option ℤ :=
    match text.toList with
    | '-' :: cs => (parseDigits cs).map fun n => -(n : ℤ)
    | cs => (parseDigits cs).map fun n => (n : ℤ)
  value.filter fun n =>
    decide (-int64Bound ≤ n) && decide (n < int64Bound) && toString n == text

theorem le_of_string2ll {text : String} {n : ℤ}
    (h : string2ll text = some n) : -int64Bound ≤ n := by
  have hfilter := (Option.filter_eq_some_iff.mp h).2
  simp only [Bool.and_eq_true, decide_eq_true_eq] at hfilter
  exact hfilter.1.1

theorem string2ll_natRepr {n : ℕ} (h : (n : ℤ) < int64Bound) :
    string2ll (toString n) = some (n : ℤ) := by
  have hlist : (toString n).toList = Nat.toDigits 10 n := Nat.toList_repr
  have hparse : (match (toString n).toList with
      | '-' :: cs => (parseDigits cs).map fun m => -(m : ℤ)
      | cs => (parseDigits cs).map fun m => (m : ℤ)) = some (n : ℤ) := by
    rw [hlist]
    split
    · next cs heq =>
      exact absurd (heq ▸ List.mem_cons_self) (dash_notMem_toDigits n)
    · rw [parseDigits_toDigits]
      rfl
  have hlow : -int64Bound ≤ (n : ℤ) := by
    unfold int64Bound
    omega
  have htext : toString (n : ℤ) = toString n := rfl
  rw [string2ll, hparse]
  simp [Option.filter, hlow, h, htext]

/-- Lua's pattern `^%d+$`. -/
def isDecimal (text : String) : Bool :=
  (parseDigits text.toList).isSome

/-- Lua's `tonumber` on a text of decimal digits. -/
def decimalValue (text : String) : Option ℕ :=
  parseDigits text.toList

theorem decimalValue_natRepr (n : ℕ) : decimalValue (toString n) = some n := by
  have hlist : (toString n).toList = Nat.toDigits 10 n := Nat.toList_repr
  rw [decimalValue, hlist, parseDigits_toDigits]

/-- Two digit sequences joined by a dash: Lua's pattern `^%d+%-%d+$`. -/
def parsePair (text : String) : Option (ℕ × ℕ) :=
  match text.toList.span (· ≠ '-') with
  | (left, '-' :: right) => do
      let a ← parseDigits left
      let b ← parseDigits right
      return (a, b)
  | _ => none

theorem span_toDigits_dash (n : ℕ) (rest : List Char) :
    (Nat.toDigits 10 n ++ '-' :: rest).span (· ≠ '-') =
      (Nat.toDigits 10 n, '-' :: rest) := by
  have hall : ∀ c ∈ Nat.toDigits 10 n, decide (c ≠ '-') = true := by
    intro c hc
    rw [decide_eq_true_eq]
    rintro rfl
    exact dash_notMem_toDigits n hc
  rw [List.span_eq_takeWhile_dropWhile, List.takeWhile_append_of_pos hall,
    List.dropWhile_append_of_pos hall]
  simp

theorem toList_pair (a b : ℕ) : (toString a ++ "-" ++ toString b).toList =
    Nat.toDigits 10 a ++ '-' :: Nat.toDigits 10 b := by
  have ha : (toString a).toList = Nat.toDigits 10 a := Nat.toList_repr
  have hb : (toString b).toList = Nat.toDigits 10 b := Nat.toList_repr
  rw [String.toList_append, String.toList_append, ha, hb]
  simp

theorem parsePair_natRepr (a b : ℕ) :
    parsePair (toString a ++ "-" ++ toString b) = some (a, b) := by
  rw [parsePair, toList_pair, span_toDigits_dash]
  simp [parseDigits_toDigits]

end Redis
