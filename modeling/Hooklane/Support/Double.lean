import Mathlib.Algebra.Order.Field.Rat
import Mathlib.Algebra.Order.AbsoluteValue.Basic
import Mathlib.Data.Rat.Cast.Order
import Mathlib.Tactic.NormNum

/-!
# Floating-point numbers with their exceptional values

A 64-bit float is `nan`, an infinity or a number.  Numbers are kept as exact
rationals and are not rounded, except that a result beyond the range is an
infinity.  A comparison with `nan` is false.
-/

namespace Support

inductive Double where
  | nan
  | infinite (negative : Bool)
  | finite (value : ℚ)
deriving DecidableEq

namespace Double

/-- Magnitudes from here on are rounded to an infinity: the midpoint behind
the greatest number. -/
def overflow : ℚ := 2 ^ 1024 - 2 ^ 970

/-- The result of an operation whose exact value is `x`. -/
def ofRat (x : ℚ) : Double :=
  if overflow ≤ x then infinite false
  else if x ≤ -overflow then infinite true
  else finite x

def neg : Double → Double
  | nan => nan
  | infinite negative => infinite !negative
  | finite x => finite (-x)

def add : Double → Double → Double
  | nan, _ | _, nan => nan
  | finite x, finite y => ofRat (x + y)
  | infinite s, infinite t => if s = t then infinite s else nan
  | infinite s, finite _ | finite _, infinite s => infinite s

def mul : Double → Double → Double
  | nan, _ | _, nan => nan
  | finite x, finite y => ofRat (x * y)
  | infinite s, infinite t => infinite (s != t)
  | infinite s, finite x | finite x, infinite s =>
      if x = 0 then nan else infinite (s != decide (x < 0))

/-- `x < y`. -/
def lt : Double → Double → Bool
  | nan, _ | _, nan => false
  | finite x, finite y => decide (x < y)
  | infinite s, infinite t => s && !t
  | infinite s, finite _ => s
  | finite _, infinite t => !t

/-- `x <= y`. -/
def le : Double → Double → Bool
  | nan, _ | _, nan => false
  | x, y => !lt y x

@[simp]
theorem lt_finite (x y : ℚ) : lt (finite x) (finite y) = decide (x < y) := rfl

@[simp]
theorem le_finite (x y : ℚ) : le (finite x) (finite y) = decide (x ≤ y) := by
  rw [le, lt_finite, ← decide_not, decide_eq_decide, not_lt] <;> simp

theorem overflow_pos : 0 < overflow := by
  have hlt : (2 : ℚ) ^ 970 < 2 ^ 1024 :=
    pow_lt_pow_right₀ (by norm_num) (by decide)
  exact sub_pos.mpr hlt

/-- A value within the range is kept. -/
theorem ofRat_eq {x : ℚ} (h : |x| < overflow) : ofRat x = finite x := by
  obtain ⟨hlow, hhigh⟩ := abs_lt.mp h
  rw [ofRat, if_neg (not_le.mpr hhigh), if_neg (not_le.mpr hlow)]

theorem infinite_mul {x : ℚ} (h : 0 < x) (negative : Bool) :
    mul (infinite negative) (finite x) = infinite negative := by
  rw [mul, if_neg h.ne', decide_eq_false (not_lt.mpr h.le), Bool.bne_false]

theorem two_pow_le_overflow : (2 : ℚ) ^ 1023 ≤ overflow := by
  have hle : (2 : ℚ) ^ 970 ≤ 2 ^ 1023 :=
    pow_le_pow_right₀ (by norm_num) (by decide)
  have hdouble : (2 : ℚ) ^ 1024 = 2 ^ 1023 + 2 ^ 1023 := by
    rw [pow_succ, mul_two]
  calc (2 : ℚ) ^ 1023 = 2 ^ 1024 - 2 ^ 1023 := by
        rw [hdouble, add_sub_cancel_right]
    _ ≤ overflow := sub_le_sub_left hle _

/-- Values of ordinary size are within the range. -/
theorem ofRat_of_le {x : ℚ} {k : ℕ} (h : |x| ≤ 2 ^ k) (hk : k < 1023) :
    ofRat x = finite x := by
  refine ofRat_eq (h.trans_lt (lt_of_lt_of_le ?_ two_pow_le_overflow))
  exact pow_lt_pow_right₀ (by norm_num) hk

end Double

end Support
