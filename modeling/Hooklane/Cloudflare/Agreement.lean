import Hooklane.Cloudflare.Core
import Mathlib.Algebra.Order.Field.Rat
import Mathlib.Algebra.Order.Ring.Star
import Mathlib.Data.Rat.Star
import Mathlib.Tactic.GCongr
import Mathlib.Tactic.Linarith

/-!
# The two backoffs

The D1 backend computes its retry delay apart from `RetryPolicy`, in whole
seconds as the queue wants them.  With the default policy and the same
multiplier the two delays are never more than half a second apart.
-/

namespace Hooklane.Cloudflare

open Support

/-- Rounding moves a number by at most one half. -/
theorem pyRound_near (x : ℚ) :
    x - 1 / 2 ≤ (pyRound x : ℚ) ∧ (pyRound x : ℚ) ≤ x + 1 / 2 := by
  have hlow : (x.floor : ℚ) ≤ x := Rat.floor_le x
  have hhigh : x < (x.floor : ℚ) + 1 := by
    exact_mod_cast Rat.lt_floor_add_one x
  unfold pyRound
  dsimp only
  split_ifs with hsmall hlarge heven <;> push_cast <;> constructor <;> linarith

/-- Rounding keeps an integer bound from below. -/
theorem le_pyRound {x : ℚ} {k : ℤ} (h : (k : ℚ) - 1 / 2 < x) :
    k ≤ pyRound x := by
  have hnear := (pyRound_near x).1
  have hlt : ((k - 1 : ℤ) : ℚ) < (pyRound x : ℚ) := by
    push_cast
    linarith
  have := Int.cast_lt.mp hlt
  omega

/-- The uncapped and jittered delay of both backends. -/
def jittered (attemptCount : ℕ) (multiplier : ℚ) : ℚ :=
  min (2 ^ min (attemptCount - 1) 62) 60 * multiplier

/-- The delay of the D1 backend, as a function of the multiplier it draws. -/
def queueDelay (attemptCount : ℕ) (multiplier : ℚ) : ℤ :=
  max 1 (min (pyRound (jittered attemptCount multiplier)) 60)

theorem retryDelaySeconds_run {attemptCount : ℕ} (h : 1 ≤ attemptCount) :
    (DeliveryService.retryDelaySeconds attemptCount).run =
      .call (.uniform (3 / 4) (5 / 4)) fun multiplier =>
        .pure (.ok (queueDelay attemptCount multiplier)) := by
  unfold DeliveryService.retryDelaySeconds
  rw [if_neg (Nat.not_lt.mpr h)]
  rfl

theorem delaySeconds_default {attemptCount : ℕ} (h : 1 ≤ attemptCount)
    {multiplier : ℚ} (hlow : 3 / 4 ≤ multiplier)
    (hhigh : multiplier ≤ 5 / 4) :
    RetryPolicy.delaySeconds {} attemptCount multiplier =
      some (.finite (min (jittered attemptCount multiplier) 60)) := by
  have hexponent : (min ((attemptCount : ℤ) - 1) 62).toNat =
      min (attemptCount - 1) 62 := by
    omega
  have hpos : (0 : ℚ) < 2 ^ min (attemptCount - 1) 62 := by positivity
  have huncapped : Double.mul (.finite 1)
      (.finite (2 ^ min (attemptCount - 1) 62)) =
        .finite (2 ^ min (attemptCount - 1) 62) := by
    rw [Double.mul, one_mul]
    refine Double.ofRat_of_le (abs_of_pos hpos).le ?_
    omega
  have hbackoff : Double.mul
      (.finite (min (2 ^ min (attemptCount - 1) 62) 60)) (.finite multiplier) =
        .finite (jittered attemptCount multiplier) := by
    have hnonneg := (le_min hpos.le (by norm_num) :
      (0 : ℚ) ≤ min (2 ^ min (attemptCount - 1) 62) 60)
    rw [Double.mul]
    refine Double.ofRat_of_le (?_ : _ ≤ (2 : ℚ) ^ 7) (by decide)
    rw [abs_of_nonneg (mul_nonneg hnonneg (by linarith))]
    calc min (2 ^ min (attemptCount - 1) 62) 60 * multiplier
        ≤ 60 * (5 / 4) := mul_le_mul (min_le_right _ _) hhigh
          (by linarith) (by norm_num)
      _ ≤ 2 ^ 7 := by norm_num
  rw [RetryPolicy.delaySeconds, if_neg (by omega)]
  simp only [hexponent, huncapped, pyMin_finite, hbackoff]

theorem jittered_ge (attemptCount : ℕ) {multiplier : ℚ}
    (h : 3 / 4 ≤ multiplier) : 3 / 4 ≤ jittered attemptCount multiplier := by
  have hbackoff : (1 : ℚ) ≤ min (2 ^ min (attemptCount - 1) 62) 60 :=
    le_min (one_le_pow₀ (by norm_num)) (by norm_num)
  calc (3 : ℚ) / 4 ≤ multiplier := h
    _ = 1 * multiplier := (one_mul _).symm
    _ ≤ jittered attemptCount multiplier := by
        unfold jittered
        gcongr

/-- For every attempt and every multiplier that can be drawn, the two backends
wait for between one second (three quarters of one, without rounding) and one
minute, and their delays differ by at most half a second. -/
theorem backoffs_agree {attemptCount : ℕ} (hcount : 1 ≤ attemptCount) :
    ∃ delay : ℚ → ℤ,
      (DeliveryService.retryDelaySeconds attemptCount).run =
        .call (.uniform (3 / 4) (5 / 4)) (fun multiplier =>
          .pure (.ok (delay multiplier))) ∧
      ∀ multiplier : ℚ, 3 / 4 ≤ multiplier → multiplier ≤ 5 / 4 →
        ∃ seconds, RetryPolicy.delaySeconds {} attemptCount multiplier =
            some (.finite seconds) ∧
          1 ≤ delay multiplier ∧ delay multiplier ≤ 60 ∧
          3 / 4 ≤ seconds ∧ seconds ≤ 60 ∧
          |(delay multiplier : ℚ) - seconds| ≤ 1 / 2 := by
  refine ⟨queueDelay attemptCount, retryDelaySeconds_run hcount, ?_⟩
  intro multiplier hlow hhigh
  have hx := jittered_ge attemptCount hlow
  have hone : 1 ≤ pyRound (jittered attemptCount multiplier) :=
    le_pyRound (by push_cast; linarith)
  obtain ⟨hbelow, habove⟩ := pyRound_near (jittered attemptCount multiplier)
  refine ⟨_, delaySeconds_default hcount hlow hhigh, le_max_left _ _,
    max_le (by norm_num) (min_le_right _ _), le_min hx (by norm_num),
    min_le_right _ _, ?_⟩
  have hmax : queueDelay attemptCount multiplier =
      min (pyRound (jittered attemptCount multiplier)) 60 :=
    max_eq_right (le_min hone (by norm_num))
  rw [hmax, abs_le]
  rcases le_total (jittered attemptCount multiplier) 60 with hcap | hcap
  · -- rounding a delay of at most a minute does not exceed the minute
    have hround : pyRound (jittered attemptCount multiplier) ≤ 60 := by
      have hlt : (pyRound (jittered attemptCount multiplier) : ℚ) < 61 := by
        linarith
      have := Int.cast_lt.mp (hlt.trans_eq (by norm_num : (61 : ℚ) = ((61 : ℤ) : ℚ)))
      omega
    rw [min_eq_left hround, min_eq_left hcap]
    constructor <;> linarith
  · have hround : 60 ≤ pyRound (jittered attemptCount multiplier) :=
      le_pyRound (by push_cast; linarith)
    rw [min_eq_right hround, min_eq_right hcap]
    norm_num

/-- The third attempt, with the least multiplier. -/
theorem backoffs_agree_example :
    ∃ delay : ℚ → ℤ, ∃ seconds,
      RetryPolicy.delaySeconds {} (3 : ℕ) (3 / 4) = some (.finite seconds) ∧
        1 ≤ delay (3 / 4) ∧ |(delay (3 / 4) : ℚ) - seconds| ≤ 1 / 2 := by
  obtain ⟨delay, -, hdelay⟩ := backoffs_agree (show 1 ≤ 3 by norm_num)
  obtain ⟨seconds, hseconds, hone, -, -, -, hnear⟩ :=
    hdelay (3 / 4) le_rfl (by norm_num)
  exact ⟨delay, seconds, hseconds, hone, hnear⟩

end Hooklane.Cloudflare
