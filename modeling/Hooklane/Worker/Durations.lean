import Mathlib.Tactic.Linarith
import Hooklane.Worker.Service

/-!
# When a retry can be scheduled

The due time of a retry is a float that is turned into an integer, which
raises for `nan` and beyond the range of floats.  The checks of `RetryPolicy`
let such delays pass.  They are told apart here by the values of the policy:
whatever is drawn and whatever the clock shows, the conversion succeeds exactly
when the longest delay of the attempt leaves room for the clock.
-/

namespace Hooklane

open Support

/-- Delays up to here can be added to every clock reading and be counted in
milliseconds. -/
def longestDelay : ℚ := Double.overflow / 1000 - 2 ^ 63

/-- Every delay of ordinary size is shorter. -/
theorem two_pow_le_longestDelay : (2 : ℚ) ^ 63 ≤ longestDelay := by
  have hclock : (2 : ℚ) ^ 64 * 1000 ≤ Double.overflow :=
    calc (2 : ℚ) ^ 64 * 1000 ≤ 2 ^ 74 := by norm_num
      _ ≤ 2 ^ 1023 := pow_le_pow_right₀ (by norm_num) (by decide)
      _ ≤ Double.overflow := Double.two_pow_le_overflow
  rw [longestDelay]
  linarith

theorem longestDelay_pos : 0 < longestDelay :=
  lt_of_lt_of_le (by norm_num) two_pow_le_longestDelay

theorem longestDelay_lt : longestDelay < Double.overflow := by
  have hpos := Double.overflow_pos
  rw [longestDelay]
  linarith

/-- A number of seconds that the retry can be delayed by. -/
def ShortDelay (delay : Double) : Prop :=
  ∃ seconds, delay = .finite seconds ∧ 0 ≤ seconds ∧ seconds ≤ longestDelay

/-- A delay that is too long for some reading of the clock. -/
def LongDelay (delay : Double) : Prop :=
  delay = .infinite false ∨ ∃ seconds, delay = .finite seconds ∧
    longestDelay < seconds

/-- The delay after the attempt stays in the range of floats: its exponential
part, jitter included, or its cap does. -/
def RetryPolicy.Schedulable (policy : RetryPolicy) (attemptCount : ℤ) : Prop :=
  ∃ base, policy.baseDelaySeconds = .finite base ∧
    (base * 2 ^ (min (attemptCount - 1) 62).toNat * (1 + policy.jitterRatio) ≤
        longestDelay ∨
      ∃ maximum, policy.maximumDelaySeconds = .finite maximum ∧
        maximum ≤ longestDelay)

namespace EventWorker

variable (worker : EventWorker)

/-- The attempts that the dead-letter policy leaves to the retry policy. -/
def Retried (attemptCount : ℤ) : Prop :=
  ∀ deadLetters ∈ worker.deadLetterPolicy,
    attemptCount < deadLetters.maximumAttempts

/-- The attempt can be scheduled anew, if the worker retries it. -/
def Schedulable (attemptCount : ℤ) : Prop :=
  ∀ policy ∈ worker.retryPolicy, worker.Retried attemptCount →
    policy.Schedulable attemptCount

end EventWorker

/-- The seconds of `accepted_at_ms` are a float. -/
def QueuedEvent.Convertible (queuedEvent : QueuedEvent) : Prop :=
  (queuedEvent.acceptedAtMs : ℚ) / 1000 < Double.overflow

instance : DecidablePred QueuedEvent.Convertible := fun queuedEvent =>
  inferInstanceAs (Decidable
    ((queuedEvent.acceptedAtMs : ℚ) / 1000 < Double.overflow))

theorem dueAtMs_of_short (now : WallTime) {delay : Double}
    (h : ShortDelay delay) : ∃ due, EventWorker.dueAtMs now delay = some due := by
  obtain ⟨seconds, rfl, hnonneg, hle⟩ := h
  obtain ⟨hlow, hhigh⟩ := now.inRange
  have hover := Double.overflow_pos
  have hclock := longestDelay_pos
  rw [longestDelay] at hle hclock
  have hsum : Double.ofRat (now.seconds + seconds) =
      .finite (now.seconds + seconds) := by
    refine Double.ofRat_eq (abs_lt.mpr ⟨?_, ?_⟩)
    · linarith
    · linarith
  have hproduct : Double.ofRat ((now.seconds + seconds) * 1000) =
      .finite ((now.seconds + seconds) * 1000) := by
    refine Double.ofRat_eq (abs_lt.mpr ⟨?_, ?_⟩)
    · linarith
    · linarith
  refine ⟨truncate ((now.seconds + seconds) * 1000), ?_⟩
  rw [EventWorker.dueAtMs, Double.add, hsum, Double.mul, hproduct, intOfFloat]

/-- The clock readings that a long delay is added to in vain. -/
theorem dueAtMs_of_long {delay : Double} (h : LongDelay delay) :
    ∃ now : WallTime, EventWorker.dueAtMs now delay = none := by
  obtain rfl | ⟨seconds, rfl, hlong⟩ := h
  · exact ⟨⟨0, by norm_num⟩, rfl⟩
  · have hover := Double.overflow_pos
    have hpos := longestDelay_pos.trans hlong
    rw [longestDelay] at hlong
    obtain ⟨now, hrange, hlate⟩ : ∃ now : ℚ, (-2 ^ 63 < now ∧ now < 2 ^ 63) ∧
        Double.overflow / 1000 ≤ now + seconds := by
      refine ⟨max 0 (Double.overflow / 1000 - seconds), ⟨?_, ?_⟩, ?_⟩
      · exact lt_of_lt_of_le (by norm_num) (le_max_left _ _)
      · exact max_lt (by norm_num) (by linarith)
      · linarith [le_max_right 0 (Double.overflow / 1000 - seconds)]
    refine ⟨⟨now, hrange⟩, ?_⟩
    rw [EventWorker.dueAtMs, Double.add]
    rcases lt_or_ge (now + seconds) Double.overflow with hlt | hge
    · have hsum : Double.ofRat (now + seconds) = .finite (now + seconds) :=
        Double.ofRat_eq (abs_lt.mpr ⟨by linarith, hlt⟩)
      have hproduct : Double.ofRat ((now + seconds) * 1000) =
          .infinite false := if_pos (by linarith)
      rw [hsum, Double.mul, hproduct, intOfFloat]
    · rw [Double.ofRat, if_pos hge]
      rfl

theorem pyMin_ofRat {x y : ℚ} (hx : 0 ≤ x) (hy : 0 ≤ y) :
    ∃ d, pyMin (Double.ofRat x) (.finite y) = .finite d ∧ 0 ≤ d ∧ d ≤ y := by
  have hover := Double.overflow_pos
  rw [Double.ofRat]
  split
  · exact ⟨y, rfl, hy, le_rfl⟩
  · rw [if_neg (by linarith), pyMin_finite]
    exact ⟨min x y, rfl, le_min hx hy, min_le_right _ _⟩

theorem ofRat_short {x : ℚ} (hx : 0 ≤ x) (h : x ≤ longestDelay) :
    Double.ofRat x = .finite x := by
  refine Double.ofRat_eq ?_
  rw [abs_of_nonneg hx]
  exact h.trans_lt longestDelay_lt

theorem ofRat_long {x : ℚ} (h : longestDelay < x) :
    LongDelay (Double.ofRat x) := by
  have hover := Double.overflow_pos
  have hpos := longestDelay_pos
  rw [Double.ofRat]
  split
  · exact Or.inl rfl
  · rw [if_neg (by linarith)]
    exact Or.inr ⟨x, rfl, h⟩

theorem long_mul {x factor : ℚ} (hx : 0 < x) (hfactor : 1 ≤ factor)
    (h : longestDelay < x * factor) :
    LongDelay ((Double.ofRat x).mul (.finite factor)) := by
  rw [Double.ofRat]
  split
  · rw [Double.infinite_mul (by linarith)]
    exact Or.inl rfl
  · rw [if_neg (by linarith [Double.overflow_pos]), Double.mul]
    exact ofRat_long h

theorem long_pyMin {delay : Double} (h : LongDelay delay) {maximum : ℚ}
    (hmaximum : longestDelay < maximum) :
    LongDelay (pyMin delay (.finite maximum)) := by
  obtain rfl | ⟨seconds, rfl, hlong⟩ := h
  · exact Or.inr ⟨maximum, rfl, hmaximum⟩
  · rw [pyMin_finite]
    exact Or.inr ⟨_, rfl, lt_min hlong hmaximum⟩

theorem long_capped {x maximum factor : ℚ} (hx : 0 < x)
    (h : longestDelay < x * factor) (h' : longestDelay < maximum * factor) :
    LongDelay ((pyMin (Double.ofRat x) (.finite maximum)).mul
      (.finite factor)) := by
  rw [Double.ofRat]
  split
  · exact ofRat_long h'
  · rw [if_neg (by linarith [Double.overflow_pos]), pyMin_finite, Double.mul]
    refine ofRat_long ?_
    rcases min_choice x maximum with heq | heq
    · rwa [heq]
    · rwa [heq]

section Policy

variable (policy : RetryPolicy)

/-- What the checks of the policy let pass. -/
theorem RetryPolicy.base_cases :
    policy.baseDelaySeconds = .nan ∨
      policy.baseDelaySeconds = .infinite false ∨
      ∃ base, policy.baseDelaySeconds = .finite base ∧ 0 < base := by
  have hpos := policy.base_pos
  cases hbase : policy.baseDelaySeconds with
  | nan => exact Or.inl rfl
  | infinite negative =>
      cases negative with
      | false => exact Or.inr (Or.inl rfl)
      | true =>
          rw [hbase] at hpos
          cases hpos
  | finite base =>
      rw [hbase, Double.le_finite, decide_eq_false_iff_not, not_le] at hpos
      exact Or.inr (Or.inr ⟨base, rfl, hpos⟩)

/-- A maximum of `nan` or infinity is no cap. -/
theorem RetryPolicy.maximum_cases {base : ℚ}
    (hbase : policy.baseDelaySeconds = .finite base) :
    (∀ x, pyMin x policy.maximumDelaySeconds = x) ∨
      ∃ maximum, policy.maximumDelaySeconds = .finite maximum ∧
        base ≤ maximum := by
  have hle := policy.base_le
  cases hmaximum : policy.maximumDelaySeconds with
  | nan =>
      refine Or.inl fun x => ?_
      cases x <;> rfl
  | infinite negative =>
      cases negative with
      | false =>
          refine Or.inl fun x => ?_
          cases x <;> rfl
      | true =>
          rw [hmaximum, hbase] at hle
          cases hle
  | finite maximum =>
      rw [hmaximum, hbase, Double.lt_finite, decide_eq_false_iff_not,
        not_lt] at hle
      exact Or.inr ⟨maximum, rfl, hle⟩

/-- The cap lowers a delay, but not below zero. -/
theorem RetryPolicy.pyMin_maximum {base delay : ℚ}
    (hbase : policy.baseDelaySeconds = .finite base) (hpos : 0 < base)
    (hdelay : 0 ≤ delay) :
    ∃ capped, pyMin (.finite delay) policy.maximumDelaySeconds =
      .finite capped ∧ 0 ≤ capped ∧ capped ≤ delay := by
  obtain hmin | ⟨maximum, hmaximum, hbelow⟩ := policy.maximum_cases hbase
  · exact ⟨delay, hmin _, hdelay, le_rfl⟩
  · rw [hmaximum, pyMin_finite]
    exact ⟨_, rfl, le_min hdelay (hpos.le.trans hbelow), min_le_left _ _⟩

/-- The delay of a policy that is schedulable is short, whatever is drawn. -/
theorem RetryPolicy.Schedulable.delaySeconds {policy : RetryPolicy}
    {attemptCount : ℤ} (h : policy.Schedulable attemptCount)
    (hcount : 1 ≤ attemptCount) {multiplier : ℚ} (hnonneg : 0 ≤ multiplier)
    (hle : multiplier ≤ 1 + policy.jitterRatio) :
    ∃ delay, policy.delaySeconds attemptCount multiplier = some delay ∧
      ShortDelay delay := by
  obtain ⟨base, hbase, hlength⟩ := h
  have hpos : 0 < base := by
    simpa [hbase] using policy.base_pos
  rw [RetryPolicy.delaySeconds, if_neg (not_lt.mpr hcount)]
  refine ⟨_, rfl, ?_⟩
  rw [hbase, Double.mul]
  generalize (min (attemptCount - 1) 62).toNat = exponent at hlength ⊢
  have hgrown : 0 ≤ base * 2 ^ exponent := by positivity
  generalize base * 2 ^ exponent = grown at hlength hgrown
  obtain hlength | ⟨maximum, hmaximum, hcap⟩ := hlength
  · have hjitter := policy.jitter_nonneg
    have hshort : grown ≤ longestDelay := by nlinarith
    obtain ⟨backoff, hbackoff, hbackoff', hle'⟩ :=
      policy.pyMin_maximum hbase hpos hgrown
    have hproduct : backoff * multiplier ≤ longestDelay :=
      calc backoff * multiplier ≤ grown * multiplier :=
            mul_le_mul_of_nonneg_right hle' hnonneg
        _ ≤ grown * (1 + policy.jitterRatio) :=
            mul_le_mul_of_nonneg_left hle hgrown
        _ ≤ longestDelay := hlength
    have hproduct' : 0 ≤ backoff * multiplier := by positivity
    obtain ⟨delay, hdelay, hdelay', hcapped⟩ :=
      policy.pyMin_maximum hbase hpos hproduct'
    rw [ofRat_short hgrown hshort, hbackoff, Double.mul,
      ofRat_short hproduct' hproduct, hdelay]
    exact ⟨delay, rfl, hdelay', hcapped.trans hproduct⟩
  · have hbelow : 0 ≤ maximum := by
      have hle := policy.base_le
      rw [hbase, hmaximum, Double.lt_finite, decide_eq_false_iff_not,
        not_lt] at hle
      exact hpos.le.trans hle
    rw [hmaximum]
    obtain ⟨backoff, hbackoff, hbackoff', -⟩ := pyMin_ofRat hgrown hbelow
    rw [hbackoff, Double.mul]
    obtain ⟨delay, hdelay, hdelay', hcapped⟩ :=
      pyMin_ofRat (mul_nonneg hbackoff' hnonneg) hbelow
    exact ⟨delay, hdelay, hdelay', hcapped.trans hcap⟩

/-- A delay that is no number, or too long for some reading of the clock. -/
theorem RetryPolicy.exists_delay_of_not_schedulable {policy : RetryPolicy}
    {attemptCount : ℤ} (h : ¬policy.Schedulable attemptCount)
    (hcount : 1 ≤ attemptCount) :
    ∃ delay, policy.delaySeconds attemptCount (1 + policy.jitterRatio) =
      some delay ∧ (delay = .nan ∨ LongDelay delay) := by
  have hjitter := policy.jitter_nonneg
  rw [RetryPolicy.delaySeconds, if_neg (not_lt.mpr hcount)]
  refine ⟨_, rfl, ?_⟩
  have hpower : (0 : ℚ) < 2 ^ (min (attemptCount - 1) 62).toNat := by
    positivity
  rw [RetryPolicy.Schedulable] at h
  generalize (2 : ℚ) ^ (min (attemptCount - 1) 62).toNat = power at h hpower ⊢
  obtain hbase | hbase | ⟨base, hbase, hpos⟩ := policy.base_cases
  · have hmin : ∀ y, pyMin .nan y = .nan := fun y => by cases y <;> rfl
    rw [hbase, Double.mul, hmin, Double.mul, hmin]
    exact Or.inl rfl
  · have hmin : pyMin (.infinite false) policy.maximumDelaySeconds =
        .infinite false := if_neg (by
      rw [← hbase, policy.base_le]
      exact Bool.false_ne_true)
    rw [hbase, Double.infinite_mul hpower, hmin,
      Double.infinite_mul (by linarith), hmin]
    exact Or.inr (Or.inl rfl)
  · refine Or.inr ?_
    simp only [hbase, Double.finite.injEq, exists_eq_left', not_or, not_le,
      not_exists, not_and] at h
    obtain ⟨hlength, hcap⟩ := h
    rw [hbase, Double.mul]
    have hgrown : 0 < base * power := by positivity
    generalize base * power = grown at hlength hgrown
    have hfactor : 1 ≤ 1 + policy.jitterRatio := by linarith
    generalize 1 + policy.jitterRatio = factor at hlength hfactor ⊢
    obtain hmin | ⟨maximum, hmaximum, -⟩ := policy.maximum_cases hbase
    · rw [hmin, hmin]
      exact long_mul hgrown hfactor hlength
    · have hcap := hcap maximum hmaximum
      have hlater : longestDelay < maximum * factor := by
        nlinarith [longestDelay_pos]
      rw [hmaximum]
      exact long_pyMin (long_capped hgrown hlength hlater) hcap

/-- Whatever is drawn and whatever the clock shows, the due time of a retry can
be computed exactly when the policy is schedulable. -/
theorem RetryPolicy.schedulable_iff {attemptCount : ℤ}
    (hcount : 1 ≤ attemptCount) :
    policy.Schedulable attemptCount ↔
      ∀ multiplier, 1 - policy.jitterRatio ≤ multiplier →
        multiplier ≤ 1 + policy.jitterRatio → ∀ now, ∃ delay due,
          policy.delaySeconds attemptCount multiplier = some delay ∧
            EventWorker.dueAtMs now delay = some due := by
  constructor
  · intro h multiplier hge hle now
    have hnonneg : 0 ≤ multiplier := by linarith [policy.jitter_le_one]
    obtain ⟨delay, hdelay, hshort⟩ := h.delaySeconds hcount hnonneg hle
    obtain ⟨due, hdue⟩ := dueAtMs_of_short now hshort
    exact ⟨delay, due, hdelay, hdue⟩
  · intro hall
    by_contra h
    obtain ⟨delay, hdelay, hlong⟩ := exists_delay_of_not_schedulable h hcount
    obtain ⟨now, hnow⟩ : ∃ now, EventWorker.dueAtMs now delay = none := by
      obtain rfl | hlong := hlong
      · exact ⟨⟨0, by norm_num⟩, rfl⟩
      · exact dueAtMs_of_long hlong
    have hjitter := policy.jitter_nonneg
    obtain ⟨delay', due, hdelay', hdue⟩ :=
      hall (1 + policy.jitterRatio) (by linarith) le_rfl now
    obtain rfl := Option.some.inj (hdelay.symm.trans hdelay')
    rw [hnow] at hdue
    cases hdue

end Policy

end Hooklane
