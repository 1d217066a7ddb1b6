import Mathlib.Data.Rat.Floor

/-!
# Division that Rounds Toward Zero

The integer quotient of a machine, against the floor and the ceiling of the
exact one.

Division rounds toward zero, so it is the floor for a non-negative dividend and
the ceiling for a negative one. Code that wants the ceiling often adds one to a
quotient that leaves a remainder, `truncUp`. That is the ceiling for a
non-negative dividend; for a negative one the quotient was the ceiling already,
and the result is one too large.

What a later argument needs of a quotient is where its multiples lie, so each
of these is also stated as a pair of inequalities, with no division in them.

## Main definitions

* `truncUp`: A truncated quotient, plus one when there is a remainder.

## Theorems

* `floor_div_eq_iff`, `ceil_div_eq_iff`: Exact quotients by inequalities.
* `tdiv_bounds_of_nonneg`, `tdiv_bounds_of_neg`: The truncated quotient.
* `truncUp_bounds_of_nonneg`, `truncUp_bounds_of_neg`: The adjusted one.
* `tdiv_add_one_pos_iff`, `truncUp_add_one_pos_iff`: When one more than the
  quotient is positive.
* `truncUp_eq_zero_iff`: When the adjusted quotient is zero.
-/

namespace AscendKernel

/-- A truncated quotient, plus one when there is a remainder. -/
def truncUp (x s : ℤ) : ℤ := if x.tmod s = 0 then x.tdiv s else x.tdiv s + 1

section Bounds

variable (x s : ℤ) (hs : 0 < s)

include hs

/-- The floor of a quotient by the multiples around the dividend. -/
theorem floor_div_eq_iff (f : ℤ) : ⌊(x : ℚ) / s⌋ = f ↔ f * s ≤ x ∧ x < f * s + s := by
  have hs' : (0 : ℚ) < s := Int.cast_pos.mpr hs
  rw [Int.floor_eq_iff, le_div_iff₀ hs', div_lt_iff₀ hs', add_mul, one_mul]
  norm_cast

/-- The ceiling of a quotient by the multiples around the dividend. -/
theorem ceil_div_eq_iff (c : ℤ) : ⌈(x : ℚ) / s⌉ = c ↔ c * s - s < x ∧ x ≤ c * s := by
  have hs' : (0 : ℚ) < s := Int.cast_pos.mpr hs
  rw [Int.ceil_eq_iff, lt_div_iff₀ hs', div_le_iff₀ hs', sub_mul, one_mul]
  norm_cast

/-- Multiples are ordered as their factors are. -/
theorem lt_of_mul_lt {a b : ℤ} (h : a * s < b * s) : a < b := lt_of_mul_lt_mul_right h hs.le

theorem tdiv_bounds_of_nonneg (hx : 0 ≤ x) :
    x.tdiv s * s ≤ x ∧ x < x.tdiv s * s + s ∧ 0 ≤ x.tdiv s := by
  have hdiv := Int.tdiv_mul_add_tmod x s
  have hrem := Int.tmod_nonneg s hx
  have hlt := Int.tmod_lt_of_pos x hs
  exact ⟨by omega, by omega, Int.tdiv_nonneg hx hs.le⟩

theorem tdiv_bounds_of_neg (hx : x < 0) :
    x.tdiv s * s - s < x ∧ x ≤ x.tdiv s * s ∧ x.tdiv s ≤ 0 := by
  -- Truncation is symmetric about zero.
  have h := tdiv_bounds_of_nonneg (-x) s hs (by omega)
  rw [Int.neg_tdiv, Int.neg_mul] at h
  omega

theorem truncUp_bounds_of_nonneg (hx : 0 ≤ x) :
    truncUp x s * s - s < x ∧ x ≤ truncUp x s * s ∧ 0 ≤ truncUp x s := by
  have hdiv := Int.tdiv_mul_add_tmod x s
  have hrem := Int.tmod_nonneg s hx
  have h := tdiv_bounds_of_nonneg x s hs hx
  rw [truncUp]
  by_cases hzero : x.tmod s = 0
  · rw [if_pos hzero]
    omega
  · rw [if_neg hzero, Int.add_mul, Int.one_mul]
    omega

/-- Below zero the adjusted quotient is exact on multiples and one above the
    ceiling elsewhere. -/
theorem truncUp_bounds_of_neg (hx : x < 0) :
    (truncUp x s * s = x ∨ truncUp x s * s - 2 * s < x ∧ x < truncUp x s * s - s)
      ∧ truncUp x s ≤ 1 := by
  have hdiv := Int.tdiv_mul_add_tmod x s
  have h := tdiv_bounds_of_neg x s hs hx
  rw [truncUp]
  by_cases hzero : x.tmod s = 0
  · rw [if_pos hzero]
    exact ⟨Or.inl (by omega), by omega⟩
  · rw [if_neg hzero, Int.add_mul, Int.one_mul]
    exact ⟨Or.inr (by omega), by omega⟩

/-- One more than the truncated quotient is positive down to just above one
    divisor below zero, where the exact floor is negative long before. -/
theorem tdiv_add_one_pos_iff : 0 < x.tdiv s + 1 ↔ -s < x := by
  rcases Int.lt_or_le x 0 with hx | hx
  · have h := tdiv_bounds_of_neg x s hs hx
    constructor
    · intro hpos
      have hzero : x.tdiv s = 0 := by omega
      rw [hzero] at h
      omega
    · intro hlt
      have hmul : -1 * s < x.tdiv s * s := by omega
      have := lt_of_mul_lt s hs hmul
      omega
  · have h := tdiv_bounds_of_nonneg x s hs hx
    omega

/-- One more than the adjusted quotient is positive down to just above two
    divisors below zero, with one divisor itself excepted. -/
theorem truncUp_add_one_pos_iff : 0 < truncUp x s + 1 ↔ -2 * s < x ∧ x ≠ -s := by
  rcases Int.lt_or_le x 0 with hx | hx
  · rcases truncUp_bounds_of_neg x s hs hx with ⟨hcase, hle⟩
    constructor
    · intro hpos
      have hvalue : truncUp x s = 0 ∨ truncUp x s = 1 := by omega
      rcases hvalue with hq | hq <;> rw [hq] at hcase <;> omega
    · rintro ⟨hlt, hne⟩
      by_contra hneg
      -- At most minus one: the dividend is a multiple, or too far down.
      have hmul : truncUp x s * s ≤ -1 * s := Int.mul_le_mul_of_nonneg_right (by omega) hs.le
      rcases hcase with hq | hq
      · have hmul' : -2 * s < truncUp x s * s := by omega
        have hlow := lt_of_mul_lt s hs hmul'
        have hminus : truncUp x s = -1 := by omega
        rw [hminus] at hq
        omega
      · omega
  · have h := truncUp_bounds_of_nonneg x s hs hx
    omega

end Bounds

/-- The truncated quotient is minus one, with a remainder, between one and two
    divisors below zero. -/
theorem tdiv_eq_neg_one_iff (x s : ℤ) (hs : 0 < s) :
    (x.tdiv s = -1 ∧ x.tmod s ≠ 0) ↔ s < -x ∧ -x < 2 * s := by
  have hdiv := Int.tdiv_mul_add_tmod x s
  constructor
  · rintro ⟨hq, hrem⟩
    have hneg : x < 0 := by
      by_contra hx
      have := (tdiv_bounds_of_nonneg x s hs (by omega)).2.2
      omega
    have h := tdiv_bounds_of_neg x s hs hneg
    rw [hq] at h hdiv
    omega
  · rintro ⟨hlow, hhigh⟩
    have h := tdiv_bounds_of_neg x s hs (by omega)
    have hlt := lt_of_mul_lt s hs (a := x.tdiv s) (b := 0) (by omega)
    have hgt := lt_of_mul_lt s hs (a := -2) (b := x.tdiv s) (by omega)
    have hq : x.tdiv s = -1 := by omega
    rw [hq] at hdiv
    exact ⟨hq, by omega⟩

/-- The adjusted quotient is zero at zero, and between one and two divisors on
    the side where the quotient is negative. -/
theorem truncUp_eq_zero_iff (x s : ℤ) (hs : s ≠ 0) :
    truncUp x s = 0 ↔ x = 0 ∨ (s < -x ∧ -x < 2 * s) ∨ (-s < x ∧ x < -2 * s) := by
  have hdiv := Int.tdiv_mul_add_tmod x s
  -- The second case is the first with both signs changed.
  have hneg : (x.tdiv s = -1 ∧ x.tmod s ≠ 0) ↔
      (s < -x ∧ -x < 2 * s) ∨ (-s < x ∧ x < -2 * s) := by
    rcases Int.lt_or_gt_of_ne hs with h | h
    · have hflip := tdiv_eq_neg_one_iff (-x) (-s) (by omega)
      rw [Int.neg_tdiv, Int.tdiv_neg, Int.neg_neg, Int.neg_tmod, Int.tmod_neg] at hflip
      rw [← neg_ne_zero, hflip]
      omega
    · rw [tdiv_eq_neg_one_iff x s h]
      omega
  rw [← hneg, truncUp]
  by_cases hrem : x.tmod s = 0
  · rw [if_pos hrem]
    constructor
    · intro hq
      rw [hq, hrem] at hdiv
      exact Or.inl (by omega)
    · rintro (rfl | h)
      · exact Int.zero_tdiv s
      · exact absurd hrem h.2
  · rw [if_neg hrem]
    constructor
    · intro hq
      exact Or.inr ⟨by omega, hrem⟩
    · rintro (rfl | h)
      · exact absurd (Int.zero_tmod s) hrem
      · omega

end AscendKernel
