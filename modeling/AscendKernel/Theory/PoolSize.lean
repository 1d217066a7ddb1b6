import AscendKernel.Library.Rounding
import AscendKernel.Theory.PoolArguments

/-!
# The Size of One Axis

The size the code computes for an axis, in exact integers, and when it is
positive.

The source checks each size and afterwards, in ceil mode, may take one off.
The check therefore is not a check of what is returned: a size of one that is
taken off becomes zero. `axisSize_pos_iff` finds the cases. The quotient has to
round to zero, which truncation followed by the adjustment makes of a window
sticking out by one to two strides as well, and the correction has to apply to
the first window, which takes an axis with nothing in it but padding.

For the arguments one would normally give, the 64-bit arithmetic is exact.
`pooledSize_toInt` and `axisSize_toInt` replace it by `quotient` and
`exactSize`, under bounds that fail only for windows near the end of the word
range; what is left of the machine then is the `int` the input size passes
through.

## Main definitions

* `quotient`, `exactSize`: The size of an axis in exact integers.
* `outputSize`: An axis of the returned shape.
* `Vanishes`: Arguments for which a checked size is returned as zero.

## Theorems

* `poolSpan_toInt`: The dividend in exact integers.
* `pooledSize_toInt`, `axisSize_toInt`: The sizes in exact integers.
* `sizes_positive_iff`: When all returned sizes are positive.
-/

namespace AscendKernel

/-- A number in the word range is its own remainder. -/
theorem bmod_word (z : ℤ) (hlo : -2 ^ 63 ≤ z) (hhi : z < 2 ^ 63) : z.bmod (2 ^ 64) = z :=
  Int.bmod_eq_of_le_mul_two (by omega) (by omega)

/-- What the sizes are computed from, up to wrapping. -/
theorem poolSpan_bmod (m : Int32) (k p : Int64) :
    (poolSpan m k p).toInt = (m.toInt + 2 * p.toInt - k.toInt).bmod (2 ^ 64) := by
  have htwo : (2 : Int64).toInt = 2 := rfl
  rw [poolSpan, Int64.toInt_sub, Int64.toInt_add, Int64.toInt_mul, Int32.toInt_toInt64, htwo,
    Int.add_bmod_bmod, Int.bmod_sub_bmod]

/-- It is exact for an axis that is not negative, and for windows that leave
    room below. -/
theorem poolSpan_toInt (m : Int32) (k p : Int64) (hp : 0 ≤ p.toInt)
    (hpk : 2 * p.toInt ≤ k.toInt) (hexact : 0 ≤ m.toInt ∨ k.toInt ≤ 2 ^ 62) :
    (poolSpan m k p).toInt = m.toInt + 2 * p.toInt - k.toInt := by
  have hm := m.toInt_lt
  have hm' := m.le_toInt
  have hk := k.toInt_lt
  rw [poolSpan_bmod]
  exact bmod_word _ (by omega) (by omega)

theorem toInt_ne_zero {s : Int64} (h : s ≠ 0) : s.toInt ≠ 0 := by
  intro hzero
  exact h (Int64.toInt_inj.mp (hzero.trans Int64.toInt_zero.symm))

/-- A remainder is zero when the exact one is. -/
theorem mod_eq_zero_iff (x s : Int64) : x % s = 0 ↔ x.toInt.tmod s.toInt = 0 := by
  rw [← Int64.toInt_inj, Int64.toInt_mod, Int64.toInt_zero]

/-- The adjusted quotient, up to wrapping. -/
theorem ceilDiv_bmod (x s : Int64) (hs : s ≠ 0) :
    (ceilDiv x s).toInt = (truncUp x.toInt s.toInt).bmod (2 ^ 64) := by
  rw [ceilDiv, if_neg hs, truncUp]
  by_cases hrem : x % s = 0
  · rw [if_pos hrem, if_pos ((mod_eq_zero_iff x s).mp hrem), Int64.toInt_div]
  · rw [if_neg hrem, if_neg (fun h => hrem ((mod_eq_zero_iff x s).mpr h)), Int64.toInt_add,
      Int64.toInt_div, Int.bmod_add_bmod, Int64.toInt_one]

/-- No quotient of two words is larger than its dividend, but for the one added
    to it. -/
theorem truncUp_abs_le (x s : ℤ) : -x.natAbs ≤ truncUp x s ∧ truncUp x s ≤ x.natAbs + 1 := by
  have h := Int.natAbs_tdiv_le_natAbs x s
  rw [truncUp]
  by_cases hrem : x.tmod s = 0
  · rw [if_pos hrem]
    omega
  · rw [if_neg hrem]
    omega

/-- The adjusted quotient is zero when the exact one is. -/
theorem ceilDiv_eq_zero_iff (x s : Int64) (hs : s ≠ 0) :
    ceilDiv x s = 0 ↔ truncUp x.toInt s.toInt = 0 := by
  have hx := x.toInt_lt
  have hx' := x.le_toInt
  have h := truncUp_abs_le x.toInt s.toInt
  rw [← Int64.toInt_inj, ceilDiv_bmod x s hs, Int64.toInt_zero]
  constructor
  · intro hzero
    -- A multiple of the word range that is no larger than half of it.
    have hdvd := Int.dvd_of_bmod_eq_zero hzero
    omega
  · intro hzero
    rw [hzero]
    rfl

/-- An axis of a returned shape. -/
def outputSize (out : List Int64) (a : Axis) : Int64 := out.getD (out.length - 3 + a.index) 0

theorem outputSize_append (front : List Int64) (f : Axis → Int64) (a : Axis) :
    outputSize (front ++ Axis.list f) a = f a := by
  have hlen : (front ++ Axis.list f).length - 3 = front.length := by
    rw [List.length_append]
    exact Nat.add_sub_cancel _ 3
  rw [outputSize, hlen, List.getD_eq_getElem?_getD, List.getElem?_append_right (by omega),
    Nat.add_sub_cancel_left]
  cases a <;> rfl

/-- Arguments of one axis for which a size that passed its check is returned as
    zero in ceil mode: there is nothing in the padded axis past its front
    padding, and what is computed from is zero, or between one and two strides
    on the far side of zero. -/
def Vanishes (self_x : Int32) (kernel stride padding : Int64) : Prop :=
  self_x.toInt + padding.toInt ≤ 0 ∧
    let x := (poolSpan self_x kernel padding).toInt
    let s := stride.toInt
    x = 0 ∨ (s < -x ∧ -x < 2 * s) ∨ (-s < x ∧ x < -2 * s)

section OneAxis

variable (m : Int32) (k s p : Int64)

/-- Padding at most half of a window leaves room in a word. -/
theorem padding_bound (hp : 0 ≤ p) (hhalf : p ≤ k / 2) :
    0 ≤ p.toInt ∧ p.toInt ≤ 2 ^ 62 ∧ (p.toInt = 0 ∨ 2 * p.toInt ≤ k.toInt) := by
  have htwo : (2 : Int64).toInt = 2 := rfl
  have hk := k.toInt_lt
  have hk' := k.le_toInt
  rw [Int64.le_iff_toInt_le, Int64.toInt_zero] at hp
  rw [Int64.le_iff_toInt_le, Int64.toInt_div_of_ne_right _ _ (by decide), htwo] at hhalf
  -- Half of a negative kernel is at most zero, which leaves no padding.
  rcases Int.lt_or_le k.toInt 0 with hneg | hpos
  · have h := tdiv_bounds_of_neg k.toInt 2 (by omega) hneg
    omega
  · have h := tdiv_bounds_of_nonneg k.toInt 2 (by omega) hpos
    omega

theorem padded_toInt (hp : 0 ≤ p.toInt) (hp' : p.toInt ≤ 2 ^ 62) :
    (m.toInt64 + p).toInt = m.toInt + p.toInt := by
  have hm := m.toInt_lt
  have hm' := m.le_toInt
  rw [Int64.toInt_add, Int32.toInt_toInt64]
  exact bmod_word _ (by omega) (by omega)

/-- The correction makes a checked size zero when it was one and the first
    window already starts past the padded axis. -/
theorem corrected_pos_iff (q : Int64) (hq : 0 < q) (hp : 0 ≤ p.toInt) (hp' : p.toInt ≤ 2 ^ 62) :
    1 ≤ correctedSize true q m s p ↔ ¬ (m.toInt + p.toInt ≤ 0 ∧ q = 1) := by
  have hone : (1 : Int64).toInt = 1 := rfl
  rw [Int64.lt_iff_toInt_lt, Int64.toInt_zero] at hq
  change 1 ≤ (if (q - 1) * s ≥ m.toInt64 + p then q - 1 else q) ↔ _
  by_cases h1 : q = 1
  · -- The first window starts at zero.
    have hstart : (q - 1) * s ≥ m.toInt64 + p ↔ m.toInt + p.toInt ≤ 0 := by
      rw [h1, show (1 : Int64) - 1 = 0 from rfl, Int64.zero_mul, ge_iff_le, Int64.le_iff_toInt_le,
        padded_toInt m p hp hp', Int64.toInt_zero]
    by_cases hcase : m.toInt + p.toInt ≤ 0
    · rw [if_pos (hstart.mpr hcase), h1]
      simp [hcase]
    · rw [if_neg (fun h => hcase (hstart.mp h)), h1]
      simp [hcase]
  · have hqlt := q.toInt_lt
    have hne : q.toInt ≠ 1 := fun h => h1 (Int64.toInt_inj.mp (h.trans hone.symm))
    have hpred : (q - 1).toInt = q.toInt - 1 := by
      rw [Int64.toInt_sub, hone]
      exact bmod_word _ (by omega) (by omega)
    refine iff_of_true ?_ (fun h => h1 h.2)
    -- A size from two on stays positive with one taken off.
    rw [Int64.le_iff_toInt_le, hone]
    by_cases hcase : (q - 1) * s ≥ m.toInt64 + p
    · rw [if_pos hcase, hpred]
      omega
    · rw [if_neg hcase]
      omega

/-- A checked size is returned as a positive one, unless it vanishes. -/
theorem axisSize_pos_iff (hs : s ≠ 0) (hp : 0 ≤ p) (hhalf : p ≤ k / 2) (ceil_mode : Bool)
    (hcheck : 0 < pooledSize ceil_mode m k s p) :
    1 ≤ axisSize ceil_mode m k s p ↔ (ceil_mode = true → ¬ Vanishes m k s p) := by
  have hbound := padding_bound k p hp hhalf
  cases ceil_mode with
  | false =>
      simp only [Bool.false_eq_true, false_implies, iff_true]
      rw [Int64.le_iff_toInt_le, Int64.toInt_one]
      rw [Int64.lt_iff_toInt_lt, Int64.toInt_zero] at hcheck
      exact hcheck
  | true =>
      -- The size is one exactly when the quotient is zero.
      have hone : pooledSize true m k s p = 1 ↔
          truncUp (poolSpan m k p).toInt s.toInt = 0 := by
        rw [← ceilDiv_eq_zero_iff _ _ hs]
        exact Int64.add_eq_right
      have hvanish : Vanishes m k s p ↔
          m.toInt + p.toInt ≤ 0 ∧ pooledSize true m k s p = 1 := by
        rw [hone, truncUp_eq_zero_iff _ _ (toInt_ne_zero hs)]
        rfl
      simp only [true_implies]
      rw [hvanish]
      exact corrected_pos_iff m s p (pooledSize true m k s p) hcheck hbound.1 hbound.2.1

end OneAxis

/-- When every size of a returned shape is positive: always outside ceil mode,
    and in ceil mode when no axis vanishes. -/
theorem sizes_positive_iff (self : Tensor) {kernel_size stride padding : List Int64}
    {k s p : Axis → Int64} (ceil_mode : Bool) (hconf : Configures kernel_size stride padding k s p)
    (out : List Int64)
    (h : calcAvgPool3dOutputSize self kernel_size stride padding ceil_mode = .ok out) :
    (∀ a, 1 ≤ outputSize out a) ↔
      (ceil_mode = true → ∀ a, ¬ Vanishes (selfSize self a) (k a) (s a) (p a)) := by
  rcases (hconf.calc_ok self ceil_mode out).mp h with
    ⟨⟨hzero, hneg, hhalf⟩, _, _, hcheck, rfl⟩
  simp only [outputSize_append]
  have haxis := fun a =>
    axisSize_pos_iff (selfSize self a) (k a) (s a) (p a) (hzero a) (hneg a) (hhalf a) ceil_mode
      (hcheck a)
  rw [forall_congr' haxis]
  exact forall_comm

/-- An axis without entries, and a kernel that sticks out of it by a stride and
    a half: the size is checked as one and returned as zero. -/
theorem sizes_positive_iff_empty_axis :
    (∀ a, 1 ≤ outputSize [1, 1, 0, 2, 2] a) ↔ (true = true →
      ∀ a, ¬ Vanishes (selfSize (floatTensor [1, 1, 0, 4, 4]) a) 3 2 0) :=
  sizes_positive_iff (floatTensor [1, 1, 0, 4, 4]) true
    (configures_list (fun _ => 3) (fun _ => 2) (fun _ => 0)) [1, 1, 0, 2, 2] (by decide)

theorem not_sizes_positive_empty_axis :
    ∃ out, calcAvgPool3dOutputSize (floatTensor [1, 1, 0, 4, 4]) [3, 3, 3] [2, 2, 2] [0, 0, 0] true
      = .ok out ∧ ¬ ∀ a, 1 ≤ outputSize out a :=
  ⟨[1, 1, 0, 2, 2], by decide, fun h => absurd (h .d) (by decide)⟩

/-- The quotient a size is made of. -/
def quotient (ceil_mode : Bool) (x s : ℤ) : ℤ :=
  if ceil_mode = true then truncUp x s else x.tdiv s

@[simp] theorem quotient_false (x s : ℤ) : quotient false x s = x.tdiv s := rfl

@[simp] theorem quotient_true (x s : ℤ) : quotient true x s = truncUp x s := rfl

/-- The size of an axis in exact integers. -/
def exactSize (ceil_mode : Bool) (m k s p : ℤ) : ℤ :=
  let q := quotient ceil_mode (m + 2 * p - k) s
  if ceil_mode = true ∧ m + p ≤ q * s then q else q + 1

theorem quotient_range (ceil_mode : Bool) (x s : ℤ) (hs : 0 < s) (hlo : -2 ^ 63 ≤ x)
    (hhi : x < 2 ^ 62) : -2 ^ 63 ≤ quotient ceil_mode x s ∧ quotient ceil_mode x s ≤ 2 ^ 62 := by
  have habs := truncUp_abs_le x s
  have habs' := Int.natAbs_tdiv_le_natAbs x s
  -- Below zero no quotient exceeds one, which the adjustment adds at most.
  rcases Int.lt_or_le x 0 with hneg | hpos
  · have hup := truncUp_bounds_of_neg x s hs hneg
    have hdiv := tdiv_bounds_of_neg x s hs hneg
    cases ceil_mode
    · rw [quotient_false]
      omega
    · rw [quotient_true]
      omega
  · cases ceil_mode
    · rw [quotient_false]
      omega
    · rw [quotient_true]
      omega

/-- The start of the last window is within a word. -/
theorem truncUp_mul_lt (x s : ℤ) (hs : 0 < s) (hs' : s < 2 ^ 63) (hhi : x < 2 ^ 62)
    (hq : 0 ≤ truncUp x s) : truncUp x s * s < 2 ^ 63 := by
  rcases Int.lt_or_le (truncUp x s) 2 with hsmall | hbig
  · have hmul : truncUp x s * s ≤ 1 * s := Int.mul_le_mul_of_nonneg_right (by omega) hs.le
    omega
  · -- From two on, a stride is no longer than what lies before the window.
    have hpos : 0 ≤ x := by
      by_contra hneg
      have := (truncUp_bounds_of_neg x s hs (by omega)).2
      omega
    have h := truncUp_bounds_of_nonneg x s hs hpos
    have hmul : 2 * s ≤ truncUp x s * s := Int.mul_le_mul_of_nonneg_right hbig hs.le
    omega

section Exact

variable (ceil_mode : Bool) (m : Int32) (k s p : Int64)

/-- A size before the correction, in exact integers. -/
theorem pooledSize_toInt (hs : 0 < s.toInt) (hx : (poolSpan m k p).toInt < 2 ^ 62) :
    (pooledSize ceil_mode m k s p).toInt
      = quotient ceil_mode (poolSpan m k p).toInt s.toInt + 1 := by
  have hlo := (poolSpan m k p).le_toInt
  have hrange := quotient_range ceil_mode _ s.toInt hs hlo hx
  have hs0 : s ≠ 0 := by
    rintro rfl
    exact absurd hs (by decide)
  cases ceil_mode with
  | false =>
      rw [quotient_false] at hrange ⊢
      change (poolSpan m k p / s + 1).toInt = _
      rw [Int64.toInt_add, Int64.toInt_div, Int.bmod_add_bmod, Int64.toInt_one]
      exact bmod_word _ (by omega) (by omega)
  | true =>
      rw [quotient_true] at hrange ⊢
      change (ceilDiv (poolSpan m k p) s + 1).toInt = _
      rw [Int64.toInt_add, ceilDiv_bmod _ _ hs0, Int.bmod_add_bmod, Int64.toInt_one]
      exact bmod_word _ (by omega) (by omega)

variable (hs : 0 < s.toInt) (hp : 0 ≤ p.toInt) (hpk : 2 * p.toInt ≤ k.toInt)
  (hexact : 0 ≤ m.toInt ∨ k.toInt ≤ 2 ^ 62)

include hs hp hpk hexact

theorem pooledSize_pos_iff :
    0 < pooledSize ceil_mode m k s p ↔
      0 < quotient ceil_mode (m.toInt + 2 * p.toInt - k.toInt) s.toInt + 1 := by
  have hspan := poolSpan_toInt m k p hp hpk hexact
  have hm := m.toInt_lt
  rw [Int64.lt_iff_toInt_lt, Int64.toInt_zero, pooledSize_toInt ceil_mode m k s p hs (by omega),
    hspan]

/-- A size that passed its check, in exact integers. -/
theorem axisSize_toInt (hcheck : 0 < pooledSize ceil_mode m k s p) :
    (axisSize ceil_mode m k s p).toInt
      = exactSize ceil_mode m.toInt k.toInt s.toInt p.toInt := by
  have hspan := poolSpan_toInt m k p hp hpk hexact
  have hm := m.toInt_lt
  have hk := k.toInt_lt
  have hsize := pooledSize_toInt ceil_mode m k s p hs (by omega)
  have hlo := (poolSpan m k p).le_toInt
  have hrange := quotient_range ceil_mode _ s.toInt hs hlo (by omega)
  rw [Int64.lt_iff_toInt_lt, Int64.toInt_zero] at hcheck
  rw [axisSize, exactSize, ← hspan]
  cases ceil_mode with
  | false =>
      simp only [Bool.false_eq_true, false_and, if_false]
      exact hsize
  | true =>
      have hmul := truncUp_mul_lt (poolSpan m k p).toInt s.toInt hs s.toInt_lt (by omega)
      rw [quotient_true] at hsize hrange
      simp only [true_and, quotient_true, correctedSize, if_true]
      set q := truncUp (poolSpan m k p).toInt s.toInt
      have hpred : (pooledSize true m k s p - 1).toInt = q := by
        rw [Int64.toInt_sub, hsize, Int64.toInt_one, Int.add_sub_cancel]
        exact bmod_word _ (by omega) (by omega)
      have hstart : ((pooledSize true m k s p - 1) * s).toInt = q * s.toInt := by
        have hnonneg : 0 ≤ q * s.toInt := Int.mul_nonneg (by omega) hs.le
        rw [Int64.toInt_mul, hpred]
        exact bmod_word _ (by omega) (hmul (by omega))
      have hcond : (pooledSize true m k s p - 1) * s ≥ m.toInt64 + p ↔
          m.toInt + p.toInt ≤ q * s.toInt := by
        rw [ge_iff_le, Int64.le_iff_toInt_le, padded_toInt m p hp (by omega), hstart]
      by_cases hcase : m.toInt + p.toInt ≤ q * s.toInt
      · rw [if_pos (hcond.mpr hcase), if_pos hcase, hpred]
      · rw [if_neg (fun h => hcase (hcond.mp h)), if_neg hcase, hsize]

end Exact

end AscendKernel
