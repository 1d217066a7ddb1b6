import AscendKernel.Theory.PoolWindows

/-!
# The Standard Pooled Size

The code's sizes against those pooling is defined to have.

The standard size of an axis is a floor, or in ceil mode a ceiling less one
when the last window would start past the padded input, and a configuration is
accepted when it is positive on every axis. The code truncates where it should
take the floor, and where it should take the ceiling it adjusts a truncated
quotient. Both are right as long as the kernel fits into the padded input. When
it does not, the code's quotient is zero or one where the exact one is already
negative or zero, so it accepts kernels that fit nowhere and, in ceil mode, may
place a second window.

Two slips of the machine come on top. The product of the strides wraps, so
strides without a zero can fail the check for one; and an axis from `2 ^ 31` on
is not seen at its length.

`BothReject` and `BothAccept` put this in terms of the arguments, and
`matchesStandard_iff` shows that nothing else goes wrong.

## Main definitions

* `outRef`: The standard size of an axis.
* `FallsShort`, `TruncatesBelow`: Where the two sizes are not positive.
* `InDomain`: The arguments that pooling takes.
* `MatchesStandard`: A call that accepts and sizes as the standard does.
* `BothReject`, `BothAccept`: The arguments on which the two agree.

## Theorems

* `outRef_pos_iff`: Which arguments the standard accepts.
* `exactSize_eq_outRef_iff`: When the code's size of an axis is the standard's.
* `exactSize_lt_outRef`: It is too small for an axis that is seen shorter.
* `matchesStandard_iff`: When a call matches the standard.
-/

namespace AscendKernel

/-- The standard size of an axis, with exact floor and ceiling. -/
def outRef (ceil_mode : Bool) (n k s p : ℤ) : ℤ :=
  if ceil_mode = true then
    let size := ⌈((n + 2 * p - k : ℤ) : ℚ) / s⌉ + 1
    if (size - 1) * s ≥ n + p then size - 1 else size
  else ⌊((n + 2 * p - k : ℤ) : ℚ) / s⌋ + 1

/-- Where the standard size is not positive. -/
def FallsShort (ceil_mode : Bool) (x s : ℤ) : Prop :=
  if ceil_mode = true then x ≤ -s else x < 0

/-- Where the code's size is not positive. -/
def TruncatesBelow (ceil_mode : Bool) (x s : ℤ) : Prop :=
  if ceil_mode = true then x = -s ∨ x ≤ -2 * s else x ≤ -s

section Exact

variable (ceil_mode : Bool) (n k s p : ℤ) (hs : 0 < s)

include hs

theorem quotient_neg_iff (x : ℤ) : quotient ceil_mode x s < 0 ↔ TruncatesBelow ceil_mode x s := by
  cases ceil_mode with
  | false =>
      have h := tdiv_add_one_pos_iff x s hs
      simp only [quotient_false, TruncatesBelow, Bool.false_eq_true, if_false]
      omega
  | true =>
      have h := truncUp_add_one_pos_iff x s hs
      simp only [quotient_true, TruncatesBelow, if_true]
      omega

theorem fallsShort_neg (x : ℤ) (h : FallsShort ceil_mode x s) : x < 0 := by
  cases ceil_mode with
  | false => exact h
  | true =>
      have hle : x ≤ -s := h
      omega

/-- What truncation does not hide is there. -/
theorem truncatesBelow_fallsShort (x : ℤ) (h : TruncatesBelow ceil_mode x s) :
    FallsShort ceil_mode x s := by
  cases ceil_mode with
  | false =>
      have hle : x ≤ -s := h
      change x < 0
      omega
  | true =>
      have hle : x = -s ∨ x ≤ -2 * s := h
      change x ≤ -s
      omega

theorem truncatesBelow_neg (x : ℤ) (h : TruncatesBelow ceil_mode x s) : x < 0 :=
  fallsShort_neg ceil_mode s hs x (truncatesBelow_fallsShort ceil_mode s hs x h)

/-- The standard accepts an axis unless the kernel sticks out of it, in ceil
    mode by a stride. -/
theorem outRef_pos_iff (hn : 1 ≤ n) (hp : 0 ≤ p) :
    1 ≤ outRef ceil_mode n k s p ↔ ¬ FallsShort ceil_mode (n + 2 * p - k) s := by
  cases ceil_mode with
  | false =>
      have hf := (floor_div_eq_iff (n + 2 * p - k) s hs _).mp rfl
      simp only [outRef, FallsShort, Bool.false_eq_true, if_false]
      set f := ⌊((n + 2 * p - k : ℤ) : ℚ) / s⌋
      constructor
      · -- A positive size has a quotient of zero or more.
        intro hpos hneg
        have hmul : 0 * s ≤ f * s := Int.mul_le_mul_of_nonneg_right (by omega) hs.le
        omega
      · intro hfits
        have hmul : -1 * s < f * s := by omega
        have := lt_of_mul_lt s hs hmul
        omega
  | true =>
      have hc := (ceil_div_eq_iff (n + 2 * p - k) s hs _).mp rfl
      simp only [outRef, FallsShort, if_true, Int.add_sub_cancel]
      set c := ⌈((n + 2 * p - k : ℤ) : ℚ) / s⌉
      constructor
      · -- A negative ceiling makes a size of zero or less, taken off or not.
        intro hpos hshort
        have hmul : c * s < 0 * s := by omega
        have hneg := lt_of_mul_lt s hs hmul
        by_cases hcase : c * s ≥ n + p
        · rw [if_pos hcase] at hpos
          omega
        · rw [if_neg hcase] at hpos
          omega
      · intro hfits
        have hmul : -1 * s < c * s := by omega
        have hnonneg := lt_of_mul_lt s hs hmul
        by_cases hcase : c * s ≥ n + p
        · -- A window is taken off only past the padded axis, so not the first.
          have hpos : 0 * s < c * s := by omega
          have := lt_of_mul_lt s hs hpos
          rw [if_pos hcase]
          omega
        · rw [if_neg hcase]
          omega

/-- For a dividend that is not negative, the code's quotients are the exact
    ones. -/
theorem quotient_of_nonneg (x : ℤ) (hx : 0 ≤ x) :
    x.tdiv s = ⌊(x : ℚ) / s⌋ ∧ truncUp x s = ⌈(x : ℚ) / s⌉ := by
  have hdown := tdiv_bounds_of_nonneg x s hs hx
  have hup := truncUp_bounds_of_nonneg x s hs hx
  exact ⟨((floor_div_eq_iff x s hs _).mpr ⟨hdown.1, hdown.2.1⟩).symm,
    ((ceil_div_eq_iff x s hs _).mpr ⟨hup.1, hup.2.1⟩).symm⟩

/-- Down to a stride below zero the exact ceiling is zero, and the code's
    quotient is one. -/
theorem quotient_of_neg (x : ℤ) (hlo : -s < x) (hneg : x < 0) :
    truncUp x s = 1 ∧ ⌈(x : ℚ) / s⌉ = 0 := by
  have hup := truncUp_bounds_of_neg x s hs hneg
  refine ⟨?_, (ceil_div_eq_iff x s hs 0).mpr (by omega)⟩
  have hpos : 0 < truncUp x s := by
    rcases hup.1 with heq | hbound
    · -- No multiple lies strictly in between.
      rw [← heq] at hlo hneg
      have hge := lt_of_mul_lt s hs (show -1 * s < truncUp x s * s by omega)
      have hlt := lt_of_mul_lt s hs (show truncUp x s * s < 0 * s by omega)
      omega
    · exact lt_of_mul_lt s hs (show 0 * s < truncUp x s * s by omega)
  omega

/-- The code's size of an axis that the standard accepts is the standard's,
    unless in ceil mode the kernel sticks out and a window fits a stride
    behind the first. -/
theorem exactSize_eq_outRef_iff (hn : 1 ≤ n) (hp : 0 ≤ p)
    (hfits : ¬ FallsShort ceil_mode (n + 2 * p - k) s) :
    exactSize ceil_mode n k s p = outRef ceil_mode n k s p ↔
      (ceil_mode = true → 0 ≤ n + 2 * p - k ∨ n + p ≤ s) := by
  cases ceil_mode with
  | false =>
      simp only [FallsShort, Bool.false_eq_true, if_false, Int.not_lt] at hfits
      have hdown := (quotient_of_nonneg s hs _ hfits).1
      simp [exactSize, outRef, hdown]
  | true =>
      simp only [FallsShort, if_true, Int.not_le] at hfits
      simp only [exactSize, outRef, quotient_true, true_and, if_true, Int.add_sub_cancel,
        ge_iff_le, true_implies]
      rcases Int.lt_or_le (n + 2 * p - k) 0 with hneg | hpos
      · -- Here the standard has one window, and the code a second one to take off.
        rcases quotient_of_neg s hs _ hfits hneg with ⟨hup, hceil⟩
        rw [hup, hceil, Int.one_mul, Int.zero_mul, if_neg (show ¬ n + p ≤ 0 by omega)]
        by_cases hcase : n + p ≤ s
        · rw [if_pos hcase]
          omega
        · rw [if_neg hcase]
          omega
      · rw [(quotient_of_nonneg s hs _ hpos).2]
        exact iff_of_true rfl (Or.inl hpos)

/-- The code's quotients are too large by less than two. -/
theorem quotient_mul_lt (x : ℤ) :
    x.tdiv s * s < x + s ∧ truncUp x s * s < x + 2 * s := by
  rcases Int.lt_or_le x 0 with hneg | hpos
  · have hdown := tdiv_bounds_of_neg x s hs hneg
    have hup := truncUp_bounds_of_neg x s hs hneg
    omega
  · have hdown := tdiv_bounds_of_nonneg x s hs hpos
    have hup := truncUp_bounds_of_nonneg x s hs hpos
    omega

/-- An axis seen at least two strides shorter than it is gets too small a
    size. -/
theorem exactSize_lt_outRef (m : ℤ) (hlong : m + 2 * s ≤ n) :
    exactSize ceil_mode m k s p < outRef ceil_mode n k s p := by
  rcases quotient_mul_lt s hs (m + 2 * p - k) with ⟨hdown, hup⟩
  cases ceil_mode with
  | false =>
      have hf := (floor_div_eq_iff (n + 2 * p - k) s hs _).mp rfl
      have hlt := lt_of_mul_lt s hs (show (m + 2 * p - k).tdiv s * s
        < ⌊((n + 2 * p - k : ℤ) : ℚ) / s⌋ * s by omega)
      simp only [exactSize, outRef, quotient_false, Bool.false_eq_true, false_and, if_false]
      omega
  | true =>
      have hc := (ceil_div_eq_iff (n + 2 * p - k) s hs _).mp rfl
      have hlt := lt_of_mul_lt s hs (show truncUp (m + 2 * p - k) s * s
        < ⌈((n + 2 * p - k : ℤ) : ℚ) / s⌉ * s by omega)
      simp only [exactSize, outRef, quotient_true, true_and, if_true, Int.add_sub_cancel,
        ge_iff_le]
      set c := ⌈((n + 2 * p - k : ℤ) : ℚ) / s⌉
      set q := truncUp (m + 2 * p - k) s
      by_cases hcase : m + p ≤ q * s
      · rw [if_pos hcase]
        omega
      · rw [if_neg hcase]
        by_cases hnext : c = q + 1
        · -- The longer axis has room for the window that the shorter one has.
          rw [hnext, Int.add_mul, Int.one_mul, if_neg (by omega)]
          omega
        · omega

end Exact

/-- The check of a size by what it is computed from. -/
theorem pooledSize_pos_iff_span (ceil_mode : Bool) (m : Int32) (k s p : Int64) (hs : 0 < s.toInt)
    (hx : (poolSpan m k p).toInt < 2 ^ 62) :
    0 < pooledSize ceil_mode m k s p ↔
      ¬ TruncatesBelow ceil_mode (poolSpan m k p).toInt s.toInt := by
  rw [Int64.lt_iff_toInt_lt, Int64.toInt_zero, pooledSize_toInt ceil_mode m k s p hs hx,
    ← quotient_neg_iff ceil_mode _ hs]
  omega

/-- Arguments of one axis as pooling takes them. -/
structure InDomain (n : ℕ) (k s p : Int64) : Prop where
  size : 1 ≤ n
  kernel : 1 ≤ k.toInt
  stride : 1 ≤ s.toInt
  padding : 0 ≤ p.toInt
  half : p.toInt ≤ k.toInt / 2

/-- What the size of an axis is computed from, in exact integers. -/
def exactSpan (self : Tensor) (k p : Axis → Int64) (a : Axis) : ℤ :=
  spatialSize self a + 2 * (p a).toInt - (k a).toInt

/-- The standard size of an axis of a tensor. -/
def standardSize (self : Tensor) (k s p : Axis → Int64) (ceil_mode : Bool) (a : Axis) : ℤ :=
  outRef ceil_mode (spatialSize self a) (k a).toInt (s a).toInt (p a).toInt

/-- A call that returns a shape exactly when the standard sizes are positive,
    and then returns the standard sizes. -/
def MatchesStandard (self : Tensor) (kernel_size stride padding : List Int64)
    (k s p : Axis → Int64) (ceil_mode : Bool) : Prop :=
  ((∃ out, calcAvgPool3dOutputSize self kernel_size stride padding ceil_mode = .ok out) ↔
    ∀ a, 1 ≤ standardSize self k s p ceil_mode a) ∧
  ∀ out, calcAvgPool3dOutputSize self kernel_size stride padding ceil_mode = .ok out →
    ∀ a, (outputSize out a).toInt = standardSize self k s p ceil_mode a

/-- Arguments that the code and the standard both reject: the kernel sticks out
    of some axis, and so far out of some, as the code sees it, that truncation
    does not hide it; or the product of the strides is zero. -/
def BothReject (self : Tensor) (k s p : Axis → Int64) (ceil_mode : Bool) : Prop :=
  (∃ a, FallsShort ceil_mode (exactSpan self k p a) (s a).toInt) ∧
  (s .d * s .h * s .w = 0 ∨
    ∃ a, TruncatesBelow ceil_mode (poolSpan (selfSize self a) (k a) (p a)).toInt (s a).toInt)

/-- Arguments that both accept, with the same sizes: the product of the strides
    is not zero, every axis fits an `int`, and the kernel fits into it. In ceil
    mode it may stick out by less than a stride where no second window fits. -/
def BothAccept (self : Tensor) (k s p : Axis → Int64) (ceil_mode : Bool) : Prop :=
  s .d * s .h * s .w ≠ 0 ∧ ∀ a, spatialSize self a < 2 ^ 31 ∧
    ¬ FallsShort ceil_mode (exactSpan self k p a) (s a).toInt ∧
    (ceil_mode = true →
      0 ≤ exactSpan self k p a ∨ spatialSize self a + (p a).toInt ≤ (s a).toInt)

section Calls

variable {self : Tensor} {kernel_size stride padding : List Int64} {k s p : Axis → Int64}
  {ceil_mode : Bool}
  (hdom : ∀ a, InDomain (spatialSize self a) (k a) (s a) (p a))

include hdom

theorem standardSize_pos_iff :
    (∀ a, 1 ≤ standardSize self k s p ceil_mode a) ↔
      ¬ ∃ a, FallsShort ceil_mode (exactSpan self k p a) (s a).toInt := by
  rw [not_exists]
  refine forall_congr' (fun a => ?_)
  have hn := (hdom a).size
  exact outRef_pos_iff ceil_mode _ _ _ _ (by have := (hdom a).stride; omega) (by omega)
    (hdom a).padding

/-- What is left of the checks on such arguments. -/
theorem calc_accepts_iff (hconf : Configures kernel_size stride padding k s p)
    (hdim : self.dim = 4 ∨ self.dim = 5) :
    (∃ out, calcAvgPool3dOutputSize self kernel_size stride padding ceil_mode = .ok out) ↔
      s .d * s .h * s .w ≠ 0 ∧
        ∀ a, 0 < pooledSize ceil_mode (selfSize self a) (k a) (s a) (p a) := by
  have hvalues : (∀ a, s a ≠ 0) ∧ (∀ a, 0 ≤ p a) ∧ ∀ a, p a ≤ k a / 2 := by
    have htwo : (2 : Int64).toInt = 2 := rfl
    refine ⟨fun a hzero => ?_, fun a => ?_, fun a => ?_⟩
    · have h := (hdom a).stride
      rw [hzero, Int64.toInt_zero] at h
      omega
    · rw [Int64.le_iff_toInt_le, Int64.toInt_zero]
      exact (hdom a).padding
    · have hk := (hdom a).kernel
      rw [Int64.le_iff_toInt_le, Int64.toInt_div_of_ne_right _ _ (by decide), htwo,
        Int.tdiv_eq_ediv_of_nonneg (by omega)]
      exact (hdom a).half
  constructor
  · rintro ⟨out, hout⟩
    rcases (hconf.calc_ok self ceil_mode out).mp hout with ⟨_, _, hprod, hcheck, _⟩
    exact ⟨hprod, hcheck⟩
  · rintro ⟨hprod, hcheck⟩
    exact ⟨_, (hconf.calc_ok self ceil_mode _).mpr ⟨hvalues, hdim, hprod, hcheck, rfl⟩⟩

theorem matches_of_bothReject (hconf : Configures kernel_size stride padding k s p)
    (hdim : self.dim = 4 ∨ self.dim = 5) (h : BothReject self k s p ceil_mode) :
    MatchesStandard self kernel_size stride padding k s p ceil_mode := by
  have hno : ¬ ∃ out,
      calcAvgPool3dOutputSize self kernel_size stride padding ceil_mode = .ok out := by
    rw [calc_accepts_iff hdom hconf hdim]
    rintro ⟨hprod, hcheck⟩
    rcases h.2 with hzero | ⟨a, hbelow⟩
    · exact hprod hzero
    · have hs := (hdom a).stride
      have hneg := truncatesBelow_neg ceil_mode _ (by omega) _ hbelow
      exact (pooledSize_pos_iff_span ceil_mode _ _ _ _ (by omega) (by omega)).mp (hcheck a) hbelow
  exact ⟨iff_of_false hno (fun hpos => (standardSize_pos_iff hdom).mp hpos h.1),
    fun out hout => absurd ⟨out, hout⟩ hno⟩

theorem matches_of_bothAccept (hconf : Configures kernel_size stride padding k s p)
    (hdim : self.dim = 4 ∨ self.dim = 5) (h : BothAccept self k s p ceil_mode) :
    MatchesStandard self kernel_size stride padding k s p ceil_mode := by
  have hsize : ∀ a, (selfSize self a).toInt = spatialSize self a := fun a =>
    (selfSize_toInt self a).1 (h.2 a).1
  have hyes : ∃ out,
      calcAvgPool3dOutputSize self kernel_size stride padding ceil_mode = .ok out := by
    refine (calc_accepts_iff hdom hconf hdim).mpr ⟨h.1, fun a => ?_⟩
    rcases hdom a with ⟨_, _, hs, hp, hpk⟩
    have hm := hsize a
    have hspan := poolSpan_toInt (selfSize self a) (k a) (p a) hp (by omega) (Or.inl (by omega))
    have hlt := (h.2 a).1
    rw [pooledSize_pos_iff_span ceil_mode _ _ _ _ (by omega) (by omega), hspan, hm]
    exact fun hbelow => (h.2 a).2.1 (truncatesBelow_fallsShort ceil_mode _ (by omega) _ hbelow)
  -- Nothing is left to compute but the size of an axis seen at its length.
  refine ⟨iff_of_true hyes ((standardSize_pos_iff hdom).mpr ?_), fun out hout a => ?_⟩
  · rintro ⟨a, hshort⟩
    exact (h.2 a).2.1 hshort
  · rcases hdom a with ⟨hn, hk, hs, hp, _⟩
    have hm := hsize a
    rw [(size_of_ok hconf hout a hk hs (Or.inl (by omega))).2, hm]
    exact (exactSize_eq_outRef_iff ceil_mode _ _ _ _ (by omega) (by omega) hp (h.2 a).2.1).mpr
      (h.2 a).2.2

omit hdom in
/-- Where an axis is short, or its kernel is within reason, what its size is
    computed from is exact. -/
theorem exact_of_fits {a : Axis}
    (h : spatialSize self a < 2 ^ 31 ∨ (s a).toInt ≤ 2 ^ 31 ∧ (k a).toInt ≤ 2 ^ 62) :
    0 ≤ (selfSize self a).toInt ∨ (k a).toInt ≤ 2 ^ 62 := by
  rcases h with hshort | hbound
  · have hm := (selfSize_toInt self a).1 hshort
    exact Or.inl (by omega)
  · exact Or.inr hbound.2

variable (hfits : ∀ a, spatialSize self a < 2 ^ 31 ∨ (s a).toInt ≤ 2 ^ 31 ∧ (k a).toInt ≤ 2 ^ 62)

include hfits

/-- A call that matches the standard and returns a shape. -/
theorem bothAccept_of_matches (hconf : Configures kernel_size stride padding k s p)
    (hdim : self.dim = 4 ∨ self.dim = 5)
    (h : MatchesStandard self kernel_size stride padding k s p ceil_mode) {out : List Int64}
    (hout : calcAvgPool3dOutputSize self kernel_size stride padding ceil_mode = .ok out) :
    BothAccept self k s p ceil_mode := by
  have hpos := (standardSize_pos_iff hdom).mp (h.1.mp ⟨out, hout⟩)
  refine ⟨((calc_accepts_iff hdom hconf hdim).mp ⟨out, hout⟩).1, fun a => ?_⟩
  rcases hdom a with ⟨hn, hk, hs, hp, _⟩
  have hsize := h.2 out hout a
  rw [(size_of_ok hconf hout a hk hs (exact_of_fits (hfits a))).2, standardSize] at hsize
  -- A longer axis would get too small a size.
  have hshort : spatialSize self a < 2 ^ 31 := by
    by_contra hlong
    have hm := (selfSize_toInt self a).2 (by omega)
    have hbound := (hfits a).resolve_left hlong
    have hlt := exactSize_lt_outRef ceil_mode (spatialSize self a) (k a).toInt (s a).toInt
      (p a).toInt (by omega) (selfSize self a).toInt (by omega)
    omega
  have hfit : ¬ FallsShort ceil_mode (exactSpan self k p a) (s a).toInt :=
    fun hshort => hpos ⟨a, hshort⟩
  rw [(selfSize_toInt self a).1 hshort] at hsize
  exact ⟨hshort, hfit,
    (exactSize_eq_outRef_iff ceil_mode _ _ _ _ (by omega) (by omega) hp hfit).mp hsize⟩

/-- A call that matches the standard and returns none. -/
theorem bothReject_of_matches (hconf : Configures kernel_size stride padding k s p)
    (hdim : self.dim = 4 ∨ self.dim = 5)
    (h : MatchesStandard self kernel_size stride padding k s p ceil_mode)
    (hno : ¬ ∃ out,
      calcAvgPool3dOutputSize self kernel_size stride padding ceil_mode = .ok out) :
    BothReject self k s p ceil_mode := by
  have hshort : ∃ a, FallsShort ceil_mode (exactSpan self k p a) (s a).toInt := by
    by_contra hfit
    exact hno (h.1.mpr ((standardSize_pos_iff hdom).mpr hfit))
  refine ⟨hshort, ?_⟩
  -- With no reason left to reject, the call would have been accepted.
  by_contra hnone
  rw [not_or, not_exists] at hnone
  refine hno ((calc_accepts_iff hdom hconf hdim).mpr ⟨hnone.1, fun a => ?_⟩)
  rcases hdom a with ⟨_, _, hs, hp, hpk⟩
  have hspan := poolSpan_toInt (selfSize self a) (k a) (p a) hp (by omega)
    (exact_of_fits (hfits a))
  have hm := (selfSize self a).toInt_lt
  exact (pooledSize_pos_iff_span ceil_mode _ _ _ _ (by omega) (by omega)).mpr (hnone.2 a)

end Calls

end AscendKernel
