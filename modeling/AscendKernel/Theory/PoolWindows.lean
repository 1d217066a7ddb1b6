import AscendKernel.Library.Windows
import AscendKernel.Theory.PoolSize

/-!
# Windows and Input

Whether every pooling window meets the input, and whether in ceil mode the
windows leave none of it out.

Both are facts about the last window. It starts before the end of the padded
axis, because the size is computed from where windows fit and the correction
takes one off that would start later; and in ceil mode it ends no earlier than
the axis does, because a window taken off was one stride behind one that
reaches it. Neither depends on the quotient having been rounded right: a
quotient one too large is within what the correction makes up for.

All of this is said of the size the code sees, which is an `int`. A longer axis
is seen as a shorter one. The windows still meet it, lying at its front, but
they no longer cover it.

## Main definitions

* `WindowsFine`: Windows that meet the axis and, in ceil mode, cover it.

## Theorems

* `exactSize_start`: The last window starts inside the padded axis.
* `exactSize_reach`: In ceil mode it reaches the end of the axis.
* `size_of_ok`: What an accepted call returns, in exact integers.
* `windowsFine_of_short`: Windows of an axis that is seen at its length.
* `last_index_missed`: What they leave out of a longer one.
* `windowsFine_iff`: When the windows of an accepted call are as they should.
-/

namespace AscendKernel

section Exact

variable (ceil_mode : Bool) (m k s p : ℤ) (hs : 0 < s)
  (hq : 0 ≤ quotient ceil_mode (m + 2 * p - k) s)

include hs hq

/-- Every window but the first starts inside the padded axis. -/
theorem exactSize_start (hk : 1 ≤ k) (hpk : 2 * p ≤ k) :
    exactSize ceil_mode m k s p ≤ 1 ∨ (exactSize ceil_mode m k s p - 1) * s < m + p := by
  cases ceil_mode with
  | false =>
      rw [quotient_false] at hq
      simp only [exactSize, quotient_false, Bool.false_eq_true, false_and, if_false,
        Int.add_sub_cancel]
      rcases Int.lt_or_le (m + 2 * p - k) 0 with hneg | hpos
      · -- Truncation leaves a single window.
        have h := tdiv_bounds_of_neg _ s hs hneg
        exact Or.inl (by omega)
      · have h := tdiv_bounds_of_nonneg _ s hs hpos
        exact Or.inr (by omega)
  | true =>
      rw [quotient_true] at hq
      simp only [exactSize, quotient_true, true_and]
      by_cases hcase : m + p ≤ truncUp (m + 2 * p - k) s * s
      · -- One was taken off: the last window is a stride further back.
        rw [if_pos hcase]
        rcases Int.lt_or_le (m + 2 * p - k) 0 with hneg | hpos
        · have h := truncUp_bounds_of_neg _ s hs hneg
          exact Or.inl h.2
        · have h := truncUp_bounds_of_nonneg _ s hs hpos
          rw [Int.sub_mul, Int.one_mul]
          exact Or.inr (by omega)
      · rw [if_neg hcase, Int.add_sub_cancel]
        exact Or.inr (by omega)

/-- In ceil mode, with no gaps between the windows, the last one reaches the
    end of the axis. -/
theorem exactSize_reach (hceil : ceil_mode = true) (hp : 0 ≤ p) (hsk : s ≤ k) (hm : 1 ≤ m) :
    1 ≤ exactSize ceil_mode m k s p ∧
      m ≤ (exactSize ceil_mode m k s p - 1) * s - p + k := by
  subst hceil
  rw [quotient_true] at hq
  simp only [exactSize, quotient_true, true_and]
  by_cases hcase : m + p ≤ truncUp (m + 2 * p - k) s * s
  · -- The window taken off started past the end; the one before ends there.
    have hpos : 0 * s < truncUp (m + 2 * p - k) s * s := by omega
    have hone := lt_of_mul_lt s hs hpos
    rw [if_pos hcase, Int.sub_mul, Int.one_mul]
    omega
  · rw [if_neg hcase, Int.add_sub_cancel]
    have hnonneg : 0 ≤ truncUp (m + 2 * p - k) s * s := Int.mul_nonneg hq hs.le
    -- With the kernel sticking out, the first window reaches the end already.
    rcases Int.lt_or_le (m + 2 * p - k) 0 with hneg | hpos
    · omega
    · have h := truncUp_bounds_of_nonneg _ s hs hpos
      omega

end Exact

/-- Windows that each hold an index of the axis and that, in ceil mode and with
    no gaps between them, leave none of its indices out. -/
def WindowsFine (ceil_mode : Bool) (n k s p out : ℤ) : Prop :=
  (∀ i, 0 ≤ i → i < out → ∃ x, 0 ≤ x ∧ x < n ∧ InWindow k s p i x) ∧
  (ceil_mode = true → s ≤ k → ∀ x, 0 ≤ x → x < n →
    ∃ i, 0 ≤ i ∧ i < out ∧ InWindow k s p i x)

/-- Windows of an axis that is at least as long as it was taken for all meet
    it. -/
theorem windows_meet (m n k s p out : ℤ) (hn : 1 ≤ n) (hmn : m ≤ n) (hk : 1 ≤ k) (hs : 0 < s)
    (hp : 0 ≤ p) (hpk : 2 * p ≤ k) (hstart : out ≤ 1 ∨ (out - 1) * s < m + p) (i : ℤ)
    (hi : 0 ≤ i) (hiout : i < out) : ∃ x, 0 ≤ x ∧ x < n ∧ InWindow k s p i x := by
  have hnonneg : 0 ≤ i * s := Int.mul_nonneg hi hs.le
  refine window_meets n k s p i (by omega) (by omega) ?_ (by omega)
  rcases hstart with hfirst | hlast
  · -- Only the first window, which starts at or before the axis.
    have hzero : i = 0 := by omega
    rw [hzero]
    omega
  · have hmul : i * s ≤ (out - 1) * s := Int.mul_le_mul_of_nonneg_right (by omega) hs.le
    omega

/-- The size an axis is taken for: its own below `2 ^ 31`, and from there on
    one that is shorter by `2 ^ 32` at least. -/
theorem selfSize_toInt (self : Tensor) (a : Axis) :
    (spatialSize self a < 2 ^ 31 → (selfSize self a).toInt = spatialSize self a) ∧
    (2 ^ 31 ≤ spatialSize self a → (selfSize self a).toInt + 2 ^ 32 ≤ spatialSize self a) := by
  have hlo := (selfSize self a).le_toInt
  have hhi := (selfSize self a).toInt_lt
  have hdiv := Int.bmod_add_bdiv (spatialSize self a) (2 ^ 32)
  have hbmod : (selfSize self a).toInt = (spatialSize self a : ℤ).bmod (2 ^ 32) :=
    Int32.toInt_ofNat'
  rw [← hbmod] at hdiv
  omega

section Accepted

variable {self : Tensor} {kernel_size stride padding : List Int64} {k s p : Axis → Int64}
  {ceil_mode : Bool} (hconf : Configures kernel_size stride padding k s p) {out : List Int64}
  (hout : calcAvgPool3dOutputSize self kernel_size stride padding ceil_mode = .ok out) (a : Axis)
  (hk : 1 ≤ (k a).toInt) (hs : 1 ≤ (s a).toInt)

include hconf hout hk

/-- An accepted call has no more padding than half a window. -/
theorem padding_of_ok : 0 ≤ (p a).toInt ∧ 2 * (p a).toInt ≤ (k a).toInt := by
  rcases (hconf.calc_ok self ceil_mode out).mp hout with ⟨⟨_, hneg, hhalf⟩, _⟩
  have hbound := padding_bound (k a) (p a) (hneg a) (hhalf a)
  omega

include hs

/-- An accepted call returns the exact size of an axis as the code sees it, and
    its quotient is not negative. -/
theorem size_of_ok (hexact : 0 ≤ (selfSize self a).toInt ∨ (k a).toInt ≤ 2 ^ 62) :
    0 ≤ quotient ceil_mode ((selfSize self a).toInt + 2 * (p a).toInt - (k a).toInt)
        (s a).toInt ∧
      (outputSize out a).toInt
        = exactSize ceil_mode (selfSize self a).toInt (k a).toInt (s a).toInt (p a).toInt := by
  rcases padding_of_ok hconf hout a hk with ⟨hp, hpk⟩
  rcases (hconf.calc_ok self ceil_mode out).mp hout with ⟨_, _, _, hcheck, rfl⟩
  have hpos := (pooledSize_pos_iff ceil_mode _ _ _ _ hs hp hpk hexact).mp (hcheck a)
  rw [outputSize_append]
  exact ⟨by omega, axisSize_toInt ceil_mode _ _ _ _ hs hp hpk hexact (hcheck a)⟩

variable (hn : 1 ≤ spatialSize self a)

include hn

theorem windows_meet_of_ok (hexact : 0 ≤ (selfSize self a).toInt ∨ (k a).toInt ≤ 2 ^ 62) (i : ℤ)
    (hi : 0 ≤ i) (hiout : i < (outputSize out a).toInt) :
    ∃ x, 0 ≤ x ∧ x < (spatialSize self a : ℤ) ∧
      InWindow (k a).toInt (s a).toInt (p a).toInt i x := by
  rcases padding_of_ok hconf hout a hk with ⟨hp, hpk⟩
  rcases size_of_ok hconf hout a hk hs hexact with ⟨hq, hsize⟩
  rcases selfSize_toInt self a with ⟨hsmall, hlarge⟩
  rw [hsize] at hiout
  -- The code sees an axis as no longer than it is.
  exact windows_meet (selfSize self a).toInt _ _ _ _ _ (by omega) (by omega) hk hs hp hpk
    (exactSize_start ceil_mode _ _ _ _ hs hq hk hpk) i hi hiout

/-- Windows of an axis that is seen at its length are as they should. -/
theorem windowsFine_of_short (hlt : spatialSize self a < 2 ^ 31) :
    WindowsFine ceil_mode (spatialSize self a) (k a).toInt (s a).toInt (p a).toInt
      (outputSize out a).toInt := by
  rcases padding_of_ok hconf hout a hk with ⟨hp, hpk⟩
  have hm := (selfSize_toInt self a).1 hlt
  have hexact : 0 ≤ (selfSize self a).toInt ∨ (k a).toInt ≤ 2 ^ 62 := Or.inl (by omega)
  refine ⟨windows_meet_of_ok hconf hout a hk hs hn hexact, fun hceil hsk x hx hxn => ?_⟩
  rcases size_of_ok hconf hout a hk hs hexact with ⟨hq, hsize⟩
  have hreach := exactSize_reach ceil_mode _ _ _ _ hs hq hceil hp hsk (by omega)
  rw [hm] at hreach hsize
  rw [hsize]
  rcases windows_cover (spatialSize self a) _ _ _ _ x hs hsk hp (by omega) hreach.2 hx hxn with
    ⟨i, hi, hle, hin⟩
  exact ⟨i, hi, by omega, hin⟩

omit hn in
/-- The last index of a longer axis is past the end of the last window. -/
theorem last_index_missed (hlong : 2 ^ 31 ≤ spatialSize self a) (hkfit : (k a).toInt < 2 ^ 31)
    (i : ℤ) (hiout : i < (outputSize out a).toInt) :
    ¬ InWindow (k a).toInt (s a).toInt (p a).toInt i ((spatialSize self a : ℤ) - 1) := by
  rcases padding_of_ok hconf hout a hk with ⟨hp, hpk⟩
  rcases size_of_ok hconf hout a hk hs (Or.inr (by omega)) with ⟨hq, hsize⟩
  have hm := (selfSize_toInt self a).2 hlong
  have hfront := (selfSize self a).le_toInt
  have hstart := exactSize_start ceil_mode _ _ _ _ hs hq hk hpk
  rw [← hsize] at hstart
  rcases hstart with hone | hlast
  · exact windows_miss _ _ _ 0 i _ hs (by omega) (by omega)
  · exact windows_miss _ _ _ ((outputSize out a).toInt - 1) i _ hs (by omega) (by omega)

end Accepted

/-- When the windows of an axis of an accepted call are as they should. They are
    for every axis shorter than `2 ^ 31`. On a longer one, with windows shorter
    than that, they are exactly outside ceil mode or where they leave gaps,
    since there no index needs to be covered. -/
theorem windowsFine_iff (self : Tensor) {kernel_size stride padding : List Int64}
    {k s p : Axis → Int64} (ceil_mode : Bool) (hconf : Configures kernel_size stride padding k s p)
    (out : List Int64)
    (h : calcAvgPool3dOutputSize self kernel_size stride padding ceil_mode = .ok out) (a : Axis)
    (hn : 1 ≤ spatialSize self a) (hk : 1 ≤ (k a).toInt) (hs : 1 ≤ (s a).toInt) :
    (spatialSize self a < 2 ^ 31 →
      WindowsFine ceil_mode (spatialSize self a) (k a).toInt (s a).toInt (p a).toInt
        (outputSize out a).toInt) ∧
    ((k a).toInt < 2 ^ 31 →
      (WindowsFine ceil_mode (spatialSize self a) (k a).toInt (s a).toInt (p a).toInt
        (outputSize out a).toInt ↔
        spatialSize self a < 2 ^ 31 ∨ ceil_mode = false ∨ (k a).toInt < (s a).toInt)) := by
  refine ⟨windowsFine_of_short hconf h a hk hs hn, fun hkfit => ⟨fun hwin => ?_, ?_⟩⟩
  · by_contra hcond
    rw [not_or, not_or, Bool.not_eq_false] at hcond
    rcases hcond with ⟨hlong, hceil, hsk⟩
    -- Some window would have to hold the last index.
    rcases hwin.2 hceil (by omega) ((spatialSize self a : ℤ) - 1) (by omega) (by omega) with
      ⟨i, _, hiout, hin⟩
    exact last_index_missed hconf h a hk hs (by omega) hkfit i hiout hin
  · have hmeet := windows_meet_of_ok hconf h a hk hs hn (Or.inr (by omega))
    rintro (hlt | hfloor | hgap)
    · exact windowsFine_of_short hconf h a hk hs hn hlt
    · refine ⟨hmeet, fun hceil => ?_⟩
      rw [hfloor] at hceil
      exact absurd hceil Bool.false_ne_true
    · exact ⟨hmeet, fun _ hsk => absurd hsk (by omega)⟩

/-- Seven entries under windows of two at a stride of two: the fourth window
    covers the last entry. -/
theorem windowsFine_iff_seven :
    WindowsFine true (spatialSize (floatTensor [1, 3, 7, 15, 15]) .d) (2 : Int64).toInt
      (2 : Int64).toInt (0 : Int64).toInt (outputSize [1, 3, 4, 8, 8] .d).toInt :=
  (windowsFine_iff (floatTensor [1, 3, 7, 15, 15]) true
    (configures_list (fun _ => 2) (fun _ => 2) (fun _ => 0)) [1, 3, 4, 8, 8] (by decide) .d
    (by decide) (by decide) (by decide)).1 (by decide)

/-- An axis of `2 ^ 32 + 1` entries is taken for one of a single entry, and all
    others are left out. -/
theorem not_windowsFine_long_axis :
    ∃ out, calcAvgPool3dOutputSize (floatTensor [1, 1, 2 ^ 32 + 1, 1, 1]) [1] [1] [0] true
      = .ok out ∧ ¬ WindowsFine true (2 ^ 32 + 1) 1 1 0 (outputSize out .d).toInt := by
  refine ⟨[1, 1, 1, 1, 1], by decide, ?_⟩
  rintro ⟨_, hcover⟩
  rcases hcover rfl (le_refl 1) 1 (by omega) (by omega) with ⟨i, hi, hout, _, hin⟩
  have hone : i < 1 := hout
  omega

end AscendKernel
