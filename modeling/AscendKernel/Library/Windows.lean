import Mathlib.Algebra.Order.Ring.Int
import Mathlib.Tactic.Ring

/-!
# Sliding Windows on an Axis

Windows of one width placed at a fixed stride along an axis, the first of them
starting a little before it.

An axis is the indices from 0 below `n`, and window `i` holds the `k` indices
from `i * s - p` on. A window that starts before the end and ends after the
start meets the axis. As long as the stride is no larger than the window,
consecutive windows leave no gap, so whether the whole axis is covered depends
only on where the last of them ends.

## Main definitions

* `InWindow`: An index inside a window.

## Theorems

* `window_meets`: When a window holds an index of the axis.
* `windows_cover`: When a row of windows covers the axis.
* `windows_miss`: An index past the last window's end is in none of them.
-/

namespace AscendKernel

/-- Index `x` lies in window `i`. -/
def InWindow (k s p i x : ℤ) : Prop := i * s - p ≤ x ∧ x < i * s - p + k

/-- A window that starts before the end of the axis and ends after its start
    holds one of its indices. -/
theorem window_meets (n k s p i : ℤ) (hn : 0 < n) (hk : 0 < k) (hstart : i * s - p < n)
    (hend : 0 < i * s - p + k) : ∃ x, 0 ≤ x ∧ x < n ∧ InWindow k s p i x := by
  -- The window's own first index, unless it lies before the axis.
  rcases Int.le_total 0 (i * s - p) with h | h
  · exact ⟨i * s - p, h, hstart, le_refl _, by omega⟩
  · exact ⟨0, le_refl 0, hn, h, hend⟩

/-- Windows with no gap between them cover an axis that ends no later than the
    last of them does. -/
theorem windows_cover (n k s p last x : ℤ) (hs : 0 < s) (hsk : s ≤ k) (hp : 0 ≤ p)
    (hlast : 0 ≤ last) (hreach : n ≤ last * s - p + k) (hx : 0 ≤ x) (hxn : x < n) :
    ∃ i, 0 ≤ i ∧ i ≤ last ∧ InWindow k s p i x := by
  have hdiv := Int.ediv_mul_add_emod (x + p) s
  have hrem := Int.emod_nonneg (x + p) hs.ne'
  have hlt := Int.emod_lt_of_pos (x + p) hs
  -- The last window that starts at or before the index, if there are so many.
  rcases Int.le_total ((x + p) / s) last with h | h
  · exact ⟨(x + p) / s, Int.ediv_nonneg (by omega) hs.le, h, by omega, by omega⟩
  · have hmul : last * s ≤ (x + p) / s * s := Int.mul_le_mul_of_nonneg_right h hs.le
    exact ⟨last, hlast, le_refl last, by omega, by omega⟩

/-- An index past the last window's end is in no window up to the last. -/
theorem windows_miss (k s p last i x : ℤ) (hs : 0 < s) (hi : i ≤ last)
    (hx : last * s - p + k ≤ x) : ¬ InWindow k s p i x := by
  rintro ⟨_, hlt⟩
  have hmul : i * s ≤ last * s := Int.mul_le_mul_of_nonneg_right hi hs.le
  omega

end AscendKernel
