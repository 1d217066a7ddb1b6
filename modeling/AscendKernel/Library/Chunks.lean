import Mathlib.Algebra.Order.Floor.Div
import Mathlib.Data.List.Range
import Mathlib.Tactic.Ring

/-!
# Splitting a Range into Equal Chunks

The standard way to hand `n` jobs to at most `c` workers: give each worker
`w = ⌈n / c⌉` of them, which takes `u = ⌈n / w⌉` workers, of which the last one
may get fewer.

Both quotients round up, and neither undoes the other, so `u` may be less than
`c`. What holds for every `n` and `c` is that the last worker's share is never
empty and never larger than a full one. `chunks_concat` is the independent
half: whatever the last share is, the chunks read one after the other are the
range, in order.

## Main definitions

* `chunk`: The jobs of one worker.

## Theorems

* `share_pos`, `share_le`: A full share is at least one job and at most all.
* `workers_le`: At most as many workers as allowed.
* `last_share`: The last share is neither empty nor oversized.
* `chunks_concat`: The chunks in order are the whole range.
-/

namespace AscendKernel

/-- The jobs of worker `b` when full shares have `w` jobs, there are `u`
    workers, and the last one has `t` jobs. -/
def chunk (w u t b : ℕ) : List ℕ := (List.range (if b = u - 1 then t else w)).map (b * w + ·)

/-- The chunks of all workers, read in order, are one contiguous range. -/
theorem chunks_concat (w u t : ℕ) (hu : 1 ≤ u) :
    (List.range u).flatMap (chunk w u t) = List.range ((u - 1) * w + t) := by
  rcases u with _ | k
  · exact absurd hu (by omega)
  rw [Nat.add_sub_cancel, List.range_succ, List.flatMap_append, List.flatMap_singleton,
    List.range_add]
  congr 1
  · -- The full shares, all but the last worker's.
    have hfull : ∀ j ≤ k, (List.range j).flatMap (chunk w (k + 1) t) = List.range (j * w) := by
      intro j
      induction j with
      | zero =>
          intro _
          rw [Nat.zero_mul, List.range_zero, List.flatMap_nil]
      | succ i ih =>
          intro hi
          rw [List.range_succ, List.flatMap_append, ih (by omega), List.flatMap_singleton, chunk,
            if_neg (by omega), Nat.succ_mul, List.range_add]
    exact hfull k (le_refl k)
  · -- The last worker's.
    rw [chunk, if_pos (by omega)]

variable (n c : ℕ)

/-- A full share is at least one job. -/
theorem share_pos (hn : 1 ≤ n) (hc : 1 ≤ c) : 1 ≤ (n + c - 1) / c := by
  rw [Nat.le_div_iff_mul_le (by omega)]
  omega

/-- The shares of all workers together cover the jobs. -/
theorem le_share_mul (hc : 1 ≤ c) : n ≤ c * ((n + c - 1) / c) := by
  have h := le_smul_ceilDiv (a := c) (b := n) (by omega)
  rwa [Nat.ceilDiv_eq_add_pred_div, smul_eq_mul] at h

/-- One worker fewer than the quotient counts is not enough. -/
theorem pred_mul_share_lt (hn : 1 ≤ n) (hc : 1 ≤ c) : ((n + c - 1) / c - 1) * c < n := by
  have hpos := share_pos n c hn hc
  have hdiv := Nat.div_mul_le_self (n + c - 1) c
  have hexp : ((n + c - 1) / c - 1) * c + c = (n + c - 1) / c * c := by
    rw [← Nat.succ_mul, Nat.succ_eq_add_one, Nat.sub_add_cancel hpos]
  omega

/-- A full share is at most all the jobs. -/
theorem share_le (hc : 1 ≤ c) : (n + c - 1) / c ≤ n := by
  rw [← Nat.ceilDiv_eq_add_pred_div, ceilDiv_le_iff_le_mul (by omega)]
  calc n = 1 * n := (Nat.one_mul n).symm
    _ ≤ c * n := Nat.mul_le_mul_right n hc

/-- No more workers are used than there are. -/
theorem workers_le (hn : 1 ≤ n) (hc : 1 ≤ c) :
    (n + (n + c - 1) / c - 1) / ((n + c - 1) / c) ≤ c := by
  have hpos := share_pos n c hn hc
  rw [← Nat.ceilDiv_eq_add_pred_div n ((n + c - 1) / c), ceilDiv_le_iff_le_mul (by omega),
    Nat.mul_comm]
  exact le_share_mul n c hc

/-- The last share: what the earlier workers leave is neither empty nor more
    than a full share. -/
theorem last_share (w : ℕ) (hn : 1 ≤ n) (hw : 1 ≤ w) :
    ((n + w - 1) / w - 1) * w < n ∧ n - ((n + w - 1) / w - 1) * w ≤ w := by
  have hlt := pred_mul_share_lt n w hn hw
  have hle := le_share_mul n w hw
  have hpos := share_pos n w hn hw
  refine ⟨hlt, ?_⟩
  -- All shares together cover the jobs, so the last one covers what is left.
  have hexp : ((n + w - 1) / w - 1) * w + w = w * ((n + w - 1) / w) := by
    rw [← Nat.succ_mul, Nat.succ_eq_add_one, Nat.sub_add_cancel hpos, Nat.mul_comm]
  omega

end AscendKernel
