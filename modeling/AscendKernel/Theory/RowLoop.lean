import AscendKernel.Core.Kernel
import AscendKernel.Library.PaddedRow

/-!
# The Loop over a Row

What the kernel's row loop computes, in closed form.

The loop carries a running count and writes one position per iteration, so the
invariant has two clauses: the count is the number of empty entries passed, and
every position passed already holds its final value. `rowLoop_spec` is the
induction. The count the loop compares against the shortage includes the
current position, which is why an empty position is kept when the count of
empties *up to and including* it is within the shortage.

The shortage is a signed number and often negative. A negative shortage and a
shortage of zero select the same positions, none, so `processRow_eq` can replace
the signed comparison by `firstFit` with a truncated difference.

`castSum_eq` discharges the hypothesis `processRow_eq` puts on the counts: in
half precision the sum is exact for every mask no wider than the kernel's row,
in whatever order it is taken.

## Main definitions

* `emptySlots`: The positions holding the empty marker.

## Theorems

* `rowLoop_spec`: The loop invariant.
* `processRow_eq`: A row's slots are topped up by the truncated shortage.
* `castSum_eq`: Counting a row in half precision is exact.
* `processRow_of_no_shortage`: Without a shortage a row keeps its slots.
* `processRow_again`: Nor does it gain any the second time.
-/

namespace AscendKernel

/-- The positions of a row holding the empty marker. -/
def emptySlots (idxLocal : ℕ → Int64) (i : ℕ) : Bool := decide (idxLocal i = -1)

theorem rowLoop_succ (n : ℕ) (numShortage : ℤ) (availLocal : ℕ → Bool) (idxLocal : ℕ → Int64) :
    rowLoop (n + 1) numShortage availLocal idxLocal
      = rowStep numShortage availLocal idxLocal (rowLoop n numShortage availLocal idxLocal) n := by
  rw [rowLoop, List.range_succ, List.foldl_append]
  rfl

/-- The loop invariant: after `n` iterations the running count is the number
    of empty positions passed, and every position passed is settled. -/
theorem rowLoop_spec (n : ℕ) (numShortage : ℤ) (availLocal : ℕ → Bool) (idxLocal : ℕ → Int64) :
    (rowLoop n numShortage availLocal idxLocal).cumsum = countTrue (emptySlots idxLocal) n ∧
    ∀ i < n, (rowLoop n numShortage availLocal idxLocal).resultLocal i
      = (availLocal i || (decide ((countTrue (emptySlots idxLocal) (i + 1) : ℤ) ≤ numShortage)
          && emptySlots idxLocal i)) := by
  induction n with
  | zero => exact ⟨rfl, fun i hi => absurd hi (Nat.not_lt_zero i)⟩
  | succ k ih =>
      rcases ih with ⟨hcount, hrow⟩
      -- The count after this iteration, which the comparison uses.
      have hcount' : (if emptySlots idxLocal k = true
            then (rowLoop k numShortage availLocal idxLocal).cumsum + 1
            else (rowLoop k numShortage availLocal idxLocal).cumsum)
          = (countTrue (emptySlots idxLocal) (k + 1) : ℤ) := by
        rw [hcount, countTrue_succ]
        by_cases he : emptySlots idxLocal k = true
        · rw [if_pos he, if_pos he]
          push_cast
          rfl
        · rw [if_neg he, if_neg he, Nat.add_zero]
      rw [rowLoop_succ]
      refine ⟨hcount', fun i hi => ?_⟩
      by_cases hik : i = k
      · -- The position just written.
        subst hik
        change Function.update _ _ _ _ = _
        rw [Function.update_self]
        change (availLocal i || (decide ((if emptySlots idxLocal i = true
            then (rowLoop i numShortage availLocal idxLocal).cumsum + 1
            else (rowLoop i numShortage availLocal idxLocal).cumsum) ≤ numShortage)
              && emptySlots idxLocal i)) = _
        rw [hcount']
      · change Function.update _ _ _ _ = _
        rw [Function.update_of_ne hik]
        exact hrow i (by omega)

/-- With exact counts, a row's slots are topped up with empty positions by the
    shortage, a negative shortage counting as none. -/
theorem processRow_eq (n : ℕ) (sum : (ℕ → Bool) → ℤ) (hsum : ∀ m, sum m = countTrue m n)
    (missLocal availLocal : ℕ → Bool) (idxLocal : ℕ → Int64) (i : ℕ) (hi : i < n) :
    processRow n sum missLocal availLocal idxLocal i
      = firstFit availLocal (emptySlots idxLocal)
          (countTrue missLocal n - countTrue availLocal n) i := by
  have hrow := (rowLoop_spec n (sum missLocal - sum availLocal) availLocal idxLocal).2 i hi
  change (rowLoop n (sum missLocal - sum availLocal) availLocal idxLocal).resultLocal i = _
  rw [hrow, hsum, hsum]
  exact firstFit_signed availLocal (emptySlots idxLocal) _ _ i

/-- A row keeps its slots when they are no fewer than the tokens to load. -/
theorem processRow_of_no_shortage (n : ℕ) (sum : (ℕ → Bool) → ℤ)
    (hsum : ∀ m, sum m = countTrue m n) (missLocal availLocal : ℕ → Bool)
    (idxLocal : ℕ → Int64) (h : countTrue missLocal n ≤ countTrue availLocal n) (i : ℕ)
    (hi : i < n) : processRow n sum missLocal availLocal idxLocal i = availLocal i := by
  rw [processRow_eq n sum hsum missLocal availLocal idxLocal i hi,
    show countTrue missLocal n - countTrue availLocal n = 0 by omega, firstFit_zero]

/-- Counting a mask in half precision is exact up to the kernel's width,
    whatever the order of the additions. -/
theorem castSum_eq {n : ℕ} (order : SumOrder n) (hn : n ≤ SEQ_LEN) (m : ℕ → Bool) :
    castSum order m = countTrue m n := by
  have h := SumOrder.eval_mask order halfBits (by decide) m (by
    change n ≤ 2 ^ 11
    exact hn)
  rw [castSum, h]

/-- A row's result depends only on the entries inside it. -/
theorem processRow_congr (n : ℕ) (sum : (ℕ → Bool) → ℤ) (hsum : ∀ m, sum m = countTrue m n)
    (miss miss' avail avail' : ℕ → Bool) (idx idx' : ℕ → Int64)
    (hm : ∀ i < n, miss i = miss' i) (ha : ∀ i < n, avail i = avail' i)
    (hx : ∀ i < n, idx i = idx' i) (i : ℕ) (hi : i < n) :
    processRow n sum miss avail idx i = processRow n sum miss' avail' idx' i := by
  have hempty : countTrue (emptySlots idx) (i + 1) = countTrue (emptySlots idx') (i + 1) := by
    refine countTrue_congr _ _ (i + 1) (fun j hj => ?_)
    rw [emptySlots, emptySlots, hx j (by omega)]
  rw [processRow_eq n sum hsum miss avail idx i hi, processRow_eq n sum hsum miss' avail' idx' i hi,
    firstFit, firstFit, hempty, countTrue_congr miss miss' n hm, countTrue_congr avail avail' n ha,
    ha i hi, emptySlots, emptySlots, hx i hi]

/-- A row processed a second time is left as it is. The shortage is no larger
    by then, so the positions within it were set the first time. -/
theorem processRow_again (n : ℕ) (sum : (ℕ → Bool) → ℤ) (hsum : ∀ m, sum m = countTrue m n)
    (miss avail : ℕ → Bool) (idx : ℕ → Int64) (i : ℕ) (hi : i < n) :
    processRow n sum miss (processRow n sum miss avail idx) idx i
      = processRow n sum miss avail idx i := by
  have hrow := processRow_eq n sum hsum miss avail idx
  set row := processRow n sum miss avail idx
  have hle : countTrue avail n ≤ countTrue row n := by
    refine countTrue_le_of_imp avail row n (fun j hj h => ?_)
    rw [hrow j hj, firstFit_eq, h, Bool.true_or]
  rw [processRow_eq n sum hsum miss row idx i hi]
  refine firstFit_of_settled row (emptySlots idx) _ i (fun h => ?_)
  rw [hrow i hi, firstFit_eq, firstTrue_mono _ (by omega) i h, Bool.or_true]

end AscendKernel
