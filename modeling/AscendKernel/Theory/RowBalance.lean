import AscendKernel.Core.Host
import AscendKernel.Theory.RowLoop

/-!
# The Balance of One Row

How many slots the kernel offers a row, against how many tokens the row
misses.

The set differences the host takes are `diffMask`, and with exact counts the
row the kernel leaves is `slots`, so what `Library.PaddedRow` proves about a
row of any values holds of a row of codes. The kernel only ever adds slots.
When the old row has room and holds more codes than the new one, the slots
outnumber the misses by the difference, and nothing takes them back; in every
other case the two agree.

The counts are a parameter here, for any width. `castSum_eq` provides them for
every width up to the kernel's own.

## Main definitions

* `CodeRow`: A row holding a given number of distinct codes, and -1 elsewhere.

## Theorems

* `getSetDiffMask_eq`: The host's set difference.
* `processRow_slots`: The kernel's row is the slots of the padded row.
* `processRow_balance`: Slots against misses, exactly.
-/

namespace AscendKernel

/-- A row of width `K` with `c` pairwise distinct non-negative codes and -1 in
    every other position. -/
structure CodeRow (K c : ℕ) (row : ℕ → Int64) : Prop where
  count : countTrue (fun i => decide (0 ≤ row i)) K = c
  distinct : ∀ i < K, ∀ j < K, 0 ≤ row i → row i = row j → i = j
  empty : ∀ i < K, ¬ 0 ≤ row i → row i = -1

theorem CodeRow.ne_neg_one_iff {K c : ℕ} {row : ℕ → Int64} (h : CodeRow K c row) (i : ℕ)
    (hi : i < K) : row i ≠ -1 ↔ 0 ≤ row i := by
  constructor
  · intro hne
    by_contra hneg
    exact hne (h.empty i hi hneg)
  · intro hpos heq
    rw [heq] at hpos
    exact absurd hpos (by decide)

theorem CodeRow.distinctOffPad {K c : ℕ} {row : ℕ → Int64} (h : CodeRow K c row) :
    DistinctOffPad (-1) K row :=
  fun i hi j hj hne heq => h.distinct i hi j hj ((h.ne_neg_one_iff i hi).mp hne) heq

theorem CodeRow.occupancy {K c : ℕ} {row : ℕ → Int64} (h : CodeRow K c row) :
    occupancy (-1) K row = c := by
  rw [← h.count]
  refine countTrue_congr _ _ K (fun i hi => ?_)
  rw [decide_eq_decide]
  exact h.ne_neg_one_iff i hi

/-- The host's set difference of two rows. -/
theorem getSetDiffMask_eq (n : ℕ) (a b : ℕ → ℕ → Int64) (r : ℕ) :
    getSetDiffMask n a b r = diffMask n (a r) (b r) := rfl

/-- With exact counts, the row the kernel leaves is the slots the old row
    offers to the new one. -/
theorem processRow_slots (K : ℕ) (sum : (ℕ → Bool) → ℤ) (hsum : ∀ m, sum m = countTrue m K)
    (new old : ℕ → Int64) (i : ℕ) (hi : i < K) :
    processRow K sum (diffMask K new old) (diffMask K old new) old i
      = slots (-1) K new old i :=
  processRow_eq K sum hsum _ _ _ i hi

/-- Slots against misses of one row, exactly. They agree unless the old row
    has room left and holds more codes than the new one; then the slots are
    more, by the difference. -/
theorem processRow_balance (K p q : ℕ) (sum : (ℕ → Bool) → ℤ)
    (hsum : ∀ m, sum m = countTrue m K) (new old : ℕ → ℕ → Int64) (r : ℕ)
    (hnew : CodeRow K p (new r)) (hold : CodeRow K q (old r)) :
    let miss := getSetDiffMask K new old r
    let slot := processRow K sum miss (getSetDiffMask K old new r) (old r)
    ((countTrue slot K : ℤ) - countTrue miss K = if p < q ∧ q < K then (q : ℤ) - p else 0) ∧
      countTrue miss K ≤ countTrue slot K ∧
      (countTrue slot K = countTrue miss K ↔ q ≤ p ∨ q = K) := by
  intro miss slot
  have hq : q ≤ K := hold.occupancy ▸ occupancy_le (-1) K (old r)
  have hslot : countTrue slot K = countTrue (slots (-1) K (new r) (old r)) K :=
    countTrue_congr _ _ K (processRow_slots K sum hsum (new r) (old r))
  -- The library's balance, with the two occupancies named.
  have hbal := slots_balance (-1) K (new r) (old r) hnew.distinctOffPad hold.distinctOffPad
  rw [hnew.occupancy, hold.occupancy, ← hslot, ← getSetDiffMask_eq K new old r] at hbal
  change countTrue slot K = countTrue miss K + _ at hbal
  by_cases hcase : p < q ∧ q < K
  · rw [if_pos hcase] at hbal ⊢
    omega
  · rw [if_neg hcase] at hbal ⊢
    omega

/-- Width four, one code replacing two: one slot too many. -/
theorem processRow_balance_width_four :
    let new := fun _ i : ℕ => if i = 0 then (5 : Int64) else -1
    let old := fun _ i : ℕ => if i = 0 then (5 : Int64) else if i = 1 then 7 else -1
    let miss := getSetDiffMask 4 new old 0
    let slot := processRow 4 (castSum (SumOrder.leftToRight 3)) miss (getSetDiffMask 4 old new 0)
      (old 0)
    (countTrue slot 4 : ℤ) - countTrue miss 4 = 1 :=
  (processRow_balance 4 1 2 (castSum (SumOrder.leftToRight 3))
    (castSum_eq (SumOrder.leftToRight 3) (by decide))
    (fun _ i => if i = 0 then 5 else -1)
    (fun _ i => if i = 0 then 5 else if i = 1 then 7 else -1) 0
    ⟨by decide, by decide, by decide⟩ ⟨by decide, by decide, by decide⟩).1

end AscendKernel
