import Mathlib.Data.Nat.Count
import Mathlib.Algebra.BigOperators.Intervals

/-!
# Counting the True Bits of a Mask

A mask is a total function `Nat → Bool` read on an initial segment, and its
size there is how many positions are true. Everything downstream is a
comparison of such sizes: how many values a mask selects, how many slots
another offers, how far a running counter has got.

`Nat.count` already is that number. `countTrue` only fixes the predicate to be
a mask's truth, which lets the recursion equations be stated once, without a
decidability instance in sight, and lets a mask be updated by Boolean
operations instead of propositional ones.

`countTrue_firstFit` is the one counting fact with content. A loop that walks
a mask with a running counter and keeps a position while the counter has not
passed a limit keeps exactly the first so many positions, so what it keeps is
the smaller of the limit and the whole. `countTrue_rowMajor` is its companion
for two dimensions: the count up to an element of a flattened matrix is what
the earlier rows hold plus what the element's own row holds before it.

## Main definitions

* `countTrue`: The number of true positions below a bound.
* `firstTrue`: The first so many true positions of a mask.
* `rowMajor`: A matrix read as one long row.

## Theorems

* `countTrue_add`: A count over a sum of lengths splits there.
* `countTrue_split`: A count splits along any second mask.
* `countTrue_congr`: Masks agreeing below the bound count the same.
* `countTrue_le_of_imp`: A smaller mask counts less.
* `countTrue_firstFit`: What a bounded counter keeps.
* `countTrue_firstTrue`: How many the first so many are.
* `rowMajor_at`: An element of the flattened matrix.
* `countTrue_rowMajor`: The count before an element of a flattened matrix.
-/

namespace AscendKernel

/-- How many of the first `n` positions of a mask are true. -/
def countTrue (m : ℕ → Bool) (n : ℕ) : ℕ := Nat.count (fun i => m i = true) n

@[simp] theorem countTrue_zero (m : ℕ → Bool) : countTrue m 0 = 0 := rfl

theorem countTrue_succ (m : ℕ → Bool) (n : ℕ) :
    countTrue m (n + 1) = countTrue m n + if m n = true then 1 else 0 :=
  Nat.count_succ _ n

theorem countTrue_add (m : ℕ → Bool) (a b : ℕ) :
    countTrue m (a + b) = countTrue m a + countTrue (fun k => m (a + k)) b :=
  Nat.count_add _ a b

theorem countTrue_le (m : ℕ → Bool) (n : ℕ) : countTrue m n ≤ n := Nat.count_le _

/-- A true position inside the bound is not yet counted before itself. -/
theorem countTrue_lt (m : ℕ → Bool) {i n : ℕ} (hi : i < n) (hm : m i = true) :
    countTrue m i < countTrue m n :=
  Nat.count_strict_mono hm hi

/-- Every number below the count is the count before some true position. -/
theorem exists_countTrue_eq (m : ℕ → Bool) (n k : ℕ) (h : k < countTrue m n) :
    ∃ i < n, m i = true ∧ countTrue m i = k := by
  induction n with
  | zero => exact absurd h (Nat.not_lt_zero k)
  | succ j ih =>
      rw [countTrue_succ] at h
      by_cases hk : k < countTrue m j
      · -- Found before the last position.
        rcases ih hk with ⟨i, hi, hm, hcount⟩
        exact ⟨i, Nat.lt_succ_of_lt hi, hm, hcount⟩
      · by_cases hm : m j = true
        · rw [if_pos hm] at h
          exact ⟨j, Nat.lt_succ_self j, hm, by omega⟩
        · rw [if_neg hm] at h
          omega

theorem countTrue_congr (m m' : ℕ → Bool) (n : ℕ) (h : ∀ i < n, m i = m' i) :
    countTrue m n = countTrue m' n := by
  induction n with
  | zero => rfl
  | succ k ih =>
      rw [countTrue_succ, countTrue_succ, ih (fun i hi => h i (by omega)), h k (by omega)]

theorem countTrue_le_of_imp (m m' : ℕ → Bool) (n : ℕ)
    (h : ∀ i < n, m i = true → m' i = true) : countTrue m n ≤ countTrue m' n :=
  Nat.count_mono_left h

theorem countTrue_eq_zero_iff (m : ℕ → Bool) (n : ℕ) :
    countTrue m n = 0 ↔ ∀ i < n, m i = false := by
  rw [countTrue, Nat.count_iff_forall_not]
  simp only [Bool.not_eq_true]

theorem countTrue_eq_self_iff (m : ℕ → Bool) (n : ℕ) :
    countTrue m n = n ↔ ∀ i < n, m i = true :=
  Nat.count_iff_forall

/-- A mask's count is the size of the set of its true positions. -/
theorem countTrue_eq_card (m : ℕ → Bool) (n : ℕ) :
    countTrue m n = ((Finset.range n).filter (fun i => m i = true)).card :=
  Nat.count_eq_card_filter_range _ n

/-- A mask with a single true position. -/
theorem countTrue_single (m : ℕ → Bool) (n a : ℕ) (ha : a < n)
    (h : ∀ i < n, (m i = true ↔ i = a)) : countTrue m n = 1 := by
  have hset : (Finset.range n).filter (fun i => m i = true) = {a} := by
    ext i
    rw [Finset.mem_filter, Finset.mem_range, Finset.mem_singleton]
    constructor
    · rintro ⟨hi, hm⟩
      exact (h i hi).mp hm
    · rintro rfl
      exact ⟨ha, (h i ha).mpr rfl⟩
  rw [countTrue_eq_card, hset, Finset.card_singleton]

/-- A count splits along any second mask. -/
theorem countTrue_split (m q : ℕ → Bool) (n : ℕ) :
    countTrue m n = countTrue (fun i => m i && q i) n + countTrue (fun i => m i && !q i) n := by
  induction n with
  | zero => rfl
  | succ k ih =>
      rw [countTrue_succ, countTrue_succ, countTrue_succ, ih]
      cases m k <;> cases q k <;> simp only [Bool.and_true, Bool.and_false, Bool.not_true,
        Bool.not_false, if_true, Bool.false_eq_true, if_false] <;> omega

/-- A position is either in a mask or outside it. -/
theorem countTrue_not (m : ℕ → Bool) (n : ℕ) :
    countTrue m n + countTrue (fun i => !m i) n = n := by
  have hall : countTrue (fun _ => true) n = n := (countTrue_eq_self_iff _ n).mpr (fun _ _ => rfl)
  have hsplit : countTrue (fun _ => true) n
      = countTrue m n + countTrue (fun i => !m i) n := by
    simpa only [Bool.true_and] using countTrue_split (fun _ => true) m n
  rw [← hsplit, hall]

/-- Adding to a mask the part of another that it lacks. -/
theorem countTrue_or (m q : ℕ → Bool) (n : ℕ) :
    countTrue (fun i => m i || q i) n = countTrue m n + countTrue (fun i => q i && !m i) n := by
  induction n with
  | zero => rfl
  | succ k ih =>
      rw [countTrue_succ, countTrue_succ, countTrue_succ, ih]
      cases m k <;> cases q k <;> simp only [Bool.or_true, Bool.or_false, Bool.not_true,
        Bool.not_false, Bool.and_true, Bool.and_false, if_true, Bool.false_eq_true,
        if_false] <;> omega

/-- A counter that walks a mask and keeps its positions until a limit is
    passed keeps the smaller of the limit and the whole mask. The induction
    is on the length walked: the position added last is kept exactly when the
    count including it is still within the limit. -/
theorem countTrue_firstFit (e : ℕ → Bool) (k n : ℕ) :
    countTrue (fun i => e i && decide (countTrue e (i + 1) ≤ k)) n = min k (countTrue e n) := by
  induction n with
  | zero => rw [countTrue_zero, countTrue_zero, Nat.min_zero]
  | succ j ih =>
      rw [countTrue_succ, ih, countTrue_succ]
      cases he : e j with
      | false =>
          -- Neither side counts the position.
          simp only [Bool.false_and, Bool.false_eq_true, if_false, Nat.add_zero]
      | true =>
          simp only [Bool.true_and, decide_eq_true_eq, if_true]
          -- Kept while the count that includes it is within the limit.
          by_cases hk : countTrue e j + 1 ≤ k
          · rw [if_pos hk]
            omega
          · rw [if_neg hk]
            omega

/-- The first `k` true positions of a mask. -/
def firstTrue (m : ℕ → Bool) (k i : ℕ) : Bool := m i && decide (countTrue m i < k)

/-- They are what a counter that includes the position keeps. -/
theorem firstTrue_eq (m : ℕ → Bool) (k i : ℕ) :
    firstTrue m k i = (m i && decide (countTrue m (i + 1) ≤ k)) := by
  rw [firstTrue, countTrue_succ]
  cases m i with
  | false => rw [Bool.false_and, Bool.false_and]
  | true =>
      rw [if_pos rfl]
      rfl

theorem countTrue_firstTrue (m : ℕ → Bool) (k n : ℕ) :
    countTrue (firstTrue m k) n = min k (countTrue m n) := by
  rw [← countTrue_firstFit]
  exact countTrue_congr _ _ n (fun i _ => firstTrue_eq m k i)

/-- There are no further positions than all of them. -/
theorem firstTrue_min (m : ℕ → Bool) (k n i : ℕ) (hi : i < n) :
    firstTrue m (min k (countTrue m n)) i = firstTrue m k i := by
  rw [firstTrue, firstTrue]
  cases hm : m i with
  | false => rw [Bool.false_and, Bool.false_and]
  | true =>
      have hlt := countTrue_lt m hi hm
      rw [Bool.true_and, Bool.true_and, decide_eq_decide]
      omega

theorem firstTrue_mono (m : ℕ → Bool) {j k : ℕ} (hjk : j ≤ k) (i : ℕ)
    (h : firstTrue m j i = true) : firstTrue m k i = true := by
  rw [firstTrue, Bool.and_eq_true, decide_eq_true_eq] at h ⊢
  exact ⟨h.1, by omega⟩

/-- A matrix of row width `K` read in row-major order as one long row. -/
def rowMajor {α : Type*} (K : ℕ) (f : ℕ → ℕ → α) (n : ℕ) : α := f (n / K) (n % K)

theorem rowMajor_at {α : Type*} (K : ℕ) (f : ℕ → ℕ → α) (r i : ℕ) (hi : i < K) :
    rowMajor K f (r * K + i) = f r i := by
  have hK : 0 < K := by omega
  have hdiv : (r * K + i) / K = r := by
    rw [Nat.mul_comm, Nat.mul_add_div hK, Nat.div_eq_of_lt hi, Nat.add_zero]
  have hmod : (r * K + i) % K = i := by
    rw [Nat.mul_comm, Nat.mul_add_mod, Nat.mod_eq_of_lt hi]
  rw [rowMajor, hdiv, hmod]

/-- A memory cut into rows and put together again. -/
theorem rowMajor_rows {α : Type*} (K : ℕ) (mem : ℕ → α) :
    rowMajor K (fun r i => mem (r * K + i)) = mem :=
  funext fun a => congrArg mem (Nat.div_add_mod' a K)

/-- A matrix mask with a single true element, as one long row. -/
theorem rowMajor_eq_true_iff {K : ℕ} (m : ℕ → ℕ → Bool) (r i : ℕ) (hi : i < K)
    (h : ∀ q, ∀ j < K, (m q j = true ↔ q = r ∧ j = i)) (n : ℕ) :
    rowMajor K m n = true ↔ n = r * K + i := by
  have hdiv := Nat.div_add_mod n K
  constructor
  · intro hn
    have hcell := (h (n / K) (n % K) (Nat.mod_lt n (by omega))).mp hn
    rw [hcell.1, hcell.2, Nat.mul_comm] at hdiv
    exact hdiv.symm
  · rintro rfl
    rw [rowMajor_at K m r i hi]
    exact (h r i hi).mpr ⟨rfl, rfl⟩

/-- Every element of the first `B` rows is some row's. -/
theorem exists_row (B K n : ℕ) (hn : n < B * K) : ∃ r < B, ∃ i < K, n = r * K + i := by
  have hK : 0 < K := by
    rcases Nat.eq_zero_or_pos K with rfl | h
    · rw [Nat.mul_zero] at hn
      exact absurd hn (Nat.not_lt_zero n)
    · exact h
  refine ⟨n / K, (Nat.div_lt_iff_lt_mul hK).mpr hn, n % K, Nat.mod_lt n hK, ?_⟩
  rw [Nat.mul_comm]
  exact (Nat.div_add_mod n K).symm

/-- The last element of row `r` comes before the end of any later row. -/
theorem row_elem_lt {B K r i : ℕ} (hr : r < B) (hi : i < K) : r * K + i < B * K := by
  calc r * K + i < r * K + K := Nat.add_lt_add_left hi _
    _ = (r + 1) * K := (Nat.succ_mul r K).symm
    _ ≤ B * K := Nat.mul_le_mul_right K hr

/-- The count before an element of a flattened matrix: what the rows above
    hold, plus what its own row holds before it. -/
theorem countTrue_rowMajor (K : ℕ) (m : ℕ → ℕ → Bool) (r i : ℕ) (hi : i ≤ K) :
    countTrue (rowMajor K m) (r * K + i)
      = (∑ q ∈ Finset.range r, countTrue (m q) K) + countTrue (m r) i := by
  -- One row's worth of the flattened mask is that row's mask.
  have hrow : ∀ q j, j ≤ K →
      countTrue (fun k => rowMajor K m (q * K + k)) j = countTrue (m q) j := by
    intro q j hj
    exact countTrue_congr _ _ j (fun k hk => rowMajor_at K m q k (by omega))
  have hwhole : countTrue (rowMajor K m) (r * K) = ∑ q ∈ Finset.range r, countTrue (m q) K := by
    induction r with
    | zero => simp only [Nat.zero_mul, countTrue_zero, Finset.range_zero, Finset.sum_empty]
    | succ q ih =>
        rw [Nat.succ_mul, countTrue_add, ih, hrow q K (le_refl K), Finset.sum_range_succ]
  rw [countTrue_add, hwhole, hrow r i hi]

theorem countTrue_rowMajor_total (B K : ℕ) (m : ℕ → ℕ → Bool) :
    countTrue (rowMajor K m) (B * K) = ∑ q ∈ Finset.range B, countTrue (m q) K := by
  have h := countTrue_rowMajor K m B 0 (Nat.zero_le K)
  rwa [Nat.add_zero, countTrue_zero, Nat.add_zero] at h

end AscendKernel
