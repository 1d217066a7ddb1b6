import AscendKernel.Library.Count
import Mathlib.Data.List.Count
import Mathlib.Logic.Equiv.Defs

/-!
# Masked Gather and Scatter

Two tensor operations that walk a mask in order. A gather lists the values at
the true positions; a scatter hands a list's values out, one at a time, to the
true positions of another mask. Both are one pass over a flat index range, and
neither knows where one matrix row ends and the next begins.

The scatter is a loop over a state: the memory being written and the values
not yet handed out. `addr` says which memory cell an index stands for, so the
same loop covers a fresh tensor, where it is the identity, and a view into a
larger buffer. `maskedScatter_addr` is what the loop amounts to: as long as
distinct indices have distinct cells, a true position holds the source value
whose number is the count of true positions before it.

`exists_own` and `scatter_rowLocal` are what makes a flat copy usable row by
row. They need every row to hand in exactly as many values as it has slots;
then the two prefix sums agree at the start of each row, a slot has the number
of a value of its own row, and the row receives its own values in order.
`exists_leak` is the other side: where the totals agree and the rows do not,
some slot has the number of another row's value. `occurrences_rowFill` counts
the outcome: a row whose kept entries match the other row's unselected ones
ends up with the same entries as that row, in some order.

## Main definitions

* `maskedSelect`: The values at a mask's true positions, in order.
* `ScatterState`: A scatter's memory and the source values still to hand out.
* `scatterStep`: One index of the scatter loop.
* `maskedScatter`: The scatter over an index range.
* `rowFill`: What a scatter leaves in a single row.
* `occurrences`: How often a row holds a value.

## Theorems

* `maskedSelect_length`: A gather lists one value per true position.
* `maskedSelect_getElem`: A true position's value sits at its own count.
* `maskedScatter_addr`: What a scatter leaves in a cell it covers.
* `maskedScatter_frame`: A scatter leaves other cells alone.
* `exists_leak`: In unbalanced rows some slot has the number of another row's
  value.
* `exists_own`: In balanced ones every slot has that of its own row's.
* `scatter_rowLocal`: A flat scatter between balanced rows is row by row.
* `occurrences_rowFill`: A filled row is a rearrangement of its source row.
-/

namespace AscendKernel

variable {α : Type*}

/-- The values of `v` at the true positions of a mask, in index order. -/
def maskedSelect (m : ℕ → Bool) (v : ℕ → α) (n : ℕ) : List α :=
  ((List.range n).filter m).map v

theorem maskedSelect_add (m : ℕ → Bool) (v : ℕ → α) (a b : ℕ) :
    maskedSelect m v (a + b)
      = maskedSelect m v a ++ maskedSelect (fun k => m (a + k)) (fun k => v (a + k)) b := by
  simp only [maskedSelect, List.range_add, List.filter_append, List.map_append, List.filter_map,
    List.map_map, Function.comp_def]

theorem maskedSelect_succ (m : ℕ → Bool) (v : ℕ → α) (n : ℕ) :
    maskedSelect m v (n + 1) = maskedSelect m v n ++ if m n = true then [v n] else [] := by
  rw [maskedSelect, List.range_succ, List.filter_append, List.map_append, ← maskedSelect]
  cases hm : m n with
  | true => simp only [List.filter_cons, hm, if_true, List.filter_nil, List.map_cons,
      List.map_nil]
  | false => simp only [List.filter_cons, hm, Bool.false_eq_true, if_false, List.filter_nil,
      List.map_nil]

theorem maskedSelect_congr (m m' : ℕ → Bool) (v v' : ℕ → α) (n : ℕ)
    (hm : ∀ i < n, m i = m' i) (hv : ∀ i < n, v i = v' i) :
    maskedSelect m v n = maskedSelect m' v' n := by
  induction n with
  | zero => rfl
  | succ k ih =>
      rw [maskedSelect_succ, maskedSelect_succ, hm k (by omega), hv k (by omega),
        ih (fun i hi => hm i (by omega)) (fun i hi => hv i (by omega))]

/-- A gather lists one value per true position. -/
theorem maskedSelect_length (m : ℕ → Bool) (v : ℕ → α) (n : ℕ) :
    (maskedSelect m v n).length = countTrue m n := by
  induction n with
  | zero => rfl
  | succ k ih =>
      rw [maskedSelect_succ, List.length_append, ih, countTrue_succ]
      cases m k <;> rfl

/-- A true position's value sits in the gathered list at the count of true
    positions before it. -/
theorem maskedSelect_getElem (m : ℕ → Bool) (v : ℕ → α) (n i : ℕ) (hi : i < n)
    (hm : m i = true) : (maskedSelect m v n)[countTrue m i]? = some (v i) := by
  have hpre : (maskedSelect m v (i + 1))[countTrue m i]? = some (v i) := by
    rw [maskedSelect_succ, if_pos hm, List.getElem?_append_right (by rw [maskedSelect_length]),
      maskedSelect_length, Nat.sub_self]
    rfl
  have hlen : countTrue m i < (maskedSelect m v (i + 1)).length := by
    rw [maskedSelect_length]
    exact countTrue_lt m (Nat.lt_succ_self i) hm
  -- Later positions only append to the list.
  rw [show n = (i + 1) + (n - (i + 1)) by omega, maskedSelect_add,
    List.getElem?_append_left hlen, hpre]

/-- Every gathered value comes from a true position. -/
theorem mem_maskedSelect (m : ℕ → Bool) (v : ℕ → α) (n : ℕ) (x : α) :
    x ∈ maskedSelect m v n ↔ ∃ i < n, m i = true ∧ v i = x := by
  simp only [maskedSelect, List.mem_map, List.mem_filter, List.mem_range, and_assoc]

/-- A scatter in progress: the memory written so far and the source values
    not yet handed out. -/
structure ScatterState (α : Type*) where
  mem : ℕ → α
  rest : List α

/-- One index of the scatter: a true position takes the next source value, if
    there is one. -/
def scatterStep (addr : ℕ → ℕ) (m : ℕ → Bool) (s : ScatterState α) (n : ℕ) : ScatterState α :=
  if m n = true then
    match s.rest with
    | [] => s
    | x :: xs => { mem := Function.update s.mem (addr n) x, rest := xs }
  else s

/-- The scatter loop over the first `n` indices. -/
def scatterLoop (addr : ℕ → ℕ) (m : ℕ → Bool) (src : List α) (mem : ℕ → α) (n : ℕ) :
    ScatterState α :=
  (List.range n).foldl (scatterStep addr m) { mem := mem, rest := src }

/-- Hand the source values out, in order, to the cells of the true positions. -/
def maskedScatter (addr : ℕ → ℕ) (m : ℕ → Bool) (src : List α) (mem : ℕ → α) (n : ℕ) : ℕ → α :=
  (scatterLoop addr m src mem n).mem

theorem scatterLoop_succ (addr : ℕ → ℕ) (m : ℕ → Bool) (src : List α) (mem : ℕ → α) (n : ℕ) :
    scatterLoop addr m src mem (n + 1)
      = scatterStep addr m (scatterLoop addr m src mem n) n := by
  rw [scatterLoop, List.range_succ, List.foldl_append]
  rfl

/-- The loop has handed out one value per true position passed. -/
theorem scatterLoop_rest (addr : ℕ → ℕ) (m : ℕ → Bool) (src : List α) (mem : ℕ → α) (n : ℕ) :
    (scatterLoop addr m src mem n).rest = src.drop (countTrue m n) := by
  induction n with
  | zero => rfl
  | succ k ih =>
      rw [scatterLoop_succ, scatterStep, countTrue_succ]
      by_cases hm : m k = true
      · -- A true position takes the head, or nothing when the values have run out.
        rw [if_pos hm, if_pos hm, ← List.drop_drop, ← ih]
        cases h : (scatterLoop addr m src mem k).rest with
        | nil => simp only [h, List.drop_nil]
        | cons x xs => simp only [List.drop_succ_cons, List.drop_zero]
      · rw [if_neg hm, if_neg hm, Nat.add_zero, ih]

/-- One more index writes the source value numbered by the count so far. -/
theorem maskedScatter_succ (addr : ℕ → ℕ) (m : ℕ → Bool) (src : List α) (mem : ℕ → α) (n a : ℕ) :
    maskedScatter addr m src mem (n + 1) a
      = if m n = true ∧ a = addr n then
          (src[countTrue m n]?).getD (maskedScatter addr m src mem n a)
        else maskedScatter addr m src mem n a := by
  have hrest := scatterLoop_rest addr m src mem n
  rw [maskedScatter, scatterLoop_succ, scatterStep, maskedScatter]
  by_cases hm : m n = true
  · rw [if_pos hm]
    -- The next value is the one numbered by the true positions passed.
    have hhead : src[countTrue m n]? = (scatterLoop addr m src mem n).rest[0]? := by
      rw [hrest, List.getElem?_drop, Nat.add_zero]
    rw [hhead]
    cases h : (scatterLoop addr m src mem n).rest with
    | nil => simp only [List.getElem?_nil, Option.getD_none, ite_self]
    | cons x xs =>
        simp only [List.getElem?_cons_zero, Option.getD_some, Function.update_apply, hm, true_and]
  · rw [if_neg hm, if_neg (fun h => hm h.1)]

/-- A scatter leaves a cell alone that no true position stands for. -/
theorem maskedScatter_frame (addr : ℕ → ℕ) (m : ℕ → Bool) (src : List α) (mem : ℕ → α) (n a : ℕ)
    (ha : ∀ i < n, m i = true → addr i ≠ a) : maskedScatter addr m src mem n a = mem a := by
  induction n with
  | zero => rfl
  | succ k ih =>
      rw [maskedScatter_succ, if_neg, ih (fun i hi => ha i (by omega))]
      rintro ⟨hm, hak⟩
      exact ha k (Nat.lt_succ_self k) hm hak.symm

/-- What a scatter leaves in the cell of an index it covers: a true position
    holds the source value whose number is the count of true positions before
    it, any other keeps its content. -/
theorem maskedScatter_addr (addr : ℕ → ℕ) (m : ℕ → Bool) (src : List α) (mem : ℕ → α) (n i : ℕ)
    (hinj : ∀ j < n, ∀ k < n, addr j = addr k → j = k) (hi : i < n) :
    maskedScatter addr m src mem n (addr i)
      = if m i = true then (src[countTrue m i]?).getD (mem (addr i)) else mem (addr i) := by
  induction n with
  | zero => exact absurd hi (Nat.not_lt_zero i)
  | succ k ih =>
      rw [maskedScatter_succ]
      by_cases hik : i = k
      · -- The index just reached: no earlier one wrote its cell.
        have hold : maskedScatter addr m src mem k (addr i) = mem (addr i) := by
          refine maskedScatter_frame addr m src mem k (addr i) (fun j hj _ heq => ?_)
          have := hinj j (by omega) i hi heq
          omega
        rw [hold, hik]
        simp only [and_true]
      · -- An earlier index: its cell is not the one written now.
        have hne : ¬ (m k = true ∧ addr i = addr k) := by
          rintro ⟨_, heq⟩
          exact hik (hinj i hi k (Nat.lt_succ_self k) heq)
        rw [if_neg hne]
        exact ih (fun j hj q hq => hinj j (by omega) q (by omega)) (by omega)

/-- What a scatter leaves in a single row: slots take the values in order,
    other positions keep their entries. -/
def rowFill (slot : ℕ → Bool) (src : List α) (old : ℕ → α) (i : ℕ) : α :=
  if slot i = true then (src[countTrue slot i]?).getD (old i) else old i

theorem rowFill_of_not_slot (slot : ℕ → Bool) (src : List α) (old : ℕ → α) (i : ℕ)
    (h : slot i = false) : rowFill slot src old i = old i := by
  rw [rowFill, h, if_neg (by simp only [Bool.false_eq_true, not_false_eq_true])]

theorem rowFill_congr (slot slot' : ℕ → Bool) (src : List α) (old old' : ℕ → α) (i : ℕ)
    (hslot : ∀ j ≤ i, slot j = slot' j) (hold : old i = old' i) :
    rowFill slot src old i = rowFill slot' src old' i := by
  rw [rowFill, rowFill, hslot i (le_refl i), hold,
    countTrue_congr slot slot' i (fun j hj => hslot j (by omega))]

/-- With a value for every slot, a slot's entry is a source value. -/
theorem rowFill_mem (slot : ℕ → Bool) (src : List α) (old : ℕ → α) (n i : ℕ) (hi : i < n)
    (hslot : slot i = true) (hlen : countTrue slot n ≤ src.length) :
    src[countTrue slot i]? = some (rowFill slot src old i) := by
  have hlt : countTrue slot i < src.length :=
    Nat.lt_of_lt_of_le (countTrue_lt slot hi hslot) hlen
  rw [rowFill, if_pos hslot, List.getElem?_eq_getElem hlt, Option.getD_some]

/-- With equal totals, the first row in which one matrix mask has more true
    positions than another holds a position whose number, over the whole
    matrix, belongs to another row's position in the other mask. -/
theorem exists_crossing (B K : ℕ) (x y : ℕ → ℕ → Bool)
    (htotal : countTrue (rowMajor K x) (B * K) = countTrue (rowMajor K y) (B * K)) (r : ℕ)
    (hr : r < B) (habove : ∀ q < r, countTrue (x q) K = countTrue (y q) K)
    (hlt : countTrue (x r) K < countTrue (y r) K) :
    ∃ q < B, q ≠ r ∧ ∃ j < K, ∃ i < K, x q j = true ∧ y r i = true ∧
      countTrue (rowMajor K x) (q * K + j) = countTrue (rowMajor K y) (r * K + i) := by
  have hsum : (∑ q ∈ Finset.range r, countTrue (x q) K)
      = ∑ q ∈ Finset.range r, countTrue (y q) K :=
    Finset.sum_congr rfl (fun q hq => habove q (Finset.mem_range.mp hq))
  -- The first position of the row that its own row of the other mask lacks.
  rcases exists_countTrue_eq (y r) K _ hlt with ⟨i, hi, hyi, hcount⟩
  have hnum := countTrue_rowMajor K y r i (by omega)
  have hbound : countTrue (rowMajor K y) (r * K + i) < countTrue (rowMajor K x) (B * K) := by
    rw [htotal]
    refine countTrue_lt (rowMajor K y) (row_elem_lt hr hi) ?_
    rw [rowMajor_at K y r i hi]
    exact hyi
  rcases exists_countTrue_eq (rowMajor K x) (B * K) _ hbound with ⟨n, hn, hxn, hmeet⟩
  rcases exists_row B K n hn with ⟨q, hq, j, hj, rfl⟩
  rw [rowMajor_at K x q j hj] at hxn
  refine ⟨q, hq, ?_, j, hj, i, hi, hxn, hyi, hmeet⟩
  -- Within the row itself the other mask never gets that far.
  rintro rfl
  have hown := countTrue_rowMajor K x q j (by omega)
  have hlast := countTrue_lt (x q) hj hxn
  omega

/-- Where two sequences differ at all, they differ at a first place. -/
theorem exists_first_ne (B : ℕ) (f g : ℕ → ℕ) (h : ∃ r < B, f r ≠ g r) :
    ∃ r < B, (∀ q < r, f q = g q) ∧ f r ≠ g r := by
  classical
  have hspec := Nat.find_spec h
  refine ⟨Nat.find h, hspec.1, fun q hq => ?_, hspec.2⟩
  by_contra hne
  exact Nat.find_min h hq ⟨by omega, hne⟩

/-- With equal totals but not in every row, some position of one mask has the
    number of another row's position in the other. -/
theorem exists_leak (B K : ℕ) (x y : ℕ → ℕ → Bool)
    (htotal : countTrue (rowMajor K x) (B * K) = countTrue (rowMajor K y) (B * K))
    (h : ∃ r < B, countTrue (x r) K ≠ countTrue (y r) K) :
    ∃ q < B, ∃ r < B, q ≠ r ∧ ∃ j < K, ∃ i < K, x q j = true ∧ y r i = true ∧
      countTrue (rowMajor K x) (q * K + j) = countTrue (rowMajor K y) (r * K + i) := by
  rcases exists_first_ne B _ _ h with ⟨r, hr, habove, hne⟩
  -- Either mask may be the one with more in that row.
  rcases Nat.lt_or_gt_of_ne hne with hlt | hlt
  · rcases exists_crossing B K x y htotal r hr habove hlt with
      ⟨q, hq, hqr, j, hj, i, hi, hx, hy, hnum⟩
    exact ⟨q, hq, r, hr, hqr, j, hj, i, hi, hx, hy, hnum⟩
  · rcases exists_crossing B K y x htotal.symm r hr (fun q hq => (habove q hq).symm) hlt with
      ⟨q, hq, hqr, j, hj, i, hi, hy, hx, hnum⟩
    exact ⟨r, hr, q, hq, hqr.symm, i, hi, j, hj, hx, hy, hnum.symm⟩

/-- With as many positions in every row, a position of one mask has the number
    of its own row's position in the other. -/
theorem exists_own (B K : ℕ) (x y : ℕ → ℕ → Bool)
    (hbal : ∀ q < B, countTrue (x q) K = countTrue (y q) K) (r i : ℕ) (hr : r < B) (hi : i < K)
    (hy : y r i = true) :
    ∃ j < K, x r j = true ∧ countTrue (x r) j = countTrue (y r) i ∧
      countTrue (rowMajor K x) (r * K + j) = countTrue (rowMajor K y) (r * K + i) := by
  have hlt : countTrue (y r) i < countTrue (x r) K := by
    rw [hbal r hr]
    exact countTrue_lt (y r) hi hy
  rcases exists_countTrue_eq (x r) K _ hlt with ⟨j, hj, hx, hcount⟩
  have habove : (∑ q ∈ Finset.range r, countTrue (x q) K)
      = ∑ q ∈ Finset.range r, countTrue (y q) K := by
    refine Finset.sum_congr rfl (fun q hq => hbal q ?_)
    have := Finset.mem_range.mp hq
    omega
  refine ⟨j, hj, hx, hcount, ?_⟩
  rw [countTrue_rowMajor K x r j (by omega), countTrue_rowMajor K y r i (by omega), habove, hcount]

/-- A flat gather followed by a flat scatter is row by row when every row
    selects as many values as it has slots. -/
theorem scatter_rowLocal (B K : ℕ) (sel slot : ℕ → ℕ → Bool) (v mem : ℕ → ℕ → α)
    (hbal : ∀ q < B, countTrue (slot q) K = countTrue (sel q) K) (r i : ℕ) (hr : r < B)
    (hi : i < K) :
    (if slot r i = true then
        ((maskedSelect (rowMajor K sel) (rowMajor K v) (B * K))[
          countTrue (rowMajor K slot) (r * K + i)]?).getD (mem r i)
      else mem r i)
      = rowFill (slot r) (maskedSelect (sel r) (v r) K) (mem r) i := by
  rw [rowFill]
  by_cases hs : slot r i = true
  · -- The slot has the number of a value of its own row, in the batch and in the row.
    rcases exists_own B K sel slot (fun q hq => (hbal q hq).symm) r i hr hi hs with
      ⟨j, hj, hsel, hcount, hnum⟩
    have hflat := maskedSelect_getElem (rowMajor K sel) (rowMajor K v) (B * K) (r * K + j)
      (row_elem_lt hr hj) (by rw [rowMajor_at K sel r j hj]; exact hsel)
    rw [if_pos hs, if_pos hs, ← hnum, hflat, ← hcount,
      maskedSelect_getElem (sel r) (v r) K j hj hsel, rowMajor_at K v r j hj]
  · rw [if_neg hs, if_neg hs]

section Occurrences

variable [DecidableEq α]

/-- How often the first `n` entries of a row hold the value `x`. -/
def occurrences (v : ℕ → α) (n : ℕ) (x : α) : ℕ := countTrue (fun i => decide (v i = x)) n

/-- Permuting a row does not change how often it holds a value. -/
theorem occurrences_perm (v w : ℕ → α) (n : ℕ) (σ : Equiv.Perm (Fin n))
    (h : ∀ i : Fin n, w i = v (σ i)) (x : α) : occurrences w n x = occurrences v n x := by
  rw [occurrences, occurrences, countTrue_eq_card, countTrue_eq_card]
  have hmem : ∀ (u : ℕ → α) (i : ℕ),
      i ∈ (Finset.range n).filter (fun i => decide (u i = x) = true) ↔ i < n ∧ u i = x := by
    intro u i
    rw [Finset.mem_filter, Finset.mem_range, decide_eq_true_eq]
  refine Finset.card_bij (fun i hi => (σ ⟨i, ((hmem w i).mp hi).1⟩ : ℕ)) ?_ ?_ ?_
  · intro i hi
    have hi' := (hmem w i).mp hi
    rw [hmem]
    exact ⟨Fin.isLt _, (h ⟨i, hi'.1⟩).symm.trans hi'.2⟩
  · intro i hi j hj heq
    have heq' := σ.injective (Fin.ext heq)
    exact congrArg Fin.val heq'
  · intro j hj
    have hj' := (hmem v j).mp hj
    refine ⟨σ.symm ⟨j, hj'.1⟩, ?_, ?_⟩
    · rw [hmem]
      refine ⟨Fin.isLt _, ?_⟩
      rw [h, Equiv.apply_symm_apply]
      exact hj'.2
    · rw [Fin.eta, Equiv.apply_symm_apply]

/-- How often a gather lists a value. -/
theorem count_maskedSelect (m : ℕ → Bool) (v : ℕ → α) (n : ℕ) (x : α) :
    (maskedSelect m v n).count x = countTrue (fun i => m i && decide (v i = x)) n := by
  induction n with
  | zero => rfl
  | succ k ih =>
      rw [maskedSelect_succ, List.count_append, ih, countTrue_succ]
      cases hm : m k with
      | false => simp only [Bool.false_eq_true, if_false, List.count_nil, Bool.false_and]
      | true =>
          simp only [if_true, List.count_singleton, Bool.true_and, decide_eq_true_eq, beq_iff_eq]

/-- How often the slots of a mask receive a value, when the source values are
    handed out in order. -/
theorem countTrue_handedOut (slot : ℕ → Bool) (src : List α) (n : ℕ) (x : α) :
    countTrue (fun i => slot i && decide (src[countTrue slot i]? = some x)) n
      = (src.take (countTrue slot n)).count x := by
  induction n with
  | zero => rfl
  | succ k ih =>
      rw [countTrue_succ, ih, countTrue_succ]
      cases hs : slot k with
      | false => simp only [Bool.false_and, Bool.false_eq_true, if_false, Nat.add_zero]
      | true =>
          simp only [Bool.true_and, decide_eq_true_eq, if_true, List.take_add_one,
            List.count_append]
          congr 1
          cases src[countTrue slot k]? with
          | none => simp only [reduceCtorEq, if_false, Option.toList_none, List.count_nil]
          | some y => simp only [Option.some.injEq, Option.toList_some, List.count_singleton,
              beq_iff_eq]

/-- A filled row is a rearrangement of the row its values came from, provided
    it has a slot for each selected value and the entries it keeps are the
    unselected ones. -/
theorem occurrences_rowFill (slot sel : ℕ → Bool) (old new : ℕ → α) (n : ℕ) (x : α)
    (hbal : countTrue slot n = countTrue sel n)
    (hkeep : countTrue (fun i => !slot i && decide (old i = x)) n
      = countTrue (fun i => !sel i && decide (new i = x)) n) :
    occurrences (rowFill slot (maskedSelect sel new n) old) n x = occurrences new n x := by
  set src := maskedSelect sel new n with hsrc
  have hlen : src.length = countTrue slot n := by rw [hsrc, maskedSelect_length, hbal]
  have hflip : ∀ (v : ℕ → α) (m : ℕ → Bool), occurrences v n x
      = countTrue (fun i => m i && decide (v i = x)) n
        + countTrue (fun i => !m i && decide (v i = x)) n := by
    intro v m
    rw [occurrences, countTrue_split _ m]
    simp only [Bool.and_comm]
  rw [hflip _ slot, hflip new sel]
  congr 1
  · -- The slots hold the source values, all of them.
    have hall : countTrue (fun i => sel i && decide (new i = x)) n
        = (src.take (countTrue slot n)).count x := by
      rw [← hlen, List.take_length, hsrc, count_maskedSelect]
    rw [hall, ← countTrue_handedOut slot src n x]
    refine countTrue_congr _ _ n (fun i hi => ?_)
    cases hs : slot i with
    | false => simp only [Bool.false_and]
    | true =>
        have hmem := rowFill_mem slot src old n i hi hs (by omega)
        simp only [Bool.true_and, hmem, Option.some.injEq]
  · -- The other positions keep what they held.
    rw [← hkeep]
    refine countTrue_congr _ _ n (fun i _ => ?_)
    cases hs : slot i with
    | false => simp only [rowFill_of_not_slot slot src old i hs]
    | true => simp only [Bool.not_true, Bool.false_and]

end Occurrences

end AscendKernel
