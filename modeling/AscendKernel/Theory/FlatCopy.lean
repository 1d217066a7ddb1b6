import AscendKernel.Core.Tensor

/-!
# Flat Copies and Rows

When the operator's gather and scatter keep every request to its own row.

`masked_select` lists the values under one mask in row-major order over the
whole batch, and `masked_scatter` hands them out in row-major order to the
slots of another. Neither sees the rows. With as many values as slots in every
row the two orders stay together, and a row's slots receive the row's values.
With equal totals only, they come apart at the first row that is not balanced,
and from there on some value lands in another request's row. Nothing fails when
that happens, the totals being right.

The operator scatters twice, into the fresh codes and into a view of the
buffer, with one source and one mask. All that is asked of a destination here
is that its elements are distinct cells, whatever its strides, so both are
covered by one statement.

## Main definitions

* `Strided.Window`: A matrix window whose elements are distinct cells.
* `gathered`: The values under a mask, over the whole batch.

## Theorems

* `Strided.Window.scatter`: What a scatter leaves in a window.
* `destinations_window`: The operator's two destinations are windows.
* `flatCopy_rowLocal`: Balanced rows keep their values, others leak.
-/

namespace AscendKernel

variable {α : Type}

/-- A matrix window of `B` rows of width `K` whose elements are distinct
    cells. -/
structure Strided.Window (t : Strided α) (B K : ℕ) : Prop where
  rows : t.size 0 = B
  width : t.size 1 = K
  distinct : ∀ r < B, ∀ i < K, ∀ q < B, ∀ j < K, t.addr2 r i = t.addr2 q j → r = q ∧ i = j

/-- A fresh matrix is a window, as are the codes the operator scatters into
    first. -/
theorem contiguous2_window (B K : ℕ) (f : ℕ → ℕ → α) : (contiguous2 B K f).Window B K where
  rows := rfl
  width := rfl
  distinct := by
    intro r _ i hi q _ j hj heq
    rw [contiguous2_addr2, contiguous2_addr2] at heq
    -- Both elements are read back from one cell.
    have hrow := congrArg (rowMajor K fun r _ => r) heq
    have hcol := congrArg (rowMajor K fun _ i => i) heq
    rw [rowMajor_at K _ r i hi, rowMajor_at K _ q j hj] at hrow hcol
    exact ⟨hrow, hcol⟩

namespace Strided.Window

variable {t : Strided α} {B K : ℕ}

theorem elem_row (h : t.Window B K) (r i : ℕ) (hi : i < K) : t.elem (r * K + i) = t.addr2 r i := by
  rw [Strided.elem, h.width]
  exact rowMajor_at K t.addr2 r i hi

theorem elem_inj (h : t.Window B K) (m : ℕ) (hm : m < B * K) (n : ℕ) (hn : n < B * K)
    (heq : t.elem m = t.elem n) : m = n := by
  rcases exists_row B K m hm with ⟨r, hr, i, hi, rfl⟩
  rcases exists_row B K n hn with ⟨q, hq, j, hj, rfl⟩
  rw [h.elem_row r i hi, h.elem_row q j hj] at heq
  rcases h.distinct r hr i hi q hq j hj heq with ⟨rfl, rfl⟩
  rfl

/-- What a scatter with values enough leaves in a window: a slot holds the
    value of its number, every other cell of the memory what it held. -/
theorem scatter (h : t.Window B K) (mask : Strided Bool) (src : List α)
    (hlen : countTrue (rowMajor K mask.at2) (B * K) ≤ src.length) :
    ∃ t', inplaceMaskedScatter t mask src = .ok t' ∧
      (∀ r < B, ∀ i < K, mask.at2 r i = true →
        src[countTrue (rowMajor K mask.at2) (r * K + i)]? = some (t'.at2 r i)) ∧
      ∀ a, (∀ r < B, ∀ i < K, mask.at2 r i = true → t.addr2 r i ≠ a) →
        t'.storage a = t.storage a := by
  have hflat : ∀ r, ∀ i < K, rowMajor K mask.at2 (r * K + i) = mask.at2 r i :=
    fun r i hi => rowMajor_at K mask.at2 r i hi
  refine ⟨{ t with storage := maskedScatter t.elem (rowMajor K mask.at2) src t.storage (B * K) },
    ?_, fun r hr i hi hslot => ?_, fun a ha => ?_⟩
  · unfold inplaceMaskedScatter
    simp only [h.rows, h.width]
    rw [if_neg (by omega)]
  · have hlt := row_elem_lt hr hi
    have hcell := maskedScatter_addr t.elem (rowMajor K mask.at2) src t.storage (B * K) (r * K + i)
      h.elem_inj hlt
    -- The slot's number is below the number of values.
    have hnum := countTrue_lt (rowMajor K mask.at2) hlt (by rw [hflat r i hi]; exact hslot)
    rw [hflat r i hi, if_pos hslot, h.elem_row r i hi,
      List.getElem?_eq_getElem (Nat.lt_of_lt_of_le hnum hlen), Option.getD_some] at hcell
    rw [List.getElem?_eq_getElem (Nat.lt_of_lt_of_le hnum hlen)]
    exact congrArg some hcell.symm
  · refine maskedScatter_frame t.elem _ src t.storage (B * K) a (fun n hn hslot => ?_)
    rcases exists_row B K n hn with ⟨r, hr, i, hi, rfl⟩
    rw [hflat r i hi] at hslot
    rw [h.elem_row r i hi]
    exact ha r hr i hi hslot

/-- The leading rows of a window are one, as are those of the buffer that the
    operator scatters into second. -/
theorem slice0 (h : t.Window B K) (n : ℕ) (hn : n ≤ B) : (t.slice0 n).Window n K where
  rows := by
    change min n (t.size 0) = n
    rw [h.rows]
    exact Nat.min_eq_left hn
  width := by
    rw [← h.width]
    change t.sizes.tail.getD 0 0 = t.sizes.getD 1 0
    cases t.sizes with
    | nil => rfl
    | cons _ _ => rfl
  distinct := fun r hr i hi q hq j hj heq =>
    h.distinct r (Nat.lt_of_lt_of_le hr hn) i hi q (Nat.lt_of_lt_of_le hq hn) j hj heq

end Strided.Window

/-- Both destinations of a call on a fresh buffer are windows. -/
theorem destinations_window (N B K : ℕ) (hB : B ≤ N) (codes buffer : ℕ → ℕ → α) :
    (contiguous2 B K codes).Window B K ∧ ((contiguous2 N K buffer).slice0 B).Window B K :=
  ⟨contiguous2_window B K codes, (contiguous2_window N K buffer).slice0 B hB⟩

/-- `masked_select` over the whole batch: the values `v` under the mask `sel`,
    row after row. -/
def gathered (B K : ℕ) (sel : ℕ → ℕ → Bool) (v : ℕ → ℕ → α) : List α :=
  maskedSelect (rowMajor K sel) (rowMajor K v) (B * K)

/-- The value of a selected element is listed at the element's number. -/
theorem gathered_getElem (B K : ℕ) (sel : ℕ → ℕ → Bool) (v : ℕ → ℕ → α) (r i : ℕ) (hr : r < B)
    (hi : i < K) (hsel : sel r i = true) :
    (gathered B K sel v)[countTrue (rowMajor K sel) (r * K + i)]? = some (v r i) := by
  have h := maskedSelect_getElem (rowMajor K sel) (rowMajor K v) (B * K) (r * K + i)
    (row_elem_lt hr hi) (by rw [rowMajor_at K sel r i hi]; exact hsel)
  rw [rowMajor_at K v r i hi] at h
  exact h

/-- A flat copy is row by row exactly when the rows are balanced. For a
    selection and a mask of equal totals: when every row selects as many values
    as it has slots, the `j`-th slot of a row receives the `j`-th value selected
    in that row and no other cell changes; when some row does not, some value
    is written into a row other than its own, whatever the values and the
    destination. And a second scatter of the same source by the same mask, into
    another destination, agrees with the first on every slot and changes no
    other cell. -/
theorem flatCopy_rowLocal (B K : ℕ) (sel : ℕ → ℕ → Bool) (mask : Strided Bool)
    (htotal : ∑ r ∈ Finset.range B, countTrue (sel r) K
      = ∑ r ∈ Finset.range B, countTrue (mask.at2 r) K) :
    ((∀ r < B, countTrue (sel r) K = countTrue (mask.at2 r) K) →
      ∀ (v : ℕ → ℕ → α) (dest : Strided α), dest.Window B K →
        ∃ t, inplaceMaskedScatter dest mask (gathered B K sel v) = .ok t ∧
          (∀ r < B, ∀ i < K, mask.at2 r i = true →
            ∃ j < K, sel r j = true ∧ countTrue (sel r) j = countTrue (mask.at2 r) i ∧
              t.at2 r i = v r j) ∧
          ∀ a, (∀ r < B, ∀ i < K, mask.at2 r i = true → dest.addr2 r i ≠ a) →
            t.storage a = dest.storage a) ∧
    ((∃ r < B, countTrue (sel r) K ≠ countTrue (mask.at2 r) K) →
      ∃ q < B, ∃ r < B, q ≠ r ∧ ∃ j < K, ∃ i < K, sel q j = true ∧ mask.at2 r i = true ∧
        ∀ (v : ℕ → ℕ → α) (dest : Strided α), dest.Window B K →
          ∃ t, inplaceMaskedScatter dest mask (gathered B K sel v) = .ok t ∧
            t.at2 r i = v q j) ∧
    ∀ (v : ℕ → ℕ → α) (dest dest' : Strided α), dest.Window B K → dest'.Window B K →
      ∃ t t', inplaceMaskedScatter dest mask (gathered B K sel v) = .ok t ∧
        inplaceMaskedScatter dest' mask (gathered B K sel v) = .ok t' ∧
        (∀ r < B, ∀ i < K, mask.at2 r i = true → t'.at2 r i = t.at2 r i) ∧
        ∀ a, (∀ r < B, ∀ i < K, mask.at2 r i = true → dest'.addr2 r i ≠ a) →
          t'.storage a = dest'.storage a := by
  rw [← countTrue_rowMajor_total, ← countTrue_rowMajor_total] at htotal
  have hscatter : ∀ (v : ℕ → ℕ → α) (dest : Strided α), dest.Window B K → _ :=
    fun v dest hdest => hdest.scatter mask (gathered B K sel v)
      (by rw [gathered, maskedSelect_length, htotal])
  refine ⟨fun hbal v dest hdest => ?_, fun hunbal => ?_, fun v dest dest' hdest hdest' => ?_⟩
  · rcases hscatter v dest hdest with ⟨t, hok, hslots, hframe⟩
    refine ⟨t, hok, fun r hr i hi hslot => ?_, hframe⟩
    rcases exists_own B K sel mask.at2 hbal r i hr hi hslot with ⟨j, hj, hsel, hcount, hnum⟩
    have hget := hslots r hr i hi hslot
    rw [← hnum, gathered_getElem B K sel v r j hr hj hsel, Option.some.injEq] at hget
    exact ⟨j, hj, hsel, hcount, hget.symm⟩
  · rcases exists_leak B K sel mask.at2 htotal hunbal with
      ⟨q, hq, r, hr, hqr, j, hj, i, hi, hsel, hslot, hnum⟩
    refine ⟨q, hq, r, hr, hqr, j, hj, i, hi, hsel, hslot, fun v dest hdest => ?_⟩
    rcases hscatter v dest hdest with ⟨t, hok, hslots, _⟩
    have hget := hslots r hr i hi hslot
    rw [← hnum, gathered_getElem B K sel v q j hq hj hsel, Option.some.injEq] at hget
    exact ⟨t, hok, hget.symm⟩
  · rcases hscatter v dest hdest with ⟨t, hok, hslots, _⟩
    rcases hscatter v dest' hdest' with ⟨t', hok', hslots', hframe'⟩
    refine ⟨t, t', hok, hok', fun r hr i hi hslot => ?_, hframe'⟩
    have h := hslots r hr i hi hslot
    rwa [hslots' r hr i hi hslot, Option.some.injEq] at h

/-- Two rows of width two. The first selects two values and the second none,
    but each has one slot, so a value crosses over, in the fresh codes and in
    the leading rows of a buffer of four alike. -/
theorem flatCopy_rowLocal_two_rows :
    let sel := fun r _ : ℕ => decide (r = 0)
    let mask := contiguous2 2 2 fun _ i => decide (i = 0)
    ∃ q < 2, ∃ r < 2, q ≠ r ∧ ∃ j < 2, ∃ i < 2, sel q j = true ∧ mask.at2 r i = true ∧
      ∀ v codes buffer : ℕ → ℕ → Int64,
        (∃ t, inplaceMaskedScatter (contiguous2 2 2 codes) mask (gathered 2 2 sel v) = .ok t ∧
          t.at2 r i = v q j) ∧
        ∃ t, inplaceMaskedScatter ((contiguous2 4 2 buffer).slice0 2) mask
            (gathered 2 2 sel v) = .ok t ∧ t.at2 r i = v q j := by
  intro sel mask
  rcases (flatCopy_rowLocal (α := Int64) 2 2 sel mask (by decide)).2.1
    ⟨0, by decide, by decide⟩ with ⟨q, hq, r, hr, hqr, j, hj, i, hi, hsel, hslot, hleak⟩
  refine ⟨q, hq, r, hr, hqr, j, hj, i, hi, hsel, hslot, fun v codes buffer => ?_⟩
  have hwindows := destinations_window 4 2 2 (by decide) codes buffer
  exact ⟨hleak v _ hwindows.1, hleak v _ hwindows.2⟩

end AscendKernel
