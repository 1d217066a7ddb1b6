import AscendKernel.Theory.RowLoop

/-!
# The Row Loop on Arbitrary Masks

What the loop over a row does to masks that no set difference need have
produced.

In the operator the available slots of a row come from a set difference, and
an empty entry is then never already available unless the tokens fill the whole
row. Nothing in the loop knows that. `rowLoop_firstFit` describes the loop on
any two masks and any old row: the empty entries it adds are the first so many
in index order, as many as the shortage where there are that many. An entry
that was available before is added a second time to no effect, so the slots
reach the number of tokens to load exactly when the shortage is covered by
entries that were not.

The shortage itself comes out of a sum in half precision. The width the kernel
is compiled for is the largest at which that sum can be trusted:
`castSum_exact_iff` gives both directions.

## Main definitions

* `shortage`: The difference of two mask counts.

## Theorems

* `rowLoop_firstFit`: The loop as a first fit.
* `castSum_exact_iff`: The widths at which half-precision counts are exact.
-/

namespace AscendKernel

/-- The number of tokens to load, less the number of available slots. -/
def shortage (n : ℕ) (miss avail : ℕ → Bool) : ℤ := countTrue miss n - countTrue avail n

/-- The loop as a first fit, for masks of any width. It adds the first
    `min (max S 0) E` empty entries, where `S` is the shortage and `E` the
    number of empty entries; so it never clears a slot and never makes more of
    them than the larger of the two counts, and it reaches that number exactly
    when there is no shortage or enough entries that were not available. With
    exact sums this is the row the kernel writes. -/
theorem rowLoop_firstFit (n : ℕ) (miss avail : ℕ → Bool) (idx : ℕ → Int64) :
    let S := shortage n miss avail
    let E := countTrue (emptySlots idx) n
    let result := (rowLoop n S avail idx).resultLocal
    (∀ i < n, result i = (avail i || firstTrue (emptySlots idx) (min (max S 0).toNat E) i)) ∧
    (∀ i < n, avail i = true → result i = true) ∧
    countTrue result n ≤ max (countTrue avail n) (countTrue miss n) ∧
    (countTrue result n = max (countTrue avail n) (countTrue miss n) ↔
      S ≤ 0 ∨ S ≤ E ∧ ∀ i < n, firstTrue (emptySlots idx) S.toNat i = true → avail i = false) ∧
    (∀ order : SumOrder n, n ≤ SEQ_LEN →
      processRow n (castSum order) miss avail idx = result) := by
  intro S E result
  -- A negative shortage is a limit of zero, like none at all.
  set limit := countTrue miss n - countTrue avail n with hlimit
  have hS : S.toNat = limit ∧ (max S 0).toNat = limit := by
    change (shortage n miss avail).toNat = _ ∧ (max (shortage n miss avail) 0).toNat = _
    rw [shortage]
    omega
  have hrow : ∀ i < n, result i = firstFit avail (emptySlots idx) limit i := by
    intro i hi
    rw [← firstFit_signed]
    exact (rowLoop_spec n S avail idx).2 i hi
  have hcount : countTrue result n = countTrue (firstFit avail (emptySlots idx) limit) n :=
    countTrue_congr _ _ n hrow
  refine ⟨fun i hi => ?_, fun i hi h => ?_, ?_, ?_, fun order hn => ?_⟩
  · rw [hS.2, firstTrue_min _ _ n i hi, hrow i hi, firstFit_eq]
  · rw [hrow i hi, firstFit_eq, h, Bool.true_or]
  · have hle := countTrue_topUp_le avail (emptySlots idx) limit n
    rw [hcount]
    omega
  · -- The larger count is the available slots plus the limit.
    have hiff := countTrue_topUp_eq_iff avail (emptySlots idx) limit n
    have hmax : max (countTrue avail n) (countTrue miss n) = countTrue avail n + limit := by omega
    rw [hcount, hmax, hiff, hS.1]
    change _ ↔ shortage n miss avail ≤ 0 ∨ shortage n miss avail ≤ (E : ℤ) ∧ _
    rw [shortage]
    constructor
    · rintro ⟨hroom, hnew⟩
      -- Without a limit there is no shortage, and nothing to add.
      by_cases h0 : limit = 0
      · exact Or.inl (by omega)
      · exact Or.inr ⟨by omega, hnew⟩
    · rintro (h | ⟨hroom, hnew⟩)
      · have h0 : limit = 0 := by omega
        refine ⟨by omega, fun i _ hi => ?_⟩
        rw [firstTrue, h0, Bool.and_eq_true, decide_eq_true_eq] at hi
        exact absurd hi.2 (Nat.not_lt_zero _)
      · exact ⟨by omega, hnew⟩
  · have hsum := castSum_eq order hn
    change (rowLoop n (castSum order miss - castSum order avail) avail idx).resultLocal = _
    rw [hsum, hsum]
    rfl

/-- Half-precision counts are exact for every mask and every order of the
    additions exactly up to width 2048, also when the orders are held to the
    associations of the positions in sequence. So the shortage the kernel takes
    over its own row width is the difference of the two counts. -/
theorem castSum_exact_iff (n : ℕ) :
    ((∀ (order : SumOrder n) (m : ℕ → Bool), castSum order m = countTrue m n) ↔ n ≤ 2048) ∧
    ((∀ (order : SumOrder n) (m : ℕ → Bool), order.tree.leaves = List.range n →
      castSum order m = countTrue m n) ↔ n ≤ 2048) ∧
    (∀ (order : SumOrder SEQ_LEN) (miss avail : ℕ → Bool) (idx : ℕ → Int64),
      castSum order miss - castSum order avail = shortage SEQ_LEN miss avail ∧
      processRow SEQ_LEN (castSum order) miss avail idx
        = (rowLoop SEQ_LEN (shortage SEQ_LEN miss avail) avail idx).resultLocal) := by
  have hiff := SumOrder.eval_mask_iff halfBits (le_of_lt (by rw [halfBits]; omega)) n
  refine ⟨⟨fun h => ?_, fun h order m => castSum_eq order h m⟩,
    ⟨fun h => ?_, fun h order m _ => castSum_eq order h m⟩, fun order miss avail idx => ?_⟩
  · exact hiff.mp (fun order m _ => Int.ofNat_inj.mp (h order m))
  · exact hiff.mp (fun order m hseq => Int.ofNat_inj.mp (h order m hseq))
  · have hsum := castSum_eq order (le_refl SEQ_LEN)
    have hdiff : castSum order miss - castSum order avail = shortage SEQ_LEN miss avail := by
      rw [hsum, hsum, shortage]
    refine ⟨hdiff, ?_⟩
    rw [← hdiff]
    rfl

end AscendKernel
