import AscendKernel.Core.Reference
import AscendKernel.Theory.Invariant

/-!
# The Operator against its Reference

A row loop and a prefix sum, two scatters and one assignment.

The masks agree row by row as soon as the batch fits: a running count that
stops adding is a prefix sum compared with a signed shortage, and the sign does
not matter to either. The rest is about numbers of values. Both sides hand the
codes out in row-major order over the whole batch, so where the values are as
many as the slots they hand out the same ones, whichever rows these come from.

No row need be balanced for that, no row need be free of repeated entries, and
nothing is asked of the codes; wrapped ones are the same on both sides.

What a row past the word range is given differs. There the reference still tops
its slots up and the kernel does not, and the totals of either side can agree
with the misses while the other's do not.

## Main definitions

* `MatchesReference`: A call completes and leaves what the reference leaves.

## Theorems

* `filledSlotMask_eq`: The reference's slots are those of a bounded counter.
* `pytorchReference_ok`: What the reference leaves.
* `run_refines_reference`: The operator matches the reference.
* `run_refines_reference_large_batch`: It need not past the word range.
-/

namespace AscendKernel

/-- Selecting the empty slots at once is what the row loop does one by one. -/
theorem filledSlotMask_eq (K : ℕ) (miss avail : ℕ → ℕ → Bool) (old : ℕ → ℕ → Int64) (r i : ℕ) :
    filledSlotMask K miss avail old r i
      = firstFit (avail r) (emptySlots (old r))
          (countTrue (miss r) K - countTrue (avail r) K) i := by
  have hsel : selectedEmptySlotMask K miss avail old r i
      = (decide ((countTrue (emptySlots (old r)) (i + 1) : ℤ)
          ≤ (countTrue (miss r) K : ℤ) - countTrue (avail r) K) && emptySlots (old r) i) := rfl
  rw [← firstFit_signed, ← hsel]
  unfold filledSlotMask
  -- `where(s, True, a)` is the disjunction of `a` and `s`.
  cases selectedEmptySlotMask K miss avail old r i with
  | true => rw [if_pos rfl, Bool.or_true]
  | false => rw [if_neg Bool.false_ne_true, Bool.or_false]

section IndexPut

variable {α : Type} (self : ℕ → α) (mask : ℕ → Bool) (values : List α) (n : ℕ)

/-- With as many values as true positions, an indexed assignment hands them
    out as a scatter does. -/
theorem indexPut_of_length_eq (h : values.length = countTrue mask n) :
    indexPut self mask values n
      = some fun a =>
          if mask a = true then (values[countTrue mask a]?).getD (self a) else self a := by
  unfold indexPut
  rw [if_pos h]

variable {self mask values n} in
/-- Whatever an indexed assignment writes is one of the values. -/
theorem mem_of_indexPut (f : ℕ → α) (h : indexPut self mask values n = some f) (a : ℕ)
    (ha : a < n) (hm : mask a = true) : f a ∈ values := by
  unfold indexPut at h
  by_cases hlen : values.length = countTrue mask n
  · -- The position's number is below the number of values.
    have hlt : countTrue mask a < values.length := by
      rw [hlen]
      exact countTrue_lt mask ha hm
    rw [if_pos hlen, Option.some.injEq] at h
    rw [← h]
    simp only [if_pos hm, List.getElem?_eq_getElem hlt, Option.getD_some]
    exact List.getElem_mem hlt
  · rw [if_neg hlen] at h
    cases values with
    | nil => exact absurd h (by simp only [reduceCtorEq, not_false_eq_true])
    | cons x xs =>
        cases xs with
        | nil =>
            -- A single value, spread over the true positions.
            rw [Option.some.injEq] at h
            rw [← h]
            simp only [if_pos hm, List.mem_singleton]
        | cons y ys => exact absurd h (by simp only [reduceCtorEq, not_false_eq_true])

end IndexPut

/-- The slot mask of the reference, on a call and a buffer. -/
def Call.referenceSlots (c : Call) (buf : ℕ → ℕ → Int64) : ℕ → ℕ → Bool :=
  filledSlotMask SEQ_LEN (c.miss buf) (c.avail buf) buf

section Reference

variable {c : Call} {N : ℕ} {buf : ℕ → ℕ → Int64}

/-- On an accepted call the reference comes down to its assignment. -/
theorem pytorchReference_accepted (hacc : c.Accepted N) :
    pytorchReference SEQ_LEN N c buf
      = (indexPut (fun _ => -1) (rowMajor SEQ_LEN (c.referenceSlots buf)) (c.loads buf)
          (c.numReqs * SEQ_LEN)).map fun flat =>
          (fun r i => (recoverTopk (fun r i => flat (r * SEQ_LEN + i)) c.reqIds r i).toInt32,
            fun r i => if r < c.numReqs ∧ c.referenceSlots buf r i = true
              then flat (r * SEQ_LEN + i) else buf r i) := by
  have hids : leadingIds c.numReqs c.numIds c.reqIds = some c.reqIds := by
    unfold leadingIds
    rw [if_pos (Nat.min_eq_left hacc.2)]
  unfold pytorchReference
  rw [hids]
  simp only []
  rw [if_neg (not_not.mpr (Nat.min_eq_left hacc.1))]
  rfl

/-- What the reference leaves when the values are as many as its slots, for a
    flat mask that agrees with its slot mask. -/
theorem pytorchReference_ok (hacc : c.Accepted N) (mask : ℕ → Bool)
    (hmask : ∀ r < c.numReqs, ∀ i < SEQ_LEN, rowAt mask r i = c.referenceSlots buf r i)
    (htotal : (c.loads buf).length = countTrue mask (c.numReqs * SEQ_LEN)) :
    ∃ res last, pytorchReference SEQ_LEN N c buf = some (res, last) ∧
      (∀ r < c.numReqs, ∀ i < SEQ_LEN,
        res r i = recovered c.reqIds r (handOut mask (c.loads buf) (-1) r i) ∧
        last r i = handOut mask (c.loads buf) (buf r i) r i) ∧
      ∀ r, c.numReqs ≤ r → ∀ i, last r i = buf r i := by
  have hflat : ∀ a < c.numReqs * SEQ_LEN,
      rowMajor SEQ_LEN (c.referenceSlots buf) a = mask a := by
    intro a ha
    rcases exists_row c.numReqs SEQ_LEN a ha with ⟨r, hr, i, hi, rfl⟩
    rw [rowMajor_at _ _ _ _ hi, ← hmask r hr i hi]
    rfl
  have hcount : ∀ n ≤ c.numReqs * SEQ_LEN,
      countTrue (rowMajor SEQ_LEN (c.referenceSlots buf)) n = countTrue mask n :=
    fun n hn => countTrue_congr _ _ n (fun a ha => hflat a (by omega))
  rw [pytorchReference_accepted hacc,
    indexPut_of_length_eq _ _ _ _ (by rw [htotal, hcount _ (le_refl _)])]
  refine ⟨_, _, rfl, fun r hr i hi => ?_, fun r hr i => ?_⟩
  · have hlt := row_elem_lt hr hi
    have hslot : c.referenceSlots buf r i = rowAt mask r i := (hmask r hr i hi).symm
    simp only [hcount _ (Nat.le_of_lt hlt), rowMajor_at _ _ r i hi, hslot, recoverTopk]
    unfold recovered handOut
    by_cases hs : rowAt mask r i = true
    · -- A slot's number is below the number of values, so the default is moot.
      have hnum : countTrue mask (r * SEQ_LEN + i) < (c.loads buf).length := by
        rw [htotal]
        exact countTrue_lt mask hlt hs
      simp only [if_pos hs, List.getElem?_eq_getElem hnum, Option.getD_some, hr, true_and]
    · simp [hs]
  · simp only [Nat.not_lt.mpr hr, false_and, if_false]

/-- A slot of the reference is given one of the codes to load. -/
theorem mem_loads_of_reference (hacc : c.Accepted N) (res : ℕ → ℕ → Int32)
    (last : ℕ → ℕ → Int64) (h : pytorchReference SEQ_LEN N c buf = some (res, last)) (r i : ℕ)
    (hr : r < c.numReqs) (hi : i < SEQ_LEN) (hslot : c.referenceSlots buf r i = true) :
    last r i ∈ c.loads buf := by
  rw [pytorchReference_accepted hacc, Option.map_eq_some_iff] at h
  rcases h with ⟨flat, hput, heq⟩
  rw [Prod.mk.injEq] at heq
  rw [← heq.2]
  simp only [hr, hslot, and_self, if_true]
  refine mem_of_indexPut flat hput (r * SEQ_LEN + i) (row_elem_lt hr hi) ?_
  rw [rowMajor_at _ _ r i hi]
  exact hslot

end Reference

/-- A call completes, and leaves in both tensors what the reference does. -/
def MatchesReference (c : Call) (plat : Platform) (N : ℕ) (buf : ℕ → ℕ → Int64) : Prop :=
  ∃ o res last, c.run plat N buf = .ok o ∧ pytorchReference SEQ_LEN N c buf = some (res, last) ∧
    (∀ r < c.numReqs, ∀ i < SEQ_LEN, o.topkIndices r i = res r i) ∧
    ∀ r < N, ∀ i < SEQ_LEN, o.buffer r i = last r i

/-- On a batch that fits, the kernel offers the reference's slots, and a call
    with as many misses as slots matches the reference, whatever the tokens,
    the request ids and the buffer are. -/
theorem run_refines_reference (plat : Platform) (N : ℕ) (c : Call) (buf : ℕ → ℕ → Int64)
    (hacc : c.Accepted N) (hfit : Fits plat c.numReqs) :
    ∃ gm, c.launched plat N buf = .ok gm ∧
      (∀ r < c.numReqs, ∀ i < SEQ_LEN,
        rowAt gm.availMaskGm r i = c.referenceSlots buf r i) ∧
      (countTrue (rowMajor SEQ_LEN (c.miss buf)) (c.numReqs * SEQ_LEN)
          = countTrue gm.availMaskGm (c.numReqs * SEQ_LEN) →
        MatchesReference c plat N buf) := by
  rcases checkedLaunch_avail plat c.numReqs (c.miss buf) (c.avail buf) buf hfit with
    ⟨gm, hrun, havail⟩
  rw [← Call.launched_eq plat buf hacc.1] at hrun
  have hmask : ∀ r < c.numReqs, ∀ i < SEQ_LEN,
      rowAt gm.availMaskGm r i = c.referenceSlots buf r i := by
    intro r hr i hi
    rw [havail r hr i hi, Call.referenceSlots, filledSlotMask_eq]
  refine ⟨gm, hrun, hmask, fun htotal => ?_⟩
  have hlen : (c.loads buf).length = countTrue gm.availMaskGm (c.numReqs * SEQ_LEN) := by
    rw [Call.loads, maskedSelect_length]
    exact htotal
  rcases Call.run_completes hacc gm hrun (Nat.le_of_eq hlen.symm) with ⟨o, ho⟩
  rcases Call.run_ok o ho with ⟨_, gm', hrun', _, hout, hframe⟩
  rw [hrun, Except.ok.injEq] at hrun'
  subst hrun'
  rcases pytorchReference_ok hacc gm.availMaskGm hmask hlen with ⟨res, last, href, hres, hrest⟩
  -- Both hand out the same values over the same mask.
  refine ⟨o, res, last, ho, href, fun r hr i hi => ?_, fun r _ i hi => ?_⟩
  · rw [(hout r hr i hi).1, (hres r hr i hi).1]
  · by_cases hr : r < c.numReqs
    · rw [(hout r hr i hi).2, (hres r hr i hi).2]
    · rw [hframe r (by omega) i hi, hrest r (by omega) i]

/-- The first call of a run, with two tokens. -/
theorem run_refines_reference_first_call :
    MatchesReference (Call.ofRows [(3, [5, 7])]) Platform.singleCore 4 (fun _ _ => -1) := by
  have hacc := Call.ofRows_accepted [(3, [5, 7])] 4 (by decide)
  have hfit := Call.ofRows_fits [(3, [5, 7])] (by decide)
  have hbal := Call.balanced_start _ (Call.ofRows_distinct [(3, [5, 7])] (by decide))
  rcases run_refines_reference Platform.singleCore 4 _ (fun _ _ => -1) hacc hfit with
    ⟨gm, hrun, _, hmatch⟩
  refine hmatch ?_
  rw [Call.total_of_balanced hacc.1 hfit hbal gm hrun, Call.loads, maskedSelect_length]

section LateCall

variable (t : Int32) (x : Int64)

/-- The reference tops up the row past the word range as any other. -/
theorem lateCall_referenceSlots (ht : 0 ≤ t) (r i : ℕ) :
    (lateCall t).referenceSlots (staleBuffer x) r i = true ↔
      (r = 0 ∧ i = 0 ∧ x ≠ -1) ∨ (r = 2 ^ 21 ∧ i = 0) := by
  rw [Call.referenceSlots, filledSlotMask_eq]
  by_cases hr : r = 2 ^ 21
  · -- One miss and no slot: the shortage is one.
    have hmiss : countTrue ((lateCall t).miss (staleBuffer x) r) SEQ_LEN = 1 := by
      refine countTrue_single _ _ 0 SEQ_LEN_pos (fun j _ => ?_)
      rw [lateCall_miss t x ht, decide_eq_true_eq]
      exact ⟨fun h => h.2, fun h => ⟨hr, h⟩⟩
    have havail : ∀ j, (lateCall t).avail (staleBuffer x) r j = false := by
      intro j
      rw [lateCall_avail t x ht, decide_eq_false_iff_not]
      omega
    have hempty : countTrue (emptySlots (staleBuffer x r)) (i + 1) = i + 1 := by
      refine (countTrue_eq_self_iff _ _).mpr (fun j _ => decide_eq_true ?_)
      rw [staleBuffer, if_neg (by omega)]
    have hthis : emptySlots (staleBuffer x r) i = true := by
      refine decide_eq_true ?_
      rw [staleBuffer, if_neg (by omega)]
    rw [hmiss, (countTrue_eq_zero_iff _ SEQ_LEN).mpr (fun j _ => havail j), firstFit, havail,
      hempty, hthis, Bool.false_or, Bool.true_and, decide_eq_true_eq]
    omega
  · -- No miss, no shortage.
    have hmiss : countTrue ((lateCall t).miss (staleBuffer x) r) SEQ_LEN = 0 := by
      rw [countTrue_eq_zero_iff]
      intro j _
      rw [lateCall_miss t x ht, decide_eq_false_iff_not]
      exact fun h => hr h.1
    rw [hmiss, Nat.zero_sub, firstFit_zero, lateCall_avail t x ht, decide_eq_true_eq]
    exact ⟨Or.inl, fun h => h.resolve_right (fun h => hr h.1)⟩

/-- So there the reference loads a token that the operator does not. -/
theorem lateCall_not_matches (ht : 0 ≤ t) :
    ¬ MatchesReference (lateCall t) Platform.singleCore (2 ^ 21 + 1) (staleBuffer x) := by
  rintro ⟨o, res, last, ho, href, _, hbuf⟩
  rcases lateCall_run t x ht with ⟨o', ho', hout⟩
  rw [ho, Except.ok.injEq] at ho'
  subst ho'
  have hlt : 2 ^ 21 < 2 ^ 21 + 1 := Nat.lt_succ_self _
  have hacc : (lateCall t).Accepted (2 ^ 21 + 1) := ⟨le_refl _, le_refl _⟩
  have hmem := mem_loads_of_reference hacc res last href (2 ^ 21) 0 hlt SEQ_LEN_pos
    ((lateCall_referenceSlots t x ht (2 ^ 21) 0).mpr (Or.inr ⟨rfl, rfl⟩))
  rw [lateCall_loads t x ht, List.mem_singleton] at hmem
  have hsame := hbuf (2 ^ 21) hlt 0 SEQ_LEN_pos
  rw [hmem, (hout (2 ^ 21) hlt 0 SEQ_LEN_pos).1, if_neg (by omega), staleBuffer, if_neg (by omega)]
    at hsame
  exact ne_neg_one_of_nonneg _ (toInt64_nonneg t ht) hsame.symm

end LateCall

/-- Without a bound on the batch the operator does not match its reference,
    neither where the misses are as many as the kernel's slots nor where they
    are as many as the reference's. -/
theorem run_refines_reference_large_batch :
    (¬ ∀ (plat : Platform) (N : ℕ) (c : Call) (buf : ℕ → ℕ → Int64), c.Accepted N →
        c.WellFormed → ∀ gm, c.launched plat N buf = .ok gm →
        countTrue (rowMajor SEQ_LEN (c.miss buf)) (c.numReqs * SEQ_LEN)
          = countTrue gm.availMaskGm (c.numReqs * SEQ_LEN) →
        MatchesReference c plat N buf) ∧
      ¬ ∀ (plat : Platform) (N : ℕ) (c : Call) (buf : ℕ → ℕ → Int64), c.Accepted N →
        c.WellFormed → countTrue (rowMajor SEQ_LEN (c.miss buf)) (c.numReqs * SEQ_LEN)
          = countTrue (rowMajor SEQ_LEN (c.referenceSlots buf)) (c.numReqs * SEQ_LEN) →
        MatchesReference c plat N buf := by
  have hid : (0 : Int64) ≤ 0 ∧ (0 : Int64).toInt < 2 ^ 40 := by decide
  have hwf := wellFormed_of_small_ids (lateCall 3) (lateCall_distinct 3) (fun _ _ => hid)
  have hacc : (lateCall 3).Accepted (2 ^ 21 + 1) := ⟨le_refl _, le_refl _⟩
  have hloads : ∀ x, countTrue (rowMajor SEQ_LEN ((lateCall 3).miss (staleBuffer x)))
      ((lateCall 3).numReqs * SEQ_LEN) = 1 := by
    intro x
    rw [← maskedSelect_length _ (rowMajor SEQ_LEN (lateCall 3).codes), ← Call.loads,
      lateCall_loads 3 x (by decide), List.length_singleton]
  refine ⟨fun h => ?_, fun h => ?_⟩
  · -- The stale entry gives the kernel its one slot.
    rcases lateCall_launched 3 7 (by decide) with ⟨gm, hrun, hslot⟩
    refine lateCall_not_matches 3 7 (by decide) (h _ _ _ _ hacc hwf gm hrun ?_)
    rw [hloads 7, ← rowMajor_rowAt gm.availMaskGm]
    refine (countTrue_single _ _ (0 * SEQ_LEN + 0) (row_elem_lt (Nat.succ_pos _) SEQ_LEN_pos)
      (fun a _ => ?_)).symm
    refine rowMajor_eq_true_iff _ 0 0 SEQ_LEN_pos (fun r i hi => ?_) a
    rw [hslot r i hi]
    exact ⟨fun h => ⟨h.1, h.2.1⟩, fun h => ⟨h.1, h.2, by decide⟩⟩
  · -- An empty buffer gives the reference its one slot.
    refine lateCall_not_matches 3 (-1) (by decide) (h _ _ _ _ hacc hwf ?_)
    rw [hloads (-1)]
    refine (countTrue_single _ _ (2 ^ 21 * SEQ_LEN + 0)
      (row_elem_lt (Nat.lt_succ_self _) SEQ_LEN_pos) (fun a _ => ?_)).symm
    refine rowMajor_eq_true_iff _ (2 ^ 21) 0 SEQ_LEN_pos (fun r i _ => ?_) a
    rw [lateCall_referenceSlots 3 (-1) (by decide)]
    exact ⟨fun h => h.resolve_left (fun h => h.2.2 rfl), Or.inr⟩

end AscendKernel
