import AscendKernel.Theory.Step

/-!
# Batches Past the Word Range

What happens to the rows a 32-bit offset cannot reach.

A batch of more than `2 ^ 21` rows still passes every check. Its launch
completes, and the rows past the range are processed from the stretches of
earlier ones, so their own part of the mask is never written. As long as no
row inside the range has a shortage, the whole mask stays the set difference
it was.

`lateCall` is the smallest such batch that shows. Only its last row, the first
past the range, asks for a token, and its row of the buffer is empty, so the
token needs a slot that the kernel would have to add. `staleBuffer` may offer a
slot of its own in row zero. The token then goes there.

## Main definitions

* `lateCall`: A batch whose last row, past the range, asks for one token.
* `staleBuffer`: A buffer with at most one entry, in row zero.

## Theorems

* `launched_of_no_shortage`: A launch without a shortage leaves the mask.
* `lateCall_launched`: The only slot is the stale entry's.
* `lateCall_run`: The token is lost, or lands in row zero.
-/

namespace AscendKernel

/-- A launch completes on any number of rows the host's first division can
    take. When no row inside the word range has a shortage, the slots are the
    entries the new rows lack, and no more. -/
theorem launched_of_no_shortage (c : Call) (plat : Platform) (N : ℕ) (buf : ℕ → ℕ → Int64)
    (hN : c.numReqs ≤ N) (hpos : 1 ≤ c.numReqs) (hlt : c.numReqs < 2 ^ 32)
    (hsum : c.numReqs + plat.coreNum - 1 < 2 ^ 32)
    (h : ∀ q < 2 ^ 21, countTrue (c.miss buf q) SEQ_LEN ≤ countTrue (c.avail buf q) SEQ_LEN) :
    ∃ gm, c.launched plat N buf = .ok gm ∧
      ∀ r, ∀ i < SEQ_LEN, rowAt gm.availMaskGm r i = c.avail buf r i := by
  have hb : (Word.ofResult c.numReqs true).val = c.numReqs := Nat.mod_eq_of_lt hlt
  have hc : (Word.ofResult plat.coreNum true).val = plat.coreNum :=
    Nat.mod_eq_of_lt plat.coreNum_lt
  have hcpos := plat.coreNum_pos
  rcases (hostTiling_exists (Word.ofResult c.numReqs true) (Word.ofResult plat.coreNum true)
    (by omega) (by omega) (by rw [hb, hc]; exact hsum)).2 with ⟨l, hl⟩
  have hrow := rowAt_launchMemory (c.miss buf) (c.avail buf) buf
  set gm := launchMemory SEQ_LEN (c.miss buf) (c.avail buf) buf with hgm
  have hshort : ∀ q < 2 ^ 21, countTrue (rowAt gm.missMaskGm q) SEQ_LEN
      ≤ countTrue (rowAt gm.availMaskGm q) SEQ_LEN := by
    intro q hq
    rw [countTrue_congr _ _ SEQ_LEN (fun i hi => (hrow q i hi).1),
      countTrue_congr _ _ SEQ_LEN (fun i hi => (hrow q i hi).2.1)]
    exact h q hq
  refine ⟨launch plat l.blockDim l.tiling gm, ?_, ?_⟩
  · rw [Call.launched_eq plat buf hN, checkedLaunch_contiguous, if_neg (by omega), hl]
  · intro r i hi
    rw [launch, foldl_avail_of_no_shortage plat _ _ hshort]
    exact (hrow r i hi).2.1

/-- A batch of one row more than the offsets reach, in which that row asks for
    the token `t` and no other row asks for anything. -/
def lateCall (t : Int32) : Call where
  numReqs := 2 ^ 21 + 1
  topkIndices := fun r i => if r = 2 ^ 21 ∧ i = 0 then t else -1
  numIds := 2 ^ 21 + 1
  reqIds := fun _ => 0

/-- A buffer that is empty but for the entry `x` in row zero. -/
def staleBuffer (x : Int64) (r i : ℕ) : Int64 := if r = 0 ∧ i = 0 then x else -1

section LateCall

variable (t : Int32) (x : Int64)

theorem lateCall_topkIndices (r i : ℕ) (h : ¬ (r = 2 ^ 21 ∧ i = 0)) :
    (lateCall t).topkIndices r i = -1 := by
  change (if r = 2 ^ 21 ∧ i = 0 then t else -1) = -1
  rw [if_neg h]

theorem lateCall_distinct : (lateCall t).DistinctTokens := by
  have hone : ∀ r i, 0 ≤ (lateCall t).topkIndices r i → i = 0 := by
    intro r i hpos
    by_contra hne
    rw [lateCall_topkIndices t r i (fun h => hne h.2)] at hpos
    exact absurd hpos (by decide)
  intro r _ i _ j _ hpos heq
  rw [hone r i hpos, hone r j (by rw [← heq]; exact hpos)]

theorem lateCall_codes (ht : 0 ≤ t) (r i : ℕ) :
    (lateCall t).codes r i = if r = 2 ^ 21 ∧ i = 0 then t.toInt64 else -1 := by
  have hoff : reqIdsOffset (lateCall t).reqIds r = 0 := by
    change (0 : Int64) * _ = 0
    exact Int64.zero_mul
  unfold Call.codes topkIndicesNew
  rw [hoff, Int64.add_zero]
  change (if 0 ≤ (if r = 2 ^ 21 ∧ i = 0 then t else -1) then
    (if r = 2 ^ 21 ∧ i = 0 then t else -1).toInt64 else -1) = _
  by_cases h : r = 2 ^ 21 ∧ i = 0
  · rw [if_pos h, if_pos ht, if_pos h]
  · rw [if_neg h, if_neg (by decide), if_neg h]

theorem toInt64_nonneg (ht : 0 ≤ t) : 0 ≤ t.toInt64 := by
  rw [Int64.le_iff_toInt_le, Int32.toInt_toInt64]
  exact Int32.le_iff_toInt_le.mp ht

theorem ne_neg_one_of_nonneg (y : Int64) (hy : 0 ≤ y) : y ≠ -1 := by
  rintro rfl
  exact absurd hy (by decide)

/-- Only the last row misses anything. -/
theorem lateCall_miss (ht : 0 ≤ t) (r i : ℕ) :
    (lateCall t).miss (staleBuffer x) r i = decide (r = 2 ^ 21 ∧ i = 0) := by
  rw [Call.miss, getSetDiffMask_eq, Bool.eq_iff_iff, diffMask_iff, decide_eq_true_eq]
  constructor
  · intro h
    by_contra hne
    refine h 1 (by decide) ?_
    rw [lateCall_codes t ht, if_neg hne, staleBuffer, if_neg (by omega)]
  · rintro ⟨rfl, rfl⟩ j _
    rw [lateCall_codes t ht, if_pos ⟨rfl, rfl⟩, staleBuffer, if_neg (by omega)]
    exact ne_neg_one_of_nonneg _ (toInt64_nonneg t ht)

/-- Only the stale entry, if there is one, is of no use any more. -/
theorem lateCall_avail (ht : 0 ≤ t) (r i : ℕ) :
    (lateCall t).avail (staleBuffer x) r i = decide (r = 0 ∧ i = 0 ∧ x ≠ -1) := by
  rw [Call.avail, getSetDiffMask_eq, Bool.eq_iff_iff, diffMask_iff, decide_eq_true_eq]
  constructor
  · intro h
    by_contra hne
    refine h 1 (by decide) ?_
    rw [lateCall_codes t ht, if_neg (by omega), staleBuffer]
    by_cases h00 : r = 0 ∧ i = 0
    · rw [if_pos h00]
      by_contra hx
      exact hne ⟨h00.1, h00.2, hx⟩
    · rw [if_neg h00]
  · rintro ⟨rfl, rfl, hx⟩ j _
    rw [lateCall_codes t ht, if_neg (by omega), staleBuffer, if_pos ⟨rfl, rfl⟩]
    exact hx

/-- The one code to load is the token's. -/
theorem lateCall_loads (ht : 0 ≤ t) : (lateCall t).loads (staleBuffer x) = [t.toInt64] := by
  have hlast : 2 ^ 21 * SEQ_LEN + 0 < (2 ^ 21 + 1) * SEQ_LEN :=
    row_elem_lt (by omega) SEQ_LEN_pos
  have hmask : ∀ a, rowMajor SEQ_LEN ((lateCall t).miss (staleBuffer x)) a = true ↔
      a = 2 ^ 21 * SEQ_LEN + 0 := by
    intro a
    rw [rowMajor_eq_true_iff _ (2 ^ 21) 0 SEQ_LEN_pos (fun r i _ => ?_)]
    rw [lateCall_miss t x ht, decide_eq_true_eq]
  have hlen : ((lateCall t).loads (staleBuffer x)).length = 1 := by
    rw [Call.loads, maskedSelect_length]
    exact countTrue_single _ _ _ hlast (fun a _ => hmask a)
  rcases List.length_eq_one_iff.mp hlen with ⟨y, hy⟩
  have hmem : y ∈ (lateCall t).loads (staleBuffer x) := by
    rw [hy]
    exact List.mem_singleton_self y
  rw [Call.loads, mem_maskedSelect] at hmem
  rcases hmem with ⟨a, _, ha, hval⟩
  rw [(hmask a).mp ha, rowMajor_at _ _ _ _ SEQ_LEN_pos, lateCall_codes t ht, if_pos ⟨rfl, rfl⟩]
    at hval
  rw [hy, hval]

/-- The kernel offers the stale entry's slot, and no other. -/
theorem lateCall_launched (ht : 0 ≤ t) :
    ∃ gm, (lateCall t).launched Platform.singleCore (2 ^ 21 + 1) (staleBuffer x) = .ok gm ∧
      ∀ r, ∀ i < SEQ_LEN, (rowAt gm.availMaskGm r i = true ↔ r = 0 ∧ i = 0 ∧ x ≠ -1) := by
  have hshort : ∀ q < 2 ^ 21, countTrue ((lateCall t).miss (staleBuffer x) q) SEQ_LEN
      ≤ countTrue ((lateCall t).avail (staleBuffer x) q) SEQ_LEN := by
    intro q hq
    have hzero : countTrue ((lateCall t).miss (staleBuffer x) q) SEQ_LEN = 0 := by
      rw [countTrue_eq_zero_iff]
      intro i _
      rw [lateCall_miss t x ht, decide_eq_false_iff_not]
      omega
    rw [hzero]
    exact Nat.zero_le _
  rcases launched_of_no_shortage (lateCall t) Platform.singleCore (2 ^ 21 + 1) (staleBuffer x)
    (le_refl _) (by change 1 ≤ 2 ^ 21 + 1; omega) (by change 2 ^ 21 + 1 < 2 ^ 32; omega)
    (by change 2 ^ 21 + 1 + 1 - 1 < 2 ^ 32; omega) hshort with ⟨gm, hrun, hmask⟩
  refine ⟨gm, hrun, fun r i hi => ?_⟩
  rw [hmask r i hi, lateCall_avail t x ht, decide_eq_true_eq]

/-- The token goes to the stale entry's slot, or nowhere when there is none. -/
theorem lateCall_run (ht : 0 ≤ t) :
    ∃ o, (lateCall t).run Platform.singleCore (2 ^ 21 + 1) (staleBuffer x) = .ok o ∧
      ∀ r < 2 ^ 21 + 1, ∀ i < SEQ_LEN,
        o.buffer r i
          = (if r = 0 ∧ i = 0 ∧ x ≠ -1 then t.toInt64 else staleBuffer x r i) ∧
        o.topkIndices r i = if r = 0 ∧ i = 0 ∧ x ≠ -1 then t else -1 := by
  have hloads := lateCall_loads t x ht
  have hacc : (lateCall t).Accepted (2 ^ 21 + 1) := ⟨le_refl _, le_refl _⟩
  rcases lateCall_launched t x ht with ⟨gm, hrun, hslot⟩
  -- At most one slot, and one code to load.
  have hone : countTrue gm.availMaskGm ((lateCall t).numReqs * SEQ_LEN) ≤ 1 := by
    have hfirst : ∀ a, gm.availMaskGm a = true → a = 0 := by
      intro a ha
      rw [← rowMajor_rowAt gm.availMaskGm, rowMajor, hslot _ _ (Nat.mod_lt a SEQ_LEN_pos)] at ha
      have hdiv := Nat.div_add_mod a SEQ_LEN
      rw [ha.1, ha.2.1, Nat.mul_zero] at hdiv
      exact hdiv.symm
    rw [countTrue_eq_card, Finset.card_le_one]
    intro a ha b hb
    rw [hfirst a (Finset.mem_filter.mp ha).2, hfirst b (Finset.mem_filter.mp hb).2]
  rcases Call.run_completes hacc gm hrun (by rw [hloads]; exact hone) with ⟨o, ho⟩
  rcases Call.run_ok o ho with ⟨_, gm', hrun', _, hout, _⟩
  rw [hrun, Except.ok.injEq] at hrun'
  subst hrun'
  have hand : ∀ d, ∀ r, ∀ i < SEQ_LEN,
      handOut gm.availMaskGm ((lateCall t).loads (staleBuffer x)) d r i
        = if r = 0 ∧ i = 0 ∧ x ≠ -1 then t.toInt64 else d := by
    intro d r i hi
    rw [handOut]
    by_cases h : r = 0 ∧ i = 0 ∧ x ≠ -1
    · rw [if_pos ((hslot r i hi).mpr h), if_pos h, h.1, h.2.1, Nat.zero_mul, Nat.add_zero,
        countTrue_zero, hloads, List.getElem?_cons_zero, Option.getD_some]
    · rw [if_neg ((hslot r i hi).not.mpr h), if_neg h]
  refine ⟨o, ho, fun r hr i hi => ⟨?_, ?_⟩⟩
  · rw [(hout r hr i hi).2, hand _ r i hi]
  · rw [(hout r hr i hi).1, hand _ r i hi]
    have hoff : reqIdsOffset (lateCall t).reqIds r = 0 := by
      change (0 : Int64) * _ = 0
      exact Int64.zero_mul
    unfold recovered
    rw [hoff, Int64.sub_zero]
    by_cases h : r = 0 ∧ i = 0 ∧ x ≠ -1
    · rw [if_pos h, if_pos h, if_pos (toInt64_nonneg t ht), Int32.toInt32_toInt64]
    · rw [if_neg h, if_neg h]
      rfl

end LateCall

end AscendKernel
