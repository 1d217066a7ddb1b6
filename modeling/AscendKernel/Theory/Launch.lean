import AscendKernel.Theory.RowLoop
import AscendKernel.Theory.Tiling

/-!
# What a Launch Leaves in the Mask

The effect of a launch on global memory, row by row.

A block's unit of work is `processBatch`, which rewrites one row of the mask
in place, the row its 32-bit offset points at. `processBatch_eq` sums up its
copies, `processBatch_avail` says what they come to, once, for every row
number, wrapped or not, and everything else here is an induction over the list
of rows processed.

A row may be rewritten more than once, and the kernel reads the very mask it
rewrites. It makes no difference: a row processed again is left as it is, so
`foldl_avail` can say that every row met holds what one execution makes of its
original contents, whatever the order and however often. When no row has a
shortage nothing is rewritten at all, which is `foldl_avail_of_no_shortage`.

## Main definitions

* `rowAt`: A row of memory, at the kernel's row width.
* `rowCopies`: The copies made for one row.
* `launchMemory`: The memory behind three fresh matrices.
* `Fits`: A batch the kernel's 32-bit arithmetic can address.

## Theorems

* `processBatch_eq`: One row processed.
* `processBatch_avail`: Its effect on the rows of the mask.
* `foldl_avail`: Rows processed in any order, any number of times.
* `foldl_avail_of_no_shortage`: Rows without a shortage.
* `foldl_copies`: The copies made while processing a list of rows.
* `checkedLaunch_contiguous`: The checks pass on fresh matrices of one shape.
* `checkedLaunch_avail`: The mask a launch leaves, when the batch fits.
* `fits_of_checkedLaunch`: Completing means the host's arithmetic was exact.
-/

namespace AscendKernel

/-- Row `q` of a memory, at the kernel's row width. -/
def rowAt {α : Type} (mem : ℕ → α) (q i : ℕ) : α := mem (q * SEQ_LEN + i)

/-- The copies made for one row: three stretches in, one back. -/
def rowCopies (batchIdx offset count : ℕ) : List DataCopy :=
  [{ batchIdx := batchIdx, buffer := .missMask, isWrite := false, offset := offset,
     count := count },
   { batchIdx := batchIdx, buffer := .availMask, isWrite := false, offset := offset,
     count := count },
   { batchIdx := batchIdx, buffer := .idx, isWrite := false, offset := offset, count := count },
   { batchIdx := batchIdx, buffer := .availMask, isWrite := true, offset := offset,
     count := count }]

/-- One row processed: a stretch of the mask is rewritten, from the same
    stretches of the three buffers, and four copies are made. What the local
    tensors held before the copies does not matter. -/
theorem processBatch_eq (plat : Platform) (gm : GlobalMemory) (v : Word) :
    processBatch plat gm v =
      { gm with
        availMaskGm := fillFrom (rowOffset v).val SEQ_LEN
          (processRow SEQ_LEN (castSum plat.sumOrder)
            (fun i => gm.missMaskGm ((rowOffset v).val + i))
            (fun i => gm.availMaskGm ((rowOffset v).val + i))
            (fun i => gm.idxGm ((rowOffset v).val + i))) gm.availMaskGm
        copies := gm.copies ++ rowCopies v.val (rowOffset v).val SEQ_LEN } := by
  have hsum := castSum_eq plat.sumOrder (le_refl SEQ_LEN)
  refine congrArg₂ (fun mem log => GlobalMemory.mk gm.missMaskGm mem gm.idxGm log) ?_ ?_
  · refine fillFrom_congr _ _ _ _ _ (fun i hi => ?_)
    exact processRow_congr SEQ_LEN _ hsum _ _ _ _ _ _ (fun j hj => if_pos hj)
      (fun j hj => if_pos hj) (fun j hj => if_pos hj) i hi
  · change gm.copies ++ [_] ++ [_] ++ [_] ++ [_] = gm.copies ++ [_, _, _, _]
    simp only [List.append_assoc, List.cons_append, List.nil_append]

@[simp] theorem processBatch_miss (plat : Platform) (gm : GlobalMemory) (v : Word) :
    (processBatch plat gm v).missMaskGm = gm.missMaskGm := rfl

@[simp] theorem processBatch_idx (plat : Platform) (gm : GlobalMemory) (v : Word) :
    (processBatch plat gm v).idxGm = gm.idxGm := rfl

/-- One row processed: the row the offset points at is rewritten from its own
    contents, and no other row changes. -/
theorem processBatch_avail (plat : Platform) (gm : GlobalMemory) (v : Word) (q i : ℕ)
    (hi : i < SEQ_LEN) :
    rowAt (processBatch plat gm v).availMaskGm q i
      = if q = v.val % 2 ^ 21 then
          processRow SEQ_LEN (castSum plat.sumOrder) (rowAt gm.missMaskGm q)
            (rowAt gm.availMaskGm q) (rowAt gm.idxGm q) i
        else rowAt gm.availMaskGm q i := by
  have hoff := rowOffset_val v
  set ρ := v.val % 2 ^ 21 with hρ
  rw [processBatch_eq, rowAt]
  change (if (rowOffset v).val ≤ q * SEQ_LEN + i ∧ q * SEQ_LEN + i < (rowOffset v).val + SEQ_LEN
    then _ else gm.availMaskGm (q * SEQ_LEN + i)) = _
  by_cases hq : q = ρ
  · rw [if_pos hq, if_pos (by rw [hoff, hq]; omega), hoff, hq, Nat.add_sub_cancel_left]
    rfl
  · -- Another row's stretch is disjoint from the one rewritten.
    have hmem : q * SEQ_LEN + i ∈ Set.Ico (q * SEQ_LEN) (q * SEQ_LEN + SEQ_LEN) :=
      ⟨by omega, by omega⟩
    have hdisj := Set.disjoint_left.mp (rows_disjoint q ρ hq) hmem
    rw [Set.mem_Ico] at hdisj
    rw [if_neg hq, if_neg (by rw [hoff]; exact hdisj)]
    rfl

/-- Memories with the same rows are the same: every address is an element of
    its own row. -/
theorem rowAt_ext {α : Type} (mem mem' : ℕ → α)
    (h : ∀ q, ∀ i < SEQ_LEN, rowAt mem q i = rowAt mem' q i) : mem = mem' := by
  ext a
  have hcell : a / SEQ_LEN * SEQ_LEN + a % SEQ_LEN = a := by
    rw [Nat.mul_comm]
    exact Nat.div_add_mod a SEQ_LEN
  have hrow := h (a / SEQ_LEN) (a % SEQ_LEN) (Nat.mod_lt a SEQ_LEN_pos)
  rwa [rowAt, rowAt, hcell] at hrow

section Fold

variable (plat : Platform)

theorem foldl_miss (vs : List Word) (gm : GlobalMemory) :
    (vs.foldl (processBatch plat) gm).missMaskGm = gm.missMaskGm := by
  induction vs generalizing gm with
  | nil => rfl
  | cons v vs ih => rw [List.foldl_cons, ih, processBatch_miss]

theorem foldl_idx (vs : List Word) (gm : GlobalMemory) :
    (vs.foldl (processBatch plat) gm).idxGm = gm.idxGm := by
  induction vs generalizing gm with
  | nil => rfl
  | cons v vs ih => rw [List.foldl_cons, ih, processBatch_idx]

/-- Rows processed in any order and any number of times: the rows they land on
    are computed from what they held before the first of them, and the others
    are left alone. The induction is on the list; a row met again is already
    settled, and a row not met again is not the one just rewritten. -/
theorem foldl_avail (vs : List Word) (gm : GlobalMemory) (q i : ℕ) (hi : i < SEQ_LEN) :
    rowAt (vs.foldl (processBatch plat) gm).availMaskGm q i
      = if q ∈ vs.map (fun v => v.val % 2 ^ 21) then
          processRow SEQ_LEN (castSum plat.sumOrder) (rowAt gm.missMaskGm q)
            (rowAt gm.availMaskGm q) (rowAt gm.idxGm q) i
        else rowAt gm.availMaskGm q i := by
  have hsum := castSum_eq plat.sumOrder (le_refl SEQ_LEN)
  induction vs generalizing gm i with
  | nil => rw [List.map_nil, if_neg (List.not_mem_nil)]; rfl
  | cons v vs ih =>
      have hstep := processBatch_avail plat gm v q
      rw [List.foldl_cons, ih (processBatch plat gm v) i hi, processBatch_miss, processBatch_idx,
        List.map_cons]
      by_cases hq : q = v.val % 2 ^ 21
      · rw [if_pos (List.mem_cons.mpr (Or.inl hq))]
        -- From here on the row holds the processed contents.
        have hrow : ∀ j < SEQ_LEN, rowAt (processBatch plat gm v).availMaskGm q j
            = processRow SEQ_LEN (castSum plat.sumOrder) (rowAt gm.missMaskGm q)
              (rowAt gm.availMaskGm q) (rowAt gm.idxGm q) j := by
          intro j hj
          rw [hstep j hj, if_pos hq]
        by_cases hmem : q ∈ vs.map (fun v => v.val % 2 ^ 21)
        · rw [if_pos hmem]
          refine Eq.trans ?_ (processRow_again SEQ_LEN _ hsum (rowAt gm.missMaskGm q)
            (rowAt gm.availMaskGm q) (rowAt gm.idxGm q) i hi)
          exact processRow_congr SEQ_LEN _ hsum _ _ _ _ _ _ (fun _ _ => rfl) hrow
            (fun _ _ => rfl) i hi
        · rw [if_neg hmem]
          exact hrow i hi
      · -- The row just processed is another one, so this one is untouched.
        have hsame : ∀ j < SEQ_LEN, rowAt (processBatch plat gm v).availMaskGm q j
            = rowAt gm.availMaskGm q j := by
          intro j hj
          rw [hstep j hj, if_neg hq]
        by_cases hmem : q ∈ vs.map (fun v => v.val % 2 ^ 21)
        · rw [if_pos hmem, if_pos (List.mem_cons_of_mem _ hmem)]
          exact processRow_congr SEQ_LEN _ hsum _ _ _ _ _ _ (fun _ _ => rfl) hsame
            (fun _ _ => rfl) i hi
        · rw [if_neg hmem, if_neg (fun h => (List.mem_cons.mp h).elim hq hmem)]
          exact hsame i hi

/-- Rows without a shortage: whatever stretches they land on, the mask is left
    as it was. -/
theorem foldl_avail_of_no_shortage (vs : List Word) (gm : GlobalMemory)
    (h : ∀ q < 2 ^ 21, countTrue (rowAt gm.missMaskGm q) SEQ_LEN
      ≤ countTrue (rowAt gm.availMaskGm q) SEQ_LEN) :
    (vs.foldl (processBatch plat) gm).availMaskGm = gm.availMaskGm := by
  refine rowAt_ext _ _ (fun q i hi => ?_)
  rw [foldl_avail plat vs gm q i hi]
  by_cases hmem : q ∈ vs.map (fun v => v.val % 2 ^ 21)
  · rw [if_pos hmem]
    rcases List.mem_map.mp hmem with ⟨v, _, hv⟩
    have hq : q < 2 ^ 21 := hv ▸ Nat.mod_lt _ (Nat.two_pow_pos 21)
    exact processRow_of_no_shortage SEQ_LEN _ (castSum_eq plat.sumOrder (le_refl SEQ_LEN)) _ _ _
      (h q hq) i hi
  · rw [if_neg hmem]

/-- The copies made while processing a list of rows, in order. -/
theorem foldl_copies (vs : List Word) (gm : GlobalMemory) :
    (vs.foldl (processBatch plat) gm).copies
      = gm.copies ++ vs.flatMap (fun v => rowCopies v.val (rowOffset v).val SEQ_LEN) := by
  induction vs generalizing gm with
  | nil => rw [List.foldl_nil, List.flatMap_nil, List.append_nil]
  | cons v vs ih =>
      rw [List.foldl_cons, ih, List.flatMap_cons, ← List.append_assoc, processBatch_eq]

end Fold

/-- The memory behind three fresh matrices of one width. -/
def launchMemory (L : ℕ) (miss avail : ℕ → ℕ → Bool) (old : ℕ → ℕ → Int64) : GlobalMemory :=
  { missMaskGm := rowMajor L miss, availMaskGm := rowMajor L avail, idxGm := rowMajor L old,
    copies := [] }

/-- The checks pass on fresh matrices of one shape, whatever the shape, and
    what is left is the launch. -/
theorem checkedLaunch_contiguous (plat : Platform) (B L : ℕ) (miss avail : ℕ → ℕ → Bool)
    (old : ℕ → ℕ → Int64) :
    checkedLaunch plat (.bool (contiguous2 B L miss)) (.bool (contiguous2 B L avail))
      (.long (contiguous2 B L old))
      = if B % 2 ^ 32 = 0 then .ok (launchMemory L miss avail old)
        else
          match hostTiling (Word.ofResult B true) (Word.ofResult plat.coreNum true) with
          | none => .error .divisionByZero
          | some l => .ok (launch plat l.blockDim l.tiling (launchMemory L miss avail old)) := by
  have hgm : ({ missMaskGm := (contiguous2 B L miss).dataPtr
                availMaskGm := (contiguous2 B L avail).dataPtr
                idxGm := (contiguous2 B L old).dataPtr
                copies := [] } : GlobalMemory) = launchMemory L miss avail old := by
    rw [launchMemory, funext (contiguous2_dataPtr B L miss), funext (contiguous2_dataPtr B L avail),
      funext (contiguous2_dataPtr B L old)]
  have hshape : ([B, L] == [B, L]) = true := beq_self_eq_true _
  have hrank : (([B, L] : List ℕ).length == 2) = true := rfl
  unfold checkedLaunch
  change (do
    torchCheck (([B, L] : List ℕ).length == 2) _
    torchCheck (([B, L] : List ℕ).length == 2) _
    torchCheck (([B, L] : List ℕ).length == 2) _
    torchCheck ([B, L] == [B, L]) _
    torchCheck ([B, L] == [B, L]) _
    _) = _
  rw [hrank, hshape]
  change (if (Word.ofResult B true).val = 0 then (.ok _ : Except Failure GlobalMemory) else _) = _
  rw [hgm]
  rfl

/-- A batch the kernel's 32-bit arithmetic can address: its elements can be
    numbered by a word, and the host's first division does not wrap. -/
def Fits (plat : Platform) (B : ℕ) : Prop :=
  B * SEQ_LEN ≤ 2 ^ 32 ∧ B + plat.coreNum - 1 < 2 ^ 32

theorem rowAt_rowMajor {α : Type} (f : ℕ → ℕ → α) (q i : ℕ) (hi : i < SEQ_LEN) :
    rowAt (rowMajor SEQ_LEN f) q i = f q i := rowMajor_at SEQ_LEN f q i hi

/-- The rows of the memory a launch starts from are those of the matrices. -/
theorem rowAt_launchMemory (miss avail : ℕ → ℕ → Bool) (old : ℕ → ℕ → Int64) (q i : ℕ)
    (hi : i < SEQ_LEN) :
    rowAt (launchMemory SEQ_LEN miss avail old).missMaskGm q i = miss q i ∧
      rowAt (launchMemory SEQ_LEN miss avail old).availMaskGm q i = avail q i ∧
      rowAt (launchMemory SEQ_LEN miss avail old).idxGm q i = old q i :=
  ⟨rowAt_rowMajor miss q i hi, rowAt_rowMajor avail q i hi, rowAt_rowMajor old q i hi⟩

/-- A launch over a nonempty batch that fits processes the rows in order. -/
theorem checkedLaunch_of_fits (plat : Platform) (B L : ℕ) (miss avail : ℕ → ℕ → Bool)
    (old : ℕ → ℕ → Int64) (hB : 1 ≤ B) (hfit : Fits plat B) :
    ∃ vs : List Word, vs.map Word.val = List.range B ∧
      checkedLaunch plat (.bool (contiguous2 B L miss)) (.bool (contiguous2 B L avail))
        (.long (contiguous2 B L old))
        = .ok (vs.foldl (processBatch plat) (launchMemory L miss avail old)) := by
  have hrows := (rows_le_iff B).mp hfit.1
  rcases hostTiling_spec B plat.coreNum hB plat.coreNum_pos hrows hfit.2 with ⟨l, hl, hspec⟩
  have hw := share_pos B plat.coreNum hB plat.coreNum_pos
  have hu := share_pos B _ hB hw
  refine ⟨launchedBatches l.blockDim l.tiling,
    (launchedBatches_range hspec hu (last_share B _ hB hw).1).1, ?_⟩
  rw [checkedLaunch_contiguous, if_neg (by omega), hl]
  rfl

/-- The mask a launch leaves, when the batch fits: every row topped up by its
    own shortage. -/
theorem checkedLaunch_avail (plat : Platform) (B : ℕ) (miss avail : ℕ → ℕ → Bool)
    (old : ℕ → ℕ → Int64) (hfit : Fits plat B) :
    ∃ gm, checkedLaunch plat (.bool (contiguous2 B SEQ_LEN miss))
        (.bool (contiguous2 B SEQ_LEN avail)) (.long (contiguous2 B SEQ_LEN old)) = .ok gm ∧
      ∀ r < B, ∀ i < SEQ_LEN, rowAt gm.availMaskGm r i
        = firstFit (avail r) (emptySlots (old r))
            (countTrue (miss r) SEQ_LEN - countTrue (avail r) SEQ_LEN) i := by
  rcases Nat.eq_zero_or_pos B with rfl | hB
  · exact ⟨_, checkedLaunch_contiguous plat 0 SEQ_LEN miss avail old,
      fun r hr => absurd hr (Nat.not_lt_zero r)⟩
  rcases checkedLaunch_of_fits plat B SEQ_LEN miss avail old hB hfit with ⟨vs, hvs, hrun⟩
  refine ⟨_, hrun, fun r hr i hi => ?_⟩
  have hrows := (rows_le_iff B).mp hfit.1
  -- Inside the word range a row's number is its own remainder.
  have hmod : vs.map (fun v => v.val % 2 ^ 21) = List.range B := by
    rw [← hvs]
    refine List.map_congr_left (fun v hv => Nat.mod_eq_of_lt ?_)
    have hmem : v.val ∈ List.range B := hvs ▸ List.mem_map_of_mem hv
    have := List.mem_range.mp hmem
    omega
  have hsum := castSum_eq plat.sumOrder (le_refl SEQ_LEN)
  rw [foldl_avail plat vs _ r i hi, hmod, if_pos (List.mem_range.mpr hr),
    ← processRow_eq SEQ_LEN _ hsum _ _ _ i hi]
  have hrow := rowAt_launchMemory miss avail old r
  exact processRow_congr SEQ_LEN _ hsum _ _ _ _ _ _ (fun j hj => (hrow j hj).1)
    (fun j hj => (hrow j hj).2.1) (fun j hj => (hrow j hj).2.2) i hi

/-- A launch that completes on fewer than `2 ^ 32` rows did not wrap its first
    division. -/
theorem fits_of_checkedLaunch (plat : Platform) (B L : ℕ) (miss avail : ℕ → ℕ → Bool)
    (old : ℕ → ℕ → Int64) (gm : GlobalMemory) (hB : 1 ≤ B) (hrows : B * SEQ_LEN ≤ 2 ^ 32)
    (h : checkedLaunch plat (.bool (contiguous2 B L miss)) (.bool (contiguous2 B L avail))
      (.long (contiguous2 B L old)) = .ok gm) : Fits plat B := by
  have hle := (rows_le_iff B).mp hrows
  refine ⟨hrows, ?_⟩
  rw [checkedLaunch_contiguous, if_neg (by omega)] at h
  cases hl : hostTiling (Word.ofResult B true) (Word.ofResult plat.coreNum true) with
  | none =>
      rw [hl] at h
      exact absurd h (error_ne_ok _ _)
  | some l =>
      have hsum := hostTiling_some_sum_lt _ _ l hl
      change B % 2 ^ 32 + plat.coreNum % 2 ^ 32 - 1 < 2 ^ 32 at hsum
      rwa [Nat.mod_eq_of_lt (by omega), Nat.mod_eq_of_lt plat.coreNum_lt] at hsum

end AscendKernel
