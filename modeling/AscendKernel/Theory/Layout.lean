import AscendKernel.Theory.Operator
import AscendKernel.Theory.Step

/-!
# The Layout of the Buffer

Whether the kernel sees the same buffer as the rest of the operator.

The buffer is the caller's tensor and may be laid out in any way. The set
differences are torch operators and read it through its strides. The kernel is
given its address, and reads from there as if the rows were packed at the
kernel's width. Nothing checks that they are.

The two readings take element `(r, i)` from two addresses, so they agree on
every content exactly when the addresses are the same. One row has only its
own stride to get wrong; with a second row the rows have to follow each other
directly, and past `2 ^ 21` rows the kernel's offset wraps. `PackedRows` is
what comes out.

A misread element shows in the slots. In a buffer of zeros with one empty
entry, at an address the kernel takes for an element of one row and torch does
not, the kernel finds an empty entry for the token to load, and on a packed
copy of the same values it finds none there.

## Main definitions

* `kernelEntry`: An element of the old rows as the kernel reads it.
* `finalSlotMask`: The slots a call ends up with.
* `LayoutIndependent`: A layout that makes no difference.
* `PackedRows`: Rows where the kernel expects them.

## Theorems

* `readsElements_iff`: When the two readings agree.
* `keepsMask_of_reads`: Elements read as they are make the same slots.
* `not_keepsMask_probed`: A misread element makes other slots.
* `layoutIndependent_iff`: The layouts that make no difference.
-/

namespace AscendKernel

/-- Element `(r, i)` of the old rows as the kernel reads it: entry `i` of what
    it copies in for row `r`. -/
def kernelEntry (old : Strided Int64) (r i : ℕ) : Int64 :=
  old.dataPtr ((rowOffset (Word.ofResult r true)).val + i)

/-- The final `available_slot_mask` of a call. -/
def finalSlotMask (plat : Platform) (topk : Strided Int32) (last ids : Strided Int64) :
    Except Failure (Strided Bool) :=
  (cacheMissTopk plat (.bool (cacheMissTokenMask topk last ids)) (availableSlotMask topk last ids)
    (last.slice0 (topk.size 0))).map Prod.fst

/-- The kernel takes the buffer's own elements for those of the first `B`
    rows. -/
def ReadsElements (last : Strided Int64) (B : ℕ) : Prop :=
  ∀ r < B, ∀ i < SEQ_LEN, kernelEntry (last.slice0 B) r i = last.at2 r i

/-- A call ends up with the slots it would have on a contiguous copy of the
    buffer. -/
def KeepsMask (plat : Platform) (topk : Strided Int32) (last ids : Strided Int64) : Prop :=
  finalSlotMask plat topk last ids
    = finalSlotMask plat topk (contiguous2 (last.size 0) (last.size 1) last.at2) ids

/-- Calls on the first `B` rows of a buffer laid out as `last` is, whatever it
    holds, all have the property. -/
def OnEveryCall (last : Strided Int64) (B : ℕ)
    (P : Strided Int32 → Strided Int64 → Strided Int64 → Prop) : Prop :=
  ∀ (topk : Strided Int32) (ids : Strided Int64) (storage : ℕ → Int64),
    entryChecks (.int topk) (.long { last with storage := storage }) (.long ids)
      = .ok (topk, { last with storage := storage }, ids) →
    topk.size 0 = B → P topk { last with storage := storage } ids

/-- A layout that makes no difference to any call on the first `B` rows. -/
def LayoutIndependent (plat : Platform) (last : Strided Int64) (B : ℕ) : Prop :=
  OnEveryCall last B fun topk last ids => ReadsElements last B ∧ KeepsMask plat topk last ids

/-- Rows packed at the kernel's width, as far as there is more than one, and
    no more of them than its offsets reach. -/
def PackedRows (last : Strided Int64) (B : ℕ) : Prop :=
  B = 0 ∨ last.stride 1 = 1 ∧ (B = 1 ∨ last.stride 0 = SEQ_LEN ∧ B ≤ 2 ^ 21)

theorem PackedRows.le {last : Strided Int64} {B : ℕ} (h : PackedRows last B) : B ≤ 2 ^ 21 := by
  rcases h with hzero | ⟨_, hone | ⟨_, hle⟩⟩
  · omega
  · omega
  · exact hle

/-- The offset of a row wraps, whatever its number. -/
theorem kernelEntry_eq (old : Strided Int64) (r i : ℕ) :
    kernelEntry old r i = rowAt old.dataPtr (r % 2 ^ 21) i := by
  have hmod : r % 2 ^ 32 % 2 ^ 21 = r % 2 ^ 21 := Nat.mod_mod_of_dvd r ⟨2 ^ 11, rfl⟩
  rw [kernelEntry, rowOffset_val, rowAt]
  change old.dataPtr (r % 2 ^ 32 % 2 ^ 21 * SEQ_LEN + i) = _
  rw [hmod]

/-- The address the kernel reads element `(r, i)` from is the element's own. -/
def SameAddress (last : Strided Int64) (r i : ℕ) : Prop :=
  r % 2 ^ 21 * SEQ_LEN + i = r * last.stride 0 + i * last.stride 1

/-- Every element of the leading rows is read from its own address exactly
    when the rows are packed. -/
theorem sameAddress_iff (last : Strided Int64) (B : ℕ) :
    (∀ r < B, ∀ i < SEQ_LEN, SameAddress last r i) ↔ PackedRows last B := by
  have hwidth : SEQ_LEN = 2048 := rfl
  constructor
  · intro h
    rcases Nat.eq_zero_or_pos B with hzero | hpos
    · exact Or.inl hzero
    -- The first two elements give one stride, the first two rows the other.
    have hcol : last.stride 1 = 1 := by
      have hone := h 0 hpos 1 (by omega)
      unfold SameAddress at hone
      omega
    refine Or.inr ⟨hcol, ?_⟩
    by_cases hmany : B = 1
    · exact Or.inl hmany
    have hrow : last.stride 0 = SEQ_LEN := by
      have hone := h 1 (by omega) 0 (by omega)
      unfold SameAddress at hone
      omega
    refine Or.inr ⟨hrow, ?_⟩
    by_contra hlarge
    -- The first row past the range is read from where row zero is.
    have hwrap := h (2 ^ 21) (by omega) 0 (by omega)
    unfold SameAddress at hwrap
    omega
  · rintro (hzero | ⟨hcol, hone | ⟨hrow, hfit⟩⟩) r hr i hi
    · omega
    · unfold SameAddress
      rw [hcol, show r = 0 by omega]
      omega
    · unfold SameAddress
      rw [hcol, hrow, Nat.mod_eq_of_lt (by omega)]
      omega

/-- A buffer of zeros with a single empty entry, at one address. -/
def probe (a n : ℕ) : Int64 := if n = a then -1 else 0

/-- A buffer laid out as `last` is, empty where the kernel reads element
    `(r, i)`. -/
def probed (last : Strided Int64) (r i : ℕ) : Strided Int64 :=
  { last with storage := probe (last.storageOffset + (r % 2 ^ 21 * SEQ_LEN + i)) }

/-- Where an element is not read from its own address, some content tells. -/
theorem probed_misread (last : Strided Int64) (B r i : ℕ) (h : ¬ SameAddress last r i) :
    kernelEntry ((probed last r i).slice0 B) r i = -1 ∧ (probed last r i).at2 r i = 0 := by
  rw [kernelEntry_eq]
  constructor
  · exact if_pos rfl
  · -- The element itself lies elsewhere.
    refine if_neg ?_
    change last.storageOffset + r * last.stride 0 + i * last.stride 1 ≠ _
    unfold SameAddress at h
    omega

/-- The kernel takes the elements of every content from where they are exactly
    when the rows are packed. -/
theorem readsElements_iff (last : Strided Int64) (B : ℕ) :
    (∀ storage, ReadsElements { last with storage := storage } B) ↔ PackedRows last B := by
  rw [← sameAddress_iff]
  constructor
  · intro h r hr i hi
    by_contra hother
    have hread : kernelEntry ((probed last r i).slice0 B) r i = (probed last r i).at2 r i :=
      h _ r hr i hi
    rcases probed_misread last B r i hother with ⟨hkernel, htorch⟩
    rw [hkernel, htorch] at hread
    exact absurd hread (by decide)
  · intro h storage r hr i hi
    have hsame := h r hr i hi
    unfold SameAddress at hsame
    rw [kernelEntry_eq]
    change storage (last.storageOffset + (r % 2 ^ 21 * SEQ_LEN + i))
      = storage (last.storageOffset + r * last.stride 0 + i * last.stride 1)
    rw [hsame, Nat.add_assoc]

/-- A launch sees of the old rows their shape and the memory behind their
    address. -/
theorem checkedLaunch_old (plat : Platform) (miss avail : Tensor) (old old' : Strided Int64)
    (hsizes : old.sizes = old'.sizes) (hptr : old.dataPtr = old'.dataPtr) :
    checkedLaunch plat miss avail (.long old) = checkedLaunch plat miss avail (.long old') := by
  unfold checkedLaunch
  simp only [Tensor.dim, Tensor.sizes, Tensor.checkLong, hsizes, hptr, ok_bind]

/-- Every row of a launch is one of the batch. -/
theorem launchedBatches_lt (blockDim : Word) (t : CacheMissTopkTilingData) (v : Word)
    (hv : v ∈ launchedBatches blockDim t) : v.val < t.batchSize.val := by
  have hloop : ∀ start n b, v ∈ batchLoop t.batchSize start n b → v.val < t.batchSize.val := by
    intro start n
    induction n with
    | zero => exact fun b h => absurd h List.not_mem_nil
    | succ n ih =>
        intro b h
        rw [batchLoop] at h
        by_cases hend : t.batchSize.val ≤ (start + b).val
        · simp only [hend, if_true] at h
          exact absurd h List.not_mem_nil
        · simp only [hend, if_false] at h
          rcases List.mem_cons.mp h with rfl | hrest
          · omega
          · exact ih _ hrest
  rcases List.mem_flatMap.mp hv with ⟨b, _, hb⟩
  rw [process] at hb
  by_cases hpast : t.usedCoreNum.val ≤ (Word.ofResult b true).val
  · rw [if_pos hpast] at hb
    exact absurd hb List.not_mem_nil
  · rw [if_neg hpast] at hb
    exact hloop _ _ _ hb

/-- Old rows that agree on the batch make a launch leave the same mask. The
    rows of a launch are rows of the batch, wrapped or not. -/
theorem checkedLaunch_avail_congr (plat : Platform) (B : ℕ) (miss avail : ℕ → ℕ → Bool)
    (old old' : ℕ → ℕ → Int64) (h : ∀ r < B, ∀ i < SEQ_LEN, old r i = old' r i) :
    (checkedLaunch plat (.bool (contiguous2 B SEQ_LEN miss)) (.bool (contiguous2 B SEQ_LEN avail))
        (.long (contiguous2 B SEQ_LEN old))).map GlobalMemory.availMaskGm
      = (checkedLaunch plat (.bool (contiguous2 B SEQ_LEN miss))
          (.bool (contiguous2 B SEQ_LEN avail))
          (.long (contiguous2 B SEQ_LEN old'))).map GlobalMemory.availMaskGm := by
  rw [checkedLaunch_contiguous, checkedLaunch_contiguous]
  by_cases hempty : B % 2 ^ 32 = 0
  · rw [if_pos hempty, if_pos hempty]
    rfl
  rw [if_neg hempty, if_neg hempty]
  cases hl : hostTiling (Word.ofResult B true) (Word.ofResult plat.coreNum true) with
  | none => rfl
  | some l =>
      have hbatch : l.tiling.batchSize = Word.ofResult B true :=
        (hostTiling_fields _ _ l hl).2.2.2.1
      refine congrArg Except.ok (rowAt_ext _ _ (fun q i hi => ?_))
      have hrow := rowAt_launchMemory miss avail old q
      have hrow' := rowAt_launchMemory miss avail old' q
      rw [launch, launch, foldl_avail plat _ _ q i hi, foldl_avail plat _ _ q i hi]
      by_cases hq : q ∈ (launchedBatches l.blockDim l.tiling).map (fun v => v.val % 2 ^ 21)
      · rw [if_pos hq, if_pos hq]
        rcases List.mem_map.mp hq with ⟨v, hv, hvq⟩
        have hlt := launchedBatches_lt _ _ v hv
        rw [hbatch] at hlt
        change v.val < B % 2 ^ 32 at hlt
        -- Wrapping only makes the stretch's number smaller.
        have hqB : q < B := by omega
        exact processRow_congr SEQ_LEN _ (castSum_eq plat.sumOrder (le_refl SEQ_LEN)) _ _ _ _ _ _
          (fun _ _ => rfl) (fun _ _ => rfl)
          (fun j hj => by rw [(hrow j hj).2.2, (hrow' j hj).2.2, h q hqB j hj]) i hi
      · rw [if_neg hq, if_neg hq]
        rfl

theorem cacheMissTopk_mask (plat : Platform) (miss : Tensor) (avail : Strided Bool)
    (old : Strided Int64) :
    (cacheMissTopk plat miss avail old).map Prod.fst
      = ((checkedLaunch plat miss (.bool avail) (.long old)).map
          GlobalMemory.availMaskGm).map avail.withDataPtr := by
  unfold cacheMissTopk
  cases checkedLaunch plat miss (.bool avail) (.long old) <;> rfl

section Masks

variable (plat : Platform) (topk : Strided Int32) (last ids : Strided Int64)

/-- The entries of a call's codes the buffer lacks, as matrices. -/
def missRows (r i : ℕ) : Bool :=
  getSetDiffMask SEQ_LEN (topkIndicesNew topk.at2 ids.at1) last.at2 r i

/-- The entries of the buffer a call's codes lack, as matrices. -/
def availRows (r i : ℕ) : Bool :=
  getSetDiffMask SEQ_LEN last.at2 (topkIndicesNew topk.at2 ids.at1) r i

variable (hdim : last.dim = 2) (hrows : topk.size 0 ≤ last.size 0) (hwidth : topk.size 1 = SEQ_LEN)
  (hlast : last.size 1 = SEQ_LEN)

/-- The mask left by a launch on a matrix of old rows. -/
def maskAfter (B : ℕ) (miss avail : ℕ → ℕ → Bool) (old : ℕ → ℕ → Int64) :
    Except Failure (Strided Bool) :=
  ((checkedLaunch plat (.bool (contiguous2 B SEQ_LEN miss)) (.bool (contiguous2 B SEQ_LEN avail))
    (.long (contiguous2 B SEQ_LEN old))).map GlobalMemory.availMaskGm).map
      (contiguous2 B SEQ_LEN avail).withDataPtr

include hdim hrows hwidth hlast

/-- The final slots of a call, with the rows the kernel reads. -/
theorem finalSlotMask_eq :
    finalSlotMask plat topk last ids
      = maskAfter plat (topk.size 0) (missRows topk last ids) (availRows topk last ids)
          (rowAt (last.slice0 (topk.size 0)).dataPtr) := by
  have hold : checkedLaunch plat (.bool (cacheMissTokenMask topk last ids))
      (.bool (availableSlotMask topk last ids)) (.long (last.slice0 (topk.size 0)))
      = checkedLaunch plat (.bool (cacheMissTokenMask topk last ids))
          (.bool (availableSlotMask topk last ids))
          (.long (contiguous2 (topk.size 0) SEQ_LEN
            (rowAt (last.slice0 (topk.size 0)).dataPtr))) := by
    refine checkedLaunch_old plat _ _ _ _ (slice0_sizes last _ SEQ_LEN hdim hrows hlast) ?_
    ext n
    rw [contiguous2_dataPtr, rowMajor_rowAt]
  rw [finalSlotMask, cacheMissTopk_mask, hold, maskAfter]
  unfold cacheMissTokenMask availableSlotMask
  rw [hwidth]
  rfl

omit hdim in
/-- On a contiguous copy, they are the slots with the buffer's own rows. -/
theorem finalSlotMask_copy :
    finalSlotMask plat topk (contiguous2 (last.size 0) (last.size 1) last.at2) ids
      = maskAfter plat (topk.size 0) (missRows topk last ids) (availRows topk last ids)
          last.at2 := by
  rw [hlast, finalSlotMask_eq plat topk (contiguous2 (last.size 0) SEQ_LEN last.at2) ids rfl hrows
    hwidth rfl]
  have hread : ∀ r, ∀ i < SEQ_LEN,
      (contiguous2 (last.size 0) SEQ_LEN last.at2).at2 r i = last.at2 r i :=
    fun r i hi => contiguous2_at2 _ _ _ r i hi
  have hmiss : contiguous2 (topk.size 0) SEQ_LEN
      (missRows topk (contiguous2 (last.size 0) SEQ_LEN last.at2) ids)
      = contiguous2 (topk.size 0) SEQ_LEN (missRows topk last ids) := by
    refine contiguous2_congr _ _ _ (fun r i _ => ?_)
    rw [missRows, missRows, getSetDiffMask_eq, getSetDiffMask_eq]
    exact diffMask_congr SEQ_LEN _ _ _ _ i rfl (hread r)
  have havail : contiguous2 (topk.size 0) SEQ_LEN
      (availRows topk (contiguous2 (last.size 0) SEQ_LEN last.at2) ids)
      = contiguous2 (topk.size 0) SEQ_LEN (availRows topk last ids) := by
    refine contiguous2_congr _ _ _ (fun r i hi => ?_)
    rw [availRows, availRows, getSetDiffMask_eq, getSetDiffMask_eq]
    exact diffMask_congr SEQ_LEN _ _ _ _ i (hread r i hi) (fun _ _ => rfl)
  have hold : contiguous2 (topk.size 0) SEQ_LEN
      (rowAt ((contiguous2 (last.size 0) SEQ_LEN last.at2).slice0 (topk.size 0)).dataPtr)
      = contiguous2 (topk.size 0) SEQ_LEN last.at2 := by
    refine contiguous2_congr _ _ _ (fun r i hi => ?_)
    rw [contiguous2_slice0 _ _ _ _ hrows, funext (contiguous2_dataPtr _ _ _),
      rowAt_rowMajor _ r i hi]
  unfold maskAfter
  rw [hmiss, havail, hold]

/-- Elements that the kernel reads as they are make the same slots. -/
theorem keepsMask_of_reads (hle : topk.size 0 ≤ 2 ^ 21) (h : ReadsElements last (topk.size 0)) :
    KeepsMask plat topk last ids := by
  have hrow : ∀ r < topk.size 0, ∀ i < SEQ_LEN,
      rowAt (last.slice0 (topk.size 0)).dataPtr r i = last.at2 r i := by
    intro r hr i hi
    have hread := h r hr i hi
    rwa [kernelEntry_eq, Nat.mod_eq_of_lt (by omega)] at hread
  rw [KeepsMask, finalSlotMask_eq plat topk last ids hdim hrows hwidth hlast,
    finalSlotMask_copy plat topk last ids hrows hwidth hlast, maskAfter, maskAfter,
    checkedLaunch_avail_congr plat _ _ _ _ _ hrow]

/-- The slots of a batch that fits, kept or not, row by row. -/
theorem row_of_keepsMask (hfit : Fits plat (topk.size 0)) (h : KeepsMask plat topk last ids)
    (r : ℕ) (hr : r < topk.size 0) (i : ℕ) (hi : i < SEQ_LEN) (limit : ℕ)
    (hlimit : limit = countTrue (missRows topk last ids r) SEQ_LEN
      - countTrue (availRows topk last ids r) SEQ_LEN) :
    firstFit (availRows topk last ids r)
        (emptySlots (rowAt (last.slice0 (topk.size 0)).dataPtr r)) limit i
      = firstFit (availRows topk last ids r) (emptySlots (last.at2 r)) limit i := by
  rw [KeepsMask, finalSlotMask_eq plat topk last ids hdim hrows hwidth hlast,
    finalSlotMask_copy plat topk last ids hrows hwidth hlast, maskAfter, maskAfter] at h
  rcases checkedLaunch_avail plat (topk.size 0) (missRows topk last ids) (availRows topk last ids)
    (rowAt (last.slice0 (topk.size 0)).dataPtr) hfit with ⟨gm, hrun, hrow⟩
  rcases checkedLaunch_avail plat (topk.size 0) (missRows topk last ids) (availRows topk last ids)
    last.at2 hfit with ⟨gm', hrun', hrow'⟩
  rw [hrun, hrun'] at h
  -- One mask, so one memory behind it.
  have hmem : gm.availMaskGm = gm'.availMaskGm := by
    have hmask := congrArg (fun mask => rowMajor SEQ_LEN (Strided.at2 mask)) (Except.ok.inj h)
    rwa [Call.mask_rowMajor, Call.mask_rowMajor] at hmask
  rw [hlimit, ← hrow r hr i hi, ← hrow' r hr i hi, hmem]

end Masks

/-- Tokens one and zero for every request, and no others. -/
def probeTopk (B : ℕ) : Strided Int32 :=
  contiguous2 B SEQ_LEN fun _ i => if i = 0 then 1 else if i = 1 then 0 else -1

/-- Request zero in every row. -/
def probeIds (B : ℕ) : Strided Int64 := contiguous1 B fun _ => 0

theorem probe_codes (B r i : ℕ) (hi : i < SEQ_LEN) :
    topkIndicesNew (probeTopk B).at2 (probeIds B).at1 r i
      = if i = 0 then 1 else if i = 1 then 0 else -1 := by
  unfold topkIndicesNew reqIdsOffset
  rw [probeTopk, contiguous2_at2 _ _ _ _ _ hi, probeIds, contiguous1_at1]
  by_cases hzero : i = 0
  · simp only [hzero, if_true]
    rfl
  by_cases hone : i = 1
  · simp only [hone, one_ne_zero, if_false, if_true]
    rfl
  · simp only [hzero, hone, if_false]
    rfl

section Probe

variable (last : Strided Int64) (B r i : ℕ)

/-- No entry of a probed buffer is offered: the codes have both its values. -/
theorem probed_avail (q j : ℕ) :
    availRows (probeTopk B) (probed last r i) (probeIds B) q j = false := by
  have hwidth : SEQ_LEN = 2048 := rfl
  rw [availRows, getSetDiffMask_eq, diffMask_eq_false_iff]
  -- An element is empty or zero, whatever its address.
  change ∃ j < SEQ_LEN, probe _ _ = _
  unfold probe
  split
  · refine ⟨2, by omega, ?_⟩
    rw [probe_codes B q 2 (by omega)]
    rfl
  · refine ⟨1, by omega, ?_⟩
    rw [probe_codes B q 1 (by omega)]
    rfl

/-- Token one is missing in every row. -/
theorem probed_miss (q : ℕ) :
    1 ≤ countTrue (missRows (probeTopk B) (probed last r i) (probeIds B) q) SEQ_LEN := by
  have hfirst : missRows (probeTopk B) (probed last r i) (probeIds B) q 0 = true := by
    rw [missRows, getSetDiffMask_eq, diffMask_iff]
    intro j _
    rw [probe_codes B q 0 SEQ_LEN_pos, if_pos rfl]
    change 1 ≠ probe _ _
    unfold probe
    split <;> decide
  exact Nat.lt_of_le_of_lt (Nat.zero_le _) (countTrue_lt _ SEQ_LEN_pos hfirst)

/-- In the kernel's row `r` the only empty entry is `i`. -/
theorem probed_row (hr : r < 2 ^ 21) :
    emptySlots (rowAt ((probed last r i).slice0 B).dataPtr r) = fun j => decide (j = i) := by
  ext j
  rw [emptySlots, decide_eq_decide]
  change probe (last.storageOffset + (r % 2 ^ 21 * SEQ_LEN + i))
    (last.storageOffset + (r * SEQ_LEN + j)) = -1 ↔ j = i
  rw [Nat.mod_eq_of_lt hr]
  unfold probe
  by_cases hj : j = i
  · simp [hj]
  · rw [if_neg (by omega)]
    simp [hj]

end Probe

/-- A misread element makes other slots: the kernel takes an empty entry for
    token one where the copy has none. -/
theorem not_keepsMask_probed (plat : Platform) (last : Strided Int64) (B r i : ℕ)
    (hdim : last.dim = 2) (hlast : last.size 1 = SEQ_LEN) (hB : B ≤ last.size 0)
    (hfit : Fits plat B) (hr : r < B) (hi : i < SEQ_LEN) (h : ¬ SameAddress last r i) :
    ¬ KeepsMask plat (probeTopk B) (probed last r i) (probeIds B) := by
  intro hkeep
  have hle := (rows_le_iff B).mp hfit.1
  have havail := probed_avail last B r i r
  set limit := countTrue (missRows (probeTopk B) (probed last r i) (probeIds B) r) SEQ_LEN
    with hlimit
  have hnone : countTrue (availRows (probeTopk B) (probed last r i) (probeIds B) r) SEQ_LEN = 0 :=
    (countTrue_eq_zero_iff _ SEQ_LEN).mpr (fun j _ => havail j)
  have hrow := row_of_keepsMask plat (probeTopk B) (probed last r i) (probeIds B) hdim hB rfl hlast
    hfit hkeep r hr i hi limit (by rw [hnone, Nat.sub_zero])
  have hkernel : firstTrue (emptySlots
      (rowAt ((probed last r i).slice0 ((probeTopk B).size 0)).dataPtr r)) limit i = true := by
    -- The first empty entry of the row, and within the shortage.
    have hbefore : countTrue (fun j => decide (j = i)) i = 0 :=
      (countTrue_eq_zero_iff _ i).mpr (fun j hj => decide_eq_false (by omega))
    rw [probed_row last _ r i (by omega), firstTrue, hbefore, decide_eq_true rfl, Bool.true_and,
      decide_eq_true_eq]
    exact probed_miss last B r i r
  have hcopy : firstTrue (emptySlots ((probed last r i).at2 r)) limit i = false := by
    rw [firstTrue, emptySlots, (probed_misread last B r i h).2]
    rfl
  rw [firstFit_eq, firstFit_eq, hkernel, hcopy, havail] at hrow
  exact absurd hrow (by decide)

/-- The layouts that make no difference to any call on the first `B` rows, of a
    buffer the operator accepts: those with packed rows. Where the batch fits,
    every other layout changes the slots of some call. -/
theorem layoutIndependent_iff (plat : Platform) (last : Strided Int64) (B : ℕ)
    (hdim : last.dim = 2) (hlast : last.size 1 = SEQ_LEN) (hB : B ≤ last.size 0) :
    (LayoutIndependent plat last B ↔ PackedRows last B) ∧
    (Fits plat B → (OnEveryCall last B (KeepsMask plat) ↔ PackedRows last B)) := by
  have hentry : ∀ storage, entryChecks (.int (probeTopk B))
      (.long { last with storage := storage }) (.long (probeIds B))
      = .ok (probeTopk B, { last with storage := storage }, probeIds B) := fun storage =>
    (entryChecks_ok _ _ _ _ _ _).mpr ⟨rfl, rfl, rfl, rfl, hdim, rfl, hB, hlast, le_refl B⟩
  have hkeep : PackedRows last B → OnEveryCall last B (KeepsMask plat) := by
    intro hpacked topk ids storage hcall hsize
    rw [entryChecks_ok] at hcall
    rcases hcall with ⟨_, _, _, _, _, _, hrows, hwidth, _⟩
    have hread := (readsElements_iff last B).mpr hpacked storage
    rw [← hsize] at hpacked hread
    exact keepsMask_of_reads plat topk _ ids hdim hrows (hwidth.symm.trans hlast) hlast
      hpacked.le hread
  refine ⟨⟨fun h => ?_, fun h => ?_⟩, fun hfit => ⟨fun h => ?_, hkeep⟩⟩
  · exact (readsElements_iff last B).mp (fun storage =>
      (h (probeTopk B) (probeIds B) storage (hentry storage) rfl).1)
  · intro topk ids storage hcall hsize
    exact ⟨(readsElements_iff last B).mpr h storage, hkeep h topk ids storage hcall hsize⟩
  · rw [← sameAddress_iff]
    intro r hr i hi
    by_contra hother
    exact not_keepsMask_probed plat last B r i hdim hlast hB hfit hr hi hother
      (h (probeTopk B) (probeIds B) _ (hentry _) rfl)

/-- The first two rows of a packed buffer of four. -/
theorem layoutIndependent_iff_two_rows :
    LayoutIndependent Platform.singleCore (contiguous2 4 SEQ_LEN fun _ _ => -1) 2 :=
  (layoutIndependent_iff Platform.singleCore (contiguous2 4 SEQ_LEN fun _ _ => -1) 2 rfl rfl
    (by decide)).1.mpr (Or.inr ⟨rfl, Or.inr ⟨rfl, by decide⟩⟩)

/-- Two rows sliced out of a buffer of twice the width. -/
def wideRows : Strided Int64 :=
  { sizes := [2, SEQ_LEN], strides := [2 * SEQ_LEN, 1], storageOffset := 0, storage := fun _ => 0 }

/-- The slice, empty where the kernel takes the second row to start. -/
def columnSlice : Strided Int64 := probed wideRows 1 0

/-- The slice passes every check, its second row is misread, and the slots are
    not those of a contiguous copy. -/
theorem columnSlice_misread :
    entryChecks (.int (probeTopk 2)) (.long columnSlice) (.long (probeIds 2))
      = .ok (probeTopk 2, columnSlice, probeIds 2) ∧
    ¬ ReadsElements columnSlice 2 ∧
    ¬ KeepsMask Platform.singleCore (probeTopk 2) columnSlice (probeIds 2) := by
  have hother : ¬ SameAddress wideRows 1 0 := by
    unfold SameAddress
    decide
  refine ⟨(entryChecks_ok _ _ _ _ _ _).mpr
    ⟨rfl, rfl, rfl, rfl, rfl, rfl, le_refl 2, rfl, le_refl 2⟩, fun hread => ?_, ?_⟩
  · have hentry := hread 1 (by decide) 0 SEQ_LEN_pos
    rcases probed_misread wideRows 2 1 0 hother with ⟨hkernel, htorch⟩
    rw [columnSlice, hkernel, htorch] at hentry
    exact absurd hentry (by decide)
  · exact not_keepsMask_probed Platform.singleCore wideRows 2 1 0 rfl rfl (le_refl 2)
      ⟨by decide, by decide⟩ (by decide) SEQ_LEN_pos hother

end AscendKernel
