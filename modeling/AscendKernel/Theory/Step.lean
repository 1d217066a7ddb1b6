import AscendKernel.Core.Step
import AscendKernel.Theory.Operator
import AscendKernel.Theory.RowBalance
import Mathlib.Algebra.Order.BigOperators.Group.Finset
import Mathlib.Data.List.GetD

/-!
# What One Step Does

A call of the operator in terms of matrices.

Fresh tensors make every reading of the operator the same one: an element is
read where it was put, whether through strides or through the pointer. What is
left of a call is then three things. The launch decides the slots; the call
completes when the slots are no more than the values to load; and each slot of
the rows in use takes the value with its number, in the buffer and, over -1,
in the answer.

The numbers run over the whole batch. `run_rowLocal` is the case they need not:
when every row has as many slots as it misses codes, each row receives its own
codes, and the call is a replacement row by row.

## Main definitions

* `Call.loads`: The codes to load, in row-major order.
* `handOut`: What a scatter leaves in an element.
* `recovered`: The token of a code.
* `Balanced`: Every row has as many slots as misses.

## Theorems

* `run_ok`: What a completed call leaves.
* `run_completes`: When a call completes.
* `run_rowLocal`: A balanced call works row by row.
* `launched_slots`: The slots of a batch that fits.
* `balanced_of_run`: A completed call on padded rows is balanced.
-/

namespace AscendKernel

theorem contiguous2_congr {α : Type} (B : ℕ) (f g : ℕ → ℕ → α)
    (h : ∀ r, ∀ i < SEQ_LEN, f r i = g r i) :
    contiguous2 B SEQ_LEN f = contiguous2 B SEQ_LEN g := by
  have hflat : rowMajor SEQ_LEN f = rowMajor SEQ_LEN g :=
    funext (fun n => h (n / SEQ_LEN) (n % SEQ_LEN) (Nat.mod_lt n SEQ_LEN_pos))
  rw [contiguous2, hflat, ← contiguous2]

theorem rowMajor_rowAt {α : Type} (mem : ℕ → α) : rowMajor SEQ_LEN (rowAt mem) = mem := by
  ext n
  rw [rowMajor, rowAt, Nat.mul_comm, Nat.div_add_mod]

theorem contiguous1_at1 {α : Type} (n : ℕ) (f : ℕ → α) (r : ℕ) : (contiguous1 n f).at1 r = f r := by
  change f (0 + r * 1) = f r
  rw [Nat.zero_add, Nat.mul_one]

namespace Call

variable (c : Call) (plat : Platform) (N : ℕ) (buf : ℕ → ℕ → Int64)

/-- The codes to load, in row-major order over the batch. -/
def loads : List Int64 :=
  maskedSelect (rowMajor SEQ_LEN (c.miss buf)) (rowMajor SEQ_LEN c.codes) (c.numReqs * SEQ_LEN)

theorem codes_read (r i : ℕ) (hi : i < SEQ_LEN) :
    topkIndicesNew c.topk.at2 c.ids.at1 r i = c.codes r i := by
  unfold topkIndicesNew reqIdsOffset
  rw [topk, contiguous2_at2 _ _ _ _ _ hi, ids, contiguous1_at1]
  rfl

variable {c N} in
/-- The masks the operator takes and the codes it loads, as matrices. -/
theorem masks_eq (hN : c.numReqs ≤ N) :
    let last := contiguous2 N SEQ_LEN buf
    cacheMissTokenMask c.topk last c.ids = contiguous2 c.numReqs SEQ_LEN (c.miss buf) ∧
      availableSlotMask c.topk last c.ids = contiguous2 c.numReqs SEQ_LEN (c.avail buf) ∧
      topkToLoad c.topk last c.ids = c.loads buf ∧
      last.slice0 c.numReqs = contiguous2 c.numReqs SEQ_LEN buf := by
  intro last
  have hslice : last.slice0 c.numReqs = contiguous2 c.numReqs SEQ_LEN buf :=
    contiguous2_slice0 N SEQ_LEN c.numReqs buf hN
  have hold : ∀ r, ∀ i < SEQ_LEN, (last.slice0 c.numReqs).at2 r i = buf r i := by
    intro r i hi
    rw [hslice, contiguous2_at2 _ _ _ _ _ hi]
  have hmiss : cacheMissTokenMask c.topk last c.ids
      = contiguous2 c.numReqs SEQ_LEN (c.miss buf) := by
    change contiguous2 c.numReqs SEQ_LEN (getSetDiffMask SEQ_LEN
      (topkIndicesNew c.topk.at2 c.ids.at1) (last.slice0 c.numReqs).at2) = _
    refine contiguous2_congr c.numReqs _ _ (fun r i hi => ?_)
    rw [miss, getSetDiffMask_eq, getSetDiffMask_eq]
    exact diffMask_congr SEQ_LEN _ _ _ _ i (c.codes_read r i hi) (fun j hj => hold r j hj)
  have havail : availableSlotMask c.topk last c.ids
      = contiguous2 c.numReqs SEQ_LEN (c.avail buf) := by
    change contiguous2 c.numReqs SEQ_LEN (getSetDiffMask SEQ_LEN (last.slice0 c.numReqs).at2
      (topkIndicesNew c.topk.at2 c.ids.at1)) = _
    refine contiguous2_congr c.numReqs _ _ (fun r i hi => ?_)
    rw [avail, getSetDiffMask_eq, getSetDiffMask_eq]
    exact diffMask_congr SEQ_LEN _ _ _ _ i (hold r i hi) (fun j hj => c.codes_read r j hj)
  -- The selected codes depend on the mask only where it is read.
  refine ⟨hmiss, havail, ?_, hslice⟩
  unfold topkToLoad loads
  rw [hmiss]
  refine maskedSelect_congr _ _ _ _ _ (fun n _ => ?_) (fun n _ => ?_)
  · exact contiguous2_at2 _ _ _ _ _ (Nat.mod_lt n SEQ_LEN_pos)
  · exact c.codes_read _ _ (Nat.mod_lt n SEQ_LEN_pos)

variable {c N} in
/-- The launch of a call, as a launch on matrices. -/
theorem launched_eq (hN : c.numReqs ≤ N) :
    c.launched plat N buf
      = checkedLaunch plat (.bool (contiguous2 c.numReqs SEQ_LEN (c.miss buf)))
          (.bool (contiguous2 c.numReqs SEQ_LEN (c.avail buf)))
          (.long (contiguous2 c.numReqs SEQ_LEN buf)) := by
  rcases masks_eq (c := c) buf hN with ⟨hmiss, havail, _, hslice⟩
  unfold launched
  simp only []
  rw [hmiss, havail, hslice]

end Call

/-- What a scatter over the batch leaves in element `(r, i)`: a slot takes the
    value numbered by the slots before it, over the content `d`. -/
def handOut (mask : ℕ → Bool) (src : List Int64) (d : Int64) (r i : ℕ) : Int64 :=
  if rowAt mask r i = true then (src[countTrue mask (r * SEQ_LEN + i)]?).getD d else d

/-- The token a code stands for, as the answer has it. -/
def recovered (reqIds : ℕ → Int64) (r : ℕ) (x : Int64) : Int32 :=
  (if 0 ≤ x then x - reqIdsOffset reqIds r else -1).toInt32

theorem recovered_empty (reqIds : ℕ → Int64) (r : ℕ) : recovered reqIds r (-1) = -1 := by
  unfold recovered
  rw [if_neg (by decide)]
  rfl

/-- An empty row holds no code, let alone one twice. -/
theorem distinctOffPad_empty : DistinctOffPad (-1) SEQ_LEN (fun _ => (-1 : Int64)) :=
  fun _ _ _ _ hpad _ => absurd rfl hpad

theorem occupancy_empty : occupancy (-1) SEQ_LEN (fun _ => (-1 : Int64)) = 0 :=
  occupancy_leading (-1) SEQ_LEN 0 _ (Nat.zero_le _) (fun i hi => absurd hi (Nat.not_lt_zero i))
    (fun _ _ => rfl)

namespace Call

variable {c : Call} {plat : Platform} {N : ℕ} {buf : ℕ → ℕ → Int64}

/-- The slot mask after a launch is the memory the launch leaves. -/
theorem mask_rowMajor (B : ℕ) (a : ℕ → ℕ → Bool) (mem : ℕ → Bool) :
    rowMajor SEQ_LEN ((contiguous2 B SEQ_LEN a).withDataPtr mem).at2 = mem := by
  have hread : ((contiguous2 B SEQ_LEN a).withDataPtr mem).at2 = rowAt mem := by
    ext r i
    change ((contiguous2 B SEQ_LEN a).withDataPtr mem).storage
      ((contiguous2 B SEQ_LEN a).addr2 r i) = _
    unfold Strided.withDataPtr
    simp only [contiguous2_addr2]
    rw [if_neg (show ¬ r * SEQ_LEN + i < (contiguous2 B SEQ_LEN a).storageOffset from
      Nat.not_lt_zero _)]
    rfl
  rw [hread, rowMajor_rowAt]

/-- A scatter into a fresh matrix: it completes when there are values enough,
    and then hands them out over the batch. -/
theorem inplaceMaskedScatter_contiguous (B : ℕ) (a : ℕ → ℕ → Bool) (mem : ℕ → Bool)
    (f : ℕ → ℕ → Int64) (src : List Int64) :
    inplaceMaskedScatter (contiguous2 B SEQ_LEN f)
        ((contiguous2 B SEQ_LEN a).withDataPtr mem) src
      = if src.length < countTrue mem (B * SEQ_LEN) then .error .aclnnInplaceMaskedScatter
        else .ok
          { contiguous2 B SEQ_LEN f with
            storage := maskedScatter id mem src (rowMajor SEQ_LEN f) (B * SEQ_LEN) } := by
  have helem : (contiguous2 B SEQ_LEN f).elem = id := funext (contiguous2_elem B SEQ_LEN f)
  unfold inplaceMaskedScatter
  simp only [contiguous2_size_zero, contiguous2_size_one, mask_rowMajor, helem]
  rfl

/-- Element `(r, i)` of a matrix after a scatter over its first `B` rows. -/
theorem maskedScatter_handOut (B : ℕ) (mem : ℕ → Bool) (f : ℕ → ℕ → Int64) (src : List Int64)
    (r i : ℕ) (hr : r < B) (hi : i < SEQ_LEN) :
    rowAt (maskedScatter id mem src (rowMajor SEQ_LEN f) (B * SEQ_LEN)) r i
      = handOut mem src (f r i) r i := by
  have hcell := maskedScatter_addr id mem src (rowMajor SEQ_LEN f) (B * SEQ_LEN) (r * SEQ_LEN + i)
    (fun _ _ _ _ h => h) (row_elem_lt hr hi)
  rw [id_eq, rowMajor_at SEQ_LEN f r i hi] at hcell
  exact hcell

/-- Rows past the scatter are left alone. -/
theorem maskedScatter_beyond (B : ℕ) (mem : ℕ → Bool) (f : ℕ → ℕ → Int64) (src : List Int64)
    (r i : ℕ) (hr : B ≤ r) (hi : i < SEQ_LEN) :
    rowAt (maskedScatter id mem src (rowMajor SEQ_LEN f) (B * SEQ_LEN)) r i = f r i := by
  have hge : B * SEQ_LEN ≤ r * SEQ_LEN := Nat.mul_le_mul_right SEQ_LEN hr
  have hframe := maskedScatter_frame id mem src (rowMajor SEQ_LEN f) (B * SEQ_LEN)
    (r * SEQ_LEN + i) (fun j hj _ heq => by rw [id_eq] at heq; omega)
  rw [rowMajor_at SEQ_LEN f r i hi] at hframe
  exact hframe

/-- A call sees of the buffer what is in its rows. -/
theorem run_congr (c : Call) (plat : Platform) (N : ℕ) (buf buf' : ℕ → ℕ → Int64)
    (h : ∀ r, ∀ i < SEQ_LEN, buf r i = buf' r i) : c.run plat N buf = c.run plat N buf' := by
  unfold run
  rw [contiguous2_congr N buf buf' h]

theorem entryChecks_call (hacc : c.Accepted N) :
    entryChecks (.int c.topk) (.long (contiguous2 N SEQ_LEN buf)) (.long c.ids)
      = .ok (c.topk, contiguous2 N SEQ_LEN buf, c.ids) := by
  rw [entryChecks_ok]
  exact ⟨rfl, rfl, rfl, rfl, rfl, rfl, hacc.1, rfl, hacc.2⟩

/-- A call that is not accepted stops at the checks. -/
theorem accepted_of_run (o : Outcome) (h : c.run plat N buf = .ok o) : c.Accepted N := by
  unfold run getCacheMissTopkIndices at h
  simp only [] at h
  cases hentry : entryChecks (.int c.topk) (.long (contiguous2 N SEQ_LEN buf)) (.long c.ids) with
  | error e =>
      rw [hentry] at h
      exact absurd h (error_ne_ok _ _)
  | ok t =>
      rcases t with ⟨topk, last, ids⟩
      rw [entryChecks_ok] at hentry
      rcases hentry with ⟨ht, hl, hi, _, _, _, hrows, _, hids⟩
      rw [Tensor.int.injEq] at ht
      rw [Tensor.long.injEq] at hl hi
      rw [← ht, ← hl] at hrows
      rw [← ht, ← hi] at hids
      exact ⟨hrows, hids⟩

/-- What running an accepted call comes to: the launch, the test of the first
    scatter, and the two tensors written. -/
theorem run_accepted (hacc : c.Accepted N) :
    c.run plat N buf =
      match c.launched plat N buf with
      | .error e => .error e
      | .ok gm =>
        if (c.loads buf).length < countTrue gm.availMaskGm (c.numReqs * SEQ_LEN) then
          .error .aclnnInplaceMaskedScatter
        else
          let first : Strided Int64 :=
            { contiguous2 c.numReqs SEQ_LEN (fun _ _ => (-1 : Int64)) with
              storage := maskedScatter id gm.availMaskGm (c.loads buf)
                (rowMajor SEQ_LEN fun _ _ => -1) (c.numReqs * SEQ_LEN) }
          let last : Strided Int64 :=
            { contiguous2 N SEQ_LEN buf with
              storage := maskedScatter id gm.availMaskGm (c.loads buf)
                (rowMajor SEQ_LEN buf) (c.numReqs * SEQ_LEN) }
          .ok
            { topkIndices :=
                (c.topk.copy fun r i => (recoverTopk first.at2 c.ids.at1 r i).toInt32).at2
              buffer := last.at2 } := by
  rcases masks_eq (c := c) buf hacc.1 with ⟨hmiss, havail, hload, hslice⟩
  have hsize0 : c.topk.size 0 = c.numReqs := rfl
  have hsize1 : c.topk.size 1 = SEQ_LEN := rfl
  unfold run getCacheMissTopkIndices
  simp only []
  rw [entryChecks_call hacc]
  simp only [hsize0, hsize1]
  have hgm : c.launched plat N buf
      = checkedLaunch plat (.bool (cacheMissTokenMask c.topk (contiguous2 N SEQ_LEN buf) c.ids))
          (.bool (availableSlotMask c.topk (contiguous2 N SEQ_LEN buf) c.ids))
          (.long ((contiguous2 N SEQ_LEN buf).slice0 c.numReqs)) := rfl
  cases hrun : c.launched plat N buf with
  | error e =>
      rw [hgm] at hrun
      have hcache : cacheMissTopk plat
          (.bool (cacheMissTokenMask c.topk (contiguous2 N SEQ_LEN buf) c.ids))
          (availableSlotMask c.topk (contiguous2 N SEQ_LEN buf) c.ids)
          ((contiguous2 N SEQ_LEN buf).slice0 c.numReqs) = .error e := by
        unfold cacheMissTopk
        rw [hrun]
      rw [hcache]
  | ok gm =>
      rw [hgm] at hrun
      have hcache := (cacheMissTopk_ok plat _ _ _ _ _).mpr ⟨gm, hrun, rfl, rfl⟩
      rw [hcache]
      simp only []
      -- The kernel handed the old rows back as they were.
      have hlast : ({ contiguous2 N SEQ_LEN buf with
          storage := ((contiguous2 N SEQ_LEN buf).slice0 c.numReqs).storage } : Strided Int64)
          = contiguous2 N SEQ_LEN buf := rfl
      rw [hlast, havail, hload, hslice, inplaceMaskedScatter_contiguous,
        inplaceMaskedScatter_contiguous]
      by_cases hlen : (c.loads buf).length < countTrue gm.availMaskGm (c.numReqs * SEQ_LEN)
      · simp only [if_pos hlen]
      · simp only [if_neg hlen]
        rfl

/-- What a completed call leaves: in the rows in use, the loaded codes in the
    slots and their tokens in the answer; in the others, the buffer as it
    was. -/
theorem run_ok (o : Outcome) (h : c.run plat N buf = .ok o) :
    c.Accepted N ∧ ∃ gm, c.launched plat N buf = .ok gm ∧
      countTrue gm.availMaskGm (c.numReqs * SEQ_LEN) ≤ (c.loads buf).length ∧
      (∀ r < c.numReqs, ∀ i < SEQ_LEN,
        o.topkIndices r i = recovered c.reqIds r (handOut gm.availMaskGm (c.loads buf) (-1) r i) ∧
        o.buffer r i = handOut gm.availMaskGm (c.loads buf) (buf r i) r i) ∧
      ∀ r, c.numReqs ≤ r → ∀ i < SEQ_LEN, o.buffer r i = buf r i := by
  have hacc := accepted_of_run o h
  rw [run_accepted hacc] at h
  cases hrun : c.launched plat N buf with
  | error e =>
      rw [hrun] at h
      exact absurd h (error_ne_ok _ _)
  | ok gm =>
      rw [hrun] at h
      simp only [] at h
      by_cases hlen : (c.loads buf).length < countTrue gm.availMaskGm (c.numReqs * SEQ_LEN)
      · rw [if_pos hlen] at h
        exact absurd h (error_ne_ok _ _)
      rw [if_neg hlen, Except.ok.injEq] at h
      refine ⟨hacc, gm, rfl, by omega, ?_, ?_⟩
      · intro r hr i hi
        rw [← h]
        refine ⟨?_, ?_⟩
        · have hcopy := contiguous2_copy_at2 c.numReqs SEQ_LEN c.topkIndices (fun r i =>
            (recoverTopk ({ contiguous2 c.numReqs SEQ_LEN (fun _ _ => (-1 : Int64)) with
              storage := maskedScatter id gm.availMaskGm (c.loads buf)
                (rowMajor SEQ_LEN fun _ _ => -1) (c.numReqs * SEQ_LEN) } : Strided Int64).at2
              c.ids.at1 r i).toInt32) r i hr hi
          have hids : reqIdsOffset c.ids.at1 r = reqIdsOffset c.reqIds r := by
            rw [reqIdsOffset, ids, contiguous1_at1]
            rfl
          refine Eq.trans hcopy ?_
          rw [recoverTopk, recovered, hids, ← maskedScatter_handOut c.numReqs gm.availMaskGm
            (fun _ _ => -1) (c.loads buf) r i hr hi, rowAt, Strided.at2]
          have haddr := contiguous2_addr2 c.numReqs SEQ_LEN (fun _ _ => (-1 : Int64)) r i
          rw [← haddr]
          rfl
        · rw [← maskedScatter_handOut c.numReqs gm.availMaskGm buf (c.loads buf) r i hr hi, rowAt,
            ← contiguous2_addr2 N SEQ_LEN buf r i]
          rfl
      · intro r hr i hi
        rw [← h, ← maskedScatter_beyond c.numReqs gm.availMaskGm buf (c.loads buf) r i hr hi, rowAt,
          ← contiguous2_addr2 N SEQ_LEN buf r i]
        rfl

/-- An accepted call completes when its launch does and the slots are no more
    than the codes to load. -/
theorem run_completes (hacc : c.Accepted N) (gm : GlobalMemory)
    (hrun : c.launched plat N buf = .ok gm)
    (hlen : countTrue gm.availMaskGm (c.numReqs * SEQ_LEN) ≤ (c.loads buf).length) :
    ∃ o, c.run plat N buf = .ok o := by
  rw [run_accepted hacc, hrun]
  simp only []
  rw [if_neg (by omega)]
  exact ⟨_, rfl⟩

variable (c buf) in
/-- The slots of a batch that fits: what each old row offers its new one. -/
theorem launched_slots (hN : c.numReqs ≤ N) (hfit : Fits plat c.numReqs) :
    ∃ gm, c.launched plat N buf = .ok gm ∧ ∀ r < c.numReqs, ∀ i < SEQ_LEN,
      rowAt gm.availMaskGm r i = slots (-1) SEQ_LEN (c.codes r) (buf r) i := by
  rcases checkedLaunch_avail plat c.numReqs (c.miss buf) (c.avail buf) buf hfit with
    ⟨gm, hrun, hmask⟩
  refine ⟨gm, ?_, fun r hr i hi => ?_⟩
  · rw [launched_eq plat buf hN]
    exact hrun
  · rw [hmask r hr i hi, miss, avail, getSetDiffMask_eq, getSetDiffMask_eq, slots]
    rfl

/-- The slots of any launch of a batch that fits, and how many a row has. -/
theorem slots_of_launched (hN : c.numReqs ≤ N) (hfit : Fits plat c.numReqs) (gm : GlobalMemory)
    (hrun : c.launched plat N buf = .ok gm) (r : ℕ) (hr : r < c.numReqs) :
    (∀ i < SEQ_LEN, rowAt gm.availMaskGm r i = slots (-1) SEQ_LEN (c.codes r) (buf r) i) ∧
      countTrue (rowAt gm.availMaskGm r) SEQ_LEN
        = countTrue (slots (-1) SEQ_LEN (c.codes r) (buf r)) SEQ_LEN := by
  rcases launched_slots c buf hN hfit with ⟨gm', hrun', hmask⟩
  rw [hrun, Except.ok.injEq] at hrun'
  subst hrun'
  exact ⟨hmask r hr, countTrue_congr _ _ SEQ_LEN (hmask r hr)⟩

/-- A call whose launch completes on few enough rows fits. -/
theorem fits_of_launched (hN : c.numReqs ≤ N) (hrows : c.numReqs * SEQ_LEN ≤ 2 ^ 32)
    (gm : GlobalMemory) (h : c.launched plat N buf = .ok gm) : Fits plat c.numReqs := by
  rcases Nat.eq_zero_or_pos c.numReqs with hzero | hpos
  · have hcore := plat.coreNum_lt
    exact ⟨hrows, by omega⟩
  · rw [launched_eq plat buf hN] at h
    exact fits_of_checkedLaunch plat c.numReqs SEQ_LEN _ _ _ gm hpos hrows h

/-- There is one code to load per miss. -/
theorem loads_length (c : Call) (buf : ℕ → ℕ → Int64) : (c.loads buf).length
    = ∑ r ∈ Finset.range c.numReqs, countTrue (c.miss buf r) SEQ_LEN := by
  rw [loads, maskedSelect_length, countTrue_rowMajor_total]

/-- The slots of a batch, row by row. -/
theorem slots_total (c : Call) (mask : ℕ → Bool) : countTrue mask (c.numReqs * SEQ_LEN)
    = ∑ r ∈ Finset.range c.numReqs, countTrue (rowAt mask r) SEQ_LEN := by
  rw [← countTrue_rowMajor_total, rowMajor_rowAt]

/-- The tokens of a row are pairwise distinct where they are not negative. -/
def DistinctTokens (c : Call) : Prop :=
  ∀ r < c.numReqs, ∀ i < SEQ_LEN, ∀ j < SEQ_LEN,
    0 ≤ c.topkIndices r i → c.topkIndices r i = c.topkIndices r j → i = j

theorem nonneg_of_code (r i : ℕ) (h : c.codes r i ≠ -1) : 0 ≤ c.topkIndices r i := by
  by_contra hneg
  exact h (if_neg hneg)

/-- Distinct tokens have distinct codes, even where the codes wrap. -/
theorem distinctOffPad_codes (hdist : c.DistinctTokens) (r : ℕ) (hr : r < c.numReqs) :
    DistinctOffPad (-1) SEQ_LEN (c.codes r) := by
  intro i hi j hj hpad heq
  have hi0 := nonneg_of_code r i hpad
  have hj0 := nonneg_of_code r j (by rw [← heq]; exact hpad)
  refine hdist r hr i hi j hj hi0 ?_
  unfold codes topkIndicesNew at heq
  rw [if_pos hi0, if_pos hj0, Int64.add_left_inj] at heq
  rw [← Int32.toInt32_toInt64 (c.topkIndices r i), heq, Int32.toInt32_toInt64]

/-- The padded rows a call finds are those it uses. -/
def PaddedRows (c : Call) (buf : ℕ → ℕ → Int64) : Prop :=
  ∀ r < c.numReqs, DistinctOffPad (-1) SEQ_LEN (buf r)

/-- Every row has as many slots as it misses codes. -/
def Balanced (c : Call) (buf : ℕ → ℕ → Int64) : Prop :=
  ∀ r < c.numReqs, countTrue (slots (-1) SEQ_LEN (c.codes r) (buf r)) SEQ_LEN
    = countTrue (c.miss buf r) SEQ_LEN

/-- A row of a padded buffer never has fewer slots than misses. -/
theorem miss_le_slots (hdist : c.DistinctTokens) (hbuf : c.PaddedRows buf) (r : ℕ)
    (hr : r < c.numReqs) : countTrue (c.miss buf r) SEQ_LEN
      ≤ countTrue (slots (-1) SEQ_LEN (c.codes r) (buf r)) SEQ_LEN := by
  rw [slots_balance (-1) SEQ_LEN (c.codes r) (buf r) (distinctOffPad_codes hdist r hr) (hbuf r hr),
    miss, getSetDiffMask_eq]
  exact Nat.le_add_right _ _

/-- A call on a padded buffer is balanced when every row holds no more codes
    than are asked for, or is full. -/
theorem balanced_iff (hdist : c.DistinctTokens) (hbuf : c.PaddedRows buf) :
    c.Balanced buf ↔ ∀ r < c.numReqs,
      occupancy (-1) SEQ_LEN (buf r) ≤ occupancy (-1) SEQ_LEN (c.codes r) ∨
        occupancy (-1) SEQ_LEN (buf r) = SEQ_LEN := by
  have hrow : ∀ r < c.numReqs, (countTrue (slots (-1) SEQ_LEN (c.codes r) (buf r)) SEQ_LEN
      = countTrue (c.miss buf r) SEQ_LEN ↔
        occupancy (-1) SEQ_LEN (buf r) ≤ occupancy (-1) SEQ_LEN (c.codes r) ∨
          occupancy (-1) SEQ_LEN (buf r) = SEQ_LEN) := by
    intro r hr
    have hle := occupancy_le (-1) SEQ_LEN (buf r)
    rw [slots_balance (-1) SEQ_LEN (c.codes r) (buf r) (distinctOffPad_codes hdist r hr)
      (hbuf r hr), miss, getSetDiffMask_eq]
    by_cases hcase : occupancy (-1) SEQ_LEN (c.codes r) < occupancy (-1) SEQ_LEN (buf r) ∧
        occupancy (-1) SEQ_LEN (buf r) < SEQ_LEN
    · rw [if_pos hcase]
      omega
    · rw [if_neg hcase]
      omega
  constructor
  · intro h r hr
    exact (hrow r hr).mp (h r hr)
  · intro h r hr
    exact (hrow r hr).mpr (h r hr)

/-- A completed call that fits is balanced: the scatter bounds the slots of
    the batch by its misses, and no row has fewer slots than misses. -/
theorem balanced_of_run (hrows : c.numReqs * SEQ_LEN ≤ 2 ^ 32) (hdist : c.DistinctTokens)
    (hbuf : c.PaddedRows buf) (o : Outcome) (h : c.run plat N buf = .ok o) : c.Balanced buf := by
  rcases run_ok o h with ⟨hacc, gm, hrun, hlen, _⟩
  have hfit := fits_of_launched hacc.1 hrows gm hrun
  rw [slots_total, loads_length] at hlen
  have hslots : ∀ r ∈ Finset.range c.numReqs, countTrue (rowAt gm.availMaskGm r) SEQ_LEN
      = countTrue (slots (-1) SEQ_LEN (c.codes r) (buf r)) SEQ_LEN := by
    intro r hr
    exact (slots_of_launched hacc.1 hfit gm hrun r (Finset.mem_range.mp hr)).2
  rw [Finset.sum_congr rfl hslots] at hlen
  have hle : ∀ r ∈ Finset.range c.numReqs, countTrue (c.miss buf r) SEQ_LEN
      ≤ countTrue (slots (-1) SEQ_LEN (c.codes r) (buf r)) SEQ_LEN :=
    fun r hr => miss_le_slots hdist hbuf r (Finset.mem_range.mp hr)
  -- Row sums that are ordered and have equal totals are equal.
  have heq := (Finset.sum_eq_sum_iff_of_le hle).mp (le_antisymm (Finset.sum_le_sum hle) hlen)
  intro r hr
  exact (heq r (Finset.mem_range.mpr hr)).symm

/-- A balanced call has as many slots over the batch as codes to load. -/
theorem total_of_balanced (hN : c.numReqs ≤ N) (hfit : Fits plat c.numReqs)
    (hbal : c.Balanced buf) (gm : GlobalMemory) (hrun : c.launched plat N buf = .ok gm) :
    countTrue gm.availMaskGm (c.numReqs * SEQ_LEN) = (c.loads buf).length := by
  rw [slots_total, loads_length]
  refine Finset.sum_congr rfl (fun r hr => ?_)
  have hr := Finset.mem_range.mp hr
  rw [← hbal r hr]
  exact (slots_of_launched hN hfit gm hrun r hr).2

/-- A balanced call that fits completes. -/
theorem completes_of_balanced (hacc : c.Accepted N) (hfit : Fits plat c.numReqs)
    (hbal : c.Balanced buf) : ∃ o, c.run plat N buf = .ok o := by
  rcases launched_slots c buf hacc.1 hfit with ⟨gm, hrun, _⟩
  exact run_completes hacc gm hrun (le_of_eq (total_of_balanced hacc.1 hfit hbal gm hrun))

/-- A balanced call works row by row: the buffer's row is replaced by its own
    codes, and the answer reports the codes loaded into it. -/
theorem run_rowLocal (hrows : c.numReqs * SEQ_LEN ≤ 2 ^ 32) (hbal : c.Balanced buf) (o : Outcome)
    (h : c.run plat N buf = .ok o) (r i : ℕ) (hr : r < c.numReqs) (hi : i < SEQ_LEN) :
    o.buffer r i = replaced (-1) SEQ_LEN (c.codes r) (buf r) i ∧
      o.topkIndices r i
        = recovered c.reqIds r (reported (-1) SEQ_LEN (c.codes r) (buf r) i) := by
  rcases run_ok o h with ⟨hacc, gm, hrun, _, hout, _⟩
  have hfit := fits_of_launched hacc.1 hrows gm hrun
  have hslots : ∀ q < c.numReqs, countTrue (rowAt gm.availMaskGm q) SEQ_LEN
      = countTrue (c.miss buf q) SEQ_LEN := by
    intro q hq
    rw [← hbal q hq]
    exact (slots_of_launched hacc.1 hfit gm hrun q hq).2
  -- Handing out over the batch is handing out within the row.
  have hlocal : ∀ old : ℕ → ℕ → Int64, handOut gm.availMaskGm (c.loads buf) (old r i) r i
      = rowFill (slots (-1) SEQ_LEN (c.codes r) (buf r))
          (maskedSelect (diffMask SEQ_LEN (c.codes r) (buf r)) (c.codes r) SEQ_LEN) (old r) i := by
    intro old
    have hflat := scatter_rowLocal c.numReqs SEQ_LEN (c.miss buf) (rowAt gm.availMaskGm) c.codes old
      hslots r i hr hi
    rw [rowMajor_rowAt] at hflat
    rw [handOut, loads, hflat, miss, getSetDiffMask_eq]
    have hmask := (slots_of_launched hacc.1 hfit gm hrun r hr).1
    exact rowFill_congr _ _ _ _ _ i (fun j hj => hmask j (by omega)) rfl
  rw [(hout r hr i hi).1, (hout r hr i hi).2, hlocal buf, hlocal fun _ _ => -1]
  exact ⟨rfl, rfl⟩

/-- An empty buffer holds no code twice. -/
theorem paddedRows_start (c : Call) : c.PaddedRows fun _ _ => -1 :=
  fun _ _ => distinctOffPad_empty

variable (c) in
/-- The first call of a run is balanced: the rows it finds are empty. -/
theorem balanced_start (hdist : c.DistinctTokens) : c.Balanced fun _ _ => -1 := by
  refine (balanced_iff hdist (paddedRows_start c)).mpr (fun r _ => Or.inl ?_)
  rw [occupancy_empty]
  exact Nat.zero_le _

variable (c plat N) in
/-- The first call of a run completes, when it is accepted and fits. -/
theorem completes_of_start (hacc : c.Accepted N) (hfit : Fits plat c.numReqs)
    (hdist : c.DistinctTokens) : ∃ o, c.run plat N (fun _ _ => -1) = .ok o :=
  completes_of_balanced hacc hfit (balanced_start c hdist)

/-- A call given by its rows: for each, a request id and the tokens listed
    from its first position on. -/
def ofRows (rows : List (Int64 × List Int32)) : Call where
  numReqs := rows.length
  topkIndices := fun r i => (rows.getD r (0, [])).2.getD i (-1)
  numIds := rows.length
  reqIds := fun r => (rows.getD r (0, [])).1

theorem ofRows_mem (rows : List (Int64 × List Int32)) (r : ℕ) (hr : r < rows.length) :
    rows.getD r (0, []) ∈ rows := by
  rw [List.getD_eq_getElem _ _ hr]
  exact List.getElem_mem hr

theorem ofRows_nonneg (rows : List (Int64 × List Int32)) (r i : ℕ)
    (h : 0 ≤ (ofRows rows).topkIndices r i) : i < (rows.getD r (0, [])).2.length := by
  by_contra hge
  change 0 ≤ (rows.getD r (0, [])).2.getD i (-1) at h
  rw [List.getD_eq_default _ _ (by omega)] at h
  exact absurd h (by decide)

/-- Listed once, a token is asked for once. -/
theorem ofRows_distinct (rows : List (Int64 × List Int32)) (h : ∀ p ∈ rows, p.2.Nodup) :
    (ofRows rows).DistinctTokens := by
  intro r hr i _ j _ hpos heq
  have hi := ofRows_nonneg rows r i hpos
  have hj := ofRows_nonneg rows r j (by rw [← heq]; exact hpos)
  change (rows.getD r (0, [])).2.getD i (-1) = (rows.getD r (0, [])).2.getD j (-1) at heq
  rw [List.getD_eq_getElem _ _ hi, List.getD_eq_getElem _ _ hj] at heq
  exact (List.Nodup.getElem_inj_iff (h _ (ofRows_mem rows r hr))).mp heq

theorem ofRows_accepted (rows : List (Int64 × List Int32)) (N : ℕ) (h : rows.length ≤ N) :
    (ofRows rows).Accepted N := ⟨h, le_refl _⟩

/-- A listed call of up to `2 ^ 20` rows fits. -/
theorem ofRows_fits (rows : List (Int64 × List Int32)) (h : rows.length ≤ 2 ^ 20) :
    Fits Platform.singleCore (ofRows rows).numReqs := by
  refine ⟨(rows_le_iff _).mpr ?_, ?_⟩
  · change rows.length ≤ 2 ^ 21
    omega
  · change rows.length + 1 - 1 < 2 ^ 32
    omega

/-- The first call of a run completes, when each of its rows lists distinct
    tokens. -/
theorem ofRows_completes (rows : List (Int64 × List Int32)) (N : ℕ) (hN : rows.length ≤ N)
    (hfit : rows.length ≤ 2 ^ 20) (h : ∀ p ∈ rows, p.2.Nodup) :
    ∃ o, (ofRows rows).run Platform.singleCore N (fun _ _ => -1) = .ok o :=
  completes_of_start _ _ N (ofRows_accepted rows N hN) (ofRows_fits rows hfit)
    (ofRows_distinct rows h)

end Call

end AscendKernel
