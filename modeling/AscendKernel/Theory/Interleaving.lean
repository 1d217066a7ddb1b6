import AscendKernel.Core.Blocks
import AscendKernel.Theory.Launch

/-!
# Any Interleaving of a Launch

Why it does not matter when which block runs.

The host gives every block a stretch of consecutive rows, so an element of the
mask belongs to one block. A block reads and writes the mask on its own stretch
only, and the other two buffers are never written. So the blocks keep out of
each other's way, and each of them leaves its stretch as it would alone. Alone,
it leaves there what `launch` leaves.

The local tensors start with any contents. A row's copies in fill them before
they are read.

## Main definitions

* `SameStretch`: What a block sees of the memory.

## Theorems

* `alone_rowOps`: The operations of a row amount to `processBatch`.
* `rowOps_respects`: They keep to the block's stretch.
* `launch_interleaved`: Every schedule leaves what the launch in order leaves.
-/

namespace AscendKernel

section Alone

theorem elements_succ (n : ℕ) (op : ℕ → Operation RowLocal GlobalMemory) :
    elements (n + 1) op = elements n op ++ [op n] := by
  unfold elements
  rw [List.range_succ, List.map_append]
  rfl

/-- A copy is known by its first elements and what one more does. -/
theorem alone_elements (op : ℕ → Operation RowLocal GlobalMemory)
    (f : ℕ → RowLocal × GlobalMemory) (hstep : ∀ k, op k (f k) = f (k + 1)) (n : ℕ) :
    alone (elements n op) (f 0) = f n := by
  induction n with
  | zero => rfl
  | succ k ih => rw [elements_succ, alone_append, ih, alone_cons, alone_nil, hstep]

variable (offset n : ℕ) (s : RowLocal) (gm : GlobalMemory)

theorem alone_copyMiss : alone (elements n (copyMiss offset)) (s, gm)
    = ({ s with missLocal := fill n (fun i => gm.missMaskGm (offset + i)) s.missLocal }, gm) := by
  refine alone_elements _
    (fun k =>
      ({ s with missLocal := fill k (fun i => gm.missMaskGm (offset + i)) s.missLocal }, gm))
    (fun k => ?_) n
  simp only [copyMiss, ← fill_succ]

theorem alone_copyAvail : alone (elements n (copyAvail offset)) (s, gm)
    = ({ s with availLocal := fill n (fun i => gm.availMaskGm (offset + i)) s.availLocal },
      gm) := by
  refine alone_elements _
    (fun k => ({ s with availLocal := fill k (fun i => gm.availMaskGm (offset + i)) s.availLocal },
      gm)) (fun k => ?_) n
  simp only [copyAvail, ← fill_succ]

theorem alone_copyIdx : alone (elements n (copyIdx offset)) (s, gm)
    = ({ s with idxLocal := fill n (fun i => gm.idxGm (offset + i)) s.idxLocal }, gm) := by
  refine alone_elements _
    (fun k => ({ s with idxLocal := fill k (fun i => gm.idxGm (offset + i)) s.idxLocal }, gm))
    (fun k => ?_) n
  simp only [copyIdx, ← fill_succ]

theorem alone_copyResult : alone (elements n (copyResult offset)) (s, gm)
    = (s, { gm with availMaskGm := fillFrom offset n s.resultLocal gm.availMaskGm }) := by
  have hzero : fillFrom offset 0 s.resultLocal gm.availMaskGm = gm.availMaskGm := by
    ext a
    unfold fillFrom
    -- Nothing is copied out yet.
    rw [if_neg (by omega)]
  have h := alone_elements (copyResult offset)
    (fun k => (s, { gm with availMaskGm := fillFrom offset k s.resultLocal gm.availMaskGm }))
    (fun k => by simp only [copyResult, ← fillFrom_succ]) n
  simp only [hzero] at h
  exact h

/-- The buffers of two memories hold the same, whatever copies were made. -/
structure SameBuffers (m m' : GlobalMemory) : Prop where
  miss : m.missMaskGm = m'.missMaskGm
  avail : m.availMaskGm = m'.availMaskGm
  idx : m.idxGm = m'.idxGm

/-- The operations of a row, run alone, leave what `processBatch` leaves. -/
theorem alone_rowOps (plat : Platform) (v : Word) :
    SameBuffers (alone (rowOps plat v) (s, gm)).2 (processBatch plat gm v) := by
  have hsum := castSum_eq plat.sumOrder (le_refl SEQ_LEN)
  unfold rowOps
  simp only [alone_append, alone_copyMiss, alone_copyAvail, alone_copyIdx, alone_cons, alone_nil,
    computeRow, alone_copyResult]
  rw [processBatch_eq]
  refine ⟨rfl, fillFrom_congr _ _ _ _ _ (fun i hi => ?_), rfl⟩
  -- The loop reads elements that were copied in.
  refine processRow_congr SEQ_LEN _ hsum _ _ _ _ _ _ ?_ ?_ ?_ i hi
  · exact fun j hj => if_pos hj
  · exact fun j hj => if_pos hj
  · exact fun j hj => if_pos hj

/-- Rows processed from memories that hold the same leave the same. -/
theorem processBatch_sameBuffers (plat : Platform) (v : Word) (m m' : GlobalMemory)
    (h : SameBuffers m m') : SameBuffers (processBatch plat m v) (processBatch plat m' v) := by
  rw [processBatch_eq, processBatch_eq]
  refine ⟨h.miss, ?_, h.idx⟩
  simp only [h.miss, h.avail, h.idx]

theorem SameBuffers.trans {m m' m'' : GlobalMemory} (h : SameBuffers m m')
    (h' : SameBuffers m' m'') : SameBuffers m m'' :=
  ⟨h.miss.trans h'.miss, h.avail.trans h'.avail, h.idx.trans h'.idx⟩

/-- The operations of a block, run alone, leave what its rows leave in
    order. -/
theorem alone_rows (plat : Platform) (vs : List Word) (x : RowLocal × GlobalMemory)
    (m : GlobalMemory) (h : SameBuffers x.2 m) :
    SameBuffers (alone (vs.flatMap (rowOps plat)) x).2 (vs.foldl (processBatch plat) m) := by
  induction vs generalizing x m with
  | nil => exact h
  | cons v vs ih =>
      rw [List.flatMap_cons, alone_append, List.foldl_cons]
      exact ih _ _ ((alone_rowOps x.1 x.2 plat v).trans (processBatch_sameBuffers plat v x.2 m h))

end Alone

/-- What block `b` sees of the memory when each block has `w` rows: the buffers
    nobody writes, and the mask on its own stretch. -/
structure SameStretch (w b : ℕ) (m m' : GlobalMemory) : Prop where
  miss : m.missMaskGm = m'.missMaskGm
  idx : m.idxGm = m'.idxGm
  avail : ∀ a, a / SEQ_LEN / w = b → m.availMaskGm a = m'.availMaskGm a

theorem sameStretch_equivalence (w b : ℕ) : Equivalence (SameStretch w b) :=
  ⟨fun _ => ⟨rfl, rfl, fun _ _ => rfl⟩,
    fun h => ⟨h.miss.symm, h.idx.symm, fun a ha => (h.avail a ha).symm⟩,
    fun h h' => ⟨h.miss.trans h'.miss, h.idx.trans h'.idx,
      fun a ha => (h.avail a ha).trans (h'.avail a ha)⟩⟩

section Respect

variable (w b : ℕ)

theorem copyMiss_respects (offset i : ℕ) : Respects (SameStretch w) b (copyMiss offset i) := by
  refine ⟨fun s m m' h => ⟨?_, h⟩, fun t _ _ m => (sameStretch_equivalence w t).refl m⟩
  simp only [copyMiss, h.miss]

theorem copyIdx_respects (offset i : ℕ) : Respects (SameStretch w) b (copyIdx offset i) := by
  refine ⟨fun s m m' h => ⟨?_, h⟩, fun t _ _ m => (sameStretch_equivalence w t).refl m⟩
  simp only [copyIdx, h.idx]

theorem computeRow_respects (plat : Platform) : Respects (SameStretch w) b (computeRow plat) :=
  ⟨fun _ _ _ h => ⟨rfl, h⟩, fun t _ _ m => (sameStretch_equivalence w t).refl m⟩

/-- An element of the block's own stretch is read as the block sees it. -/
theorem copyAvail_respects (offset i : ℕ) (hown : (offset + i) / SEQ_LEN / w = b) :
    Respects (SameStretch w) b (copyAvail offset i) := by
  refine ⟨fun s m m' h => ⟨?_, h⟩, fun t _ _ m => (sameStretch_equivalence w t).refl m⟩
  simp only [copyAvail, h.avail _ hown]

/-- An element of the block's own stretch is written where no other block
    looks. -/
theorem copyResult_respects (offset i : ℕ) (hown : (offset + i) / SEQ_LEN / w = b) :
    Respects (SameStretch w) b (copyResult offset i) := by
  refine ⟨fun s m m' h => ⟨rfl, h.miss, h.idx, fun a ha => ?_⟩,
    fun t ht s m => ⟨rfl, rfl, fun a ha => ?_⟩⟩
  · change Function.update m.availMaskGm (offset + i) (s.resultLocal i) a
      = Function.update m'.availMaskGm (offset + i) (s.resultLocal i) a
    by_cases hai : a = offset + i
    · rw [hai, Function.update_self, Function.update_self]
    · rw [Function.update_of_ne hai, Function.update_of_ne hai, h.avail a ha]
  · -- A cell written here that another block sees would be in its stretch.
    refine Function.update_of_ne (fun hai => ht ?_) _ _
    rw [← ha, hai, hown]

/-- The operations of a row keep to the block's stretch. -/
theorem rowOps_respects (plat : Platform) (v : Word)
    (hown : ∀ i < SEQ_LEN, ((rowOffset v).val + i) / SEQ_LEN / w = b) :
    ∀ op ∈ rowOps plat v, Respects (SameStretch w) b op := by
  intro op hop
  unfold rowOps elements at hop
  simp only [List.append_assoc, List.mem_append, List.mem_map, List.mem_range,
    List.mem_singleton] at hop
  rcases hop with ⟨i, _, rfl⟩ | ⟨i, hi, rfl⟩ | ⟨i, _, rfl⟩ | rfl | ⟨i, hi, rfl⟩
  · exact copyMiss_respects w b _ i
  · exact copyAvail_respects w b _ i (hown i hi)
  · exact copyIdx_respects w b _ i
  · exact computeRow_respects w b plat
  · exact copyResult_respects w b _ i (hown i hi)

end Respect

section Launch

variable {l : KernelLaunch} {B w u : ℕ} {g : Bool}

/-- A row of a block: which one it is, and where its stretch lies. -/
theorem row_of_block (h : TilingSpec l B w u g) (hu : 1 ≤ u) (hw : 1 ≤ w)
    (hlast : (u - 1) * w < B ∧ B - (u - 1) * w ≤ w) (hrows : B ≤ 2 ^ 21) (b : ℕ) (hb : b < u)
    (v : Word) (hv : v ∈ process l.tiling (Word.ofResult b true)) :
    v.val % 2 ^ 21 = v.val ∧ v.val / w = b ∧ (rowOffset v).val = v.val * SEQ_LEN := by
  have hmem : v.val ∈ chunk w u (B - (u - 1) * w) b := by
    rw [← (process_chunk h hu hlast.1 b hb).1]
    exact List.mem_map_of_mem hv
  unfold chunk at hmem
  rw [List.mem_map] at hmem
  rcases hmem with ⟨k, hk, hval⟩
  rw [List.mem_range] at hk
  -- Only the last block may have fewer rows than its share.
  have hkw : k < w := by
    by_cases hbl : b = u - 1
    · rw [if_pos hbl] at hk
      omega
    · rw [if_neg hbl] at hk
      exact hk
  -- Every row is below the number of rows, so no offset wraps.
  have hlt : v.val < 2 ^ 21 := by
    rw [← hval]
    by_cases hbl : b = u - 1
    · rw [if_pos hbl] at hk
      rw [hbl]
      omega
    · have hnext : b * w + w ≤ (u - 1) * w := by
        rw [← Nat.succ_mul]
        exact Nat.mul_le_mul_right w (by omega)
      omega
  have hmod := Nat.mod_eq_of_lt hlt
  refine ⟨hmod, ?_, by rw [rowOffset_val, hmod]⟩
  rw [← hval, Nat.mul_comm, Nat.mul_add_div (by omega), Nat.div_eq_of_lt hkw, Nat.add_zero]

/-- The rows of a launch, told apart by the block they belong to. -/
theorem mem_launched_iff (h : TilingSpec l B w u g) (hu : 1 ≤ u) (hw : 1 ≤ w)
    (hlast : (u - 1) * w < B ∧ B - (u - 1) * w ≤ w) (hrows : B ≤ 2 ^ 21) (q : ℕ) :
    q ∈ (launchedBatches l.blockDim l.tiling).map (fun v => v.val % 2 ^ 21) ↔
      q / w < u ∧ q ∈ (process l.tiling (Word.ofResult (q / w) true)).map
        (fun v => v.val % 2 ^ 21) := by
  unfold launchedBatches
  simp only [List.mem_map, List.mem_flatMap, List.mem_range, h.blockDim.1]
  constructor
  · rintro ⟨v, ⟨b, hb, hv⟩, hq⟩
    rcases row_of_block h hu hw hlast hrows b hb v hv with ⟨hmod, hdiv, _⟩
    have hqb : q / w = b := by rw [← hq, hmod, hdiv]
    rw [hqb]
    exact ⟨hb, v, hv, hq⟩
  · rintro ⟨hb, v, hv, hq⟩
    exact ⟨v, ⟨q / w, hb, hv⟩, hq⟩

/-- Every operation left in a launch keeps to its block's stretch. -/
theorem launchMachine_respects (h : TilingSpec l B w u g) (hu : 1 ≤ u) (hw : 1 ≤ w)
    (hlast : (u - 1) * w < B ∧ B - (u - 1) * w ≤ w) (hrows : B ≤ 2 ^ 21) (plat : Platform)
    (locals : ℕ → RowLocal) (gm : GlobalMemory) (b : ℕ) :
    ∀ op ∈ (launchMachine plat l locals gm).rest b, Respects (SameStretch w) b op := by
  intro op hop
  change op ∈ if b < l.blockDim.val then blockOps plat l.tiling b else [] at hop
  rw [h.blockDim.1] at hop
  by_cases hb : b < u
  · rw [if_pos hb] at hop
    unfold blockOps at hop
    rw [List.mem_flatMap] at hop
    rcases hop with ⟨v, hv, hop⟩
    rcases row_of_block h hu hw hlast hrows b hb v hv with ⟨_, hdiv, hoff⟩
    refine rowOps_respects w b plat v (fun i hi => ?_) op hop
    rw [hoff, Nat.mul_comm, Nat.mul_add_div SEQ_LEN_pos, Nat.div_eq_of_lt hi, Nat.add_zero, hdiv]
  · rw [if_neg hb] at hop
    exact absurd hop List.not_mem_nil

/-- A schedule that lets every block finish leaves the mask the launch leaves
    block after block, and the other buffers as they were. -/
theorem launch_schedule (h : TilingSpec l B w u g) (hu : 1 ≤ u) (hw : 1 ≤ w)
    (hlast : (u - 1) * w < B ∧ B - (u - 1) * w ≤ w) (hrows : B ≤ 2 ^ 21) (plat : Platform)
    (locals : ℕ → RowLocal) (gm : GlobalMemory) (schedule : List ℕ)
    (hfin : ((launchMachine plat l locals gm).run schedule).Finished) :
    SameBuffers ((launchMachine plat l locals gm).run schedule).shared
      (launch plat l.blockDim l.tiling gm) := by
  have hview := Machine.finished_view (sameStretch_equivalence w) (launchMachine plat l locals gm)
    (launchMachine_respects h hu hw hlast hrows plat locals gm) schedule hfin
  have hrest : ∀ b, (launchMachine plat l locals gm).rest b
      = if b < u then blockOps plat l.tiling b else [] := by
    intro b
    rw [← h.blockDim.1]
    rfl
  -- What a block leaves alone: its rows in order, or nothing changed.
  have halone : ∀ b, SameBuffers
      (alone ((launchMachine plat l locals gm).rest b)
        ((launchMachine plat l locals gm).locals b, (launchMachine plat l locals gm).shared)).2
      (if b < u then (process l.tiling (Word.ofResult b true)).foldl (processBatch plat) gm
        else gm) := by
    intro b
    rw [hrest b]
    by_cases hb : b < u
    · rw [if_pos hb, if_pos hb]
      exact alone_rows plat _ _ gm ⟨rfl, rfl, rfl⟩
    · rw [if_neg hb, if_neg hb]
      exact ⟨rfl, rfl, rfl⟩
  have hmiss : ∀ b, (if b < u then (process l.tiling (Word.ofResult b true)).foldl
      (processBatch plat) gm else gm).missMaskGm = gm.missMaskGm := by
    intro b
    by_cases hb : b < u
    · rw [if_pos hb, foldl_miss]
    · rw [if_neg hb]
  have hidx : ∀ b, (if b < u then (process l.tiling (Word.ofResult b true)).foldl
      (processBatch plat) gm else gm).idxGm = gm.idxGm := by
    intro b
    by_cases hb : b < u
    · rw [if_pos hb, foldl_idx]
    · rw [if_neg hb]
  refine ⟨?_, ?_, ?_⟩
  · rw [(hview 0).2.miss, (halone 0).miss, hmiss, launch, foldl_miss]
  · -- The mask, row by row: row `q` is what its own block sees of it.
    refine rowAt_ext _ _ (fun q i hi => ?_)
    have hown : (q * SEQ_LEN + i) / SEQ_LEN / w = q / w := by
      rw [Nat.mul_comm, Nat.mul_add_div SEQ_LEN_pos, Nat.div_eq_of_lt hi, Nat.add_zero]
    have hcell : rowAt ((launchMachine plat l locals gm).run schedule).shared.availMaskGm q i
        = rowAt (if q / w < u then (process l.tiling (Word.ofResult (q / w) true)).foldl
            (processBatch plat) gm else gm).availMaskGm q i := by
      rw [rowAt, (hview (q / w)).2.avail _ hown, (halone (q / w)).avail]
      rfl
    rw [hcell, launch, foldl_avail plat (launchedBatches l.blockDim l.tiling) gm q i hi]
    simp only [mem_launched_iff h hu hw hlast hrows q]
    by_cases hb : q / w < u
    · rw [if_pos hb, foldl_avail plat _ gm q i hi]
      simp only [hb, true_and]
    · rw [if_neg hb]
      simp only [hb, false_and, if_false]
  · rw [(hview 0).2.idx, (halone 0).idx, hidx, launch, foldl_idx]

end Launch

/-- A platform with two cores. -/
def Platform.twoCores : Platform :=
  { Platform.singleCore with
    coreNum := 2
    coreNum_pos := by decide
    coreNum_lt := by decide }

/-- However the blocks of a launch over a batch that fits are interleaved, the
    mask is the one they leave one after the other, as soon as each block has
    been given its share of the steps. -/
theorem launch_interleaved (plat : Platform) (B : ℕ) (hB : 1 ≤ B) (hfit : Fits plat B) :
    ∃ l, hostTiling (Word.ofResult B true) (Word.ofResult plat.coreNum true) = some l ∧
      ∀ (locals : ℕ → RowLocal) (gm : GlobalMemory) (schedule : List ℕ),
        (∀ b < l.blockDim.val, (blockOps plat l.tiling b).length ≤ schedule.count b) →
        SameBuffers ((launchMachine plat l locals gm).run schedule).shared
          (launch plat l.blockDim l.tiling gm) := by
  have hrows := (rows_le_iff B).mp hfit.1
  have hw := share_pos B plat.coreNum hB plat.coreNum_pos
  rcases hostTiling_spec B plat.coreNum hB plat.coreNum_pos hrows hfit.2 with ⟨l, hl, hspec⟩
  refine ⟨l, hl, fun locals gm schedule hsched => ?_⟩
  refine launch_schedule hspec (share_pos B _ hB hw) hw (last_share B _ hB hw) hrows plat locals gm
    schedule ((Machine.run_finished_iff _ _).mpr (fun b => ?_))
  change (if b < l.blockDim.val then blockOps plat l.tiling b else []).length ≤ _
  by_cases hb : b < l.blockDim.val
  · rw [if_pos hb]
    exact hsched b hb
  · rw [if_neg hb]
    exact Nat.zero_le _

/-- Two rows on two cores, the second block first. -/
theorem launch_interleaved_two_cores :
    ∃ l, hostTiling (Word.ofResult 2 true) (Word.ofResult 2 true) = some l ∧
      ∀ (locals : ℕ → RowLocal) (gm : GlobalMemory),
        SameBuffers
          ((launchMachine Platform.twoCores l locals gm).run
            (List.replicate (blockOps Platform.twoCores l.tiling 1).length 1 ++
              List.replicate (blockOps Platform.twoCores l.tiling 0).length 0)).shared
          (launch Platform.twoCores l.blockDim l.tiling gm) := by
  have hfit : Fits Platform.twoCores 2 := ⟨by decide, by decide⟩
  rcases launch_interleaved Platform.twoCores 2 (by decide) hfit with ⟨l, hl, hrun⟩
  refine ⟨l, hl, fun locals gm => hrun locals gm _ (fun b hb => ?_)⟩
  have hdim : (hostTiling (Word.ofResult 2 true) (Word.ofResult 2 true)).map
      (fun l => l.blockDim.val) = some 2 := by decide
  have hl' : hostTiling (Word.ofResult 2 true) (Word.ofResult 2 true) = some l := hl
  rw [hl', Option.map_some, Option.some.injEq] at hdim
  rw [hdim] at hb
  rw [List.count_append, List.count_replicate, List.count_replicate]
  rcases Nat.lt_succ_iff_lt_or_eq.mp hb with hzero | rfl
  · rw [Nat.lt_one_iff] at hzero
    subst hzero
    exact Nat.le_add_left _ _
  · exact Nat.le_add_right _ _

end AscendKernel
