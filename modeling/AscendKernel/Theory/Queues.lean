import AscendKernel.Core.Queues
import AscendKernel.Theory.RowLoop

/-!
# The Queues Change Nothing

The kernel with its queues computes what the kernel without them does.

Two things could go wrong in `processBatchQueued`. An operation on a queue could
fail, and then the block would hang: that is ruled out by `KernelLocal.Ready`,
an invariant of the rows. Every queue is idle between rows, since each row
returns all it takes, so there is a buffer for each tensor of the next row.

And what a buffer held before could reach the result. It cannot, because of the
widths: each copy and the loop over the row write `SEQ_LEN` elements before
anything is read, nothing past them is ever read, and the leaves of the sum are
those same positions. `rowLoopInto_eq` says it for the loop, and
`countInPlace_zero` for the two sums sharing one buffer.

`processBatchQueued_spec` is one row, and its induction over the rows of a
block and the blocks of a launch gives `launchQueued_eq`.

## Main definitions

* `KernelLocal.Ready`: No buffer is in use.

## Theorems

* `rowLoopInto_eq`: The loop replaces what the buffer held.
* `countInPlace_zero`: So does a sum.
* `processBatchQueued_spec`: One row.
* `processRowsQueued_spec`: The rows of a block.
* `launchQueued_eq`: A launch.
-/

namespace AscendKernel

/-- No buffer is in use. -/
structure KernelLocal.Ready (k : KernelLocal) : Prop where
  missMask : k.missMaskQueue.Ready
  availMask : k.availMaskQueue.Ready
  idx : k.idxQueue.Ready
  result : k.resultQueue.Ready

theorem KernelLocal.init_ready (stale : Stale) : (KernelLocal.init stale).Ready where
  missMask := BufferQueue.init_ready _ _ (Nat.succ_pos 1)
  availMask := BufferQueue.init_ready _ _ (Nat.succ_pos 1)
  idx := BufferQueue.init_ready _ _ (Nat.succ_pos 1)
  result := BufferQueue.init_ready _ _ (Nat.succ_pos 1)

/-- The loop replaces the contents of the buffer as far as it goes, and is
    otherwise the loop that starts with an empty row. -/
theorem rowLoopInto_eq (n : ℕ) (numShortage : ℤ) (availLocal : ℕ → Bool) (idxLocal : ℕ → Int64)
    (d : ℕ → Bool) :
    rowLoopInto n numShortage availLocal idxLocal d =
      { cumsum := (rowLoop n numShortage availLocal idxLocal).cumsum
        resultLocal := fill n (rowLoop n numShortage availLocal idxLocal).resultLocal d } := by
  induction n with
  | zero => rfl
  | succ n ih =>
      have hstep : rowLoopInto (n + 1) numShortage availLocal idxLocal d =
          rowStep numShortage availLocal idxLocal
            (rowLoopInto n numShortage availLocal idxLocal d) n := by
        rw [rowLoopInto, List.range_succ, List.foldl_append]
        rfl
      rw [hstep, ih, rowLoop_succ]
      refine congrArg₂ RowState.mk rfl ?_
      -- The row after this iteration agrees with the row before it below `n`.
      rw [← fill_succ]
      unfold rowStep
      simp only [Function.update_self]
      refine congrArg (fun f => Function.update f n _) (funext fun i => ?_)
      unfold fill
      by_cases hi : i < n
      · rw [if_pos hi, if_pos hi, Function.update_of_ne (Nat.ne_of_lt hi)]
      · rw [if_neg hi, if_neg hi]

/-- The number read back is the sum over the mask, whatever the calculation
    buffer held. -/
theorem countInPlace_zero (plat : Platform) (calcRet : ℕ → ℕ) (m : ℕ → Bool) :
    (countInPlace plat calcRet m 0 : ℤ) = castSum plat.sumOrder m := by
  unfold countInPlace castSum
  rw [Function.update_self]
  refine congrArg Nat.cast (SumTree.eval_congr halfBits _ _ _ (fun i hi => ?_))
  have hlt : i < SEQ_LEN := List.mem_range.mp (plat.sumOrder.covers.mem_iff.mp hi)
  unfold fill
  rw [if_pos hlt]

/-- A count reads a mask no further than the row. -/
theorem countInPlace_fill (plat : Platform) (calcRet : ℕ → ℕ) (m d : ℕ → Bool) :
    (countInPlace plat calcRet (fill SEQ_LEN m d) 0 : ℤ) = castSum plat.sumOrder m := by
  rw [countInPlace_zero, castSum_eq plat.sumOrder (le_refl _), castSum_eq plat.sumOrder (le_refl _)]
  refine congrArg Nat.cast (countTrue_congr _ _ _ (fun i hi => ?_))
  unfold fill
  rw [if_pos hi]

/-- The row written from tensors that hold the entries of the row and more. -/
theorem rowLoopInto_fill (n : ℕ) (sum : (ℕ → Bool) → ℤ) (hsum : ∀ m, sum m = countTrue m n)
    (miss avail dAvail d : ℕ → Bool) (idx dIdx : ℕ → Int64) (i : ℕ) (hi : i < n) :
    (rowLoopInto n (sum miss - sum avail) (fill n avail dAvail) (fill n idx dIdx) d).resultLocal i
      = processRow n sum miss avail idx i := by
  have hfill : ∀ j < n, fill n avail dAvail j = avail j := fun j hj => if_pos hj
  have hcount : sum (fill n avail dAvail) = sum avail := by
    rw [hsum, hsum, countTrue_congr _ _ n hfill]
  rw [rowLoopInto_eq, ← hcount]
  refine Eq.trans (if_pos hi) ?_
  exact processRow_congr n sum hsum miss miss _ _ _ _ (fun _ _ => rfl) hfill
    (fun j hj => if_pos hj) i hi

/-- Only what is copied of a local tensor matters to a copy out. -/
theorem GlobalMemory.copyOut_congr (gm : GlobalMemory) (batchIdx : Word) (buffer : GlobalBuffer)
    (offset count : ℕ) (v w : ℕ → buffer.Elem) (h : ∀ i < count, v i = w i) :
    gm.copyOut batchIdx buffer offset count v = gm.copyOut batchIdx buffer offset count w := by
  unfold GlobalMemory.copyOut
  rw [fillFrom_congr offset count v w _ h]

/-- A stretch of memory that passes through a ready queue: what is read from
    the buffer is the stretch, and past it what the buffer held. -/
theorem load_spec (gm : GlobalMemory) (batchIdx : Word) (buffer : GlobalBuffer)
    (offset count : ℕ) (q : BufferQueue buffer.Elem) (h : q.Ready) :
    ∃ d q₁ q₂, load gm batchIdx buffer offset count q
        = some (q₁, (gm.copyIn batchIdx buffer offset count).2) ∧
      q₁.read = some (fill count (fun i => gm.contents buffer (offset + i)) d) ∧
      q₁.freeTensor = some q₂ ∧ q₂.Ready := by
  rcases BufferQueue.exists_cycle (gm.copyIn batchIdx buffer offset count).1 h with
    ⟨d, q₁, q₂, q₃, q₄, q₅, h₁, h₂, h₃, h₄, hread, hfree, hready⟩
  refine ⟨d, q₄, q₅, ?_, hread, hfree, hready⟩
  simp only [load, h₁, h₂, h₃, h₄, Option.bind_eq_bind, Option.bind_some]

variable (plat : Platform)

/-- One row: from ready queues no operation fails, the queues are ready again
    afterwards, and the memory is as if there had been no queues. -/
theorem processBatchQueued_spec (k : KernelLocal) (gm : GlobalMemory) (batchIdx : Word)
    (h : k.Ready) :
    ∃ k', processBatchQueued plat k gm batchIdx = some (k', processBatch plat gm batchIdx) ∧
      k'.Ready := by
  have hsum := castSum_eq plat.sumOrder (le_refl SEQ_LEN)
  set offset := (rowOffset batchIdx).val with hoffset
  set miss := fun i => gm.missMaskGm (offset + i)
  set avail := fun i => gm.availMaskGm (offset + i)
  set idx := fun i => gm.idxGm (offset + i)
  -- Each input passes through its own queue.
  rcases load_spec gm batchIdx .missMask offset SEQ_LEN _ h.missMask with
    ⟨dm, mq, mq', hms, hmr, hmf, hm⟩
  set gm₁ := (gm.copyIn batchIdx .missMask offset SEQ_LEN).2
  rcases load_spec gm₁ batchIdx .availMask offset SEQ_LEN _ h.availMask with
    ⟨da, aq, aq', has, har, haf, ha⟩
  set gm₂ := (gm₁.copyIn batchIdx .availMask offset SEQ_LEN).2
  rcases load_spec gm₂ batchIdx .idx offset SEQ_LEN _ h.idx with
    ⟨dx, xq, xq', hxs, hxr, hxf, hx⟩
  set gm₃ := (gm₂.copyIn batchIdx .idx offset SEQ_LEN).2
  -- The loop writes into a buffer of the last queue.
  rcases BufferQueue.exists_cycle (fun d => (rowLoopInto SEQ_LEN
      (castSum plat.sumOrder miss - castSum plat.sumOrder avail)
      (fill SEQ_LEN avail da) (fill SEQ_LEN idx dx) d).resultLocal)
      h.result with ⟨dr, rq₁, rq₂, rq₃, rq₄, rq₅, h₁, h₂, h₃, h₄, hrr, hrf, hr⟩
  -- A copy in leaves the buffers as they are.
  have hmr' : mq.read = some (fill SEQ_LEN miss dm) := hmr
  have har' : aq.read = some (fill SEQ_LEN avail da) := har
  have hxr' : xq.read = some (fill SEQ_LEN idx dx) := hxr
  unfold processBatchQueued
  simp only [← hoffset, hms, hmr', hmf, has, har', haf, hxs, hxr', hxf, Option.bind_eq_bind,
    Option.bind_some, countInPlace_fill, h₁, h₂, h₃, h₄, hrr, hrf]
  refine ⟨_, congrArg some (congrArg₂ Prod.mk rfl ?_), ⟨hm, ha, hx, hr⟩⟩
  -- Of the tensor only the row is copied out.
  refine GlobalMemory.copyOut_congr gm₃ batchIdx .availMask offset SEQ_LEN _ _ (fun i hi => ?_)
  refine (rowLoopInto_fill SEQ_LEN _ hsum miss avail da _ idx dx i hi).trans ?_
  exact processRow_congr SEQ_LEN _ hsum _ _ _ _ _ _ (fun j hj => (if_pos hj).symm)
    (fun j hj => (if_pos hj).symm) (fun j hj => (if_pos hj).symm) i hi

/-- The rows of a block, in the same buffers one after the other. -/
theorem processRowsQueued_spec (k : KernelLocal) (gm : GlobalMemory) (batches : List Word)
    (h : k.Ready) :
    ∃ k', processRowsQueued plat k gm batches = some (k', batches.foldl (processBatch plat) gm) ∧
      k'.Ready := by
  induction batches generalizing k gm with
  | nil => exact ⟨k, rfl, h⟩
  | cons v vs ih =>
      rcases processBatchQueued_spec plat k gm v h with ⟨k₁, hs₁, h₁⟩
      rcases ih k₁ (processBatch plat gm v) h₁ with ⟨k', hs, h'⟩
      refine ⟨k', ?_, h'⟩
      rw [processRowsQueued, hs₁, Option.bind_eq_bind, Option.bind_some]
      exact hs

/-- The given blocks of a launch. -/
theorem launchQueued_spec (t : CacheMissTopkTilingData) (stale : ℕ → Stale) (gm : GlobalMemory)
    (blocks : List ℕ) :
    launchQueued plat t stale gm blocks =
      some ((blocks.flatMap fun b => process t (Word.ofResult b true)).foldl
        (processBatch plat) gm) := by
  induction blocks generalizing gm with
  | nil => rfl
  | cons b bs ih =>
      rcases processRowsQueued_spec plat (KernelLocal.init (stale b)) gm
        (process t (Word.ofResult b true)) (KernelLocal.init_ready _) with ⟨k', hs, _⟩
      rw [launchQueued, hs, Option.bind_eq_bind, Option.bind_some, List.flatMap_cons,
        List.foldl_append]
      exact ih _

/-- No operation on a queue ever fails, and whatever the local memory of the
    blocks holds at the start, a launch leaves what it leaves without
    queues. -/
theorem launchQueued_eq (blockDim : Word) (t : CacheMissTopkTilingData) (stale : ℕ → Stale)
    (gm : GlobalMemory) :
    launchQueued plat t stale gm (List.range blockDim.val) =
      some (launch plat blockDim t gm) :=
  launchQueued_spec plat t stale gm _

end AscendKernel
