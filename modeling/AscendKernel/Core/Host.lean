import AscendKernel.Core.Kernel

/-!
# The Host Operators

`cache_miss_topk`, which launches the kernel, and `get_cache_miss_topk_indices`,
the operator registered with torch.

The registered operator takes the tokens a step asks for, one row per request,
and the buffer left by the previous step. It packs each token with its request
into one 64-bit code, compares the codes against the buffer both ways, has the
kernel top the free slots up, moves the missing codes into the slots, and
returns in place of each token the token to be loaded into that slot, or -1.

Two of the caller's tensors are written: the buffer, through a view of its
leading rows, and the token tensor, last of all. The state carried through the
function is that pair, and every stop returns the pair as it is at that point,
so which writes a failure leaves behind is visible in the definition.

`checkedLaunch` is `cache_miss_topk` up to and including the launch. The width
of the masks is read there and used for nothing.

## Main definitions

* `hostTiling`: How a batch is divided among the cores.
* `checkedLaunch`: The checks and the launch of `cache_miss_topk`.
* `cacheMissTopk`: The operator itself, updating the slot mask in place.
* `getSetDiffMask`: Elements of one row not in the other.
* `reqIdsOffset`, `topkIndicesNew`: The codes of a step's tokens.
* `Caller`: The caller's tensors the operator writes.
* `entryChecks`: The checks on entry.
* `getCacheMissTopkIndices`: The registered operator.
-/

namespace AscendKernel

/-- A launch: how many blocks, and the scalars passed to each. -/
structure KernelLaunch where
  blockDim : Word
  tiling : CacheMissTopkTilingData

/-- Divide `batchSize` rows among `coreNum` cores. There is no result when a
    divisor is zero. -/
def hostTiling (batchSize coreNum : Word) : Option KernelLaunch :=
  if coreNum.val = 0 then none
  else
    -- Two quotients rounded up: rows per core, then cores needed.
    let batchesPerCore := (batchSize + coreNum - 1) / coreNum
    if batchesPerCore.val = 0 then none
    else
      let usedCoreNum := (batchSize + batchesPerCore - 1) / batchesPerCore
      let formerNum := usedCoreNum - 1
      let formerLength := batchesPerCore
      let tailLength := batchSize - formerNum * formerLength
      -- Unsigned, so `<= 0` is `== 0`.
      let tailLength :=
        if tailLength.val ≤ 0 ∧ 0 < formerNum.val then formerLength else tailLength
      some
        { blockDim := usedCoreNum
          tiling :=
            { batchSize := batchSize, formerNum := formerNum, formerLength := formerLength,
              tailNum := 1, tailLength := tailLength } }

/-- `cache_miss_topk` up to the end of the launch: the checks, and the global
    memory once every block has run. An empty batch launches nothing. -/
def checkedLaunch (plat : Platform) (cache_miss_token_mask available_slot_mask
    topk_indices_old : Tensor) : Except Failure GlobalMemory := do
  torchCheck (cache_miss_token_mask.dim == 2)
    "cache_miss_topk: cache_miss_token_mask must be 2D tensor"
  torchCheck (available_slot_mask.dim == 2)
    "cache_miss_topk: available_slot_mask must be 2D tensor"
  torchCheck (topk_indices_old.dim == 2)
    "cache_miss_topk: topk_indices_old must be 2D tensor"
  torchCheck (cache_miss_token_mask.sizes == available_slot_mask.sizes)
    "cache_miss_topk: cache_miss_token_mask and available_slot_mask must have the same shape"
  torchCheck (cache_miss_token_mask.sizes == topk_indices_old.sizes)
    "cache_miss_topk: cache_miss_token_mask and topk_indices_old must have the same shape"
  let miss ← cache_miss_token_mask.checkBool
    "cache_miss_topk: cache_miss_token_mask must be bool"
  let avail ← available_slot_mask.checkBool
    "cache_miss_topk: available_slot_mask must be bool"
  let old ← topk_indices_old.checkLong
    "cache_miss_topk: topk_indices_old must be int64"
  let gm : GlobalMemory :=
    { missMaskGm := miss.dataPtr, availMaskGm := avail.dataPtr, idxGm := old.dataPtr,
      copies := [] }
  let batchSize := Word.ofResult (miss.size 0) true
  if batchSize.val = 0 then
    return gm
  else
    match hostTiling batchSize (Word.ofResult plat.coreNum true) with
    | none => throw .divisionByZero
    | some l => return launch plat l.blockDim l.tiling gm

/-- `cache_miss_topk`: the slot mask is updated in place. The kernel is given
    the memory of the old rows too, so that is handed back as it leaves it. -/
def cacheMissTopk (plat : Platform) (cache_miss_token_mask : Tensor)
    (available_slot_mask : Strided Bool) (topk_indices_old : Strided Int64) :
    Except Failure (Strided Bool × Strided Int64) :=
  match checkedLaunch plat cache_miss_token_mask (.bool available_slot_mask)
    (.long topk_indices_old) with
  | .error e => .error e
  | .ok gm =>
    .ok (available_slot_mask.withDataPtr gm.availMaskGm, topk_indices_old.withDataPtr gm.idxGm)

/-- Elements of row `r` of `a` that are not in row `r` of `b`; `n` is the
    width of `b`. -/
def getSetDiffMask (n : ℕ) (a b : ℕ → ℕ → Int64) (r i : ℕ) : Bool :=
  let comparison_mask := fun j => decide (a r i = b r j)
  let intersect_mask := (List.range n).any comparison_mask
  !intersect_mask

/-- `req_ids_tensor.slice(0, 0, num_reqs).mul(1 << 16).unsqueeze(-1)`. -/
def reqIdsOffset (req_ids : ℕ → Int64) (r : ℕ) : Int64 := req_ids r * ((1 : Int64) <<< (16 : Int64))

/-- `where(topk_indices >= 0, topk_indices + req_ids_offset, -1)`: the sum is
    taken in int64. -/
def topkIndicesNew (topk_indices : ℕ → ℕ → Int32) (req_ids : ℕ → Int64) (r i : ℕ) : Int64 :=
  if 0 ≤ topk_indices r i then (topk_indices r i).toInt64 + reqIdsOffset req_ids r else -1

/-- `where(topk_indices_new >= 0, topk_indices_new - req_ids_offset, -1)`. -/
def recoverTopk (topk_indices_new : ℕ → ℕ → Int64) (req_ids : ℕ → Int64) (r i : ℕ) : Int64 :=
  if 0 ≤ topk_indices_new r i then topk_indices_new r i - reqIdsOffset req_ids r else -1

/-- The caller's tensors the operator writes. -/
structure Caller where
  topk_indices : Tensor
  last_step_topk_indices : Tensor

/-- The checks on entry, handing out the typed tensors. -/
def entryChecks (topk_indices last_step_topk_indices req_ids_tensor : Tensor) :
    Except Failure (Strided Int32 × Strided Int64 × Strided Int64) := do
  torchCheck (topk_indices.dim == 2)
    "get_cache_miss_topk_indices: topk_indices must be 2D tensor"
  torchCheck (last_step_topk_indices.dim == 2)
    "get_cache_miss_topk_indices: last_step_topk_indices must be 2D tensor"
  torchCheck (req_ids_tensor.dim == 1)
    "get_cache_miss_topk_indices: req_ids_tensor must be 1D tensor"
  let topk ← topk_indices.checkInt
    "get_cache_miss_topk_indices: topk_indices must be int32"
  let last ← last_step_topk_indices.checkLong
    "get_cache_miss_topk_indices: last_step_topk_indices must be int64"
  let ids ← req_ids_tensor.checkLong
    "get_cache_miss_topk_indices: req_ids_tensor must be int64"
  torchCheck (topk.size 0 ≤ last.size 0)
    "get_cache_miss_topk_indices: last_step_topk_indices batch size must be >= num_reqs"
  torchCheck (last.size 1 == topk.size 1)
    "get_cache_miss_topk_indices: last_step_topk_indices seq_len must match topk_indices"
  torchCheck (topk.size 0 ≤ ids.size 0)
    "get_cache_miss_topk_indices: req_ids_tensor size must be >= num_reqs"
  return (topk, last, ids)

/-- `cache_miss_token_mask`, a fresh tensor. -/
def cacheMissTokenMask (topk : Strided Int32) (last ids : Strided Int64) : Strided Bool :=
  contiguous2 (topk.size 0) (topk.size 1)
    (getSetDiffMask (topk.size 1) (topkIndicesNew topk.at2 ids.at1) (last.slice0 (topk.size 0)).at2)

/-- `available_slot_mask` before the kernel runs, a fresh tensor. -/
def availableSlotMask (topk : Strided Int32) (last ids : Strided Int64) : Strided Bool :=
  contiguous2 (topk.size 0) (topk.size 1)
    (getSetDiffMask (topk.size 1) (last.slice0 (topk.size 0)).at2 (topkIndicesNew topk.at2 ids.at1))

/-- `masked_select(topk_indices_new, cache_miss_token_mask)`. -/
def topkToLoad (topk : Strided Int32) (last ids : Strided Int64) : List Int64 :=
  maskedSelect (rowMajor (topk.size 1) (cacheMissTokenMask topk last ids).at2)
    (rowMajor (topk.size 1) (topkIndicesNew topk.at2 ids.at1)) (topk.size 0 * topk.size 1)

/-- The registered operator, with the caller's tensors as its state. -/
def getCacheMissTopkIndices (plat : Platform) (req_ids_tensor : Tensor) (caller : Caller) :
    Except Failure Unit × Caller :=
  match entryChecks caller.topk_indices caller.last_step_topk_indices req_ids_tensor with
  | .error e => (.error e, caller)
  | .ok (topk, last, ids) =>
    let num_reqs := topk.size 0
    let topk_indices_old := last.slice0 num_reqs
    let cache_miss_token_mask := cacheMissTokenMask topk last ids
    match cacheMissTopk plat (.bool cache_miss_token_mask) (availableSlotMask topk last ids)
      topk_indices_old with
    | .error e => (.error e, caller)
    | .ok (available_slot_mask, topk_indices_old) =>
      let topk_to_load := topkToLoad topk last ids
      -- The old rows are a view, so the buffer is what the kernel left of it.
      let last := { last with storage := topk_indices_old.storage }
      let caller := { caller with last_step_topk_indices := .long last }
      -- The codes are overwritten by -1 and the loaded ones scattered back.
      let topk_indices_new := contiguous2 num_reqs (topk.size 1) (fun _ _ => (-1 : Int64))
      match inplaceMaskedScatter topk_indices_new available_slot_mask topk_to_load with
      | .error e => (.error e, caller)
      | .ok topk_indices_new =>
        -- The same codes go into the buffer, through a view of its rows.
        match inplaceMaskedScatter (last.slice0 num_reqs) available_slot_mask topk_to_load with
        | .error e => (.error e, caller)
        | .ok last_step_slice =>
          let last_step := .long { last with storage := last_step_slice.storage }
          let result := recoverTopk topk_indices_new.at2 ids.at1
          let topk_out := .int (topk.copy fun r i => (result r i).toInt32)
          (.ok (), { topk_indices := topk_out, last_step_topk_indices := last_step })

end AscendKernel
