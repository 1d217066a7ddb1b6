import AscendKernel.Core.Tensor
import AscendKernel.Library.RoundedSum
import AscendKernel.Library.Word

/-!
# The Device Kernel

`KernelCacheMissTopk`, the device half of `cache_miss_topk`.

The kernel is compiled for one row width, `SEQ_LEN`. A launch runs a number of
blocks; each block works out from five scalars which rows are its own and
processes them one at a time. Processing a row copies three stretches of global
memory in, works on the copies, and copies one stretch back.

The work on the copies is `processRow`. It counts the two masks, takes the
difference as the shortage, and then walks the row with a running count of the
empty entries, `rowStep`, adding an empty entry to the available slots while
the count is within the shortage. The width is a parameter there, since nothing
in the body depends on it being `SEQ_LEN`; `processBatch` fixes it.

The counts come from `AscendC::Sum` over half-precision values, in an order the
library does not specify, so an order is part of the platform. All offsets are
`Word`s, which is what the device computes in.

Global memory is read and written by `DataCopy` and by nothing else, so a copy
is one of two operations here, `copyIn` and `copyOut`, and each of them also
puts itself on record. The record has no counterpart on the device; it is what
lets a later statement say which memory a launch touches.

Blocks run on different cores. The model runs them one after the other in block
order.

## Main definitions

* `SEQ_LEN`: The row width the kernel is compiled for.
* `Platform`: What the code asks of the hardware.
* `rowStep`, `rowLoop`: The loop over a row.
* `processRow`: Everything done with one row's local copies.
* `GlobalMemory`: The three buffers a launch works on, and the copies made.
* `copyIn`, `copyOut`: `DataCopy`, in either direction.
* `processBatch`: One row, from copy-in to copy-out.
* `CacheMissTopkTilingData`: The five scalars a launch passes.
* `process`: The rows one block processes.
* `launch`: All blocks of a launch.
-/

namespace AscendKernel

/-- The row width the kernel is compiled for. -/
def SEQ_LEN : ℕ := 2048

/-- What the code asks of the hardware: the number of vector cores, reported
    as a `uint32_t`, and the order in which a vector sum adds its elements. -/
structure Platform where
  coreNum : ℕ
  coreNum_pos : 1 ≤ coreNum
  coreNum_lt : coreNum < 2 ^ 32
  sumOrder : SumOrder SEQ_LEN

/-- A platform with a single core, adding from left to right. -/
def Platform.singleCore : Platform where
  coreNum := 1
  coreNum_pos := le_refl 1
  coreNum_lt := by norm_num
  sumOrder := SumOrder.leftToRight 2047

/-- Significant bits of a `half`. -/
def halfBits : ℕ := 11

/-- `Cast` a mask to half precision and `Sum` it: the number read back from
    element zero. -/
def castSum {n : ℕ} (order : SumOrder n) (m : ℕ → Bool) : ℤ :=
  (order.tree.eval halfBits (fun i => (m i).toNat) : ℕ)

/-- The loop's running count and the row written so far. -/
structure RowState where
  cumsum : ℤ
  resultLocal : ℕ → Bool

/-- One iteration of the loop over a row. -/
def rowStep (numShortage : ℤ) (availLocal : ℕ → Bool) (idxLocal : ℕ → Int64) (s : RowState)
    (i : ℕ) : RowState :=
  let isEmpty := decide (idxLocal i = -1)
  -- The count takes this position in before it is compared.
  let cumsum := if isEmpty = true then s.cumsum + 1 else s.cumsum
  let selected := decide (cumsum ≤ numShortage) && isEmpty
  let result := availLocal i || selected
  { cumsum := cumsum, resultLocal := Function.update s.resultLocal i result }

/-- The loop over a row of width `n`. -/
def rowLoop (n : ℕ) (numShortage : ℤ) (availLocal : ℕ → Bool) (idxLocal : ℕ → Int64) : RowState :=
  (List.range n).foldl (rowStep numShortage availLocal idxLocal)
    { cumsum := 0, resultLocal := fun _ => false }

/-- What becomes of one row's local copies: the shortage is the difference of
    the two mask counts, and the loop tops the available slots up by it. -/
def processRow (n : ℕ) (sum : (ℕ → Bool) → ℤ) (missLocal availLocal : ℕ → Bool)
    (idxLocal : ℕ → Int64) : ℕ → Bool :=
  let numTokensToLoad := sum missLocal
  let numAvailableSlot := sum availLocal
  let numShortage := numTokensToLoad - numAvailableSlot
  (rowLoop n numShortage availLocal idxLocal).resultLocal

/-- The buffers a launch is given. -/
inductive GlobalBuffer where
  | missMask
  | availMask
  | idx
  deriving DecidableEq

/-- What a buffer holds: the masks hold truth values, the old rows integers. -/
abbrev GlobalBuffer.Elem : GlobalBuffer → Type
  | .missMask => Bool
  | .availMask => Bool
  | .idx => Int64

/-- A `DataCopy` between global and local memory, made while processing row
    `batchIdx`. -/
structure DataCopy where
  batchIdx : ℕ
  buffer : GlobalBuffer
  isWrite : Bool
  offset : ℕ
  count : ℕ
  deriving DecidableEq

/-- The global memory behind the three pointers, and the copies made so far. -/
structure GlobalMemory where
  missMaskGm : ℕ → Bool
  availMaskGm : ℕ → Bool
  idxGm : ℕ → Int64
  copies : List DataCopy

namespace GlobalMemory

def contents (gm : GlobalMemory) : (buffer : GlobalBuffer) → ℕ → buffer.Elem
  | .missMask => gm.missMaskGm
  | .availMask => gm.availMaskGm
  | .idx => gm.idxGm

/-- The memory after one buffer has changed. -/
def withContents (gm : GlobalMemory) : (buffer : GlobalBuffer) → (ℕ → buffer.Elem) → GlobalMemory
  | .missMask, mem => { gm with missMaskGm := mem }
  | .availMask, mem => { gm with availMaskGm := mem }
  | .idx, mem => { gm with idxGm := mem }

/-- `DataCopy(dst, buffer[offset], count)`: what the copy does to the local
    tensor it is made into, and the memory with the copy on record. -/
def copyIn (gm : GlobalMemory) (batchIdx : Word) (buffer : GlobalBuffer) (offset count : ℕ) :
    ((ℕ → buffer.Elem) → ℕ → buffer.Elem) × GlobalMemory :=
  (fill count fun i => gm.contents buffer (offset + i),
    { gm with
      copies := gm.copies ++ [{ batchIdx := batchIdx.val, buffer := buffer, isWrite := false,
                                offset := offset, count := count }] })

/-- `DataCopy(buffer[offset], src, count)`, put on record as well. -/
def copyOut (gm : GlobalMemory) (batchIdx : Word) (buffer : GlobalBuffer) (offset count : ℕ)
    (src : ℕ → buffer.Elem) : GlobalMemory :=
  { gm.withContents buffer (fillFrom offset count src (gm.contents buffer)) with
    copies := gm.copies ++ [{ batchIdx := batchIdx.val, buffer := buffer, isWrite := true,
                              offset := offset, count := count }] }

end GlobalMemory

/-- Where row `batchIdx` starts, in the device's 32-bit arithmetic. -/
def rowOffset (batchIdx : Word) : Word := batchIdx * Word.ofResult SEQ_LEN true

/-- Process one row: copy in, work on the copies, copy the mask back in
    place. -/
def processBatch (plat : Platform) (gm : GlobalMemory) (batchIdx : Word) : GlobalMemory :=
  -- One 32-bit offset for all three buffers, and for the way back.
  let offset := (rowOffset batchIdx).val
  let (intoMiss, gm) := gm.copyIn batchIdx .missMask offset SEQ_LEN
  let missLocal := intoMiss fun _ => false
  let (intoAvail, gm) := gm.copyIn batchIdx .availMask offset SEQ_LEN
  let availLocal := intoAvail fun _ => false
  let (intoIdx, gm) := gm.copyIn batchIdx .idx offset SEQ_LEN
  let idxLocal := intoIdx fun _ => 0
  let resultLocal := processRow SEQ_LEN (castSum plat.sumOrder) missLocal availLocal idxLocal
  gm.copyOut batchIdx .availMask offset SEQ_LEN resultLocal

/-- The scalars a launch passes to every block. -/
structure CacheMissTopkTilingData where
  batchSize : Word
  formerNum : Word
  formerLength : Word
  tailNum : Word
  tailLength : Word

def CacheMissTopkTilingData.usedCoreNum (t : CacheMissTopkTilingData) : Word :=
  t.formerNum + t.tailNum

/-- The block's loop from counter `b` on, with `n` iterations left: the rows
    it passes to `processBatch`, up to a `break` at the end of the batch. -/
def batchLoop (batchSize startBatch : Word) : ℕ → Word → List Word
  | 0, _ => []
  | n + 1, b =>
      let batchIdx := startBatch + b
      -- The `break`: no later iteration runs either.
      if batchSize.val ≤ batchIdx.val then []
      else batchIdx :: batchLoop batchSize startBatch n (b + 1)

/-- How many rows a block sets out to process. -/
def CacheMissTopkTilingData.blockBatches (t : CacheMissTopkTilingData) (blockIdx : Word) : Word :=
  if blockIdx.val = (t.usedCoreNum - 1).val then t.tailLength else t.formerLength

/-- The rows one block passes to `processBatch`, in order. -/
def process (t : CacheMissTopkTilingData) (blockIdx : Word) : List Word :=
  -- A block past the last one returns at once.
  if t.usedCoreNum.val ≤ blockIdx.val then []
  else
    let startBatch := blockIdx * t.formerLength
    batchLoop t.batchSize startBatch (t.blockBatches blockIdx).val 0

/-- The rows a launch of `blockDim` blocks processes, block after block. -/
def launchedBatches (blockDim : Word) (t : CacheMissTopkTilingData) : List Word :=
  (List.range blockDim.val).flatMap fun b => process t (Word.ofResult b true)

/-- Run all blocks of a launch. -/
def launch (plat : Platform) (blockDim : Word) (t : CacheMissTopkTilingData)
    (gm : GlobalMemory) : GlobalMemory :=
  (launchedBatches blockDim t).foldl (processBatch plat) gm

end AscendKernel
