import AscendKernel.Core.Kernel
import AscendKernel.Library.BufferQueue

/-!
# The Kernel with its Queues

`KernelCacheMissTopk` one level further down.

`processBatch` works on copies of a row that appear from nowhere. On the device
a copy lives in a buffer of a queue, and the same few buffers serve every row
of a block: a tensor is allocated, filled, queued, taken out again, and freed
after the row. The sums are taken in place in one more buffer, which is used
for both masks. None of these buffers is ever cleared, so each of them starts a
row with what an earlier row left in it, and the first row of a block with
whatever was there before.

Here every tensor is a buffer, and every operation on a queue can fail to go
ahead: when nothing is free, nothing is queued, or a tensor is used that the
block does not have. A block runs on its own, so it would wait forever.

## Main definitions

* `KernelLocal`: The queues and the buffer a block works with.
* `load`: A stretch of global memory in a buffer of a queue.
* `countInPlace`: `Cast` and `Sum` in place.
* `processBatchQueued`: `ProcessBatch`, with its queues.
* `launchQueued`: All blocks of a launch, each with its own queues.
-/

namespace AscendKernel

/-- The buffers of each queue. -/
def BUFFER_NUM : ℕ := 2

/-- The queues and the calculation buffer a block works with. -/
structure KernelLocal where
  missMaskQueue : BufferQueue Bool
  availMaskQueue : BufferQueue Bool
  idxQueue : BufferQueue Int64
  resultQueue : BufferQueue Bool
  calcBuf : ℕ → ℕ

/-- What the local memory of a block holds before anything is written to it. -/
structure Stale where
  missMask : ℕ → ℕ → Bool
  availMask : ℕ → ℕ → Bool
  idx : ℕ → ℕ → Int64
  result : ℕ → ℕ → Bool
  calcBuf : ℕ → ℕ

/-- `InitBuffer` on every queue. -/
def KernelLocal.init (stale : Stale) : KernelLocal where
  missMaskQueue := BufferQueue.init BUFFER_NUM stale.missMask
  availMaskQueue := BufferQueue.init BUFFER_NUM stale.availMask
  idxQueue := BufferQueue.init BUFFER_NUM stale.idx
  resultQueue := BufferQueue.init BUFFER_NUM stale.result
  calcBuf := stale.calcBuf

/-- `AllocTensor`, `DataCopy`, `EnQue` and `DeQue`: a stretch of global memory
    in a buffer the block then has. -/
def load (gm : GlobalMemory) (batchIdx : Word) (buffer : GlobalBuffer) (offset count : ℕ)
    (q : BufferQueue buffer.Elem) : Option (BufferQueue buffer.Elem × GlobalMemory) := do
  let q ← q.allocTensor
  let (into, gm) := gm.copyIn batchIdx buffer offset count
  let q ← q.write into
  let q ← q.enQue
  let q ← q.deQue
  some (q, gm)

/-- `Cast` a mask into the calculation buffer and `Sum` it in place. The number
    is element zero. -/
def countInPlace (plat : Platform) (calcRet : ℕ → ℕ) (m : ℕ → Bool) : ℕ → ℕ :=
  let calcRet := fill SEQ_LEN (fun i => (m i).toNat) calcRet
  Function.update calcRet 0 (plat.sumOrder.tree.eval halfBits calcRet)

/-- The loop over a row, writing into a buffer with contents `d`. -/
def rowLoopInto (n : ℕ) (numShortage : ℤ) (availLocal : ℕ → Bool) (idxLocal : ℕ → Int64)
    (d : ℕ → Bool) : RowState :=
  (List.range n).foldl (rowStep numShortage availLocal idxLocal)
    { cumsum := 0, resultLocal := d }

/-- `ProcessBatch`, with its queues. -/
def processBatchQueued (plat : Platform) (k : KernelLocal) (gm : GlobalMemory)
    (batchIdx : Word) : Option (KernelLocal × GlobalMemory) := do
  let offset := (rowOffset batchIdx).val
  let (missMaskQueue, gm) ← load gm batchIdx .missMask offset SEQ_LEN k.missMaskQueue
  let missLocal ← missMaskQueue.read
  let (availMaskQueue, gm) ← load gm batchIdx .availMask offset SEQ_LEN k.availMaskQueue
  let availLocal ← availMaskQueue.read
  let (idxQueue, gm) ← load gm batchIdx .idx offset SEQ_LEN k.idxQueue
  let idxLocal ← idxQueue.read
  -- One buffer for both sums; each count is read before the next is taken.
  let calcRet := countInPlace plat k.calcBuf missLocal
  let numTokensToLoad : ℤ := calcRet 0
  let calcRet := countInPlace plat calcRet availLocal
  let numAvailableSlot : ℤ := calcRet 0
  let numShortage := numTokensToLoad - numAvailableSlot
  let resultQueue ← k.resultQueue.allocTensor
  let resultQueue ← resultQueue.write (fun d =>
    (rowLoopInto SEQ_LEN numShortage availLocal idxLocal d).resultLocal)
  let resultQueue ← resultQueue.enQue
  let resultQueue ← resultQueue.deQue
  let resultLocal ← resultQueue.read
  let gm := gm.copyOut batchIdx .availMask offset SEQ_LEN resultLocal
  let resultQueue ← resultQueue.freeTensor
  let idxQueue ← idxQueue.freeTensor
  let availMaskQueue ← availMaskQueue.freeTensor
  let missMaskQueue ← missMaskQueue.freeTensor
  some
    ({ missMaskQueue := missMaskQueue, availMaskQueue := availMaskQueue, idxQueue := idxQueue,
       resultQueue := resultQueue, calcBuf := calcRet }, gm)

/-- The rows of a block, one after the other in the same buffers. -/
def processRowsQueued (plat : Platform) (k : KernelLocal) (gm : GlobalMemory) :
    List Word → Option (KernelLocal × GlobalMemory)
  | [] => some (k, gm)
  | v :: vs => do
    let (k, gm) ← processBatchQueued plat k gm v
    processRowsQueued plat k gm vs

/-- Run the given blocks of a launch, each with queues of its own. -/
def launchQueued (plat : Platform) (t : CacheMissTopkTilingData) (stale : ℕ → Stale)
    (gm : GlobalMemory) : List ℕ → Option GlobalMemory
  | [] => some gm
  | b :: bs => do
    let (_, gm) ← processRowsQueued plat (KernelLocal.init (stale b)) gm
      (process t (Word.ofResult b true))
    launchQueued plat t stale gm bs

end AscendKernel
