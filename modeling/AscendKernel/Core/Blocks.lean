import AscendKernel.Core.Host
import AscendKernel.Library.Interleave

/-!
# Blocks at the Same Time

A launch on cores that run side by side.

`launch` runs the blocks one after the other and treats a row as one step. On
the device every block has a core of its own, and a `DataCopy` moves elements
one by one while the other cores do the same. Here a block is a thread. Its
state is its local tensors, which hold whatever was in them before, and its
operations are the element copies of its rows and, between the copies in and
the copy back, the work on the local tensors.

## Main definitions

* `RowLocal`: The local tensors of a block.
* `rowOps`: The operations of one row.
* `blockOps`: The operations of one block.
* `launchMachine`: A launch about to run.
-/

namespace AscendKernel

/-- The local tensors of a block. -/
structure RowLocal where
  missLocal : ℕ → Bool
  availLocal : ℕ → Bool
  idxLocal : ℕ → Int64
  resultLocal : ℕ → Bool

/-- `DataCopy(missLocal, missMaskGm[offset], ..)`, element `i`. -/
def copyMiss (offset i : ℕ) : Operation RowLocal GlobalMemory := fun (s, gm) =>
  ({ s with missLocal := Function.update s.missLocal i (gm.missMaskGm (offset + i)) }, gm)

/-- `DataCopy(availLocal, availMaskGm[offset], ..)`, element `i`. -/
def copyAvail (offset i : ℕ) : Operation RowLocal GlobalMemory := fun (s, gm) =>
  ({ s with availLocal := Function.update s.availLocal i (gm.availMaskGm (offset + i)) }, gm)

/-- `DataCopy(idxLocal, idxGm[offset], ..)`, element `i`. -/
def copyIdx (offset i : ℕ) : Operation RowLocal GlobalMemory := fun (s, gm) =>
  ({ s with idxLocal := Function.update s.idxLocal i (gm.idxGm (offset + i)) }, gm)

/-- The work on the local tensors. -/
def computeRow (plat : Platform) : Operation RowLocal GlobalMemory := fun (s, gm) =>
  ({ s with resultLocal :=
      processRow SEQ_LEN (castSum plat.sumOrder) s.missLocal s.availLocal s.idxLocal }, gm)

/-- `DataCopy(availMaskGm[offset], resultLocal, ..)`, element `i`. -/
def copyResult (offset i : ℕ) : Operation RowLocal GlobalMemory := fun (s, gm) =>
  (s, { gm with availMaskGm := Function.update gm.availMaskGm (offset + i) (s.resultLocal i) })

/-- A copy of `n` elements, in order. -/
def elements (n : ℕ) (op : ℕ → Operation RowLocal GlobalMemory) :
    List (Operation RowLocal GlobalMemory) := (List.range n).map op

/-- The operations of one row, from copy-in to copy-out. -/
def rowOps (plat : Platform) (batchIdx : Word) : List (Operation RowLocal GlobalMemory) :=
  let offset := (rowOffset batchIdx).val
  elements SEQ_LEN (copyMiss offset) ++ elements SEQ_LEN (copyAvail offset) ++
    elements SEQ_LEN (copyIdx offset) ++ [computeRow plat] ++ elements SEQ_LEN (copyResult offset)

/-- The operations of block `b`, row after row. -/
def blockOps (plat : Platform) (t : CacheMissTopkTilingData) (b : ℕ) :
    List (Operation RowLocal GlobalMemory) :=
  (process t (Word.ofResult b true)).flatMap (rowOps plat)

/-- A launch about to run: every block has all its operations left, and local
    tensors with any contents. -/
def launchMachine (plat : Platform) (l : KernelLaunch) (locals : ℕ → RowLocal)
    (gm : GlobalMemory) : Machine ℕ RowLocal GlobalMemory where
  shared := gm
  locals := locals
  rest := fun b => if b < l.blockDim.val then blockOps plat l.tiling b else []

end AscendKernel
