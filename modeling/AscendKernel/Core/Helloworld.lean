import AscendKernel.Core.Tensor
import AscendKernel.Library.BufferQueue
import AscendKernel.Library.Word

/-!
# The Helloworld Operator

`helloworld`, which adds two tensors element by element.

The host multiplies the sizes of `x` in 32 bits and launches eight blocks. Each
block has a stretch of the tensors, works out a tile from its length, and goes
through its tiles with three stages. `CopyIn` brings a tile of `x` and of `y`
into the buffers of two queues, `Compute` takes them out and puts the sums in a
buffer of a third, and `CopyOut` takes that out and copies it to `z`.

The stages are lists of queue operations rather than functions, because on the
device each stage has a unit of its own. `process` issues the stages in order,
tile after tile, but a unit only waits for the queues, so that a tile can be
copied in while the one before it is being added. `launch` runs the operations
in the order they are issued, and `launchThreads` has the units of all blocks
side by side. A stage that cannot go ahead waits.

A `DataCopy` moves whole units of memory and rounds its count down to them. How
many elements make a unit is the platform's, so it is a parameter. Elements are
of any type, with the device's addition. `z` is a fresh tensor, and its memory
can contain anything.

## Main definitions

* `Helloworld.Kernel`, `Helloworld.init`: What a block works out at the start.
* `Helloworld.copyIn`, `Helloworld.compute`, `Helloworld.copyOut`: The stages.
* `Helloworld.process`, `Helloworld.program`: What is issued, and to which unit.
* `Helloworld.launch`: All of it in order, block after block.
* `Helloworld.launchThreads`: All units of all blocks, about to run.
* `helloworld`: The operator.
-/

namespace AscendKernel

namespace Helloworld

/-- The buffers of each queue. -/
def BUFFER_NUM : ℕ := 2

/-- The lengths a block works with. -/
structure Kernel where
  blockLength : Word
  tileNum : Word
  tileLength : Word

/-- `Init`, apart from the queues. -/
def init (totalLength blockNum : Word) : Kernel :=
  let blockLength := totalLength / blockNum
  let tileNum : Word := 8
  { blockLength := blockLength
    tileNum := tileNum
    tileLength := blockLength / tileNum / Word.ofResult BUFFER_NUM true }

/-- The number of tiles of a block. -/
def Kernel.loopCount (k : Kernel) : ℕ := (k.tileNum * Word.ofResult BUFFER_NUM true).val

/-- Where a tile of a block starts in global memory. -/
def Kernel.start (k : Kernel) (blockIdx progress : ℕ) : ℕ :=
  k.blockLength.val * blockIdx + (Word.ofResult progress true * k.tileLength).val

/-- The elements a `DataCopy` of a tile moves: whole units only. -/
def Kernel.moved (k : Kernel) (unit : ℕ) : ℕ := k.tileLength.val / unit * unit

/-- The queues of a block. -/
structure Queues (α : Type) where
  inQueueX : BufferQueue α
  inQueueY : BufferQueue α
  outQueueZ : BufferQueue α

/-- A launch in progress: the queues of every block, and the memory of `z`. -/
structure State (α : Type) where
  queues : ℕ → Queues α
  zGm : ℕ → α

/-- The three units of a block, one for each stage. -/
inductive Stage where
  | copyIn
  | compute
  | copyOut
  deriving DecidableEq

section Operations

variable {α : Type}

def Queues.x : Component (Queues α) (BufferQueue α) where
  get := Queues.inQueueX
  set := fun k q => { k with inQueueX := q }
  get_set := fun _ _ => rfl
  set_set := fun _ _ _ => rfl

def Queues.y : Component (Queues α) (BufferQueue α) where
  get := Queues.inQueueY
  set := fun k q => { k with inQueueY := q }
  get_set := fun _ _ => rfl
  set_set := fun _ _ _ => rfl

def Queues.z : Component (Queues α) (BufferQueue α) where
  get := Queues.outQueueZ
  set := fun k q => { k with outQueueZ := q }
  get_set := fun _ _ => rfl
  set_set := fun _ _ _ => rfl

/-- The queues of one block. -/
def State.block (b : ℕ) : Component (State α) (Queues α) where
  get := fun s => s.queues b
  set := fun s k => { s with queues := Function.update s.queues b k }
  get_set := fun s k => Function.update_self b k s.queues
  set_set := fun s k k' => by
    dsimp only
    rw [Function.update_idem]

/-- An operation on a queue of one block. -/
def onQueue (b : ℕ) (c : Component (Queues α) (BufferQueue α))
    (f : BufferQueue α → Option (BufferQueue α)) : State α → Option (State α) :=
  (State.block b).lift (c.lift f)

/-- `AscendC::Add(zLocal, xLocal, yLocal, n)`. -/
def addLocal (add : α → α → α) (n : ℕ) (k : Queues α) : Option (Queues α) := do
  let xLocal ← k.inQueueX.read
  let yLocal ← k.inQueueY.read
  Queues.z.lift (BufferQueue.write (fill n (fun j => add (xLocal j) (yLocal j)))) k

/-- `AscendC::DataCopy(zGm[..], zLocal, n)`. -/
def storeZ (b offset n : ℕ) (s : State α) : Option (State α) := do
  let zLocal ← (s.queues b).outQueueZ.read
  some { s with zGm := fillFrom offset n zLocal s.zGm }

end Operations

section Stages

variable {α : Type} (add : α → α → α) (unit : ℕ) (k : Kernel) (x y : ℕ → α)

/-- `CopyIn`. -/
def copyIn (b progress : ℕ) : List (State α → Option (State α)) :=
  let offset := k.start b progress
  [ onQueue b Queues.x BufferQueue.allocTensor,
    onQueue b Queues.y BufferQueue.allocTensor,
    onQueue b Queues.x (BufferQueue.write (fill (k.moved unit) (fun j => x (offset + j)))),
    onQueue b Queues.y (BufferQueue.write (fill (k.moved unit) (fun j => y (offset + j)))),
    onQueue b Queues.x BufferQueue.enQue,
    onQueue b Queues.y BufferQueue.enQue ]

/-- `Compute`. -/
def compute (b : ℕ) : List (State α → Option (State α)) :=
  [ onQueue b Queues.x BufferQueue.deQue,
    onQueue b Queues.y BufferQueue.deQue,
    onQueue b Queues.z BufferQueue.allocTensor,
    (State.block b).lift (addLocal add k.tileLength.val),
    onQueue b Queues.z BufferQueue.enQue,
    onQueue b Queues.x BufferQueue.freeTensor,
    onQueue b Queues.y BufferQueue.freeTensor ]

/-- `CopyOut`. -/
def copyOut (b progress : ℕ) : List (State α → Option (State α)) :=
  [ onQueue b Queues.z BufferQueue.deQue,
    storeZ b (k.start b progress) (k.moved unit),
    onQueue b Queues.z BufferQueue.freeTensor ]

/-- `Process`: the stages of a block as the program issues them, tile after
    tile, each to its unit. -/
def process (b : ℕ) : List ((ℕ × Stage) × List (State α → Option (State α))) :=
  (List.range k.loopCount).flatMap fun progress =>
    [ ((b, .copyIn), copyIn unit k x y b progress),
      ((b, .compute), compute add k b),
      ((b, .copyOut), copyOut unit k b progress) ]

/-- All blocks of a launch. -/
def program (blockDim : Word) : List ((ℕ × Stage) × List (State α → Option (State α))) :=
  (List.range blockDim.val).flatMap (process add unit k x y)

/-- Run a launch in the order of the program, block after block. -/
def launch (blockDim : Word) (s : State α) : Option (State α) :=
  runAll ((program add unit k x y blockDim).flatMap fun p => p.2) s

/-- A launch about to run with the units of all blocks side by side. -/
def launchThreads (blockDim : Word) (s : State α) : Threads (ℕ × Stage) (State α) :=
  Threads.issue (program add unit k x y blockDim) s

end Stages

/-- What the local memory of a block holds before anything is written to it. -/
structure Stale (α : Type) where
  inQueueX : ℕ → ℕ → α
  inQueueY : ℕ → ℕ → α
  outQueueZ : ℕ → ℕ → α

/-- `InitBuffer` on every queue of every block, with fresh memory for `z`. -/
def State.init {α : Type} (stale : ℕ → Stale α) (z : ℕ → α) : State α where
  queues := fun b =>
    { inQueueX := BufferQueue.init BUFFER_NUM (stale b).inQueueX
      inQueueY := BufferQueue.init BUFFER_NUM (stale b).inQueueY
      outQueueZ := BufferQueue.init BUFFER_NUM (stale b).outQueueZ }
  zGm := z

/-- The blocks of a launch. -/
def blockDim : Word := 8

/-- The sizes of `x` multiplied in 32 bits. -/
def totalLength (sizes : List ℕ) : Word :=
  sizes.foldl (fun total size => total * Word.ofResult size true) 1

end Helloworld

/-- The `helloworld` operator. `z` is the tensor `at::empty_like` returns, with
    whatever its memory contains. -/
def helloworld {α : Type} (add : α → α → α) (unit : ℕ)
    (stale : ℕ → Helloworld.Stale α) (x y z : Strided α) : Option (Strided α) := do
  let totalLength := Helloworld.totalLength x.sizes
  let k := Helloworld.init totalLength Helloworld.blockDim
  let s ← Helloworld.launch add unit k x.dataPtr y.dataPtr Helloworld.blockDim
    (Helloworld.State.init stale z.dataPtr)
  some (z.withDataPtr s.zGm)

end AscendKernel
