import AscendKernel.Core.AvgPool
import AscendKernel.Core.NpuCommand

/-!
# The Pooling Operator

`avg_pool3d` as a whole: the shape, the tensor for the result, and the command
that has the operator library fill it.

Two of the three can stop the call before the library hears of it. The command
is given the argument lists as they arrived, not the triples the shape was
computed from. Nobody watches their bounds: a list of two is read past its end,
what lies there takes part in the checks and in the shape, and the call goes on.
So a list comes with what lies behind it, which can be anything.

The tensor for the result comes from `empty_with_format`, which is not part of
the repository. It may throw, and what it returns has the sizes and the element
type that were asked for; nothing else is assumed of it.

## Main definitions

* `EmptyWithFormat`: The allocation of the result.
* `ListArgument`: An argument list in memory.
* `PoolCall`, `PoolReply`: A call, and the answers it gets.
* `aclnnAvgPool3d`: The command.
* `avgPool3d`: The operator.
* `avgPool3ds`: Calls one after the other, whether they fail or not.
-/

namespace AscendKernel

/-- `empty_with_format`, as the code relies on it. -/
structure EmptyWithFormat where
  alloc : List Int64 → AtTensor → Except String AtTensor
  /-- Sizes are not negative, and sizes and element type are those asked for. -/
  asked : ∀ size options t, alloc size options = .ok t →
    (∀ n ∈ size, 0 ≤ n) ∧ t.sizes = size.map Int64.toNatClampNeg ∧
      t.scalarType = options.scalarType ∧ t.itemsize = options.itemsize

/-- An argument list in memory: its entries, and what a read past its end
    finds. -/
structure ListArgument where
  entries : List Int64
  behind : ℕ → Int64

def ListArgument.ref (x : ListArgument) : ArrayRef := .inMemory x.entries x.behind

/-- The arguments of `avg_pool3d`, up to those that are passed on unread. -/
structure PoolCall where
  self : AtTensor
  kernel_size : ListArgument
  stride : ListArgument
  padding : ListArgument
  ceil_mode : Bool

/-- The answers to one call: of the allocation, and of the library. -/
structure PoolReply where
  empty : EmptyWithFormat
  reply : Reply

/-- How `avg_pool3d` can fail. -/
inductive AvgPoolFailure where
  | size (e : PoolFailure)
  | empty (msg : String)
  | command (e : NpuFailure)
  deriving DecidableEq

/-- A tensor as the size computation sees it, which reads nothing but sizes. -/
def AtTensor.window (t : AtTensor) : Tensor :=
  .other 0
    { sizes := t.sizes, strides := t.strides, storageOffset := t.storageOffset,
      storage := fun _ => 0 }

/-- The shape of the result. -/
def PoolCall.outputSize (call : PoolCall) : Except PoolFailure (List Int64) :=
  calcAvgPool3dOutputSizeOf call.self.window call.kernel_size.ref call.stride.ref
    call.padding.ref call.ceil_mode

/-- The command `EXEC_NPU_CMD(aclnnAvgPool3d, ...)`. The values are `ceil_mode`,
    `count_include_pad` and `divisor_override`. -/
def aclnnAvgPool3d (call : PoolCall) (result : AtTensor) : Command where
  name := "aclnnAvgPool3d"
  params :=
    [.tensor (some call.self), .intArray (some call.kernel_size.entries),
      .intArray (some call.stride.entries), .intArray (some call.padding.entries), .value, .value,
      .value, .tensor (some result)]

/-- `avg_pool3d`, as the `c`-th call: what it does to the library, and what it
    returns. -/
def avgPool3d (libs : Libraries) (c : ℕ) (call : PoolCall) (reply : PoolReply) :
    List NpuEvent × Except AvgPoolFailure AtTensor :=
  match call.outputSize with
  | .error e => ([], .error (.size e))
  | .ok output_size =>
    match reply.empty.alloc output_size call.self with
    | .error msg => ([], .error (.empty msg))
    | .ok result =>
      let run := execNpuCmd libs c (aclnnAvgPool3d call result) reply.reply
      (run.events, (run.result.map fun _ => result).mapError .command)

/-- Calls one after the other, from the `c`-th on: a caller may catch what a
    call throws and go on with the next. -/
def avgPool3ds (libs : Libraries) (c : ℕ) : List (PoolCall × PoolReply) → List NpuEvent
  | [] => []
  | p :: ps => (avgPool3d libs c p.1 p.2).1 ++ avgPool3ds libs (c + 1) ps

end AscendKernel
