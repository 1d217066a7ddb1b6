import AscendKernel.Core.Tensor

/-!
# Pooled Sizes

The size computation of `avg_pool3d`, the repository's second operator: which
arguments are accepted, and the shape of the result.

Everything here is `int64_t` arithmetic, except that the sizes of the input
pass through an `int` on the way. Signed arithmetic wraps in the model, as it
does on the hosts the code runs on, the quotient of the least number by -1
included; division rounds toward zero, as in C++.

The three spatial axes are treated alike, so what the source writes out for
`d`, `h` and `w` is written once here, for an `Axis`. The order of the three is
kept where it can be seen, in the order of the checks.

The argument lists arrive as an `ArrayRef` each. Its `operator[]` does not
check bounds in a release build, so a read past the end finds whatever lies
behind the list, `ArrayRef.inMemory`. To tell which lists that happens to, the
same computation can be run on lists whose bounds are watched,
`ArrayRef.ofList`. There a read past the end is an outcome of its own, told
apart from a failed check.

## Main definitions

* `Axis`: The three spatial axes.
* `PoolFailure`: How the computation can stop without a shape.
* `ceilDiv`: Division rounded up, as the source has it.
* `selfSize`: An axis of the input, cut to an `int`.
* `pooledSize`, `correctedSize`: The size of one axis, and its correction.
* `avgPool3dNpuOutputSize`: The checks on triples, and the result's shape.
* `ArrayRef`: An argument list, with its bounds watched or not.
* `readTriple`: A list of one or three read as a triple.
* `calcAvgPool3dOutputSizeOf`: The checks on the arguments as they arrive.
* `calcAvgPool3dOutputSize`: The same with the bounds of the lists watched.
-/

namespace AscendKernel

/-- The three spatial axes. -/
inductive Axis where
  | d
  | h
  | w
  deriving DecidableEq

namespace Axis

def index : Axis → ℕ
  | d => 0
  | h => 1
  | w => 2

/-- A value for each axis. -/
def triple {α : Type} (x y z : α) : Axis → α
  | d => x
  | h => y
  | w => z

/-- The three values in order. -/
def list {α : Type} (f : Axis → α) : List α := [f d, f h, f w]

end Axis

/-- How the size computation can stop without a shape. -/
inductive PoolFailure where
  | torchCheck (msg : String)
  | outOfRange
  deriving DecidableEq

/-- `TORCH_CHECK` in the size computation. -/
def poolCheck (cond : Bool) (msg : String) : Except PoolFailure Unit :=
  if cond = true then .ok () else .error (.torchCheck msg)

/-- `self.size(-3)`, `self.size(-2)` and `self.size(-1)`. -/
def spatialSize (self : Tensor) (a : Axis) : ℕ := self.size (self.dim - 3 + a.index)

/-- `int self_d = self.size(-3)`, and so for the other axes: the size is cut to
    32 bits. -/
def selfSize (self : Tensor) (a : Axis) : Int32 := Int32.ofNat (spatialSize self a)

def ceilDiv (value factor : Int64) : Int64 :=
  -- Not reached from here: strides of zero are rejected first.
  if factor = 0 then 0
  else if value % factor = 0 then value / factor
  else value / factor + 1

/-- `self_d + 2 * padding[0] - kernel_size[0]`, and so for the other axes. -/
def poolSpan (self_x : Int32) (kernel padding : Int64) : Int64 :=
  self_x.toInt64 + 2 * padding - kernel

/-- `kernel_d` of the source, and so for the other axes. -/
def pooledSize (ceil_mode : Bool) (self_x : Int32) (kernel stride padding : Int64) : Int64 :=
  if ceil_mode = true then ceilDiv (poolSpan self_x kernel padding) stride + 1
  else poolSpan self_x kernel padding / stride + 1

/-- The correction made in ceil mode, after the sizes have been checked. -/
def correctedSize (ceil_mode : Bool) (kernel_x : Int64) (self_x : Int32) (stride padding : Int64) :
    Int64 :=
  if ceil_mode = true then
    -- The last window would start past the padded input.
    if (kernel_x - 1) * stride ≥ self_x.toInt64 + padding then kernel_x - 1 else kernel_x
  else kernel_x

/-- An entry of a list whose length has been checked. -/
def entry (xs : List Int64) (a : Axis) : Int64 := xs.getD a.index 0

/-- `avg_pool3d_npu_output_size`. -/
def avgPool3dNpuOutputSize (self : Tensor) (kernel_size stride padding : List Int64)
    (ceil_mode : Bool) : Except PoolFailure (List Int64) := do
  poolCheck (self.dim == 4 || self.dim == 5) "tensor self's dimension must be 4 or 5"
  poolCheck (kernel_size.length == 3) "kernel_size length should be 3"
  poolCheck (stride.length == 3) "stride length should be 3"
  -- One product of three `int64_t`.
  poolCheck (decide (entry stride .d * entry stride .h * entry stride .w ≠ 0))
    "stride should not contain zero"
  poolCheck (padding.length == 3) "padding length should be 3"
  -- What is checked is the size before its correction.
  let kernel_x := fun a =>
    pooledSize ceil_mode (selfSize self a) (entry kernel_size a) (entry stride a) (entry padding a)
  poolCheck (decide (0 < kernel_x .d))
    ("kernel_d has to be positive, but got " ++ toString (kernel_x .d))
  poolCheck (decide (0 < kernel_x .h))
    ("kernel_h has to be positive, but got " ++ toString (kernel_x .h))
  poolCheck (decide (0 < kernel_x .w))
    ("kernel_w has to be positive, but got " ++ toString (kernel_x .w))
  let output_x := fun a =>
    correctedSize ceil_mode (kernel_x a) (selfSize self a) (entry stride a) (entry padding a)
  if self.dim == 4 then
    return Int64.ofNat (self.size 0) :: Axis.list output_x
  else
    return Int64.ofNat (self.size 0) :: Int64.ofNat (self.size 1) :: Axis.list output_x

/-- An `ArrayRef`: how many entries it has, and what its `operator[]` comes
    to. -/
structure ArrayRef where
  size : ℕ
  get : ℕ → Except PoolFailure Int64

namespace ArrayRef

/-- A list whose bounds are watched. -/
def ofList (xs : List Int64) : ArrayRef where
  size := xs.length
  get := fun i => xs[i]?.elim (.error .outOfRange) .ok

/-- A list in memory, with what a read past its end finds. -/
def inMemory (xs : List Int64) (behind : ℕ → Int64) : ArrayRef where
  size := xs.length
  get := fun i => .ok (xs.getD i (behind i))

def empty (x : ArrayRef) : Bool := x.size == 0

end ArrayRef

/-- A list read as a triple: the first entry stands for all three when it is
    the only one. -/
def readTriple (x : ArrayRef) : Except PoolFailure (Axis → Int64) := do
  let x_d ← x.get 0
  let x_h ← if x.size = 1 then .ok x_d else x.get 1
  let x_w ← if x.size = 1 then .ok x_d else x.get 2
  return Axis.triple x_d x_h x_w

/-- The strides default to the kernel, axis by axis. -/
def readStride (k : Axis → Int64) (stride : ArrayRef) : Except PoolFailure (Axis → Int64) :=
  if stride.empty = true then .ok k else readTriple stride

/-- `calc_avg_pool3d_output_size`. -/
def calcAvgPool3dOutputSizeOf (self : Tensor) (kernel_size stride padding : ArrayRef)
    (ceil_mode : Bool) : Except PoolFailure (List Int64) := do
  poolCheck (!kernel_size.empty)
    "kernel_size must either be a single int, or a tuple of three ints"
  let k ← readTriple kernel_size
  let s ← readStride k stride
  -- The strides are checked before the padding is read.
  poolCheck (decide (s .d ≠ 0 ∧ s .h ≠ 0 ∧ s .w ≠ 0)) "stride should not be zero"
  let pad ← readTriple padding
  poolCheck (decide (0 ≤ pad .d ∧ 0 ≤ pad .h ∧ 0 ≤ pad .w)) "pad should not be less than 0"
  poolCheck (decide (pad .d ≤ k .d / 2 ∧ pad .h ≤ k .h / 2 ∧ pad .w ≤ k .w / 2))
    "pad should be smaller than or equal to half of kernel size"
  avgPool3dNpuOutputSize self (Axis.list k) (Axis.list s) (Axis.list pad) ceil_mode

/-- `calc_avg_pool3d_output_size`, with the bounds of its lists watched. -/
def calcAvgPool3dOutputSize (self : Tensor) (kernel_size stride padding : List Int64)
    (ceil_mode : Bool) : Except PoolFailure (List Int64) :=
  calcAvgPool3dOutputSizeOf self (.ofList kernel_size) (.ofList stride) (.ofList padding) ceil_mode

end AscendKernel
