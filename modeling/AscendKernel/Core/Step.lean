import AscendKernel.Core.Host

/-!
# Steps over a Buffer

The operator as it is used: one call per step, all on the same buffer.

A call brings its own tokens and request ids, as fresh tensors of the kernel's
row width, and finds the buffer as the previous step left it. What survives a
call is the buffer's values, so the state of a run is a matrix, and running a
call builds the tensors, runs the operator on them and reads the two it wrote.

The buffer starts as all -1, and nothing else ever writes to it. Which rows a
call uses and for which requests is up to its caller; nothing ties a row to
the request it served before.

## Main definitions

* `Call`: The tokens of a step and the requests they belong to.
* `Outcome`: What a completed call leaves.
* `Call.launched`: The memory after the launch of a call.
* `Call.run`: The operator on a call and a buffer.
* `Call.Accepted`: The call passes the checks on entry.
* `Run`: A buffer reached by completed calls.
-/

namespace AscendKernel

/-- The tokens a step asks for, one row per request, and the tensor of request
    ids, which may be longer than there are rows. -/
structure Call where
  numReqs : ℕ
  topkIndices : ℕ → ℕ → Int32
  numIds : ℕ
  reqIds : ℕ → Int64

/-- What a completed call leaves: the tokens to load, slot by slot, and the
    buffer for the next step. -/
structure Outcome where
  topkIndices : ℕ → ℕ → Int32
  buffer : ℕ → ℕ → Int64

/-- The elements of an int32 matrix. -/
def Tensor.readInt : Tensor → ℕ → ℕ → Int32
  | .int t => t.at2
  | _ => fun _ _ => 0

/-- The elements of an int64 matrix. -/
def Tensor.readLong : Tensor → ℕ → ℕ → Int64
  | .long t => t.at2
  | _ => fun _ _ => 0

namespace Call

/-- The token tensor of a call. -/
def topk (c : Call) : Strided Int32 := contiguous2 c.numReqs SEQ_LEN c.topkIndices

/-- The request id tensor of a call. -/
def ids (c : Call) : Strided Int64 := contiguous1 c.numIds c.reqIds

/-- The codes a call asks for. -/
def codes (c : Call) : ℕ → ℕ → Int64 := topkIndicesNew c.topkIndices c.reqIds

/-- The entries of a call's codes the buffer lacks. -/
def miss (c : Call) (buf : ℕ → ℕ → Int64) : ℕ → ℕ → Bool := getSetDiffMask SEQ_LEN c.codes buf

/-- The entries of the buffer a call's codes lack. -/
def avail (c : Call) (buf : ℕ → ℕ → Int64) : ℕ → ℕ → Bool := getSetDiffMask SEQ_LEN buf c.codes

/-- The memory the launch of a call leaves, on a buffer of `N` rows. -/
def launched (c : Call) (plat : Platform) (N : ℕ) (buf : ℕ → ℕ → Int64) :
    Except Failure GlobalMemory :=
  let last := contiguous2 N SEQ_LEN buf
  checkedLaunch plat (.bool (cacheMissTokenMask c.topk last c.ids))
    (.bool (availableSlotMask c.topk last c.ids)) (.long (last.slice0 c.numReqs))

/-- Run the operator on a call and a buffer of `N` rows. -/
def run (c : Call) (plat : Platform) (N : ℕ) (buf : ℕ → ℕ → Int64) : Except Failure Outcome :=
  match getCacheMissTopkIndices plat (.long c.ids)
    { topk_indices := .int c.topk,
      last_step_topk_indices := .long (contiguous2 N SEQ_LEN buf) } with
  | (.error e, _) => .error e
  | (.ok (), caller) =>
    .ok
      { topkIndices := caller.topk_indices.readInt
        buffer := caller.last_step_topk_indices.readLong }

/-- The call passes the checks on entry, for a buffer of `N` rows. -/
def Accepted (c : Call) (N : ℕ) : Prop := c.numReqs ≤ N ∧ c.numReqs ≤ c.numIds

end Call

/-- A buffer reached from all -1 by completed calls, each of which meets
    `P`. -/
inductive Run (plat : Platform) (N : ℕ) (P : Call → Prop) : (ℕ → ℕ → Int64) → Prop where
  | start : Run plat N P fun _ _ => -1
  | step (buf : ℕ → ℕ → Int64) (c : Call) (o : Outcome) (hrun : Run plat N P buf) (hP : P c)
      (hcall : c.run plat N buf = .ok o) : Run plat N P o.buffer

end AscendKernel
