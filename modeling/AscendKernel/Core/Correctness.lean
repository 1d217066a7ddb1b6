import AscendKernel.Core.Reference
import AscendKernel.Library.ListRow
import Mathlib.Data.Rat.Defs

/-!
# The Correctness Test

The test that runs the operator and its reference on the same inputs and
compares what they leave.

The inputs are drawn at random, with a given share of hits. One permutation of
the token range is cut into three pieces: tokens that are in the new row and
in the old one, tokens only in the new row, and as many only in the old one.
Each row is then shuffled on its own, stored from position 0 on, and padded
with -1; the old row stores codes instead of tokens.

Nothing is assumed of the random number generator but that `torch.randperm`
returns permutations. The number of hits is rounded from a product in floating
point, and nothing is assumed of that either, since it is clamped afterwards.

A run stops when a check of the generator fails, when torch refuses a shape,
or when the operator fails.

## Main definitions

* `Draws`: The permutations drawn for one request.
* `requestTokens`: The tokens of its new and its old row.
* `generateTopkPairWithHitRate`: The inputs of one case.
* `ascendImpl`: The operator on those inputs.
* `testCorrectness`: One case.
* `runCorrectnessMatrix`: All cases, up to the first that fails.
* `benchmark`: The calls one provider is timed on.
-/

namespace AscendKernel

/-- `FIXED_TOPK`. -/
def FIXED_TOPK : ℤ := 2048

/-- `MAX_NUM_REQS`. -/
def MAX_NUM_REQS : ℕ := 128

/-- `STOP_ON_CORRECTNESS_FAIL`. -/
def STOP_ON_CORRECTNESS_FAIL : Bool := true

/-- `WARMUP_ITERS`. -/
def WARMUP_ITERS : ℕ := 10

/-- `BENCH_ITERS`. -/
def BENCH_ITERS : ℕ := 100

/-- A Python float: its value, and how a string shows it. -/
structure PyFloat where
  value : ℚ
  text : String

/-- What stops a test: a `ValueError` of its own, an exception of torch, or a
    failure of the operator. -/
inductive TestFailure where
  | valueError (text : String)
  | torch
  | operator (failure : Failure)
  deriving DecidableEq

/-- `raise ValueError(text)` unless the condition holds. -/
def valueCheck (cond : Bool) (text : String) : Except TestFailure Unit :=
  if cond = true then .ok () else .error (.valueError text)

/-- The permutations drawn for one request: of the token range, and of the
    positions of its new and of its old row. -/
structure Draws (max_value actual_topk : ℕ) where
  perm : List ℕ
  new_order : List ℕ
  old_order : List ℕ
  perm_perm : perm.Perm (List.range max_value)
  new_perm : new_order.Perm (List.range actual_topk)
  old_perm : old_order.Perm (List.range actual_topk)

/-- What a seed draws, request by request. -/
abbrev Rng : Type := (max_value actual_topk : ℕ) → ℕ → Draws max_value actual_topk

/-- The pair of tensors a case starts from; `topk` is the width of both. -/
structure Inputs where
  batch_size : ℕ
  topk : ℕ
  topk_indices : ℕ → ℕ → Int32
  last_step_topk_indices : ℕ → ℕ → Int64

/-- `_validate_case_config`. -/
def validateCaseConfig (num_reqs topk max_value : ℤ) : Except TestFailure Unit := do
  valueCheck (decide (num_reqs ≤ MAX_NUM_REQS))
    s!"num_reqs={num_reqs} exceeds MAX_NUM_REQS={MAX_NUM_REQS}"
  valueCheck (decide (0 < topk)) s!"topk must be positive, got {topk}"
  valueCheck (decide (0 < max_value)) s!"max_value must be positive, got {max_value}"

/-- `max(0, topk - num_neg_ones)`. -/
def actualTopk (topk num_neg_ones : ℤ) : ℤ := max 0 (topk - num_neg_ones)

/-- The number of hits. `rounded` stands for `int(round(actual_topk * hit_rate))`,
    where the product is one of floats. -/
def hitCount (rounded : ℤ → ℚ → ℤ) (actual_topk : ℤ) (hit_rate : PyFloat) : ℤ :=
  max 0 (min (rounded actual_topk hit_rate.value) actual_topk)

/-- `actual_topk + miss_count`. -/
def requiredUnique (actual_topk hit_count : ℤ) : ℤ :=
  let miss_count := actual_topk - hit_count
  actual_topk + miss_count

/-- The tokens of the new and of the old row of a request, by `tensor[order]`
    in the order of their positions. -/
def requestTokens {max_value actual_topk : ℕ} (d : Draws max_value actual_topk)
    (hit_count required_unique : ℕ) : List ℕ × List ℕ :=
  let raw_new_tokens := d.perm.take actual_topk
  let hit_tokens := raw_new_tokens.take hit_count
  let old_extra_tokens := (d.perm.take required_unique).drop actual_topk
  let raw_old_tokens := hit_tokens ++ old_extra_tokens
  if 0 < actual_topk then
    (gather 0 raw_new_tokens d.new_order, gather 0 raw_old_tokens d.old_order)
  else (raw_new_tokens, raw_old_tokens)

/-- The rows written for the requests, from the tokens of each. Rows without
    a request stay at -1. -/
def writeRows (batch_size topk : ℕ) (tokens : ℕ → List ℕ × List ℕ) : Inputs where
  batch_size := batch_size
  topk := topk
  topk_indices := fun req_id i =>
    if req_id < batch_size then
      listRow (-1) ((tokens req_id).1.map fun t => (Int64.ofNat t).toInt32) i
    else -1
  last_step_topk_indices := fun req_id i =>
    if req_id < batch_size then
      let req_id_offset := req_id * (1 <<< 16)
      listRow (-1) ((tokens req_id).2.map fun t => Int64.ofNat t + Int64.ofNat req_id_offset) i
    else -1

/-- `generate_topk_pair_with_hit_rate`, once its seed is set. -/
def generateTopkPairWithHitRate (rounded : ℤ → ℚ → ℤ) (rng : Rng)
    (batch_size topk max_value : ℤ) (hit_rate : PyFloat) (num_neg_ones : ℤ) :
    Except TestFailure Inputs := do
  validateCaseConfig batch_size topk max_value
  let shown := hit_rate.text
  valueCheck (decide (0 ≤ hit_rate.value ∧ hit_rate.value ≤ 1))
    s!"hit_rate must be in [0, 1], got {shown}"
  let actual_topk := actualTopk topk num_neg_ones
  let hit_count := hitCount rounded actual_topk hit_rate
  let required_unique := requiredUnique actual_topk hit_count
  valueCheck (decide (required_unique ≤ max_value))
    ("max_value is too small for requested hit_rate: " ++
      s!"need at least {required_unique}, got {max_value}")
  -- `torch.full` has no negative dimension, and a row takes at most `topk` tokens.
  if batch_size < 0 ∨ (0 < batch_size ∧ topk < actual_topk) then throw .torch
  return writeRows batch_size.toNat topk.toNat fun req_id =>
    requestTokens (rng max_value.toNat actual_topk.toNat req_id) hit_count.toNat
      required_unique.toNat

/-- `torch.arange(MAX_NUM_REQS)`. -/
def reqIdsTensor (r : ℕ) : Int64 := Int64.ofNat r

/-- The inputs, as the call they make. -/
def Inputs.call (i : Inputs) : Call where
  numReqs := i.batch_size
  topkIndices := i.topk_indices
  numIds := MAX_NUM_REQS
  reqIds := reqIdsTensor

/-- `ascend_impl`: what the operator leaves in both tensors. -/
def ascendImpl (plat : Platform) (i : Inputs) :
    Except TestFailure ((ℕ → ℕ → Int32) × (ℕ → ℕ → Int64)) :=
  match getCacheMissTopkIndices plat (.long (contiguous1 MAX_NUM_REQS reqIdsTensor))
    { topk_indices := .int (contiguous2 i.batch_size i.topk i.topk_indices)
      last_step_topk_indices :=
        .long (contiguous2 MAX_NUM_REQS i.topk i.last_step_topk_indices) } with
  | (.error e, _) => .error (.operator e)
  | (.ok (), caller) =>
    .ok (caller.topk_indices.readInt, caller.last_step_topk_indices.readLong)

/-- `pytorch_reference` on the inputs. -/
def referenceImpl (i : Inputs) : Except TestFailure ((ℕ → ℕ → Int32) × (ℕ → ℕ → Int64)) :=
  match pytorchReference i.topk MAX_NUM_REQS i.call i.last_step_topk_indices with
  | none => .error .torch
  | some out => .ok out

/-- `torch.allclose` without tolerance, on matrices of integers. -/
def allclose {α : Type} [DecidableEq α] (rows cols : ℕ) (a b : ℕ → ℕ → α) : Bool :=
  (List.range rows).all fun r => (List.range cols).all fun i => decide (a r i = b r i)

/-- `test_correctness`: whether both leave the same. -/
def testCorrectness (plat : Platform) (rounded : ℤ → ℚ → ℤ) (rng : ℕ → Rng)
    (num_reqs topk max_value : ℤ) (hit_rate : PyFloat) : Except TestFailure Bool := do
  let i ← generateTopkPairWithHitRate rounded (rng 42) num_reqs topk max_value hit_rate 256
  let pt ← referenceImpl i
  let asc ← ascendImpl plat i
  let result_match := allclose i.batch_size i.topk pt.1 asc.1
  let last_step_match := allclose MAX_NUM_REQS i.topk pt.2 asc.2
  return result_match && last_step_match

/-- The cases of a matrix, one after the other, from what the earlier ones
    came to. -/
def runCases {γ : Type} (test : γ → Except TestFailure Bool) :
    Bool → List γ → Except TestFailure Bool
  | all_passed, [] => .ok all_passed
  | all_passed, c :: cs => do
    let passed ← test c
    if (!passed && STOP_ON_CORRECTNESS_FAIL) = true then return false
    runCases test (all_passed && passed) cs

/-- The cases of a matrix: a token range, a hit rate and a number of requests
    each. -/
def matrixCases (num_reqs_list max_values : List ℤ) (hit_rates : List PyFloat) :
    List (ℤ × PyFloat × ℤ) :=
  max_values.flatMap fun max_value => hit_rates.flatMap fun hit_rate =>
    num_reqs_list.map fun num_reqs => (max_value, hit_rate, num_reqs)

/-- `run_correctness_matrix`. -/
def runCorrectnessMatrix (plat : Platform) (rounded : ℤ → ℚ → ℤ) (rng : ℕ → Rng)
    (num_reqs_list max_values : List ℤ) (hit_rates : List PyFloat) : Except TestFailure Bool :=
  runCases (fun c => testCorrectness plat rounded rng c.2.2 FIXED_TOPK c.1 c.2.1) true
    (matrixCases num_reqs_list max_values hit_rates)

/-- `_make_benchmark_inputs`: fewer and fewer empty slots, a seed each. -/
def makeBenchmarkInputs (rounded : ℤ → ℚ → ℤ) (rng : ℕ → Rng) (num_reqs topk max_value : ℤ)
    (hit_rate : PyFloat) : Except TestFailure (List Inputs) :=
  (List.range (WARMUP_ITERS + BENCH_ITERS)).mapM fun (iter_idx : ℕ) =>
    let num_neg_ones := max 0 (256 - (iter_idx : ℤ))
    generateTopkPairWithHitRate rounded (rng (1000 + iter_idx)) num_reqs topk max_value hit_rate
      num_neg_ones

/-- What a benchmark times. -/
inductive Provider where
  | ascend
  | pytorch
  deriving DecidableEq

/-- A provider on one pair of inputs. -/
def Provider.impl (plat : Platform) :
    Provider → Inputs → Except TestFailure ((ℕ → ℕ → Int32) × (ℕ → ℕ → Int64))
  | ascend => ascendImpl plat
  | pytorch => referenceImpl

/-- `benchmark`: the calls it makes, and what each leaves. -/
def benchmark (plat : Platform) (rounded : ℤ → ℚ → ℤ) (rng : ℕ → Rng)
    (num_reqs topk max_value : ℤ) (hit_rate : PyFloat) (provider : Provider) :
    Except TestFailure (List ((ℕ → ℕ → Int32) × (ℕ → ℕ → Int64))) := do
  let inputs ← makeBenchmarkInputs rounded rng num_reqs topk max_value hit_rate
  inputs.mapM (provider.impl plat)

end AscendKernel
