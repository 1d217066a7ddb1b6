import AscendKernel.Core.Step

/-!
# The PyTorch Reference

`pytorch_reference` of the tests, the operator spelled in tensor operations.

It takes the codes and the two set differences as the host does; from there on
nothing is shared. The shortage is signed. The empty slots are numbered by a
cumulative sum along the row and selected all at once, where the kernel walks
the row with a counter. There is a single indexed assignment, into the fresh
codes, and the buffer copies its slots from the result.

An indexed assignment is stricter than a scatter, and looser. The values have
to be as many as the true positions of the index mask, not only enough of
them; but a single value is spread over any number of positions.

The row width is a parameter, as it is in the test. The tensors of a call are
the ones the operator is given.

## Main definitions

* `selectedEmptySlotMask`: The empty slots taken to make up a shortage.
* `filledSlotMask`: The slot mask with those.
* `indexPut`: An indexed assignment through a mask.
* `leadingIds`: The request ids, one per row.
* `pytorchReference`: The reference.
-/

namespace AscendKernel

/-- `(empty_slot_cumsum <= num_shortage_slot) & empty_slot_mask`. -/
def selectedEmptySlotMask (K : ℕ) (cache_miss_token_mask available_slot_mask : ℕ → ℕ → Bool)
    (topk_indices_old : ℕ → ℕ → Int64) (r i : ℕ) : Bool :=
  let num_tokens_to_load := countTrue (cache_miss_token_mask r) K
  let num_available_slot := countTrue (available_slot_mask r) K
  let num_shortage_slot : ℤ := num_tokens_to_load - num_available_slot
  let empty_slot_mask := fun j => decide (topk_indices_old r j = -1)
  let empty_slot_cumsum : ℤ := countTrue empty_slot_mask (i + 1)
  decide (empty_slot_cumsum ≤ num_shortage_slot) && empty_slot_mask i

/-- `where(selected_empty_slot_mask, True, available_slot_mask)`. -/
def filledSlotMask (K : ℕ) (cache_miss_token_mask available_slot_mask : ℕ → ℕ → Bool)
    (topk_indices_old : ℕ → ℕ → Int64) (r i : ℕ) : Bool :=
  if selectedEmptySlotMask K cache_miss_token_mask available_slot_mask topk_indices_old r i = true
  then true else available_slot_mask r i

/-- `self[mask] = values` on a flat tensor of `n` elements: the `k`-th true
    position takes the `k`-th value. It raises unless there are as many values
    as true positions, or a single value, which is then spread. -/
def indexPut {α : Type} (self : ℕ → α) (mask : ℕ → Bool) (values : List α) (n : ℕ) :
    Option (ℕ → α) :=
  if values.length = countTrue mask n then
    some fun a => if mask a = true then (values[countTrue mask a]?).getD (self a) else self a
  else
    match values with
    | [x] => some fun a => if mask a = true then x else self a
    | _ => none

/-- `req_ids_tensor[:num_reqs]`, broadcast over `num_reqs` rows. -/
def leadingIds (num_reqs numIds : ℕ) (req_ids : ℕ → Int64) : Option (ℕ → Int64) :=
  if min num_reqs numIds = num_reqs then some req_ids
  else if min num_reqs numIds = 1 then some fun _ => req_ids 0
  else none

/-- `pytorch_reference` on the tensors of a call and a buffer of `N` rows: the
    tensor it returns, and the buffer it leaves. It raises when an assertion
    fails or a shape does not fit. -/
def pytorchReference (K N : ℕ) (c : Call) (last_step : ℕ → ℕ → Int64) :
    Option ((ℕ → ℕ → Int32) × (ℕ → ℕ → Int64)) :=
  match leadingIds c.numReqs c.numIds c.reqIds with
  | none => none
  | some req_ids =>
    -- `assert a.shape == b.shape`: the slice has as many rows as are left.
    if min c.numReqs N ≠ c.numReqs then none
    else
      let topk_indices_new := topkIndicesNew c.topkIndices req_ids
      let cache_miss_token_mask := getSetDiffMask K topk_indices_new last_step
      let available_slot_mask := filledSlotMask K cache_miss_token_mask
        (getSetDiffMask K last_step topk_indices_new) last_step
      let topk_indices_to_load_flattened :=
        maskedSelect (rowMajor K cache_miss_token_mask) (rowMajor K topk_indices_new)
          (c.numReqs * K)
      (indexPut (fun _ => -1) (rowMajor K available_slot_mask) topk_indices_to_load_flattened
        (c.numReqs * K)).map fun flat =>
        let topk_indices_new := fun r i => flat (r * K + i)
        let last_step_topk_indices := fun r i =>
          if r < c.numReqs ∧ available_slot_mask r i = true then topk_indices_new r i
          else last_step r i
        (fun r i => (recoverTopk topk_indices_new req_ids r i).toInt32, last_step_topk_indices)

end AscendKernel
