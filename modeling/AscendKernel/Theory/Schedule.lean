import AscendKernel.Theory.Launch

/-!
# Schedules of a Launch

The order in which rows are processed, and how often, does not show in the
mask.

The model runs the blocks of a launch one after the other, and each block its
rows in order. On the device the blocks run side by side, and nothing but the
tiling keeps a row from being processed twice. `foldl_avail` already says what
a row holds after any list of row executions, and the list enters there only
through which rows are on it. Two lists with the same rows therefore leave the
same mask, and `foldl_schedule` states this for the lists that miss no row,
against the one that runs each row once from the first to the last.

A row's number is a word, so past `2 ^ 21` rows several of them share a stretch
of memory. That is no exception: sharing a stretch is processing it again.

## Theorems

* `foldl_avail_congr`: Lists of rows that land on the same stretches.
* `foldl_schedule`: Any schedule against each row once in increasing order.
-/

namespace AscendKernel

/-- Lists of rows that land on the same stretches leave the same mask. -/
theorem foldl_avail_congr (plat : Platform) (gm : GlobalMemory) (vs ws : List Word)
    (h : ∀ q, q ∈ vs.map (fun v => v.val % 2 ^ 21) ↔ q ∈ ws.map (fun v => v.val % 2 ^ 21)) :
    (vs.foldl (processBatch plat) gm).availMaskGm
      = (ws.foldl (processBatch plat) gm).availMaskGm := by
  refine rowAt_ext _ _ (fun q i hi => ?_)
  rw [foldl_avail plat vs gm q i hi, foldl_avail plat ws gm q i hi]
  by_cases hq : q ∈ vs.map (fun v => v.val % 2 ^ 21)
  · rw [if_pos hq, if_pos ((h q).mp hq)]
  · rw [if_neg hq, if_neg (fun hw => hq ((h q).mpr hw))]

/-- Row executions in any order and with any repetitions leave the mask that
    executing each row once in increasing order leaves, as long as every row
    is executed. -/
theorem foldl_schedule (plat : Platform) (gm : GlobalMemory) (B : ℕ) (rs : List ℕ)
    (hrow : ∀ r ∈ rs, r < B) (hall : ∀ r < B, r ∈ rs) :
    ((rs.map fun r => Word.ofResult r true).foldl (processBatch plat) gm).availMaskGm
      = (((List.range B).map fun r => Word.ofResult r true).foldl (processBatch plat)
          gm).availMaskGm := by
  have hmem : ∀ r, r ∈ rs ↔ r ∈ List.range B := by
    intro r
    rw [List.mem_range]
    exact ⟨hrow r, hall r⟩
  refine foldl_avail_congr plat gm _ _ (fun q => ?_)
  simp only [List.mem_map, hmem]

/-- Three rows, each with two tokens to load and one slot, met out of order and
    some of them again. -/
theorem foldl_schedule_three_rows :
    let gm := launchMemory SEQ_LEN (fun _ i => decide (i < 2)) (fun _ i => decide (i = 0))
      (fun _ _ => (-1 : Int64))
    let run := fun rs : List ℕ =>
      ((rs.map fun r => Word.ofResult r true).foldl (processBatch Platform.singleCore)
        gm).availMaskGm
    run [2, 0, 1, 0, 2] = run [0, 1, 2] :=
  foldl_schedule Platform.singleCore _ 3 [2, 0, 1, 0, 2]
    (by simp) (by decide)

end AscendKernel
