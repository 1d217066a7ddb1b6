import AscendKernel.Core.Host
import AscendKernel.Library.Chunks
import Mathlib.Order.CompletePartialOrder

/-!
# Dividing a Batch among the Cores

The host computes five scalars from the batch size and the number of cores;
the device works its own rows out from them. This is about the two together:
the rows the blocks process, read one block after the other, are the batch.

The host's two divisions both round up, and `Library.Chunks` has what follows
from that over the natural numbers. What is left is that 32-bit arithmetic
computes those numbers. `TilingSpec` collects what each scalar holds, with its
ghost bit, and `hostTiling_spec` proves it by one rule per operation.

There is one place where the arithmetic does wrap inside the bounds the launch
is meant for. The first sum is formed before one is taken away from it, so it
reaches `2 ^ 32` when the batch and the cores together number exactly that.
The decrement wraps back and every value after it is right. The ghost bit
keeps the two apart: it is clear for the whole launch exactly when the first
sum did not wrap, and no later operation ever clears it.

`batchLoop_range` is the device side: with enough of the batch left, a block's
loop runs to its end and never meets its `break`.

## Main definitions

* `TilingSpec`: What the scalars of a launch hold.
* `EachRowOnce`: Every row of the batch is processed by exactly one block.
* `LaunchUnwrapped`: No operation behind a launch wrapped.

## Theorems

* `hostTiling_spec`: The host computes the scalars it should.
* `batchLoop_range`: A block's loop visits consecutive rows.
* `process_chunk`: A block processes its chunk of the batch.
* `launchedBatches_range`: All blocks together process the batch in order.
* `rowOffset_val`: Where a row starts, wrapped or not.
* `hostTiling_eachRowOnce`: Host and device together process every row once.
-/

namespace AscendKernel

open Word (Holds)

/-- A quarter of the word range, in rows: the rows whose offset fits. -/
theorem rows_mul_SEQ_LEN : 2 ^ 21 * SEQ_LEN = 2 ^ 32 := rfl

theorem SEQ_LEN_pos : 0 < SEQ_LEN := by decide

/-- The batches whose elements a word can number have at most `2 ^ 21` rows. -/
theorem rows_le_iff (B : ℕ) : B * SEQ_LEN ≤ 2 ^ 32 ↔ B ≤ 2 ^ 21 := by
  rw [← rows_mul_SEQ_LEN]
  exact Nat.mul_le_mul_right_iff SEQ_LEN_pos

/-- What the scalars of a launch over `B` rows hold when full blocks take `w`
    rows and there are `u` blocks. -/
structure TilingSpec (l : KernelLaunch) (B w u : ℕ) (g : Bool) : Prop where
  blockDim : Holds l.blockDim u g
  batchSize : Holds l.tiling.batchSize B true
  formerNum : Holds l.tiling.formerNum (u - 1) g
  formerLength : Holds l.tiling.formerLength w g
  tailNum : Holds l.tiling.tailNum 1 true
  tailLength : Holds l.tiling.tailLength (B - (u - 1) * w) g
  lastShare : Holds (l.tiling.batchSize - l.tiling.formerNum * l.tiling.formerLength)
    (B - (u - 1) * w) g

/-- The host computes the scalars it should. The ghost bit of all of them is
    that of the first sum. -/
theorem hostTiling_spec (B C : ℕ) (hB : 1 ≤ B) (hC : 1 ≤ C) (hfit : B ≤ 2 ^ 21)
    (hsum : B + C - 1 < 2 ^ 32) :
    ∃ l, hostTiling (Word.ofResult B true) (Word.ofResult C true) = some l ∧
      TilingSpec l B ((B + C - 1) / C) ((B + (B + C - 1) / C - 1) / ((B + C - 1) / C))
        (decide (B + C < 2 ^ 32)) := by
  set w := (B + C - 1) / C with hw
  set u := (B + w - 1) / w with hu
  set g := decide (B + C < 2 ^ 32) with hg
  have hwpos : 1 ≤ w := share_pos B C hB hC
  have hwle : w ≤ B := share_le B C hC
  have hupos : 1 ≤ u := share_pos B w hB hwpos
  have hlast := (last_share B w hB hwpos).1
  rw [← hu] at hlast
  -- The values of the scalars, one operation at a time.
  have hbatch : Holds (Word.ofResult B true) B true := Word.holds_ofResult B true (by omega)
  have hcore : Holds (Word.ofResult C true) C true := Word.holds_ofResult C true (by omega)
  have hone : Holds 1 1 true := Word.holds_ofNat 1 (by norm_num)
  have hper : Holds ((Word.ofResult B true + Word.ofResult C true - 1) / Word.ofResult C true)
      w g := by
    have h := (hbatch.add_pred hcore (by omega) (by omega)).div hcore (by omega)
    simpa only [Bool.true_and, Bool.and_true] using h
  set per := (Word.ofResult B true + Word.ofResult C true - 1) / Word.ofResult C true with hperdef
  have hused : Holds ((Word.ofResult B true + per - 1) / per) u g := by
    have h := (hbatch.add_pred hper (by omega) (by omega)).div hper (by omega)
    rw [decide_eq_true (show B + w < 2 ^ 32 by omega)] at h
    simpa only [Bool.true_and, Bool.and_true, Bool.and_self] using h
  set used := (Word.ofResult B true + per - 1) / per with huseddef
  have hformer : Holds (used - 1) (u - 1) g := by
    simpa only [Bool.and_true] using hused.sub hone hupos
  have hshare : Holds (Word.ofResult B true - (used - 1) * per) (B - (u - 1) * w) g := by
    have h := hbatch.sub (hformer.mul hper (by omega)) (by omega)
    simpa only [Bool.true_and, Bool.and_self] using h
  -- Neither divisor is zero and the fallback for an empty tail is not taken.
  have hcore0 : ¬ (Word.ofResult C true).val = 0 := by rw [hcore.1]; omega
  have hper0 : ¬ per.val = 0 := by rw [hper.1]; omega
  have hfall : ¬ ((Word.ofResult B true - (used - 1) * per).val ≤ 0 ∧ 0 < (used - 1).val) := by
    rw [hshare.1]
    omega
  have hl : hostTiling (Word.ofResult B true) (Word.ofResult C true)
      = some
        { blockDim := used
          tiling :=
            { batchSize := Word.ofResult B true, formerNum := used - 1, formerLength := per,
              tailNum := 1, tailLength := Word.ofResult B true - (used - 1) * per } } := by
    unfold hostTiling
    rw [if_neg hcore0]
    simp only []
    rw [← hperdef, if_neg hper0, ← huseddef, if_neg hfall]
  refine ⟨_, hl, ?_⟩
  exact
    { blockDim := hused, batchSize := hbatch, formerNum := hformer, formerLength := hper,
      tailNum := hone, tailLength := hshare, lastShare := hshare }

/-- A block's loop visits consecutive rows while the batch lasts. The
    induction is on the iterations left. -/
theorem batchLoop_range (batchSize startBatch : Word) (B s : ℕ) (g : Bool)
    (hB : Holds batchSize B true) (hs : Holds startBatch s g) :
    ∀ (n : ℕ) (b : Word) (k : ℕ), Holds b k true → s + k + n ≤ B →
      (batchLoop batchSize startBatch n b).map Word.val = List.range' (s + k) n ∧
      ∀ w ∈ batchLoop batchSize startBatch n b, w.unwrapped = g := by
  have hlt : B < 2 ^ 32 := by
    have := batchSize.isLt
    rw [hB.1] at this
    exact this
  intro n
  induction n with
  | zero =>
      intro b k _ _
      refine ⟨rfl, fun w hw => ?_⟩
      rw [batchLoop] at hw
      exact absurd hw (List.not_mem_nil)
  | succ j ih =>
      intro b k hb hfit
      have hidx : Holds (startBatch + b) (s + k) g := by
        simpa only [Bool.and_true] using hs.add hb (by omega)
      -- The counter stays below the batch, so it does not wrap.
      have hnext : Holds (b + 1) (k + 1) true :=
        hb.add (Word.holds_ofNat 1 (by norm_num)) (by omega)
      rcases ih (b + 1) (k + 1) hnext (by omega) with ⟨hmap, hflag⟩
      -- The row is inside the batch, so the loop goes on.
      have hgo : ¬ batchSize.val ≤ (startBatch + b).val := by
        rw [hB.1, hidx.1]
        omega
      rw [batchLoop, if_neg hgo]
      refine ⟨?_, ?_⟩
      · rw [List.map_cons, hmap, hidx.1, List.range'_succ, Nat.add_assoc s k 1]
      · intro w hw
        rcases List.mem_cons.mp hw with rfl | hw
        · exact hidx.2
        · exact hflag w hw

section Launch

variable {l : KernelLaunch} {B w u : ℕ} {g : Bool}

/-- The device's core count is the number of blocks launched. -/
theorem TilingSpec.usedCoreNum (h : TilingSpec l B w u g) (hu : 1 ≤ u) :
    Holds l.tiling.usedCoreNum u g := by
  have hlt := l.blockDim.isLt
  rw [h.blockDim.1] at hlt
  have hsum := h.formerNum.add h.tailNum (by omega)
  rw [Nat.sub_add_cancel hu, Bool.and_true] at hsum
  exact hsum

/-- A block sets out to process a full share, the last one what is left. -/
theorem TilingSpec.blockBatches (h : TilingSpec l B w u g) (hu : 1 ≤ u) (b : ℕ) (hb : b < u) :
    (l.tiling.blockBatches (Word.ofResult b true)).val
      = if b = u - 1 then B - (u - 1) * w else w := by
  have hlt := l.blockDim.isLt
  rw [h.blockDim.1] at hlt
  have hlast : Holds (l.tiling.usedCoreNum - 1) (u - 1) g := by
    simpa only [Bool.and_true]
      using (h.usedCoreNum hu).sub (Word.holds_ofNat 1 (by norm_num)) hu
  have hidx : Holds (Word.ofResult b true) b true := Word.holds_ofResult b true (by omega)
  unfold CacheMissTopkTilingData.blockBatches
  rw [hlast.1, hidx.1]
  by_cases hbl : b = u - 1
  · rw [if_pos hbl, if_pos hbl, h.tailLength.1]
  · rw [if_neg hbl, if_neg hbl, h.formerLength.1]

/-- A block processes its chunk of the batch. -/
theorem process_chunk (h : TilingSpec l B w u g) (hu : 1 ≤ u) (hlast : (u - 1) * w < B)
    (b : ℕ) (hb : b < u) :
    (process l.tiling (Word.ofResult b true)).map Word.val
      = chunk w u (B - (u - 1) * w) b ∧
    ∀ v ∈ process l.tiling (Word.ofResult b true), v.unwrapped = g := by
  have hlt := l.blockDim.isLt
  rw [h.blockDim.1] at hlt
  have hBlt := l.tiling.batchSize.isLt
  rw [h.batchSize.1] at hBlt
  have hidx : Holds (Word.ofResult b true) b true := Word.holds_ofResult b true (by omega)
  -- Blocks before this one hold full shares, so its start is inside the batch.
  have hstart : b * w ≤ (u - 1) * w := Nat.mul_le_mul_right w (by omega)
  have hmul : Holds (Word.ofResult b true * l.tiling.formerLength) (b * w) g := by
    simpa only [Bool.true_and] using hidx.mul h.formerLength (by omega)
  have hgo : ¬ l.tiling.usedCoreNum.val ≤ (Word.ofResult b true).val := by
    rw [(h.usedCoreNum hu).1, hidx.1]
    omega
  have hn := h.blockBatches hu b hb
  have hfit : b * w + 0 + (l.tiling.blockBatches (Word.ofResult b true)).val ≤ B := by
    rw [hn]
    by_cases hbl : b = u - 1
    · rw [if_pos hbl, hbl]
      omega
    · rw [if_neg hbl]
      have hnext : b * w + w ≤ (u - 1) * w := by
        rw [← Nat.succ_mul]
        exact Nat.mul_le_mul_right w (by omega)
      omega
  rw [process, if_neg hgo]
  rcases batchLoop_range l.tiling.batchSize _ B (b * w) g h.batchSize hmul _ 0 0
    (Word.holds_ofNat 0 (by norm_num)) hfit with ⟨hmap, hflag⟩
  refine ⟨?_, hflag⟩
  rw [hmap, hn, chunk, Nat.add_zero, List.range'_eq_map_range]

/-- All blocks together process the batch, in order. -/
theorem launchedBatches_range (h : TilingSpec l B w u g) (hu : 1 ≤ u)
    (hlast : (u - 1) * w < B) :
    (launchedBatches l.blockDim l.tiling).map Word.val = List.range B ∧
    ∀ v ∈ launchedBatches l.blockDim l.tiling, v.unwrapped = g := by
  unfold launchedBatches
  rw [h.blockDim.1]
  refine ⟨?_, ?_⟩
  · rw [List.map_flatMap]
    have hchunks : (List.range u).flatMap
        (fun b => (process l.tiling (Word.ofResult b true)).map Word.val)
        = (List.range u).flatMap (chunk w u (B - (u - 1) * w)) := by
      refine List.flatMap_congr (fun b hb => ?_)
      exact (process_chunk h hu hlast b (List.mem_range.mp hb)).1
    rw [hchunks, chunks_concat w u _ hu]
    congr 1
    omega
  · intro v hv
    rcases List.mem_flatMap.mp hv with ⟨b, hb, hvb⟩
    exact (process_chunk h hu hlast b (List.mem_range.mp hb)).2 v hvb

end Launch

/-- Where a row starts, in 32 bits. The row width divides the word range, so
    a row beyond it lands exactly on an earlier one. -/
theorem rowOffset_val (v : Word) : (rowOffset v).val = v.val % 2 ^ 21 * SEQ_LEN := by
  change v.val * (SEQ_LEN % 2 ^ 32) % 2 ^ 32 = _
  rw [Nat.mod_eq_of_lt (show SEQ_LEN < 2 ^ 32 by decide), ← rows_mul_SEQ_LEN,
    Nat.mul_mod_mul_right]

/-- The offset of a row inside the range is exact. -/
theorem rowOffset_holds (v : Word) (r : ℕ) (g : Bool) (hv : Holds v r g) (hr : r < 2 ^ 21) :
    Holds (rowOffset v) (r * SEQ_LEN) g := by
  have hseq : Holds (Word.ofResult SEQ_LEN true) SEQ_LEN true :=
    Word.holds_ofResult SEQ_LEN true (by decide)
  have hfit : r * SEQ_LEN < 2 ^ 32 := by
    rw [← rows_mul_SEQ_LEN]
    exact Nat.mul_lt_mul_of_pos_right hr SEQ_LEN_pos
  simpa only [rowOffset, Bool.and_true] using hv.mul hseq hfit

/-- Distinct rows occupy disjoint stretches. -/
theorem rows_disjoint (r q : ℕ) (h : r ≠ q) :
    Disjoint (Set.Ico (r * SEQ_LEN) (r * SEQ_LEN + SEQ_LEN))
      (Set.Ico (q * SEQ_LEN) (q * SEQ_LEN + SEQ_LEN)) := by
  rw [Set.disjoint_left]
  rintro a ⟨hra, har⟩ ⟨hqa, haq⟩
  have hcut : ∀ p s : ℕ, p < s → p * SEQ_LEN + SEQ_LEN ≤ s * SEQ_LEN := by
    intro p s hps
    rw [← Nat.succ_mul]
    exact Nat.mul_le_mul_right SEQ_LEN hps
  rcases Nat.lt_or_gt_of_ne h with hlt | hgt
  · have := hcut r q hlt
    omega
  · have := hcut q r hgt
    omega

/-- Every row of a batch of `B` rows is processed by exactly one of at most
    `C` blocks, from the stretch of memory that is its own. -/
structure EachRowOnce (B C : ℕ) (l : KernelLaunch) : Prop where
  cores_pos : 1 ≤ l.tiling.usedCoreNum.val
  cores_eq : l.tiling.usedCoreNum.val = l.blockDim.val
  cores_le : l.blockDim.val ≤ C
  tail_pos : 1 ≤ l.tiling.tailLength.val
  tail_le : l.tiling.tailLength.val ≤ l.tiling.formerLength.val
  /-- The blocks' rows, read in block order, are the batch. -/
  rows : (launchedBatches l.blockDim l.tiling).map Word.val = List.range B
  /-- No block meets the `break` at the end of the batch. -/
  no_break : ∀ b < l.blockDim.val, (process l.tiling (Word.ofResult b true)).length
    = (l.tiling.blockBatches (Word.ofResult b true)).val
  /-- The host does not replace an empty tail. -/
  no_fallback : 0 < (l.tiling.batchSize - l.tiling.formerNum * l.tiling.formerLength).val
  offsets : ∀ v ∈ launchedBatches l.blockDim l.tiling, (rowOffset v).val = v.val * SEQ_LEN
  disjoint : ∀ v ∈ launchedBatches l.blockDim l.tiling,
    ∀ w ∈ launchedBatches l.blockDim l.tiling, v.val ≠ w.val →
      Disjoint (Set.Ico (rowOffset v).val ((rowOffset v).val + SEQ_LEN))
        (Set.Ico (rowOffset w).val ((rowOffset w).val + SEQ_LEN))

/-- No operation behind any value of a launch wrapped or divided by zero: not
    the host's scalars, not what the blocks work out from them, not a loop
    counter, not an offset. -/
structure LaunchUnwrapped (l : KernelLaunch) : Prop where
  blockDim : l.blockDim.unwrapped = true
  formerNum : l.tiling.formerNum.unwrapped = true
  formerLength : l.tiling.formerLength.unwrapped = true
  tailLength : l.tiling.tailLength.unwrapped = true
  lastShare :
    (l.tiling.batchSize - l.tiling.formerNum * l.tiling.formerLength).unwrapped = true
  usedCoreNum : l.tiling.usedCoreNum.unwrapped = true
  lastBlock : (l.tiling.usedCoreNum - 1).unwrapped = true
  startBatch : ∀ b < l.blockDim.val,
    (Word.ofResult b true * l.tiling.formerLength).unwrapped = true
  counter : ∀ b < l.blockDim.val, ∀ k : Word, k.unwrapped = true →
    k.val < (l.tiling.blockBatches (Word.ofResult b true)).val → (k + 1).unwrapped = true
  rows : ∀ v ∈ launchedBatches l.blockDim l.tiling,
    v.unwrapped = true ∧ (rowOffset v).unwrapped = true

theorem TilingSpec.eachRowOnce {l : KernelLaunch} {B w u C : ℕ} {g : Bool}
    (h : TilingSpec l B w u g) (hu : 1 ≤ u) (huC : u ≤ C) (hfit : B ≤ 2 ^ 21)
    (hlast : (u - 1) * w < B) (hshare : B - (u - 1) * w ≤ w) : EachRowOnce B C l := by
  rcases launchedBatches_range h hu hlast with ⟨hrows, _⟩
  have hused := h.usedCoreNum hu
  -- A launched row is a row of the batch, so its offset does not wrap.
  have hoff : ∀ v ∈ launchedBatches l.blockDim l.tiling,
      (rowOffset v).val = v.val * SEQ_LEN := by
    intro v hv
    have hmem : v.val ∈ List.range B := by
      rw [← hrows]
      exact List.mem_map_of_mem hv
    have hlt := List.mem_range.mp hmem
    rw [rowOffset_val, Nat.mod_eq_of_lt (by omega)]
  refine
    { cores_pos := ?_, cores_eq := ?_, cores_le := ?_, tail_pos := ?_, tail_le := ?_,
      rows := hrows, no_break := ?_, no_fallback := ?_, offsets := hoff, disjoint := ?_ }
  · rw [hused.1]
    exact hu
  · rw [hused.1, h.blockDim.1]
  · rw [h.blockDim.1]
    exact huC
  · rw [h.tailLength.1]
    omega
  · rw [h.tailLength.1, h.formerLength.1]
    exact hshare
  · intro b hb
    rw [h.blockDim.1] at hb
    have hlen := congrArg List.length (process_chunk h hu hlast b hb).1
    rw [List.length_map, chunk, List.length_map, List.length_range] at hlen
    rw [hlen, h.blockBatches hu b hb]
  · rw [h.lastShare.1]
    omega
  · intro v hv x hx hne
    rw [hoff v hv, hoff x hx]
    exact rows_disjoint v.val x.val hne

theorem TilingSpec.launchUnwrapped {l : KernelLaunch} {B w u : ℕ}
    (h : TilingSpec l B w u true) (hu : 1 ≤ u) (hfit : B ≤ 2 ^ 21)
    (hlast : (u - 1) * w < B) : LaunchUnwrapped l := by
  rcases launchedBatches_range h hu hlast with ⟨hrows, hflag⟩
  have hused := h.usedCoreNum hu
  have hlt := l.blockDim.isLt
  rw [h.blockDim.1] at hlt
  refine
    { blockDim := h.blockDim.2, formerNum := h.formerNum.2, formerLength := h.formerLength.2,
      tailLength := h.tailLength.2, lastShare := h.lastShare.2, usedCoreNum := hused.2,
      lastBlock := ?_, startBatch := ?_, counter := ?_, rows := ?_ }
  · have hsub := hused.sub (Word.holds_ofNat 1 (by norm_num)) hu
    exact hsub.2
  · intro b hb
    rw [h.blockDim.1] at hb
    have hstart : b * w ≤ (u - 1) * w := Nat.mul_le_mul_right w (by omega)
    have hmul := (Word.holds_ofResult b true (by omega)).mul h.formerLength (by omega)
    exact hmul.2
  · intro b _ k hk hkn
    have hn := (l.tiling.blockBatches (Word.ofResult b true)).isLt
    have hadd := (show Holds k k.val true from ⟨rfl, hk⟩).add
      (Word.holds_ofNat 1 (by norm_num)) (by omega)
    exact hadd.2
  · intro v hv
    have hmem : v.val ∈ List.range B := by
      rw [← hrows]
      exact List.mem_map_of_mem hv
    have hlt := List.mem_range.mp hmem
    exact ⟨hflag v hv, (rowOffset_holds v v.val true ⟨rfl, hflag v hv⟩ (by omega)).2⟩

/-- Host and device together process every row of the batch exactly once, each
    from its own stretch of memory. Nothing wraps on the way unless the first
    sum, of the batch and the cores, reaches `2 ^ 32` exactly; it then wraps to
    zero, and taking one away restores the value. -/
theorem hostTiling_eachRowOnce (batchSize coreNum : ℕ) (hbatch : 1 ≤ batchSize)
    (hcore : 1 ≤ coreNum) (hmem : batchSize * SEQ_LEN ≤ 2 ^ 32)
    (hsum : batchSize + coreNum - 1 < 2 ^ 32) :
    ∃ l, hostTiling (Word.ofResult batchSize true) (Word.ofResult coreNum true) = some l ∧
      EachRowOnce batchSize coreNum l ∧
      (batchSize + coreNum < 2 ^ 32 → LaunchUnwrapped l) ∧
      (batchSize + coreNum = 2 ^ 32 →
        (Word.ofResult batchSize true + Word.ofResult coreNum true).val = 0 ∧
        (Word.ofResult batchSize true + Word.ofResult coreNum true - 1).val
          = batchSize + coreNum - 1) := by
  have hfit := (rows_le_iff batchSize).mp hmem
  rcases hostTiling_spec batchSize coreNum hbatch hcore hfit hsum with ⟨l, hl, hspec⟩
  have hw := share_pos batchSize coreNum hbatch hcore
  have hu := share_pos batchSize _ hbatch hw
  have huC := workers_le batchSize coreNum hbatch hcore
  rcases last_share batchSize _ hbatch hw with ⟨hlast, hshare⟩
  refine ⟨l, hl, hspec.eachRowOnce hu huC hfit hlast hshare, ?_, ?_⟩
  · intro hlt
    rw [decide_eq_true hlt] at hspec
    exact hspec.launchUnwrapped hu hfit hlast
  · intro heq
    have hB : Holds (Word.ofResult batchSize true) batchSize true :=
      Word.holds_ofResult batchSize true (by omega)
    have hC : Holds (Word.ofResult coreNum true) coreNum true :=
      Word.holds_ofResult coreNum true (by omega)
    refine ⟨?_, (hB.add_pred hC (by omega) (by omega)).1⟩
    rw [Word.add_val, hB.1, hC.1, heq, Nat.mod_self]

/-- The scalars of a launch, as the host computes them. -/
theorem hostTiling_fields (b c : Word) (l : KernelLaunch) (h : hostTiling b c = some l) :
    c.val ≠ 0 ∧ ((b + c - 1) / c).val ≠ 0 ∧
    l.blockDim = (b + (b + c - 1) / c - 1) / ((b + c - 1) / c) ∧
    l.tiling.batchSize = b ∧ l.tiling.formerNum = l.blockDim - 1 ∧
    l.tiling.formerLength = (b + c - 1) / c ∧ l.tiling.tailNum = 1 ∧
    l.tiling.tailLength
      = if (b - l.tiling.formerNum * l.tiling.formerLength).val ≤ 0 ∧
          0 < l.tiling.formerNum.val then l.tiling.formerLength
        else b - l.tiling.formerNum * l.tiling.formerLength := by
  unfold hostTiling at h
  by_cases hc : c.val = 0
  · rw [if_pos hc] at h
    exact absurd h (by simp only [reduceCtorEq, not_false_eq_true])
  rw [if_neg hc] at h
  by_cases hw : ((b + c - 1) / c).val = 0
  · simp only [hw, if_true, reduceCtorEq] at h
  simp only [hw, if_false, Option.some.injEq] at h
  subst h
  exact ⟨hc, hw, rfl, rfl, rfl, rfl, rfl, rfl⟩

/-- Past the bounds there is no launch: the first sum wraps below the core
    count and a full share comes out empty. -/
theorem hostTiling_some_sum_lt (b c : Word) (l : KernelLaunch) (h : hostTiling b c = some l) :
    b.val + c.val - 1 < 2 ^ 32 := by
  by_contra hge
  have hb := b.isLt
  have hc := c.isLt
  have hone : (1 : Word).val = 1 := rfl
  have hsum : (b + c - 1).val < c.val := by
    rw [Word.sub_val, Word.add_val, hone]
    omega
  rcases hostTiling_fields b c l h with ⟨_, hper, _⟩
  refine hper ?_
  rw [Word.div_val]
  exact Nat.div_eq_of_lt hsum

/-- Within the bounds there is a launch, however large the batch. -/
theorem hostTiling_exists (b c : Word) (hb : 1 ≤ b.val) (hc : 1 ≤ c.val)
    (hsum : b.val + c.val - 1 < 2 ^ 32) :
    ((b + c - 1) / c).val = (b.val + c.val - 1) / c.val ∧ ∃ l, hostTiling b c = some l := by
  have hone : (1 : Word).val = 1 := rfl
  have hpred : ((b.val + c.val) % 2 ^ 32 + (2 ^ 32 - 1)) % 2 ^ 32 = b.val + c.val - 1 := by omega
  have hper : ((b + c - 1) / c).val = (b.val + c.val - 1) / c.val := by
    rw [Word.div_val, Word.sub_val, Word.add_val, hone, hpred]
  have hpos := share_pos b.val c.val hb hc
  have hne : ((b + c - 1) / c).val ≠ 0 := by omega
  refine ⟨hper, ?_⟩
  unfold hostTiling
  rw [if_neg (show ¬ c.val = 0 by omega)]
  simp only [hne, if_false]
  exact ⟨_, rfl⟩

/-- Five rows on three cores: two full blocks of two rows and a last one. -/
theorem hostTiling_eachRowOnce_five_rows :
    ∃ l, hostTiling (Word.ofResult 5 true) (Word.ofResult 3 true) = some l ∧
      EachRowOnce 5 3 l ∧ LaunchUnwrapped l := by
  rcases hostTiling_eachRowOnce 5 3 (by decide) (by decide) (by decide) (by decide) with
    ⟨l, hl, honce, hclean, _⟩
  exact ⟨l, hl, honce, hclean (by decide)⟩

/-- One row on `2 ^ 32 - 1` cores meets every bound, and its first sum wraps. -/
theorem hostTiling_sum_wraps :
    ¬ ∀ batchSize coreNum : ℕ, 1 ≤ batchSize → 1 ≤ coreNum →
      batchSize * SEQ_LEN ≤ 2 ^ 32 → batchSize + coreNum - 1 < 2 ^ 32 →
      ∃ l, hostTiling (Word.ofResult batchSize true) (Word.ofResult coreNum true) = some l ∧
        l.blockDim.unwrapped = true := by
  intro h
  rcases h 1 (2 ^ 32 - 1) (by decide) (by decide) (by decide) (by decide) with ⟨l, hl, hflag⟩
  rcases hostTiling_spec 1 (2 ^ 32 - 1) (by decide) (by decide) (by decide) (by decide) with
    ⟨l', hl', hspec⟩
  rw [hl, Option.some.injEq] at hl'
  rw [hl', hspec.blockDim.2] at hflag
  exact absurd hflag (by decide)

end AscendKernel
