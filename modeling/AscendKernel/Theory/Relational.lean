import AscendKernel.Library.SlotCache
import AscendKernel.Theory.LargeBatch

/-!
# Pairs of Calls

What two completed calls have in common.

A completed call that fits is balanced, and a balanced call replaces each row
by its own codes. Two facts about pairs of calls are immediate from there.
Calls that agree on a row leave the same row behind, whatever their other rows
are. And a call repeated on the buffer it left finds in every row a
rearrangement of the codes it asks for, so it has nothing to load.

Both fail as soon as a row lies past the word range. A code that finds no slot
in its own row is then handed to whichever row has a slot to spare.

## Main definitions

* `Call.again`: The same requests with the tokens of a row rearranged.
* `Call.Idle`: A call with nothing to load.

## Theorems

* `run_sameRow`: Rows found alike and served alike are left alike.
* `run_isolated`: A row's outcome depends on the row alone.
* `run_isolated_large_batch`: Not past the word range.
* `run_again`: A repeated step loads nothing.
* `run_again_large_batch`: Not past the word range.
-/

namespace AscendKernel

/-- Two completed calls leave two rows alike, in the buffer and in the answer,
    when they find them alike and serve the same request there with the same
    tokens. -/
theorem run_sameRow {plat plat' : Platform} {N N' : ℕ} {c d : Call} {buf buf' : ℕ → ℕ → Int64}
    (hcrows : c.numReqs * SEQ_LEN ≤ 2 ^ 32) (hdrows : d.numReqs * SEQ_LEN ≤ 2 ^ 32)
    (hc : c.DistinctTokens) (hd : d.DistinctTokens) (hbuf : c.PaddedRows buf)
    (hbuf' : d.PaddedRows buf') (o o' : Outcome) (hrun : c.run plat N buf = .ok o)
    (hrun' : d.run plat' N' buf' = .ok o') (r r' : ℕ) (hr : r < c.numReqs) (hr' : r' < d.numReqs)
    (htok : ∀ i < SEQ_LEN, c.topkIndices r i = d.topkIndices r' i)
    (hold : ∀ i < SEQ_LEN, buf r i = buf' r' i) (hid : c.reqIds r = d.reqIds r') :
    ∀ i < SEQ_LEN, o.topkIndices r i = o'.topkIndices r' i ∧ o.buffer r i = o'.buffer r' i := by
  intro i hi
  have hoff : reqIdsOffset c.reqIds r = reqIdsOffset d.reqIds r' := by
    rw [reqIdsOffset, reqIdsOffset, hid]
  -- The same request and tokens make the same codes.
  have hcode : ∀ j < SEQ_LEN, c.codes r j = d.codes r' j := by
    intro j hj
    unfold Call.codes topkIndicesNew
    rw [htok j hj, hoff]
  have hleft := Call.run_rowLocal hcrows (Call.balanced_of_run hcrows hc hbuf o hrun) o hrun r i
    hr hi
  have hright := Call.run_rowLocal hdrows (Call.balanced_of_run hdrows hd hbuf' o' hrun') o' hrun'
    r' i hr' hi
  have hrow := replaced_congr (-1) SEQ_LEN _ _ _ _ hcode hold i hi
  rw [hleft.1, hleft.2, hright.1, hright.2, hrow.1, hrow.2]
  refine ⟨?_, rfl⟩
  unfold recovered
  rw [hoff]

/-- Calls that agree on a row leave the same row in the buffer and in the
    answer, whatever their other rows are, on any platforms and in buffers of
    any sizes. -/
theorem run_isolated (plat plat' : Platform) (N N' : ℕ) (c d : Call) (buf buf' : ℕ → ℕ → Int64)
    (hcrows : c.numReqs * SEQ_LEN ≤ 2 ^ 32) (hdrows : d.numReqs * SEQ_LEN ≤ 2 ^ 32)
    (hc : c.DistinctTokens) (hd : d.DistinctTokens) (hbuf : c.PaddedRows buf)
    (hbuf' : d.PaddedRows buf') (o o' : Outcome) (hrun : c.run plat N buf = .ok o)
    (hrun' : d.run plat' N' buf' = .ok o') (r : ℕ) (hrc : r < c.numReqs) (hrd : r < d.numReqs)
    (htok : ∀ i < SEQ_LEN, c.topkIndices r i = d.topkIndices r i)
    (hold : ∀ i < SEQ_LEN, buf r i = buf' r i) (hid : c.reqIds r = d.reqIds r) :
    ∀ i < SEQ_LEN, o.topkIndices r i = o'.topkIndices r i ∧ o.buffer r i = o'.buffer r i :=
  run_sameRow hcrows hdrows hc hd hbuf hbuf' o o' hrun hrun' r r hrc hrd htok hold hid

/-- A row on its own, and the same row beside another request's in a larger
    buffer. -/
theorem run_isolated_two_rows :
    ∃ o o', (Call.ofRows [(3, [5, 7])]).run Platform.singleCore 4 (fun _ _ => -1) = .ok o ∧
      (Call.ofRows [(3, [5, 7]), (8, [2])]).run Platform.singleCore 8 (fun _ _ => -1) = .ok o' ∧
      ∀ i < SEQ_LEN, o.topkIndices 0 i = o'.topkIndices 0 i ∧ o.buffer 0 i = o'.buffer 0 i := by
  have hc := Call.ofRows_distinct [(3, [5, 7])] (by decide)
  have hd := Call.ofRows_distinct [(3, [5, 7]), (8, [2])] (by decide)
  rcases Call.ofRows_completes [(3, [5, 7])] 4 (by decide) (by decide) (by decide) with ⟨o, ho⟩
  rcases Call.ofRows_completes [(3, [5, 7]), (8, [2])] 8 (by decide) (by decide) (by decide) with
    ⟨o', ho'⟩
  exact ⟨o, o', ho, ho', run_isolated Platform.singleCore Platform.singleCore 4 8 _ _ _ _
    (by decide) (by decide) hc hd (Call.paddedRows_start _) (Call.paddedRows_start _) o o' ho ho' 0
    (by decide) (by decide) (fun _ _ => rfl) (fun _ _ => rfl) rfl⟩

/-- The stale buffer is a buffer of codes and -1. -/
theorem staleBuffer_codeRow (x : Int64) (hx : 0 ≤ x) (r : ℕ) :
    ∃ q, CodeRow SEQ_LEN q (staleBuffer x r) := by
  refine ⟨_, rfl, ?_, ?_⟩
  · intro i _ j _ hpos heq
    have hfirst : ∀ k, 0 ≤ staleBuffer x r k → k = 0 := by
      intro k hk
      by_contra hne
      rw [staleBuffer, if_neg (fun h => hne h.2)] at hk
      exact absurd hk (by decide)
    rw [hfirst i hpos, hfirst j (by rw [← heq]; exact hpos)]
  · intro i _ hneg
    rw [staleBuffer] at hneg ⊢
    by_cases h : r = 0 ∧ i = 0
    · rw [if_pos h] at hneg
      exact absurd hx hneg
    · rw [if_neg h]

/-- Past the word range a row's outcome depends on the others: row zero of two
    calls is the same and receives, in each, the token of another row. -/
theorem run_isolated_large_batch :
    ¬ ∀ (plat : Platform) (N : ℕ) (c d : Call) (buf buf' : ℕ → ℕ → Int64),
      c.numReqs = d.numReqs → c.DistinctTokens → d.DistinctTokens →
      (∀ r < c.numReqs, ∃ q, CodeRow SEQ_LEN q (buf r)) →
      (∀ r < d.numReqs, ∃ q, CodeRow SEQ_LEN q (buf' r)) →
      (∀ r < c.numReqs, 0 ≤ c.reqIds r) → (∀ r < d.numReqs, 0 ≤ d.reqIds r) →
      ∀ o o' : Outcome, c.run plat N buf = .ok o → d.run plat N buf' = .ok o' →
      ∀ r < c.numReqs, (∀ i < SEQ_LEN, c.topkIndices r i = d.topkIndices r i) →
      (∀ i < SEQ_LEN, buf r i = buf' r i) → c.reqIds r = d.reqIds r →
      ∀ i < SEQ_LEN, o.topkIndices r i = o'.topkIndices r i ∧ o.buffer r i = o'.buffer r i := by
  intro h
  have hzero : (0 : Int64) ≤ 0 := by decide
  have hcode := staleBuffer_codeRow 7 (by decide)
  rcases lateCall_run 3 7 (by decide) with ⟨o, ho, hout⟩
  rcases lateCall_run 4 7 (by decide) with ⟨o', ho', hout'⟩
  have hrow : ∀ i < SEQ_LEN, (lateCall 3).topkIndices 0 i = (lateCall 4).topkIndices 0 i := by
    intro i _
    rw [lateCall_topkIndices 3 0 i (by omega), lateCall_topkIndices 4 0 i (by omega)]
  have hsame := (h Platform.singleCore (2 ^ 21 + 1) (lateCall 3) (lateCall 4) (staleBuffer 7)
    (staleBuffer 7) rfl (lateCall_distinct 3) (lateCall_distinct 4) (fun r _ => hcode r)
    (fun r _ => hcode r) (fun _ _ => hzero) (fun _ _ => hzero) o o' ho ho' 0 (Nat.succ_pos _) hrow
    (fun _ _ => rfl) rfl 0 SEQ_LEN_pos).1
  have hslot : 0 = 0 ∧ 0 = 0 ∧ (7 : Int64) ≠ -1 := by decide
  rw [(hout 0 (Nat.succ_pos _) 0 SEQ_LEN_pos).2, (hout' 0 (Nat.succ_pos _) 0 SEQ_LEN_pos).2,
    if_pos hslot, if_pos hslot] at hsame
  exact absurd hsame (by decide)

/-- The same requests, asking for other tokens. -/
def Call.again (c : Call) (topkIndices : ℕ → ℕ → Int32) : Call :=
  { c with topkIndices := topkIndices }

namespace Call

variable {plat : Platform} {N : ℕ} {c : Call} {buf : ℕ → ℕ → Int64}

/-- A completed call stores its codes, each as often as it asks for it. -/
theorem run_stores (hrows : c.numReqs * SEQ_LEN ≤ 2 ^ 32) (hdist : c.DistinctTokens)
    (hbuf : c.PaddedRows buf) (o : Outcome) (hrun : c.run plat N buf = .ok o) (r : ℕ)
    (hr : r < c.numReqs) (x : Int64) :
    occurrences (o.buffer r) SEQ_LEN x = occurrences (c.codes r) SEQ_LEN x := by
  have hbal := balanced_of_run hrows hdist hbuf o hrun
  have hstored : occurrences (o.buffer r) SEQ_LEN x
      = occurrences (replaced (-1) SEQ_LEN (c.codes r) (buf r)) SEQ_LEN x := by
    rw [occurrences, occurrences]
    refine countTrue_congr _ _ SEQ_LEN (fun i hi => ?_)
    rw [(run_rowLocal hrows hbal o hrun r i hr hi).1]
  have hrow := hbal r hr
  rw [miss, getSetDiffMask_eq] at hrow
  rw [hstored]
  exact replaced_occurrences (-1) SEQ_LEN (c.codes r) (buf r) (distinctOffPad_codes hdist r hr)
    (hbuf r hr) hrow x

/-- The same requests with their tokens rearranged ask for the same codes. -/
theorem again_occurrences (topkIndices : ℕ → ℕ → Int32) (r : ℕ)
    (hperm : ∃ σ : Equiv.Perm (Fin SEQ_LEN), ∀ i : Fin SEQ_LEN,
      topkIndices r i = c.topkIndices r (σ i)) (x : Int64) :
    occurrences ((c.again topkIndices).codes r) SEQ_LEN x = occurrences (c.codes r) SEQ_LEN x := by
  rcases hperm with ⟨σ, hσ⟩
  refine occurrences_perm (c.codes r) _ SEQ_LEN σ (fun i => ?_) x
  change topkIndicesNew topkIndices c.reqIds r i = topkIndicesNew c.topkIndices c.reqIds r (σ i)
  unfold topkIndicesNew
  rw [hσ i]

/-- Nothing is missing from the buffer, and nothing in it is offered. -/
def Idle (c : Call) (buf : ℕ → ℕ → Int64) : Prop :=
  ∀ r < c.numReqs, (∀ i < SEQ_LEN, c.miss buf r i = false) ∧
    ∀ i < SEQ_LEN, slots (-1) SEQ_LEN (c.codes r) (buf r) i = false

theorem Idle.balanced (h : c.Idle buf) : c.Balanced buf := by
  intro r hr
  rw [(countTrue_eq_zero_iff _ SEQ_LEN).mpr (h r hr).1,
    (countTrue_eq_zero_iff _ SEQ_LEN).mpr (h r hr).2]

/-- An idle call answers -1 everywhere and leaves the buffer alone. -/
theorem Idle.run (h : c.Idle buf) (hrows : c.numReqs * SEQ_LEN ≤ 2 ^ 32) (o : Outcome)
    (hrun : c.run plat N buf = .ok o) :
    (∀ r < c.numReqs, ∀ i < SEQ_LEN, o.topkIndices r i = -1) ∧
      ∀ r, ∀ i < SEQ_LEN, o.buffer r i = buf r i := by
  have hrow : ∀ r < c.numReqs, ∀ i < SEQ_LEN,
      o.buffer r i = buf r i ∧ o.topkIndices r i = recovered c.reqIds r (-1) := by
    intro r hr i hi
    have hlocal := run_rowLocal hrows h.balanced o hrun r i hr hi
    have hkeep := replaced_of_not_slot (-1) SEQ_LEN (c.codes r) (buf r) i ((h r hr).2 i hi)
    rw [hkeep.1, hkeep.2] at hlocal
    exact hlocal
  refine ⟨fun r hr i hi => ?_, fun r i hi => ?_⟩
  · rw [(hrow r hr i hi).2]
    exact recovered_empty c.reqIds r
  · by_cases hr : r < c.numReqs
    · exact (hrow r hr i hi).1
    · -- No request uses the row.
      rcases run_ok o hrun with ⟨_, _, _, _, _, hframe⟩
      exact hframe r (Nat.le_of_not_lt hr) i hi

end Call

/-- A step repeated on the buffer it left, with the tokens of each row in any
    order, completes, answers -1 everywhere and leaves the buffer alone. -/
theorem run_again (plat : Platform) (N : ℕ) (c : Call) (buf : ℕ → ℕ → Int64)
    (hrows : c.numReqs * SEQ_LEN ≤ 2 ^ 32) (hdist : c.DistinctTokens) (hbuf : c.PaddedRows buf)
    (o : Outcome) (hrun : c.run plat N buf = .ok o) (topkIndices : ℕ → ℕ → Int32)
    (hperm : ∀ r < c.numReqs, ∃ σ : Equiv.Perm (Fin SEQ_LEN), ∀ i : Fin SEQ_LEN,
      topkIndices r i = c.topkIndices r (σ i)) :
    ∃ o', (c.again topkIndices).run plat N o.buffer = .ok o' ∧
      (∀ r < c.numReqs, ∀ i < SEQ_LEN, o'.topkIndices r i = -1) ∧
      ∀ r, ∀ i < SEQ_LEN, o'.buffer r i = o.buffer r i := by
  have hidle : (c.again topkIndices).Idle o.buffer := by
    intro r hr
    rw [Call.miss, getSetDiffMask_eq]
    refine slots_of_rearranged (-1) SEQ_LEN _ _ (fun x => ?_)
    rw [Call.run_stores hrows hdist hbuf o hrun r hr x,
      Call.again_occurrences topkIndices r (hperm r hr) x]
  rcases Call.run_ok o hrun with ⟨hacc, gm, hgm, _⟩
  have hfit := Call.fits_of_launched hacc.1 hrows gm hgm
  rcases Call.completes_of_balanced (c := c.again topkIndices) hacc hfit hidle.balanced with
    ⟨o', ho'⟩
  exact ⟨o', ho', hidle.run hrows o' ho'⟩

/-- The first call of a run, and the same call with its two tokens in the
    other order. -/
theorem run_again_swapped :
    ∃ o o', (Call.ofRows [(3, [5, 7])]).run Platform.singleCore 4 (fun _ _ => -1) = .ok o ∧
      ((Call.ofRows [(3, [5, 7])]).again (Call.ofRows [(3, [7, 5])]).topkIndices).run
        Platform.singleCore 4 o.buffer = .ok o' ∧
      ∀ i < SEQ_LEN, o'.topkIndices 0 i = -1 := by
  have hc := Call.ofRows_distinct [(3, [5, 7])] (by decide)
  rcases Call.ofRows_completes [(3, [5, 7])] 4 (by decide) (by decide) (by decide) with ⟨o, ho⟩
  have hswap : ∀ r < (Call.ofRows [(3, [5, 7])]).numReqs, ∃ σ : Equiv.Perm (Fin SEQ_LEN),
      ∀ i : Fin SEQ_LEN, (Call.ofRows [(3, [7, 5])]).topkIndices r i
        = (Call.ofRows [(3, [5, 7])]).topkIndices r (σ i) := by
    intro r hr
    rw [Nat.lt_one_iff.mp hr]
    refine ⟨Equiv.swap ⟨0, by decide⟩ ⟨1, by decide⟩, fun i => ?_⟩
    by_cases hzero : i = ⟨0, by decide⟩
    · rw [hzero, Equiv.swap_apply_left]
      rfl
    by_cases hone : i = ⟨1, by decide⟩
    · rw [hone, Equiv.swap_apply_right]
      rfl
    -- Past the two tokens both rows are padding.
    rw [Equiv.swap_apply_of_ne_of_ne hzero hone]
    have hne : i.val ≠ 0 ∧ i.val ≠ 1 := ⟨fun h => hzero (Fin.ext h), fun h => hone (Fin.ext h)⟩
    have hpast : 2 ≤ i.val := by omega
    change [7, 5].getD i.val (-1) = [5, 7].getD i.val (-1)
    rw [List.getD_eq_default _ _ hpast, List.getD_eq_default _ _ hpast]
  rcases run_again Platform.singleCore 4 _ _ (by decide) hc (Call.paddedRows_start _) o ho _ hswap
    with ⟨o', ho', hnone, _⟩
  exact ⟨o, o', ho, ho', hnone 0 (by decide)⟩

/-- Past the word range a repeated step may load again: the token of the last
    row is handed to row zero once more. -/
theorem run_again_large_batch :
    ¬ ∀ (plat : Platform) (N : ℕ) (c : Call) (buf : ℕ → ℕ → Int64), c.DistinctTokens →
      (∀ r < c.numReqs, ∃ q, CodeRow SEQ_LEN q (buf r)) → (∀ r < c.numReqs, 0 ≤ c.reqIds r) →
      ∀ o, c.run plat N buf = .ok o → ∀ topkIndices : ℕ → ℕ → Int32,
      (∀ r < c.numReqs, ∃ σ : Equiv.Perm (Fin SEQ_LEN), ∀ i : Fin SEQ_LEN,
        topkIndices r i = c.topkIndices r (σ i)) →
      ∃ o', (c.again topkIndices).run plat N o.buffer = .ok o' ∧
        (∀ r < c.numReqs, ∀ i < SEQ_LEN, o'.topkIndices r i = -1) ∧
        ∀ r, ∀ i < SEQ_LEN, o'.buffer r i = o.buffer r i := by
  intro h
  have hzero : (0 : Int64) ≤ 0 := by decide
  have hcode := staleBuffer_codeRow 7 (by decide)
  rcases lateCall_run 3 7 (by decide) with ⟨o, ho, hout⟩
  rcases h Platform.singleCore (2 ^ 21 + 1) (lateCall 3) (staleBuffer 7) (lateCall_distinct 3)
    (fun r _ => hcode r) (fun _ _ => hzero) o ho (lateCall 3).topkIndices
    (fun r _ => ⟨Equiv.refl _, fun _ => rfl⟩) with ⟨o', ho', hnone, _⟩
  -- The buffer is stale in the same place, now with the token's code.
  have hstale : ∀ r, ∀ i < SEQ_LEN, o.buffer r i = staleBuffer 3 r i := by
    intro r i hi
    by_cases hr : r < 2 ^ 21 + 1
    · rw [(hout r hr i hi).1, staleBuffer, staleBuffer]
      by_cases h00 : r = 0 ∧ i = 0
      · rw [if_pos ⟨h00.1, h00.2, by decide⟩, if_pos h00]
        rfl
      · rw [if_neg (fun h => h00 ⟨h.1, h.2.1⟩), if_neg h00, if_neg h00]
    · rcases Call.run_ok o ho with ⟨_, _, _, _, _, hframe⟩
      rw [hframe r (Nat.le_of_not_lt hr) i hi, staleBuffer, staleBuffer, if_neg (by omega),
        if_neg (by omega)]
  change (lateCall 3).run Platform.singleCore (2 ^ 21 + 1) o.buffer = .ok o' at ho'
  rw [Call.run_congr _ _ _ _ _ hstale] at ho'
  rcases lateCall_run 3 3 (by decide) with ⟨o'', ho'', hout''⟩
  rw [ho', Except.ok.injEq] at ho''
  have hloaded := (hout'' 0 (Nat.succ_pos _) 0 SEQ_LEN_pos).2
  rw [if_pos ⟨rfl, rfl, by decide⟩, ← ho'', hnone 0 (Nat.succ_pos _) 0 SEQ_LEN_pos] at hloaded
  exact absurd hloaded (by decide)

end AscendKernel
