import AscendKernel.Theory.Invariant

/-!
# Slots against Misses, over a Run

When a call of a run has as many slots as codes to load.

The buffer a run reaches holds no code twice, so each row of the next call is
in one of the cases of `slots_balance`, and only one of them is unbalanced: the
old row holds more codes than are asked for and still has room. The kernel
counts that as a negative shortage, and a negative shortage adds no slot and
takes none away. The call then has more slots than values, and its first
scatter stops it, unless another row of the batch happens to make up for it.

A run gets there as soon as a row is handed to a shorter request.

## Main definitions

* `SlotsMatch`: Every row has as many slots as misses, and its codes land in
  it.

## Theorems

* `run_slotsMatch`: When the slots of a call match its misses.
* `run_slotsMatch_shorter_request`: They need not, after a longer request.
-/

namespace AscendKernel

/-- The slots a launch leaves match the misses of the call: in every row, over
    the batch, and in what the call does with them. -/
structure SlotsMatch (c : Call) (plat : Platform) (N : ℕ) (buf : ℕ → ℕ → Int64)
    (gm : GlobalMemory) : Prop where
  row : ∀ r < c.numReqs,
    countTrue (rowAt gm.availMaskGm r) SEQ_LEN = countTrue (c.miss buf r) SEQ_LEN
  /-- Each scatter has as many values as slots. -/
  total : countTrue gm.availMaskGm (c.numReqs * SEQ_LEN) = (c.loads buf).length
  completes : ∃ o, c.run plat N buf = .ok o
  /-- A missed code lands in a slot of its own row. -/
  lands : ∀ o, c.run plat N buf = .ok o → ∀ r < c.numReqs, ∀ j < SEQ_LEN,
    c.miss buf r j = true →
      ∃ i < SEQ_LEN, rowAt gm.availMaskGm r i = true ∧ o.buffer r i = c.codes r j

/-- In a run whose calls fit and ask for distinct tokens, the slots of the
    next such call match its misses exactly when every row it uses holds no
    more codes than are asked for there, or is full. -/
theorem run_slotsMatch (plat : Platform) (N : ℕ) (buf : ℕ → ℕ → Int64)
    (hbuf : Run plat N (fun c => c.numReqs * SEQ_LEN ≤ 2 ^ 32 ∧ c.DistinctTokens) buf) (c : Call)
    (hacc : c.Accepted N) (hdist : c.DistinctTokens) (hfit : Fits plat c.numReqs) :
    ∃ gm, c.launched plat N buf = .ok gm ∧
      (SlotsMatch c plat N buf gm ↔ ∀ r < c.numReqs,
        occupancy (-1) SEQ_LEN (buf r) ≤ occupancy (-1) SEQ_LEN (c.codes r) ∨
          occupancy (-1) SEQ_LEN (buf r) = SEQ_LEN) := by
  have hpad : c.PaddedRows buf :=
    fun r _ => distinctOffPad_of_run plat N _ (fun _ h => h) buf hbuf r
  rcases Call.launched_slots c buf hacc.1 hfit with ⟨gm, hrun, hmask⟩
  refine ⟨gm, hrun, ?_⟩
  have hslots : ∀ r < c.numReqs, countTrue (rowAt gm.availMaskGm r) SEQ_LEN
      = countTrue (slots (-1) SEQ_LEN (c.codes r) (buf r)) SEQ_LEN :=
    fun r hr => (Call.slots_of_launched hacc.1 hfit gm hrun r hr).2
  rw [← Call.balanced_iff hdist hpad]
  constructor
  · intro h r hr
    rw [← hslots r hr]
    exact h.row r hr
  · intro hbal
    have hrow : ∀ r < c.numReqs, countTrue (rowAt gm.availMaskGm r) SEQ_LEN
        = countTrue (c.miss buf r) SEQ_LEN := by
      intro r hr
      rw [hslots r hr]
      exact hbal r hr
    refine ⟨hrow, Call.total_of_balanced hacc.1 hfit hbal gm hrun,
      Call.completes_of_balanced hacc hfit hbal, ?_⟩
    · intro o ho r hr j hj hmiss
      have hrowbal := hbal r hr
      rw [Call.miss, getSetDiffMask_eq] at hrowbal hmiss
      rcases exists_slot_of_missing (-1) SEQ_LEN (c.codes r) (buf r) hrowbal j hj hmiss with
        ⟨i, hi, hslot, hval⟩
      refine ⟨i, hi, ?_, ?_⟩
      · rw [hmask r hr i hi]
        exact hslot
      · rw [(Call.run_rowLocal hfit.1 hbal o ho r i hr hi).1]
        exact hval

/-- The first call of a run, with two tokens. -/
theorem run_slotsMatch_first_call :
    ∃ gm, (Call.ofRows [(3, [5, 7])]).launched Platform.singleCore 4 (fun _ _ => -1) = .ok gm ∧
      SlotsMatch (Call.ofRows [(3, [5, 7])]) Platform.singleCore 4 (fun _ _ => -1) gm := by
  rcases run_slotsMatch Platform.singleCore 4 _ Run.start (Call.ofRows [(3, [5, 7])])
    (Call.ofRows_accepted _ 4 (by decide)) (Call.ofRows_distinct _ (by decide))
    (Call.ofRows_fits _ (by decide)) with ⟨gm, hrun, hiff⟩
  exact ⟨gm, hrun, hiff.mpr (fun r _ => Or.inl (by rw [occupancy_empty]; exact Nat.zero_le _))⟩

/-- A row filled for a request with two tokens and handed to one with a single
    token: the call has two slots for one code. -/
theorem run_slotsMatch_shorter_request :
    ¬ ∀ (plat : Platform) (N : ℕ) (buf : ℕ → ℕ → Int64), Run plat N Call.WellFormed buf →
      ∀ c : Call, c.Accepted N → c.WellFormed →
        ∃ gm, c.launched plat N buf = .ok gm ∧ SlotsMatch c plat N buf gm := by
  intro h
  have hlist : Listed [(0, [0, 1])] := by decide
  have hlist' : Listed [(1, [0])] := by decide
  have hwf := hlist.wellFormed
  have hwf' := hlist'.wellFormed
  have hfit := Call.ofRows_fits [(1, [0])] (by decide)
  rcases hlist.completes_start 1 (by decide) with ⟨o, ho⟩
  have hold : occupancy (-1) SEQ_LEN (o.buffer 0) = 2 := by
    rw [(serves_of_run hlist.rows_le hwf.distinct (Call.paddedRows_start _) o ho 0
      (by decide)).occupancy_eq]
    exact hlist.occupancy_eq 0 (by decide)
  have hnew : occupancy (-1) SEQ_LEN ((Call.ofRows [(1, [0])]).codes 0) = 1 :=
    hlist'.occupancy_eq 0 (by decide)
  rcases h Platform.singleCore 1 o.buffer (Run.step _ _ o Run.start hwf ho)
    (Call.ofRows [(1, [0])]) (Call.ofRows_accepted _ 1 (by decide)) hwf' with ⟨gm, hrun, hmatch⟩
  have hpad : (Call.ofRows [(1, [0])]).PaddedRows o.buffer := fun r _ =>
    distinctOffPad_step hlist.rows_le hwf.distinct (fun _ => distinctOffPad_empty) o ho r
  -- The old row holds two codes, the new one asks for one, and there is room.
  have hbal : (Call.ofRows [(1, [0])]).Balanced o.buffer := by
    intro r hr
    rw [← hmatch.row r hr]
    exact (Call.slots_of_launched (le_refl 1) hfit gm hrun r hr).2.symm
  have hcase := (Call.balanced_iff hwf'.distinct hpad).mp hbal 0 (by decide)
  rw [hold, hnew] at hcase
  exact absurd hcase (by decide)

end AscendKernel
