import AscendKernel.Library.SlotCache
import AscendKernel.Theory.LargeBatch

/-!
# The Cache over Whole Runs

What the buffer holds after every call of a run.

One completed call is one step of a slot cache in every row it uses, with
codes for keys: `serves_of_run`. It needs two things of the rows it finds,
that no code occurs twice and that everything else is -1, and it leaves rows
of that kind. So the property that carries the induction over a run is the
distinctness of codes alone, and what a call leaves in a row does not depend
on how the row got there, on the request it served before, or on how many
tokens it held.

`RowServed` says the same in the words of the caller: tokens and request ids
as integers, and the tokens in the answer. The passage from one to the other
asks for what the code's arithmetic promises only while it does not wrap.

## Main definitions

* `Call.key`: The code of a token, as an integer.
* `Call.WellFormed`: Distinct tokens, non-negative ids, codes that fit.
* `RowServed`: What a call leaves in a row and in its answer.
* `Listed`: Rows that make a well-formed call.

## Theorems

* `serves_of_run`: A completed call is a step of a slot cache in every row.
* `distinctOffPad_of_run`: The rows of a reached buffer hold no code twice.
* `rowServed_of_serves`: The step in the caller's words.
* `run_rowServed`: The invariant, over every run.
* `Listed.completes_next`: A call that asks no listed row for less completes.
* `run_rowServed_large_batch`: Why the batch has to fit.
-/

namespace AscendKernel

section Step

variable {c : Call} {plat : Platform} {N : ℕ} {buf : ℕ → ℕ → Int64}

/-- A completed call is a step of a slot cache in every row it uses. -/
theorem serves_of_run (hrows : c.numReqs * SEQ_LEN ≤ 2 ^ 32) (hdist : c.DistinctTokens)
    (hbuf : c.PaddedRows buf) (o : Outcome) (h : c.run plat N buf = .ok o) (r : ℕ)
    (hr : r < c.numReqs) :
    Serves (-1) SEQ_LEN (c.codes r) (buf r) (o.buffer r)
      (reported (-1) SEQ_LEN (c.codes r) (buf r)) := by
  have hbal := Call.balanced_of_run hrows hdist hbuf o h
  have hrow := hbal r hr
  rw [Call.miss, getSetDiffMask_eq] at hrow
  have hserve := serves_replaced (-1) SEQ_LEN (c.codes r) (buf r)
    (Call.distinctOffPad_codes hdist r hr) (hbuf r hr) hrow
  exact hserve.congr _ _ (fun i hi => (Call.run_rowLocal hrows hbal o h r i hr hi).1)
    (fun _ _ => rfl)

/-- A completed call leaves the rows it does not use alone. -/
theorem run_frame (o : Outcome) (h : c.run plat N buf = .ok o) (r : ℕ) (hr : c.numReqs ≤ r)
    (i : ℕ) (hi : i < SEQ_LEN) : o.buffer r i = buf r i := by
  rcases Call.run_ok o h with ⟨_, _, _, _, _, hframe⟩
  exact hframe r hr i hi

/-- The step lemma of the invariant: a completed call leaves no code twice in
    a row. -/
theorem distinctOffPad_step (hrows : c.numReqs * SEQ_LEN ≤ 2 ^ 32) (hdist : c.DistinctTokens)
    (hbuf : ∀ r, DistinctOffPad (-1) SEQ_LEN (buf r)) (o : Outcome)
    (h : c.run plat N buf = .ok o) (r : ℕ) : DistinctOffPad (-1) SEQ_LEN (o.buffer r) := by
  by_cases hr : r < c.numReqs
  · exact (serves_of_run hrows hdist (fun q _ => hbuf q) o h r hr).distinct
      (Call.distinctOffPad_codes hdist r hr)
  · intro i hi j hj hpad heq
    have hframe := run_frame o h r (by omega)
    rw [hframe i hi] at hpad heq
    rw [hframe j hj] at heq
    exact hbuf r i hi j hj hpad heq

end Step

/-- The run lemma: in a buffer reached by calls with distinct tokens, no row
    holds a code twice. -/
theorem distinctOffPad_of_run (plat : Platform) (N : ℕ) (P : Call → Prop)
    (hP : ∀ c, P c → c.numReqs * SEQ_LEN ≤ 2 ^ 32 ∧ c.DistinctTokens) (buf : ℕ → ℕ → Int64)
    (h : Run plat N P buf) (r : ℕ) : DistinctOffPad (-1) SEQ_LEN (buf r) := by
  induction h generalizing r with
  | start => exact distinctOffPad_empty
  | step buf c o _ hc hcall ih =>
      exact distinctOffPad_step (hP c hc).1 (hP c hc).2 ih o hcall r

namespace Call

/-- The code of a token, as an integer. -/
def key (c : Call) (r i : ℕ) : ℤ := (c.topkIndices r i).toInt + (c.reqIds r).toInt * 2 ^ 16

/-- The tokens of a row are distinct, no request id is negative, and the codes
    of the tokens fit in 64 bits. -/
structure WellFormed (c : Call) : Prop where
  distinct : c.DistinctTokens
  reqIds_nonneg : ∀ r < c.numReqs, 0 ≤ c.reqIds r
  fits_int64 : ∀ r < c.numReqs, ∀ i < SEQ_LEN, 0 ≤ c.topkIndices r i → c.key r i < 2 ^ 63

variable {c : Call}

theorem key_nonneg (r i : ℕ) (hid : 0 ≤ c.reqIds r) (ht : 0 ≤ c.topkIndices r i) :
    0 ≤ c.key r i := by
  rw [Int64.le_iff_toInt_le] at hid
  rw [Int32.le_iff_toInt_le] at ht
  change 0 ≤ (c.reqIds r).toInt at hid
  change 0 ≤ (c.topkIndices r i).toInt at ht
  unfold key
  omega

/-- While nothing wraps, the code computed is the code meant. -/
theorem codes_toInt (r i : ℕ) (hid : 0 ≤ c.reqIds r) (ht : 0 ≤ c.topkIndices r i)
    (hfit : c.key r i < 2 ^ 63) : (c.codes r i).toInt = c.key r i := by
  have hkey := key_nonneg r i hid ht
  have hshift : ((1 : Int64) <<< (16 : Int64)).toInt = 2 ^ 16 := by decide
  have hid' : 0 ≤ (c.reqIds r).toInt := Int64.le_iff_toInt_le.mp hid
  have ht' : 0 ≤ (c.topkIndices r i).toInt := Int32.le_iff_toInt_le.mp ht
  unfold key at hkey hfit ⊢
  have hoff : (reqIdsOffset c.reqIds r).toInt = (c.reqIds r).toInt * 2 ^ 16 := by
    rw [reqIdsOffset, Int64.toInt_mul, hshift]
    exact Int.bmod_eq_of_le_mul_two (by omega) (by omega)
  unfold codes topkIndicesNew
  rw [if_pos ht, Int64.toInt_add, Int32.toInt_toInt64, hoff]
  exact Int.bmod_eq_of_le_mul_two (by omega) (by omega)

theorem codes_nonneg (r i : ℕ) (hid : 0 ≤ c.reqIds r) (ht : 0 ≤ c.topkIndices r i)
    (hfit : c.key r i < 2 ^ 63) : 0 ≤ c.codes r i := by
  rw [Int64.le_iff_toInt_le, codes_toInt r i hid ht hfit]
  exact key_nonneg r i hid ht

/-- A code in the answer is its token. -/
theorem recovered_codes (r i : ℕ) (ht : 0 ≤ c.topkIndices r i) (hcode : 0 ≤ c.codes r i) :
    recovered c.reqIds r (c.codes r i) = c.topkIndices r i := by
  unfold recovered
  rw [if_pos hcode]
  unfold codes topkIndicesNew
  rw [if_pos ht, Int64.add_sub_cancel, Int32.toInt32_toInt64]

namespace WellFormed

variable (hwf : c.WellFormed) (r : ℕ) (hr : r < c.numReqs) (j : ℕ) (hj : j < SEQ_LEN)

include hwf hr hj

theorem code_nonneg (ht : 0 ≤ c.topkIndices r j) : 0 ≤ c.codes r j :=
  codes_nonneg r j (hwf.reqIds_nonneg r hr) ht (hwf.fits_int64 r hr j hj ht)

/-- An entry stands for a token when it is the token's code. -/
theorem key_iff (ht : 0 ≤ c.topkIndices r j) (x : Int64) :
    x.toInt = c.key r j ↔ x = c.codes r j := by
  rw [← codes_toInt r j (hwf.reqIds_nonneg r hr) ht (hwf.fits_int64 r hr j hj ht), Int64.toInt_inj]

theorem code_sign : 0 ≤ c.codes r j ∨ c.codes r j = -1 := by
  by_cases ht : 0 ≤ c.topkIndices r j
  · exact Or.inl (hwf.code_nonneg r hr j hj ht)
  · exact Or.inr (if_neg ht)

end WellFormed

end Call

/-- What a call leaves in row `r`: the buffer's row before and after, and the
    answer. -/
structure RowServed (c : Call) (r : ℕ) (old new : ℕ → Int64) (out : ℕ → Int32) : Prop where
  /-- Every entry is a code or -1. -/
  entries : ∀ i < SEQ_LEN, 0 ≤ new i ∨ new i = -1
  /-- Every code is that of a token asked for. -/
  codes_only : ∀ i < SEQ_LEN, 0 ≤ new i →
    ∃ j < SEQ_LEN, 0 ≤ c.topkIndices r j ∧ (new i).toInt = c.key r j
  /-- The code of every token asked for is in exactly one slot. -/
  codes_once : ∀ j < SEQ_LEN, 0 ≤ c.topkIndices r j →
    ∃! i, i < SEQ_LEN ∧ (new i).toInt = c.key r j
  /-- A slot that already held a code asked for keeps it, and reports -1. -/
  kept : ∀ i < SEQ_LEN, ∀ j < SEQ_LEN, 0 ≤ c.topkIndices r j → (old i).toInt = c.key r j →
    new i = old i ∧ out i = -1
  /-- A token in the answer was asked for, was not held, and is in its slot. -/
  loaded : ∀ i < SEQ_LEN, out i ≠ -1 → 0 ≤ out i ∧ (∃ j < SEQ_LEN, c.topkIndices r j = out i ∧
    (new i).toInt = c.key r j) ∧ ∀ k < SEQ_LEN, old k ≠ new i
  /-- Every token asked for that was not held is in the answer. -/
  complete : ∀ j < SEQ_LEN, 0 ≤ c.topkIndices r j →
    (∀ k < SEQ_LEN, (old k).toInt ≠ c.key r j) → ∃ i < SEQ_LEN, out i = c.topkIndices r j

/-- A step of a slot cache over codes, in the caller's words. -/
theorem rowServed_of_serves (c : Call) (hwf : c.WellFormed) (r : ℕ) (hr : r < c.numReqs)
    (old new rep : ℕ → Int64) (out : ℕ → Int32) (h : Serves (-1) SEQ_LEN (c.codes r) old new rep)
    (hrep : ∀ i < SEQ_LEN, out i = recovered c.reqIds r (rep i)) :
    RowServed c r old new out := by
  have hdist := Call.distinctOffPad_codes hwf.distinct r hr
  have hsame := hwf.key_iff r hr
  have hcode := hwf.code_nonneg r hr
  have htoken : ∀ j < SEQ_LEN, 0 ≤ c.codes r j → 0 ≤ c.topkIndices r j :=
    fun j _ hj => Call.nonneg_of_code r j (ne_neg_one_of_nonneg _ hj)
  -- An entry is a code of the row or -1, and a reported one is a code.
  have hentry : ∀ i < SEQ_LEN, ∃ j < SEQ_LEN, c.codes r j = new i :=
    fun i hi => (h.holds_iff (new i)).mp ⟨i, hi, rfl⟩
  refine
    { entries := ?_, codes_only := ?_, codes_once := ?_, kept := ?_, loaded := ?_, complete := ?_ }
  · intro i hi
    rcases hentry i hi with ⟨j, hj, hval⟩
    rw [← hval]
    exact hwf.code_sign r hr j hj
  · intro i hi hpos
    rcases hentry i hi with ⟨j, hj, hval⟩
    have ht := htoken j hj (by rw [hval]; exact hpos)
    exact ⟨j, hj, ht, (hsame j hj ht (new i)).mpr hval.symm⟩
  · -- Once: the code is stored, and distinct codes are stored distinct.
    intro j hj ht
    have hne := ne_neg_one_of_nonneg _ (hcode j hj ht)
    rcases h.unique_slot hdist j hj hne with ⟨i, ⟨hi, hval⟩, huniq⟩
    refine ⟨i, ⟨hi, (hsame j hj ht (new i)).mpr hval⟩, ?_⟩
    rintro k ⟨hk, hkey⟩
    exact huniq k ⟨hk, (hsame j hj ht (new k)).mp hkey⟩
  · intro i hi j hj ht hkey
    have hval := (hsame j hj ht (old i)).mp hkey
    have hne := ne_neg_one_of_nonneg _ (hcode j hj ht)
    rcases h.kept i hi (by rw [hval]; exact hne) ⟨j, hj, hval.symm⟩ with ⟨hnew, hnone⟩
    refine ⟨hnew, ?_⟩
    rw [hrep i hi, hnone]
    exact recovered_empty c.reqIds r
  · -- Loaded: an answer other than -1 comes from a reported code.
    intro i hi hout
    have hsome : rep i ≠ -1 := by
      intro hnone
      rw [hrep i hi, hnone] at hout
      exact hout (recovered_empty c.reqIds r)
    rcases h.loaded i hi hsome with ⟨hnew, ⟨j, hj, hval⟩, habsent⟩
    have hpos : 0 ≤ c.codes r j := by
      rcases hwf.code_sign r hr j hj with hpos | hneg
      · exact hpos
      · exact absurd (hval.symm.trans hneg) hsome
    have ht := htoken j hj hpos
    have hrec : out i = c.topkIndices r j := by
      rw [hrep i hi, ← hval]
      exact Call.recovered_codes r j ht hpos
    refine ⟨by rw [hrec]; exact ht, ⟨j, hj, hrec.symm, ?_⟩, fun k hk hkeq => ?_⟩
    · exact (hsame j hj ht (new i)).mpr (hnew.trans hval.symm)
    · exact habsent k hk (hkeq.trans hnew)
  · -- Complete: a code no old entry matches is reported somewhere.
    intro j hj ht hmiss
    have hne := ne_neg_one_of_nonneg _ (hcode j hj ht)
    rcases h.complete j hj hne (fun k hk heq => hmiss k hk ((hsame j hj ht (old k)).mpr heq)) with
      ⟨i, hi, hval⟩
    refine ⟨i, hi, ?_⟩
    rw [hrep i hi, hval]
    exact Call.recovered_codes r j ht (hcode j hj ht)

/-- The invariant, over every run of calls whose batches fit: each call leaves
    every row it uses served, and the others as they were. -/
theorem run_rowServed (plat : Platform) (N : ℕ) (buf : ℕ → ℕ → Int64)
    (hbuf : Run plat N (fun c => c.WellFormed ∧ c.numReqs * SEQ_LEN ≤ 2 ^ 32) buf) (c : Call)
    (hwf : c.WellFormed) (hrows : c.numReqs * SEQ_LEN ≤ 2 ^ 32) (o : Outcome)
    (h : c.run plat N buf = .ok o) :
    (∀ r < c.numReqs, RowServed c r (buf r) (o.buffer r) (o.topkIndices r)) ∧
      ∀ r, c.numReqs ≤ r → ∀ i < SEQ_LEN, o.buffer r i = buf r i := by
  have hpad := distinctOffPad_of_run plat N _ (fun d hd => ⟨hd.2, hd.1.distinct⟩) buf hbuf
  refine ⟨fun r hr => ?_, run_frame o h⟩
  have hserve := serves_of_run hrows hwf.distinct (fun q _ => hpad q) o h r hr
  have hbal := Call.balanced_of_run hrows hwf.distinct (fun q _ => hpad q) o h
  exact rowServed_of_serves c hwf r hr _ _ _ _ hserve
    (fun i hi => (Call.run_rowLocal hrows hbal o h r i hr hi).2)

/-- A call with distinct tokens is well formed when its request ids are well
    inside 64 bits. -/
theorem wellFormed_of_small_ids (c : Call) (hdist : c.DistinctTokens)
    (hid : ∀ r < c.numReqs, 0 ≤ c.reqIds r ∧ (c.reqIds r).toInt < 2 ^ 40) : c.WellFormed := by
  refine ⟨hdist, fun r hr => (hid r hr).1, fun r hr i _ _ => ?_⟩
  have hlt := (hid r hr).2
  have htok := Int32.toInt_lt (c.topkIndices r i)
  unfold Call.key
  omega

/-- Rows that list distinct tokens, none of them negative and no more than fit
    a row, for request ids well inside 64 bits. -/
def Listed (rows : List (Int64 × List Int32)) : Prop :=
  rows.length ≤ 2 ^ 20 ∧ ∀ p ∈ rows, p.2.Nodup ∧ p.2.length ≤ SEQ_LEN ∧
    p.2.all (fun t => decide (0 ≤ t)) = true ∧ 0 ≤ p.1 ∧ p.1.toInt < 2 ^ 40

instance (rows : List (Int64 × List Int32)) : Decidable (Listed rows) :=
  inferInstanceAs (Decidable (_ ∧ _))

namespace Listed

variable {rows rows' : List (Int64 × List Int32)}

theorem wellFormed (h : Listed rows) : (Call.ofRows rows).WellFormed := by
  refine wellFormed_of_small_ids _ (Call.ofRows_distinct rows fun p hp => (h.2 p hp).1) ?_
  exact fun r hr => (h.2 _ (Call.ofRows_mem rows r hr)).2.2.2

theorem rows_le (h : Listed rows) : (Call.ofRows rows).numReqs * SEQ_LEN ≤ 2 ^ 32 :=
  (Call.ofRows_fits rows h.1).1

/-- A listed row holds as many codes as it lists tokens. -/
theorem occupancy_eq (h : Listed rows) (r : ℕ) (hr : r < rows.length) :
    occupancy (-1) SEQ_LEN ((Call.ofRows rows).codes r) = (rows.getD r (0, [])).2.length := by
  have hrow := h.2 _ (Call.ofRows_mem rows r hr)
  refine occupancy_leading (-1) SEQ_LEN _ _ hrow.2.1 (fun i hi => ?_) (fun i hi => ?_)
  · have ht : 0 ≤ (Call.ofRows rows).topkIndices r i := by
      refine of_decide_eq_true (List.all_eq_true.mp hrow.2.2.1 _ ?_)
      change (rows.getD r (0, [])).2.getD i (-1) ∈ (rows.getD r (0, [])).2
      rw [List.getD_eq_getElem _ _ hi]
      exact List.getElem_mem hi
    exact ne_neg_one_of_nonneg _
      (h.wellFormed.code_nonneg r hr i (Nat.lt_of_lt_of_le hi hrow.2.1) ht)
  · refine if_neg (fun ht => ?_)
    have := Call.ofRows_nonneg rows r i ht
    omega

theorem completes_start (h : Listed rows) (N : ℕ) (hN : rows.length ≤ N) :
    ∃ o, (Call.ofRows rows).run Platform.singleCore N (fun _ _ => -1) = .ok o :=
  Call.ofRows_completes rows N hN h.1 (fun p hp => (h.2 p hp).1)

/-- The call after one with listed rows completes, when it lists no fewer
    tokens in any row it uses. -/
theorem completes_next (h : Listed rows) (h' : Listed rows') (N : ℕ) (hN : rows'.length ≤ N)
    (hrows : rows'.length ≤ rows.length)
    (hgrow : ∀ r < rows'.length,
      (rows.getD r (0, [])).2.length ≤ (rows'.getD r (0, [])).2.length)
    (buf : ℕ → ℕ → Int64) (hbuf : ∀ r, DistinctOffPad (-1) SEQ_LEN (buf r)) (o : Outcome)
    (ho : (Call.ofRows rows).run Platform.singleCore N buf = .ok o) :
    ∃ o', (Call.ofRows rows').run Platform.singleCore N o.buffer = .ok o' := by
  have hdist := h.wellFormed.distinct
  have hpad : (Call.ofRows rows').PaddedRows o.buffer :=
    fun r _ => distinctOffPad_step h.rows_le hdist hbuf o ho r
  refine Call.completes_of_balanced (Call.ofRows_accepted rows' N hN) (Call.ofRows_fits rows' h'.1)
    ((Call.balanced_iff h'.wellFormed.distinct hpad).mpr (fun r hr => Or.inl ?_))
  have hr' : r < rows.length := Nat.lt_of_lt_of_le hr hrows
  have hold := (serves_of_run h.rows_le hdist (fun q _ => hbuf q) o ho r hr').occupancy_eq
  rw [hold, h.occupancy_eq r hr', h'.occupancy_eq r hr]
  exact hgrow r hr

end Listed

/-- The first call of a run: one row, two tokens for request 3. -/
theorem run_rowServed_first_call :
    ∃ o, (Call.ofRows [(3, [5, 7])]).run Platform.singleCore 4 (fun _ _ => -1) = .ok o ∧
      RowServed (Call.ofRows [(3, [5, 7])]) 0 (fun _ => -1) (o.buffer 0) (o.topkIndices 0) := by
  have hdist := Call.ofRows_distinct [(3, [5, 7])] (by decide)
  have hwf := wellFormed_of_small_ids (Call.ofRows [(3, [5, 7])]) hdist (by decide)
  rcases Call.ofRows_completes [(3, [5, 7])] 4 (by decide) (by decide) (by decide) with ⟨o, ho⟩
  exact ⟨o, ho, (run_rowServed Platform.singleCore 4 _ Run.start _ hwf (by decide) o ho).1 0
    (by decide)⟩

/-- Without a bound on the batch the invariant fails on the first call: the
    one token asked for is in the first row past the word range, and no slot
    of its row is ever given to it. -/
theorem run_rowServed_large_batch :
    ¬ ∀ (plat : Platform) (N : ℕ) (buf : ℕ → ℕ → Int64), Run plat N Call.WellFormed buf →
      ∀ c : Call, c.WellFormed → ∀ o, c.run plat N buf = .ok o →
        ∀ r < c.numReqs, RowServed c r (buf r) (o.buffer r) (o.topkIndices r) := by
  intro h
  have hbuf : staleBuffer (-1) = fun _ _ => -1 := by
    ext r i
    rw [staleBuffer, ite_self]
  have hid : (0 : Int64) ≤ 0 ∧ (0 : Int64).toInt < 2 ^ 40 := by decide
  have hwf := wellFormed_of_small_ids (lateCall 0) (lateCall_distinct 0) (fun _ _ => hid)
  rcases lateCall_run 0 (-1) (by decide) with ⟨o, ho, hout⟩
  have hserved := h Platform.singleCore (2 ^ 21 + 1) (staleBuffer (-1)) (hbuf ▸ Run.start)
    (lateCall 0) hwf o ho (2 ^ 21) (Nat.lt_succ_self _)
  have htok : (lateCall 0).topkIndices (2 ^ 21) 0 = 0 := by
    change (if 2 ^ 21 = 2 ^ 21 ∧ 0 = 0 then (0 : Int32) else -1) = 0
    rw [if_pos ⟨rfl, rfl⟩]
  have hkey : (lateCall 0).key (2 ^ 21) 0 = 0 := by
    rw [Call.key, htok]
    rfl
  rcases hserved.codes_once 0 SEQ_LEN_pos (by rw [htok]; decide) with ⟨i, ⟨hi, hval⟩, _⟩
  -- Every entry of the row is still -1, and no code is.
  rw [(hout _ (Nat.lt_succ_self _) i hi).1, if_neg (fun h => h.2.2 rfl), hbuf, hkey] at hval
  have hneg : (-1 : Int64).toInt ≠ 0 := by decide
  exact hneg hval

end AscendKernel
