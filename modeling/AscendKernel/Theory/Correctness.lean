import AscendKernel.Theory.TestInputs
import Mathlib.Algebra.Order.Ring.Rat
import Mathlib.Tactic.NormNum

/-!
# The Correctness Test

What the test and the benchmark can come to, whatever is drawn.

A case is valid when the checks of the generator let it through. A valid case
has rows that are pairs, so it passes; a case that is not valid is stopped by
a `ValueError`. There is nothing in between: no inputs that the test generates
make the operator and its reference differ, and none make either of them fail.
In particular the test cannot find what goes wrong when a row is asked for
less than it holds, since it never asks for less.

A benchmark makes its inputs from other seeds and with less and less padding.
That changes the pieces and nothing else.

## Main definitions

* `ValidCase`: The generator has inputs for a case.
* `caseInputs`, `caseMisses`: What they are, and what is to be missed in them.
* `TimedAlike`: Both providers did the same in an iteration.

## Theorems

* `generate_spec`: A case has inputs, or a check stops it.
* `caseInputs_agreement`: Both implementations agree on them.
* `correctnessMatrix_iff`: When the matrix passes.
* `benchmark_agreement`: What a benchmark times.
-/

namespace AscendKernel

/-- The same computation, on a list of cases. A case that fails a check of
    its own stops the cases after it. -/
theorem runCases_spec {γ : Type} (test : γ → Except TestFailure Bool) (valid : γ → Prop)
    (cs : List γ) (hok : ∀ c ∈ cs, valid c → test c = .ok true)
    (hstop : ∀ c ∈ cs, ¬ valid c → ∃ text, test c = .error (.valueError text)) :
    ((∀ c ∈ cs, valid c) → runCases test true cs = .ok true) ∧
      ((¬ ∀ c ∈ cs, valid c) → ∃ text, runCases test true cs = .error (.valueError text)) := by
  induction cs with
  | nil => exact ⟨fun _ => rfl, fun h => absurd (fun c hc => absurd hc List.not_mem_nil) h⟩
  | cons c cs ih =>
      have hrest := ih (fun d hd => hok d (List.mem_cons_of_mem c hd))
        (fun d hd => hstop d (List.mem_cons_of_mem c hd))
      by_cases hc : valid c
      · -- A case that passes is followed by the others.
        have htest : runCases test true (c :: cs) = runCases test true cs := by
          rw [runCases, hok c List.mem_cons_self hc]
          rfl
        rw [htest, List.forall_mem_cons, and_iff_right hc]
        exact hrest
      · -- A case that is not valid stops the matrix.
        rcases hstop c List.mem_cons_self hc with ⟨text, htext⟩
        refine ⟨fun h => absurd (h c List.mem_cons_self) hc, fun _ => ⟨text, ?_⟩⟩
        rw [runCases, htext]
        rfl

theorem allclose_of {α : Type} [DecidableEq α] (rows cols : ℕ) (a b : ℕ → ℕ → α)
    (h : ∀ r < rows, ∀ i < cols, a r i = b r i) : allclose rows cols a b = true := by
  unfold allclose
  rw [List.all_eq_true]
  intro r hr
  rw [List.all_eq_true]
  intro i hi
  exact decide_eq_true (h r (List.mem_range.mp hr) i (List.mem_range.mp hi))

/-- A check that is passed goes on, and one that is not stops with its
    text. -/
theorem valueCheck_bind {α : Type} (cond : Prop) [Decidable cond] (text : String)
    (f : Unit → Except TestFailure α) :
    (valueCheck (decide cond) text >>= f)
      = if cond then f () else .error (.valueError text) := by
  unfold valueCheck
  by_cases h : cond
  · rw [if_pos (decide_eq_true h), if_pos h]
    rfl
  · rw [if_neg (by rw [decide_eq_true_eq]; exact h), if_neg h]
    rfl

section Generator

variable (rounded : ℤ → ℚ → ℤ) (rng : Rng)

/-- A case the generator has inputs for. -/
structure ValidCase (num_reqs topk max_value : ℤ) (hit_rate : PyFloat) (num_neg_ones : ℤ) :
    Prop where
  num_reqs_le : num_reqs ≤ MAX_NUM_REQS
  topk_pos : 0 < topk
  max_value_pos : 0 < max_value
  hit_rate_range : 0 ≤ hit_rate.value ∧ hit_rate.value ≤ 1
  unique_le : requiredUnique (actualTopk topk num_neg_ones)
    (hitCount rounded (actualTopk topk num_neg_ones) hit_rate) ≤ max_value

variable {rounded} {num_reqs topk max_value : ℤ} {hit_rate : PyFloat} {num_neg_ones : ℤ}

theorem validateCaseConfig_spec (num_reqs topk max_value : ℤ) :
    (num_reqs ≤ MAX_NUM_REQS ∧ 0 < topk ∧ 0 < max_value →
      validateCaseConfig num_reqs topk max_value = .ok ()) ∧
      (¬ (num_reqs ≤ MAX_NUM_REQS ∧ 0 < topk ∧ 0 < max_value) →
        ∃ text, validateCaseConfig num_reqs topk max_value = .error (.valueError text)) := by
  unfold validateCaseConfig
  simp only [valueCheck_bind]
  by_cases hreqs : num_reqs ≤ MAX_NUM_REQS
  · by_cases htopk : 0 < topk
    · rw [if_pos hreqs, if_pos htopk, and_iff_right hreqs, and_iff_right htopk]
      unfold valueCheck
      exact ⟨fun h => if_pos (decide_eq_true h),
        fun h => ⟨_, if_neg (by rw [decide_eq_true_eq]; exact h)⟩⟩
    · rw [if_pos hreqs, if_neg htopk]
      exact ⟨fun h => absurd h.2.1 htopk, fun _ => ⟨_, rfl⟩⟩
  · rw [if_neg hreqs]
    exact ⟨fun h => absurd h.1 hreqs, fun _ => ⟨_, rfl⟩⟩

variable (rounded num_reqs topk max_value hit_rate num_neg_ones) in
/-- The inputs of a case, if it is valid. -/
def caseInputs : Inputs :=
  let actual_topk := actualTopk topk num_neg_ones
  let hit_count := hitCount rounded actual_topk hit_rate
  writeRows num_reqs.toNat topk.toNat fun req_id =>
    requestTokens (rng max_value.toNat actual_topk.toNat req_id) hit_count.toNat
      (requiredUnique actual_topk hit_count).toNat

variable (rounded topk max_value hit_rate num_neg_ones) in
/-- The tokens of a request that are in its new row only. -/
def caseMisses (req_id : ℕ) : List ℕ :=
  let actual_topk := actualTopk topk num_neg_ones
  (rng max_value.toNat actual_topk.toNat req_id).missTokens
    (hitCount rounded actual_topk hit_rate).toNat

variable (rounded num_reqs topk max_value hit_rate num_neg_ones) in
/-- A case has inputs, unless a check of the generator stops it. -/
theorem generate_spec (hreqs : 0 ≤ num_reqs) (hneg : 0 ≤ num_neg_ones) :
    (ValidCase rounded num_reqs topk max_value hit_rate num_neg_ones →
      generateTopkPairWithHitRate rounded rng num_reqs topk max_value hit_rate num_neg_ones
        = .ok (caseInputs rounded rng num_reqs topk max_value hit_rate num_neg_ones)) ∧
      (¬ ValidCase rounded num_reqs topk max_value hit_rate num_neg_ones →
        ∃ text, generateTopkPairWithHitRate rounded rng num_reqs topk max_value hit_rate
          num_neg_ones = .error (.valueError text)) := by
  have hconfig := validateCaseConfig_spec num_reqs topk max_value
  unfold generateTopkPairWithHitRate
  by_cases hvalid : num_reqs ≤ MAX_NUM_REQS ∧ 0 < topk ∧ 0 < max_value
  · rw [hconfig.1 hvalid, ok_bind]
    simp only [valueCheck_bind]
    by_cases hrate : 0 ≤ hit_rate.value ∧ hit_rate.value ≤ 1
    · rw [if_pos hrate]
      by_cases hunique : requiredUnique (actualTopk topk num_neg_ones)
          (hitCount rounded (actualTopk topk num_neg_ones) hit_rate) ≤ max_value
      · -- No shape is refused: there are rows, and they are wide enough.
        have htorch : ¬ (num_reqs < 0 ∨ 0 < num_reqs ∧ topk < actualTopk topk num_neg_ones) := by
          unfold actualTopk
          omega
        rw [if_pos hunique, if_neg htorch]
        exact ⟨fun _ => rfl, fun h => absurd ⟨hvalid.1, hvalid.2.1, hvalid.2.2, hrate, hunique⟩ h⟩
      · rw [if_neg hunique]
        exact ⟨fun h => absurd h.unique_le hunique, fun _ => ⟨_, rfl⟩⟩
    · rw [if_neg hrate]
      exact ⟨fun h => absurd h.hit_rate_range hrate, fun _ => ⟨_, rfl⟩⟩
  · rcases hconfig.2 hvalid with ⟨text, htext⟩
    rw [htext]
    exact ⟨fun h => absurd ⟨h.num_reqs_le, h.topk_pos, h.max_value_pos⟩ hvalid,
      fun _ => ⟨text, rfl⟩⟩

variable (h : ValidCase rounded num_reqs FIXED_TOPK max_value hit_rate num_neg_ones)

include h

/-- The hits are clamped, so whatever was rounded to, the permutation is long
    enough for the three pieces. -/
theorem ValidCase.counts (hneg : 0 ≤ num_neg_ones) :
    let actual_topk := actualTopk FIXED_TOPK num_neg_ones
    let hit_count := hitCount rounded actual_topk hit_rate
    0 ≤ hit_count ∧ hit_count ≤ actual_topk ∧ actual_topk ≤ FIXED_TOPK ∧
      (requiredUnique actual_topk hit_count).toNat
        = actual_topk.toNat + (actual_topk.toNat - hit_count.toNat) ∧
      (requiredUnique actual_topk hit_count).toNat ≤ max_value.toNat := by
  have hunique := h.unique_le
  have hpos := h.topk_pos
  unfold requiredUnique hitCount at hunique ⊢
  have hactual : 0 ≤ actualTopk FIXED_TOPK num_neg_ones ∧
      actualTopk FIXED_TOPK num_neg_ones ≤ FIXED_TOPK := by
    unfold actualTopk
    omega
  dsimp only at hunique ⊢
  omega

theorem caseMisses_length (hneg : 0 ≤ num_neg_ones) (r : ℕ) :
    ((caseMisses rounded rng FIXED_TOPK max_value hit_rate num_neg_ones r).length : ℤ)
      = actualTopk FIXED_TOPK num_neg_ones
        - hitCount rounded (actualTopk FIXED_TOPK num_neg_ones) hit_rate := by
  have hcounts := h.counts hneg
  have hlen := (rng max_value.toNat (actualTopk FIXED_TOPK num_neg_ones).toNat r).length_pieces
    (hitCount rounded (actualTopk FIXED_TOPK num_neg_ones) hit_rate).toNat _ (by omega)
    hcounts.2.2.2.2 hcounts.2.2.2.1
  rw [caseMisses, hlen.2.1]
  omega

/-- The two rows of a request are a pair. -/
theorem requestTokens_pair (hneg : 0 ≤ num_neg_ones) (hmax : max_value ≤ 2 ^ 31) (r : ℕ) :
    IsPair (caseMisses rounded rng FIXED_TOPK max_value hit_rate num_neg_ones r)
      (requestTokens (rng max_value.toNat (actualTopk FIXED_TOPK num_neg_ones).toNat r)
        (hitCount rounded (actualTopk FIXED_TOPK num_neg_ones) hit_rate).toNat
        (requiredUnique (actualTopk FIXED_TOPK num_neg_ones)
          (hitCount rounded (actualTopk FIXED_TOPK num_neg_ones) hit_rate)).toNat) := by
  rcases h.counts hneg with ⟨hhit, hle, hwidth, hreq, huniq⟩
  have hle' : (hitCount rounded (actualTopk FIXED_TOPK num_neg_ones) hit_rate).toNat
      ≤ (actualTopk FIXED_TOPK num_neg_ones).toNat := by omega
  have hactual : (actualTopk FIXED_TOPK num_neg_ones).toNat ≤ SEQ_LEN := by
    have htopk : FIXED_TOPK = SEQ_LEN := rfl
    omega
  have hlen := (rng max_value.toNat (actualTopk FIXED_TOPK num_neg_ones).toNat r).length_pieces
    _ _ hle' huniq hreq
  -- The old row reaches past the new one by as much as it misses.
  have hgrow : (actualTopk FIXED_TOPK num_neg_ones).toNat
      ≤ (requiredUnique (actualTopk FIXED_TOPK num_neg_ones)
        (hitCount rounded (actualTopk FIXED_TOPK num_neg_ones) hit_rate)).toNat := by omega
  refine ⟨_, _, Draws.nodup_pieces _ _ _ hgrow, requestTokens_new _ _ _ huniq hreq,
    requestTokens_old _ _ _ hle' huniq hreq, ?_, ?_, fun t ht => ?_⟩
  · rw [caseMisses, hlen.2.1, hlen.2.2]
  · rw [caseMisses, hlen.1, hlen.2.1]
    omega
  · have hlt := Draws.lt_of_mem _ _ _ t hgrow ht
    omega

/-- On a platform whose cores and requests can be added in 32 bits, both
    complete on every valid case, and agree. -/
theorem caseInputs_agreement (plat : Platform) (hcores : plat.coreNum + MAX_NUM_REQS ≤ 2 ^ 32)
    (hneg : 0 ≤ num_neg_ones) (hmax : max_value ≤ 2 ^ 31) :
    ∃ pt asc,
      referenceImpl (caseInputs rounded rng num_reqs FIXED_TOPK max_value hit_rate num_neg_ones)
        = .ok pt ∧
      ascendImpl plat (caseInputs rounded rng num_reqs FIXED_TOPK max_value hit_rate num_neg_ones)
        = .ok asc ∧
      Agreement (caseInputs rounded rng num_reqs FIXED_TOPK max_value hit_rate num_neg_ones)
        (caseMisses rounded rng FIXED_TOPK max_value hit_rate num_neg_ones) pt asc := by
  have hb : num_reqs.toNat ≤ MAX_NUM_REQS := by
    have := h.num_reqs_le
    omega
  have hfit : Fits plat num_reqs.toNat := by
    have := plat.coreNum_pos
    unfold MAX_NUM_REQS at hb hcores
    exact ⟨(rows_le_iff _).mpr (by omega), by omega⟩
  exact writeRows_agreement plat num_reqs.toNat _ _
    (fun r _ => requestTokens_pair rng h hneg hmax r) hb hfit

end Generator

section Matrix

variable (plat : Platform) (rounded : ℤ → ℚ → ℤ) (rng : ℕ → Rng)

/-- A case passes when it is valid, and is stopped by a check of the generator
    when it is not. -/
theorem testCorrectness_spec (hcores : plat.coreNum + MAX_NUM_REQS ≤ 2 ^ 32)
    (num_reqs max_value : ℤ) (hit_rate : PyFloat) (hreqs : 0 ≤ num_reqs)
    (hmax : max_value ≤ 2 ^ 31) :
    (ValidCase rounded num_reqs FIXED_TOPK max_value hit_rate 256 →
      testCorrectness plat rounded rng num_reqs FIXED_TOPK max_value hit_rate = .ok true) ∧
      (¬ ValidCase rounded num_reqs FIXED_TOPK max_value hit_rate 256 →
        ∃ text, testCorrectness plat rounded rng num_reqs FIXED_TOPK max_value hit_rate
          = .error (.valueError text)) := by
  have hneg : (0 : ℤ) ≤ 256 := by decide
  have hgen := generate_spec rounded (rng 42) num_reqs FIXED_TOPK max_value hit_rate 256 hreqs hneg
  unfold testCorrectness
  constructor
  · intro h
    -- Both complete and agree, so both comparisons hold.
    rcases caseInputs_agreement (rng 42) h plat hcores hneg hmax with ⟨pt, asc, hpt, hasc, hagree⟩
    rw [hgen.1 h, ok_bind, hpt, ok_bind, hasc, ok_bind,
      allclose_of _ _ _ _ hagree.result, allclose_of _ _ _ _ hagree.last_step]
    rfl
  · intro h
    rcases hgen.2 h with ⟨text, htext⟩
    rw [htext]
    exact ⟨text, rfl⟩

theorem mem_matrixCases (num_reqs_list max_values : List ℤ) (hit_rates : List PyFloat)
    (c : ℤ × PyFloat × ℤ) : c ∈ matrixCases num_reqs_list max_values hit_rates ↔
      c.1 ∈ max_values ∧ c.2.1 ∈ hit_rates ∧ c.2.2 ∈ num_reqs_list := by
  rcases c with ⟨m, q, n⟩
  unfold matrixCases
  simp only [List.mem_flatMap, List.mem_map, Prod.mk.injEq]
  constructor
  · rintro ⟨m', hm, q', hq, n', hn, rfl, rfl, rfl⟩
    exact ⟨hm, hq, hn⟩
  · rintro ⟨hm, hq, hn⟩
    exact ⟨m, hm, q, hq, n, hn, rfl, rfl, rfl⟩

/-- A token range that is large enough for any share of hits. -/
theorem validCase_of_range (num_reqs max_value : ℤ) (hit_rate : PyFloat) (num_neg_ones : ℤ)
    (hreqs : num_reqs ≤ MAX_NUM_REQS) (hmax : 4096 ≤ max_value)
    (hrate : 0 ≤ hit_rate.value ∧ hit_rate.value ≤ 1) (hneg : 0 ≤ num_neg_ones) :
    ValidCase rounded num_reqs FIXED_TOPK max_value hit_rate num_neg_ones := by
  refine ⟨hreqs, by decide, by omega, hrate, ?_⟩
  have hactual : actualTopk FIXED_TOPK num_neg_ones ≤ 2048 := by
    unfold actualTopk FIXED_TOPK
    omega
  unfold requiredUnique hitCount
  dsimp only
  omega

/-- Nothing is shuffled. -/
def Rng.identity : Rng := fun max_value actual_topk _ =>
  { perm := List.range max_value
    new_order := List.range actual_topk
    old_order := List.range actual_topk
    perm_perm := List.Perm.refl _
    new_perm := List.Perm.refl _
    old_perm := List.Perm.refl _ }

/-- The integer nearest to the product with a hit rate, and of two as near the
    even one. -/
def roundHalfEven (actual_topk : ℤ) (hit_rate : ℚ) : ℤ :=
  let product := actual_topk * hit_rate.num
  let below := product / hit_rate.den
  let rest := product % hit_rate.den
  if 2 * rest < hit_rate.den then below
  else if hit_rate.den < 2 * rest then below + 1
  else if below % 2 = 0 then below else below + 1

/-- Whatever is drawn, the matrix passes when every case in it is valid, and
    otherwise a check of the generator stops it: no case ever fails. -/
theorem correctnessMatrix_iff (hcores : plat.coreNum + MAX_NUM_REQS ≤ 2 ^ 32)
    (num_reqs_list max_values : List ℤ) (hit_rates : List PyFloat)
    (hreqs : ∀ n ∈ num_reqs_list, 0 ≤ n) (hmax : ∀ m ∈ max_values, m ≤ 2 ^ 31) :
    (runCorrectnessMatrix plat rounded rng num_reqs_list max_values hit_rates = .ok true ↔
        ∀ m ∈ max_values, ∀ q ∈ hit_rates, ∀ n ∈ num_reqs_list,
          ValidCase rounded n FIXED_TOPK m q 256) ∧
      (runCorrectnessMatrix plat rounded rng num_reqs_list max_values hit_rates ≠ .ok true →
        ∃ text, runCorrectnessMatrix plat rounded rng num_reqs_list max_values hit_rates
          = .error (.valueError text)) := by
  have hmem := mem_matrixCases num_reqs_list max_values hit_rates
  have hcase : ∀ c ∈ matrixCases num_reqs_list max_values hit_rates,
      (ValidCase rounded c.2.2 FIXED_TOPK c.1 c.2.1 256 →
        testCorrectness plat rounded rng c.2.2 FIXED_TOPK c.1 c.2.1 = .ok true) ∧
        (¬ ValidCase rounded c.2.2 FIXED_TOPK c.1 c.2.1 256 →
          ∃ text, testCorrectness plat rounded rng c.2.2 FIXED_TOPK c.1 c.2.1
            = .error (.valueError text)) := by
    intro c hc
    have hc := (hmem c).mp hc
    exact testCorrectness_spec plat rounded rng hcores c.2.2 c.1 c.2.1 (hreqs _ hc.2.2)
      (hmax _ hc.1)
  have hall : (∀ c ∈ matrixCases num_reqs_list max_values hit_rates,
      ValidCase rounded c.2.2 FIXED_TOPK c.1 c.2.1 256) ↔
        ∀ m ∈ max_values, ∀ q ∈ hit_rates, ∀ n ∈ num_reqs_list,
          ValidCase rounded n FIXED_TOPK m q 256 :=
    ⟨fun h m hm q hq n hn => h (m, q, n) ((hmem _).mpr ⟨hm, hq, hn⟩),
      fun h c hc => h _ ((hmem c).mp hc).1 _ ((hmem c).mp hc).2.1 _ ((hmem c).mp hc).2.2⟩
  have hrun := runCases_spec _ _ _ (fun c hc => (hcase c hc).1) (fun c hc => (hcase c hc).2)
  rw [← hall]
  unfold runCorrectnessMatrix
  by_cases hvalid : ∀ c ∈ matrixCases num_reqs_list max_values hit_rates,
      ValidCase rounded c.2.2 FIXED_TOPK c.1 c.2.1 256
  · exact ⟨⟨fun _ => hvalid, fun _ => hrun.1 hvalid⟩, fun h => absurd (hrun.1 hvalid) h⟩
  · refine ⟨⟨fun h => ?_, fun h => absurd h hvalid⟩, fun _ => hrun.2 hvalid⟩
    rcases hrun.2 hvalid with ⟨text, htext⟩
    rw [htext] at h
    exact absurd h (error_ne_ok _ _)

/-- Half of the tokens are hits, for few and for many requests. -/
theorem correctnessMatrix_iff_half :
    runCorrectnessMatrix Platform.singleCore roundHalfEven (fun _ => Rng.identity) [1, 128]
      [10000, 131072] [⟨1 / 2, "0.5"⟩] = .ok true := by
  refine (correctnessMatrix_iff Platform.singleCore roundHalfEven (fun _ => Rng.identity)
    (by decide) [1, 128] [10000, 131072] [⟨1 / 2, "0.5"⟩] (by decide) (by decide)).1.mpr ?_
  intro m hm q hq n hn
  have hm' : 4096 ≤ m := by
    have hall : ∀ m ∈ [10000, 131072], (4096 : ℤ) ≤ m := by decide
    exact hall m hm
  have hn' : n ≤ MAX_NUM_REQS := by
    have hall : ∀ n ∈ [1, 128], n ≤ (MAX_NUM_REQS : ℤ) := by decide
    exact hall n hn
  rw [List.mem_singleton] at hq
  rw [hq]
  exact validCase_of_range roundHalfEven n m _ 256 hn' hm' ⟨by norm_num, by norm_num⟩ (by decide)

/-- The inputs of a benchmark, when each of its iterations is valid. -/
theorem makeBenchmarkInputs_ok (num_reqs max_value : ℤ) (hit_rate : PyFloat)
    (hreqs : 0 ≤ num_reqs)
    (hvalid : ∀ k < WARMUP_ITERS + BENCH_ITERS, ValidCase rounded num_reqs FIXED_TOPK max_value
      hit_rate (max 0 (256 - (k : ℤ)))) :
    ∃ inputs, makeBenchmarkInputs rounded rng num_reqs FIXED_TOPK max_value hit_rate
      = .ok inputs := by
  refine ⟨(List.range (WARMUP_ITERS + BENCH_ITERS)).map fun (k : ℕ) =>
    caseInputs rounded (rng (1000 + k)) num_reqs FIXED_TOPK max_value hit_rate
      (max 0 (256 - (k : ℤ))), (mapM_eq_ok _ _ _).mpr ?_⟩
  rw [List.forall₂_map_right_iff, List.forall₂_same]
  intro k hk
  exact (generate_spec rounded (rng (1000 + k)) num_reqs FIXED_TOPK max_value hit_rate _ hreqs
    (le_max_left _ _)).1 (hvalid k (List.mem_range.mp hk))

/-- Iteration `k` of a benchmark: its inputs, and what each provider leaves on
    them. They agree, and each row reports as many tokens as were meant to be
    missed. -/
structure TimedAlike (max_value : ℤ) (hit_rate : PyFloat) (k : ℕ)
    (p : Inputs × ((ℕ → ℕ → Int32) × (ℕ → ℕ → Int64)) × ((ℕ → ℕ → Int32) × (ℕ → ℕ → Int64))) :
    Prop where
  agreement : Agreement p.1 (caseMisses rounded (rng (1000 + k)) FIXED_TOPK max_value hit_rate
    (max 0 (256 - (k : ℤ)))) p.2.1 p.2.2
  missed : ∀ r < p.1.batch_size,
    (countTrue (fun j => decide (p.2.2.1 r j ≠ -1)) p.1.topk : ℤ)
      = actualTopk FIXED_TOPK (max 0 (256 - (k : ℤ)))
        - hitCount rounded (actualTopk FIXED_TOPK (max 0 (256 - (k : ℤ)))) hit_rate

/-- The run lemma of a benchmark: on the inputs of any of its iterations, both
    providers complete and agree. -/
theorem benchmark_along (hcores : plat.coreNum + MAX_NUM_REQS ≤ 2 ^ 32)
    (num_reqs max_value : ℤ) (hit_rate : PyFloat) (hreqs : 0 ≤ num_reqs)
    (hmax : max_value ≤ 2 ^ 31) (ks : List ℕ) (inputs : List Inputs)
    (h : List.Forall₂ (fun (k : ℕ) i => generateTopkPairWithHitRate rounded (rng (1000 + k))
      num_reqs FIXED_TOPK max_value hit_rate (max 0 (256 - (k : ℤ))) = .ok i) ks inputs) :
    ∃ pts ascs, inputs.mapM referenceImpl = .ok pts ∧ inputs.mapM (ascendImpl plat) = .ok ascs ∧
      List.Forall₂ (TimedAlike rounded rng max_value hit_rate) ks
        (inputs.zip (pts.zip ascs)) := by
  induction h with
  | nil => exact ⟨[], [], rfl, rfl, List.Forall₂.nil⟩
  | @cons k i ks is hgen _ ih =>
      rcases ih with ⟨pts, ascs, hpts, hascs, hrest⟩
      have hneg : (0 : ℤ) ≤ max 0 (256 - (k : ℤ)) := le_max_left _ _
      have hspec := generate_spec rounded (rng (1000 + k)) num_reqs FIXED_TOPK max_value hit_rate
        _ hreqs hneg
      -- What was generated was generated from a valid case.
      by_cases hvalid : ValidCase rounded num_reqs FIXED_TOPK max_value hit_rate
          (max 0 (256 - (k : ℤ)))
      · have hi := hspec.1 hvalid
        rw [hgen, Except.ok.injEq] at hi
        rcases caseInputs_agreement (rng (1000 + k)) hvalid plat hcores hneg hmax with
          ⟨pt, asc, hpt, hasc, hagree⟩
        rw [← hi] at hpt hasc hagree
        have hmissed := caseMisses_length (rng (1000 + k)) hvalid hneg
        refine ⟨pt :: pts, asc :: ascs, ?_, ?_, List.Forall₂.cons ⟨hagree, fun r hr => ?_⟩ hrest⟩
        · exact (mapM_eq_ok _ _ _).mpr (List.Forall₂.cons hpt ((mapM_eq_ok _ _ _).mp hpts))
        · exact (mapM_eq_ok _ _ _).mpr (List.Forall₂.cons hasc ((mapM_eq_ok _ _ _).mp hascs))
        · rw [hagree.reported_count r hr, hmissed r]
      · rcases hspec.2 hvalid with ⟨text, htext⟩
        rw [hgen] at htext
        exact absurd htext.symm (error_ne_ok _ _)

/-- Whatever is drawn, the two providers are timed on the same work: once the
    inputs of a benchmark are there, both complete on all of them and leave
    the same, and in every iteration a row reports the tokens that were drawn
    for its new row only, each of them once. -/
theorem benchmark_agreement (hcores : plat.coreNum + MAX_NUM_REQS ≤ 2 ^ 32)
    (num_reqs max_value : ℤ) (hit_rate : PyFloat) (hreqs : 0 ≤ num_reqs)
    (hmax : max_value ≤ 2 ^ 31) (inputs : List Inputs)
    (h : makeBenchmarkInputs rounded rng num_reqs FIXED_TOPK max_value hit_rate = .ok inputs) :
    ∃ pts ascs,
      benchmark plat rounded rng num_reqs FIXED_TOPK max_value hit_rate .pytorch = .ok pts ∧
      benchmark plat rounded rng num_reqs FIXED_TOPK max_value hit_rate .ascend = .ok ascs ∧
      List.Forall₂ (TimedAlike rounded rng max_value hit_rate)
        (List.range (WARMUP_ITERS + BENCH_ITERS)) (inputs.zip (pts.zip ascs)) := by
  rcases benchmark_along plat rounded rng hcores num_reqs max_value hit_rate hreqs hmax _ inputs
    ((mapM_eq_ok _ _ _).mp h) with ⟨pts, ascs, hpts, hascs, hall⟩
  refine ⟨pts, ascs, ?_, ?_, hall⟩
  · unfold benchmark
    rw [h, ok_bind]
    exact hpts
  · unfold benchmark
    rw [h, ok_bind]
    exact hascs

/-- A benchmark in which half of the tokens are hits, on the largest batch. -/
theorem benchmark_agreement_half :
    ∃ pts ascs,
      benchmark Platform.singleCore roundHalfEven (fun _ => Rng.identity) 128 FIXED_TOPK 10000
        ⟨1 / 2, "0.5"⟩ .pytorch = .ok pts ∧
      benchmark Platform.singleCore roundHalfEven (fun _ => Rng.identity) 128 FIXED_TOPK 10000
        ⟨1 / 2, "0.5"⟩ .ascend = .ok ascs := by
  rcases makeBenchmarkInputs_ok roundHalfEven (fun _ => Rng.identity) 128 10000 ⟨1 / 2, "0.5"⟩
    (by decide) (fun k _ => validCase_of_range roundHalfEven 128 10000 _ _ (by decide) (by decide)
      ⟨by norm_num, by norm_num⟩ (le_max_left _ _)) with ⟨inputs, hinputs⟩
  rcases benchmark_agreement Platform.singleCore roundHalfEven (fun _ => Rng.identity) (by decide)
    128 10000 ⟨1 / 2, "0.5"⟩ (by decide) (by decide) inputs hinputs with
    ⟨pts, ascs, hpts, hascs, _⟩
  exact ⟨pts, ascs, hpts, hascs⟩

end Matrix

end AscendKernel
