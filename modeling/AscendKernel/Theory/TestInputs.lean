import AscendKernel.Core.Correctness
import AscendKernel.Theory.SessionPairs

/-!
# The Inputs of the Test

What the operator and its reference make of inputs the generator writes.

The generator cuts one permutation into three pieces and shuffles two rows
from them. All the operator can see of that is a pair: two rows without
repetitions, equally long, that share one piece. `IsPair` says so about the
lists, and everything the invariant of the buffer asks for follows from it.
The tokens are distinct, so the call is regular; the codes are, so the buffer
is padded; the rows are equally long, so the call is balanced. It therefore
completes, the reference leaves the same, and the answer is the piece the old
row lacks.

Tokens have to be less than 2^31. A larger one is stored as a negative int32,
which the operator takes for an empty position, while the old row keeps its
code in full.

## Main definitions

* `Draws.missTokens`: The piece of a permutation only the new row has.
* `codeOf`, `tokenOf`: A token as the old and the new row store it.
* `IsPair`: Two lists of tokens that share a piece.
* `Agreement`: What both implementations leave on a pair of inputs.

## Theorems

* `requestTokens_new`, `requestTokens_old`: What a row is a shuffle of.
* `writeRows_balanced`: A call on pairs is balanced.
* `writeRows_reports`: It answers with the tokens meant to be missed.
* `writeRows_agreement`: Both implementations complete, and agree.
-/

namespace AscendKernel

section Tokens

variable {max_value actual_topk : ℕ} (d : Draws max_value actual_topk)
  (hit_count required_unique : ℕ)

/-- The tokens meant to be in both rows. -/
def Draws.hitTokens : List ℕ := (d.perm.take actual_topk).take hit_count

/-- The tokens meant to be in the new row only. -/
def Draws.missTokens : List ℕ := (d.perm.take actual_topk).drop hit_count

/-- The tokens meant to be in the old row only. -/
def Draws.oldExtraTokens : List ℕ := (d.perm.take required_unique).drop actual_topk

theorem Draws.length_perm : d.perm.length = max_value := by
  rw [d.perm_perm.length_eq, List.length_range]

theorem Draws.new_pieces :
    d.hitTokens hit_count ++ d.missTokens hit_count = d.perm.take actual_topk :=
  List.take_append_drop _ _

/-- The three are pieces of one permutation. -/
theorem Draws.pieces (hreq : actual_topk ≤ required_unique) :
    d.hitTokens hit_count ++ d.missTokens hit_count ++ d.oldExtraTokens required_unique
      = d.perm.take required_unique := by
  have hnew : d.perm.take actual_topk = (d.perm.take required_unique).take actual_topk := by
    rw [List.take_take, Nat.min_eq_left hreq]
  rw [d.new_pieces, hnew]
  exact List.take_append_drop _ _

theorem Draws.nodup_pieces (hreq : actual_topk ≤ required_unique) :
    (d.hitTokens hit_count ++ d.missTokens hit_count
      ++ d.oldExtraTokens required_unique).Nodup := by
  rw [d.pieces hit_count required_unique hreq]
  exact List.Nodup.sublist (List.take_sublist _ _)
    (d.perm_perm.nodup_iff.mpr List.nodup_range)

/-- A token of any piece is in range. -/
theorem Draws.lt_of_mem (t : ℕ) (hreq : actual_topk ≤ required_unique)
    (ht : t ∈ d.hitTokens hit_count ++ d.missTokens hit_count
      ++ d.oldExtraTokens required_unique) : t < max_value := by
  rw [d.pieces hit_count required_unique hreq] at ht
  exact List.mem_range.mp (d.perm_perm.mem_iff.mp (List.mem_of_mem_take ht))

/-- The sizes of the pieces, when the permutation is long enough. -/
theorem Draws.length_pieces (hhit : hit_count ≤ actual_topk) (hmax : required_unique ≤ max_value)
    (hreq : required_unique = actual_topk + (actual_topk - hit_count)) :
    (d.hitTokens hit_count).length = hit_count ∧
      (d.missTokens hit_count).length = actual_topk - hit_count ∧
      (d.oldExtraTokens required_unique).length = actual_topk - hit_count := by
  have hlen := d.length_perm
  unfold hitTokens missTokens oldExtraTokens
  simp only [List.length_take, List.length_drop]
  omega

/-- The new row holds the first two pieces, in some order. -/
theorem requestTokens_new (hmax : required_unique ≤ max_value)
    (hreq : required_unique = actual_topk + (actual_topk - hit_count)) :
    (requestTokens d hit_count required_unique).1.Perm
      (d.hitTokens hit_count ++ d.missTokens hit_count) := by
  have hlen := d.length_perm
  rw [d.new_pieces]
  unfold requestTokens
  -- Without tokens the rows are not shuffled, and empty.
  by_cases hpos : 0 < actual_topk
  · simp only [if_pos hpos]
    refine gather_perm 0 _ _ ?_
    rw [List.length_take, Nat.min_eq_left (by omega)]
    exact d.new_perm
  · simp only [if_neg hpos]
    exact List.Perm.refl _

/-- The old row holds the first and the third. -/
theorem requestTokens_old (hhit : hit_count ≤ actual_topk) (hmax : required_unique ≤ max_value)
    (hreq : required_unique = actual_topk + (actual_topk - hit_count)) :
    (requestTokens d hit_count required_unique).2.Perm
      (d.hitTokens hit_count ++ d.oldExtraTokens required_unique) := by
  have hlen := d.length_pieces hit_count required_unique hhit hmax hreq
  unfold requestTokens
  by_cases hpos : 0 < actual_topk
  · simp only [if_pos hpos]
    refine gather_perm 0 (d.hitTokens hit_count ++ d.oldExtraTokens required_unique) _ ?_
    rw [List.length_append, hlen.1, hlen.2.2, Nat.add_sub_of_le hhit]
    exact d.old_perm
  · simp only [if_neg hpos]
    exact List.Perm.refl _

end Tokens

/-- The code of a token of row `r`, in a row the generator writes. -/
def codeOf (r t : ℕ) : Int64 := Int64.ofNat t + Int64.ofNat (r * (1 <<< 16))

theorem codeOf_toInt (r t : ℕ) (hr : r < MAX_NUM_REQS) (ht : t < 2 ^ 31) :
    (codeOf r t).toInt = t + r * 2 ^ 16 := by
  unfold MAX_NUM_REQS at hr
  have hshift : (1 : ℕ) <<< 16 = 2 ^ 16 := rfl
  rw [codeOf, hshift, ← Int64.ofNat_add, Int64.toInt_ofNat_of_lt (by omega)]
  push_cast
  rfl

theorem codeOf_ne (r t : ℕ) (hr : r < MAX_NUM_REQS) (ht : t < 2 ^ 31) : codeOf r t ≠ -1 := by
  intro heq
  have h := codeOf_toInt r t hr ht
  have hneg : (-1 : Int64).toInt = -1 := by decide
  rw [heq, hneg] at h
  omega

theorem codeOf_injOn (r : ℕ) (hr : r < MAX_NUM_REQS) (t u : ℕ) (ht : t < 2 ^ 31)
    (hu : u < 2 ^ 31) (heq : codeOf r t = codeOf r u) : t = u := by
  have h := codeOf_toInt r t hr ht
  rw [heq, codeOf_toInt r u hr hu] at h
  omega

/-- The codes of a row's tokens are distinct, and none of them is -1. -/
theorem codes_nodup (r : ℕ) (hr : r < MAX_NUM_REQS) (xs : List ℕ) (hxs : xs.Nodup)
    (hlt : ∀ t ∈ xs, t < 2 ^ 31) :
    (xs.map (codeOf r)).Nodup ∧ (-1 : Int64) ∉ xs.map (codeOf r) := by
  refine ⟨hxs.map_on (fun t ht u hu heq => codeOf_injOn r hr t u (hlt t ht) (hlt u hu) heq), ?_⟩
  intro hmem
  rcases List.mem_map.mp hmem with ⟨t, ht, heq⟩
  exact codeOf_ne r t hr (hlt t ht) heq

/-- A row has the code of a token when it has the token. -/
theorem codeOf_mem_iff (r : ℕ) (hr : r < MAX_NUM_REQS) (xs : List ℕ) (hlt : ∀ u ∈ xs, u < 2 ^ 31)
    (t : ℕ) (ht : t < 2 ^ 31) : codeOf r t ∈ xs.map (codeOf r) ↔ t ∈ xs := by
  constructor
  · intro h
    rcases List.mem_map.mp h with ⟨u, hu, heq⟩
    rw [← codeOf_injOn r hr u t (hlt u hu) ht heq]
    exact hu
  · exact List.mem_map_of_mem

/-- The token as the new row stores it. -/
def tokenOf (t : ℕ) : Int32 := (Int64.ofNat t).toInt32

theorem tokenOf_toInt (t : ℕ) (ht : t < 2 ^ 31) : (tokenOf t).toInt = t := by
  rw [tokenOf, Int64.toInt_toInt32, Int64.toInt_ofNat_of_lt (by omega)]
  exact Int.bmod_eq_of_le_mul_two (by omega) (by omega)

theorem tokenOf_nonneg (t : ℕ) (ht : t < 2 ^ 31) : 0 ≤ tokenOf t := by
  rw [Int32.le_iff_toInt_le, tokenOf_toInt t ht]
  exact Int.natCast_nonneg t

theorem tokenOf_toInt64 (t : ℕ) (ht : t < 2 ^ 31) : (tokenOf t).toInt64 = Int64.ofNat t := by
  rw [← Int64.toInt_inj, Int32.toInt_toInt64, tokenOf_toInt t ht,
    Int64.toInt_ofNat_of_lt (by omega)]

theorem tokenOf_injOn (t u : ℕ) (ht : t < 2 ^ 31) (hu : u < 2 ^ 31) (heq : tokenOf t = tokenOf u) :
    t = u := by
  have h := tokenOf_toInt t ht
  rw [heq, tokenOf_toInt u hu] at h
  omega

/-- Two lists of tokens drawn from pieces of one list without repetitions:
    what they share, what only the first has, and as much that only the second
    has. -/
def IsPair (miss : List ℕ) (p : List ℕ × List ℕ) : Prop :=
  ∃ hit extra, (hit ++ miss ++ extra).Nodup ∧ p.1.Perm (hit ++ miss) ∧ p.2.Perm (hit ++ extra) ∧
    extra.length = miss.length ∧ hit.length + miss.length ≤ SEQ_LEN ∧
    ∀ t ∈ hit ++ miss ++ extra, t < 2 ^ 31

namespace IsPair

variable {miss : List ℕ} {p : List ℕ × List ℕ} (h : IsPair miss p)

include h

theorem lengths : p.1.length = p.2.length ∧ p.1.length ≤ SEQ_LEN := by
  rcases h with ⟨hit, extra, _, hnew, hold, hlen, hwidth, _⟩
  rw [hnew.length_eq, hold.length_eq, List.length_append, List.length_append]
  omega

theorem nodup : p.1.Nodup ∧ p.2.Nodup := by
  rcases h with ⟨hit, extra, hnodup, hnew, hold, _, _, _⟩
  exact ⟨nodup_first hnodup hnew, nodup_second hnodup hold⟩

theorem lt : (∀ t ∈ p.1, t < 2 ^ 31) ∧ ∀ t ∈ p.2, t < 2 ^ 31 := by
  rcases h with ⟨hit, extra, _, hnew, hold, _, _, hlt⟩
  refine ⟨fun t ht => hlt t (List.mem_append_left _ (hnew.mem_iff.mp ht)), fun t ht => hlt t ?_⟩
  rcases List.mem_append.mp (hold.mem_iff.mp ht) with hhit | hextra
  · exact List.mem_append_left _ (List.mem_append_left _ hhit)
  · exact List.mem_append_right _ hextra

theorem mem_iff (t : ℕ) : t ∈ p.1 ∧ t ∉ p.2 ↔ t ∈ miss := by
  rcases h with ⟨hit, extra, hnodup, hnew, hold, _, _, _⟩
  exact mem_piece_iff hnodup hnew hold t

theorem countP_eq : p.1.countP (fun t => decide (t ∉ p.2)) = miss.length := by
  rcases h with ⟨hit, extra, hnodup, hnew, hold, _, _, _⟩
  exact countP_piece hnodup hnew hold

end IsPair

section Rows

variable {b : ℕ} {tokens : ℕ → List ℕ × List ℕ} {miss : ℕ → List ℕ}
  (hpair : ∀ r < b, IsPair (miss r) (tokens r))

/-- The new row is the list of its tokens. -/
theorem writeRows_topk (tokens : ℕ → List ℕ × List ℕ) {r : ℕ} (hr : r < b) (i : ℕ) :
    (writeRows b SEQ_LEN tokens).call.topkIndices r i
      = listRow (-1) ((tokens r).1.map tokenOf) i := if_pos hr

/-- The old row is the list of its codes. -/
theorem writeRows_last (tokens : ℕ → List ℕ × List ℕ) {r : ℕ} (hr : r < b) (i : ℕ) :
    (writeRows b SEQ_LEN tokens).last_step_topk_indices r i
      = listRow (-1) ((tokens r).2.map (codeOf r)) i := if_pos hr

include hpair

/-- The codes the operator looks for are those of the new tokens. -/
theorem writeRows_codes {r : ℕ} (hr : r < b) (i : ℕ) :
    (writeRows b SEQ_LEN tokens).call.codes r i
      = listRow (-1) ((tokens r).1.map (codeOf r)) i := by
  have hlt := (hpair r hr).lt.1
  have hoff : reqIdsOffset reqIdsTensor r = Int64.ofNat (r * (1 <<< 16)) := by
    rw [reqIdsOffset, reqIdsTensor, Int64.ofNat_mul]
    rfl
  change topkIndicesNew (writeRows b SEQ_LEN tokens).call.topkIndices reqIdsTensor r i = _
  unfold topkIndicesNew
  rw [writeRows_topk tokens hr]
  by_cases hi : i < (tokens r).1.length
  · -- A token, in an int32 first and then back.
    have hmem := hlt _ (List.getElem_mem hi)
    rw [listRow_map tokenOf hi, listRow_map (codeOf r) hi, if_pos (tokenOf_nonneg _ hmem),
      tokenOf_toInt64 _ hmem, hoff]
    rfl
  · have hle := Nat.le_of_not_lt hi
    rw [listRow_map_pad tokenOf hle, listRow_map_pad (codeOf r) hle]
    exact if_neg (by decide)

/-- Distinct tokens are stored as distinct tokens. -/
theorem writeRows_distinct : (writeRows b SEQ_LEN tokens).call.DistinctTokens := by
  intro r hr i hi j hj ht heq
  change r < b at hr
  rw [writeRows_topk tokens hr] at ht
  rw [writeRows_topk tokens hr, writeRows_topk tokens hr] at heq
  have hlt := (hpair r hr).lt.1
  refine distinctOffPad_listRow (-1) SEQ_LEN _ ?_ i hi j hj ?_ heq
  · exact (hpair r hr).nodup.1.map_on
      (fun t ht u hu heq => tokenOf_injOn t u (hlt t ht) (hlt u hu) heq)
  · intro hneg
    rw [hneg] at ht
    exact absurd ht (by decide)

variable (hb : b ≤ MAX_NUM_REQS)

include hb

/-- No row of the buffer holds a code twice. -/
theorem writeRows_padded (r : ℕ) :
    DistinctOffPad (-1) SEQ_LEN ((writeRows b SEQ_LEN tokens).last_step_topk_indices r) := by
  by_cases hr : r < b
  · rw [funext (writeRows_last tokens hr)]
    have hp := hpair r hr
    exact distinctOffPad_listRow (-1) SEQ_LEN _
      (codes_nodup r (Nat.lt_of_lt_of_le hr hb) _ hp.nodup.2 hp.lt.2).1
  · -- A row without a request stays empty.
    have hempty : (writeRows b SEQ_LEN tokens).last_step_topk_indices r = fun _ => -1 :=
      funext (fun i => if_neg hr)
    rw [hempty]
    exact distinctOffPad_empty

/-- Both rows hold as many codes as there are tokens, so the call is
    balanced. -/
theorem writeRows_balanced :
    (writeRows b SEQ_LEN tokens).call.Balanced
      (writeRows b SEQ_LEN tokens).last_step_topk_indices := by
  refine (Call.balanced_iff (writeRows_distinct hpair)
    (fun r _ => writeRows_padded hpair hb r)).mpr (fun r hr => Or.inl ?_)
  change r < b at hr
  have hp := hpair r hr
  have hlen := hp.lengths
  rw [funext (writeRows_last tokens hr), funext (writeRows_codes hpair hr),
    occupancy_listRow _ _ _ (by rw [List.length_map]; omega)
      (codes_nodup r (Nat.lt_of_lt_of_le hr hb) _ hp.nodup.2 hp.lt.2).2,
    occupancy_listRow _ _ _ (by rw [List.length_map]; omega)
      (codes_nodup r (Nat.lt_of_lt_of_le hr hb) _ hp.nodup.1 hp.lt.1).2,
    List.length_map, List.length_map, hlen.1]

theorem writeRows_regular {plat : Platform} (hfit : Fits plat b) :
    (writeRows b SEQ_LEN tokens).call.Regular plat MAX_NUM_REQS :=
  ⟨⟨hb, hb⟩, hfit, writeRows_distinct hpair⟩

/-- The operator completes on them. -/
theorem writeRows_completes {plat : Platform} (hfit : Fits plat b) :
    ∃ o, (writeRows b SEQ_LEN tokens).call.run plat MAX_NUM_REQS
      (writeRows b SEQ_LEN tokens).last_step_topk_indices = .ok o :=
  Call.completes_of_balanced ⟨hb, hb⟩ hfit (writeRows_balanced hpair hb)

omit hpair in
/-- A code is missing from the old row when its token is not in its list. -/
theorem writeRows_missing {r : ℕ} (hr : r < b) (hlen : (tokens r).2.length ≤ SEQ_LEN)
    (hlt : ∀ u ∈ (tokens r).2, u < 2 ^ 31) (t : ℕ) (ht : t < 2 ^ 31) :
    (∀ k < SEQ_LEN, codeOf r t ≠ (writeRows b SEQ_LEN tokens).last_step_topk_indices r k) ↔
      t ∉ (tokens r).2 := by
  have hr' : r < MAX_NUM_REQS := Nat.lt_of_lt_of_le hr hb
  have hfits : ((tokens r).2.map (codeOf r)).length ≤ SEQ_LEN := by
    rw [List.length_map]
    exact hlen
  rw [← codeOf_mem_iff r hr' _ hlt t ht, ← exists_listRow_iff hfits (codeOf_ne r t hr' ht)]
  simp only [writeRows_last tokens hr]
  push Not
  exact forall₂_congr (fun k _ => ne_comm)

omit hb in
/-- The token at a position of the new row is one of the list, with the code
    there. -/
theorem writeRows_at {r : ℕ} (hr : r < b) (t : ℕ) (ht : t < 2 ^ 31) (j : ℕ)
    (hj : (writeRows b SEQ_LEN tokens).call.topkIndices r j = tokenOf t) :
    t ∈ (tokens r).1 ∧ (writeRows b SEQ_LEN tokens).call.codes r j = codeOf r t := by
  rw [writeRows_topk tokens hr] at hj
  have hlt : j < (tokens r).1.length := by
    by_contra hge
    rw [listRow_map_pad tokenOf (Nat.le_of_not_lt hge)] at hj
    have hpos := tokenOf_nonneg t ht
    rw [← hj] at hpos
    exact absurd hpos (by decide)
  rw [listRow_map tokenOf hlt] at hj
  have hmem := List.getElem_mem hlt
  have heq := tokenOf_injOn _ t ((hpair r hr).lt.1 _ hmem) ht hj
  rw [writeRows_codes hpair hr, listRow_map (codeOf r) hlt, heq]
  exact ⟨by rw [← heq]; exact hmem, rfl⟩

theorem writeRows_wellFormed : (writeRows b SEQ_LEN tokens).call.WellFormed := by
  refine wellFormed_of_small_ids _ (writeRows_distinct hpair) (fun q hq => ?_)
  change q < b at hq
  unfold MAX_NUM_REQS at hb
  have hval : ((writeRows b SEQ_LEN tokens).call.reqIds q).toInt = q :=
    Int64.toInt_ofNat_of_lt (by omega)
  refine ⟨?_, by rw [hval]; omega⟩
  rw [Int64.le_iff_toInt_le, hval]
  exact Int.natCast_nonneg q

/-- The tokens reported for a row are the ones only its new row has, each of
    them once. -/
theorem writeRows_reports {plat : Platform} (hfit : Fits plat b) (o : Outcome)
    (h : (writeRows b SEQ_LEN tokens).call.run plat MAX_NUM_REQS
      (writeRows b SEQ_LEN tokens).last_step_topk_indices = .ok o) (r : ℕ) (hr : r < b) :
    (∀ t < 2 ^ 31, (∃ i < SEQ_LEN, o.topkIndices r i = tokenOf t) ↔ t ∈ miss r) ∧
      countTrue (fun i => decide (o.topkIndices r i ≠ -1)) SEQ_LEN = (miss r).length := by
  have hp := hpair r hr
  have hlen := hp.lengths
  have hwf := writeRows_wellFormed hpair hb
  have hpad := writeRows_padded hpair hb
  have hrows : (writeRows b SEQ_LEN tokens).call.numReqs * SEQ_LEN ≤ 2 ^ 32 := hfit.1
  have hload := loadsNew_of_run hwf hrows hpad (fun _ _ => rfl) o h
  have hmissing := writeRows_missing hb hr (by omega) hp.lt.2
  refine ⟨fun t ht => ?_, ?_⟩
  · rw [← hp.mem_iff, ← hmissing t ht]
    constructor
    · rintro ⟨i, hi, hval⟩
      -- What is reported was asked for, at some position of the new row.
      rcases reported_of_answer hrows hwf.distinct (fun q _ => hpad q) o h r i hr hi
        (by rw [hval]; exact tokenOf_nonneg t ht) with ⟨_, j, hj, hpos, _, hans, _⟩
      rcases writeRows_at hpair hr t ht j (by rw [← hans, hval]) with ⟨hmem, hcode⟩
      refine ⟨hmem, ?_⟩
      rw [← hcode]
      exact (hload.reported_iff r hr j hj hpos).mp ⟨i, hi, hans⟩
    · -- A token of the new row stands at some position, and its code is new.
      rintro ⟨hmem, hnew⟩
      rcases List.mem_iff_getElem.mp hmem with ⟨j, hj, heq⟩
      have hval : (writeRows b SEQ_LEN tokens).call.topkIndices r j = tokenOf t := by
        rw [writeRows_topk tokens hr, listRow_map tokenOf hj, heq]
      have hcode := (writeRows_at hpair hr t ht j hval).2
      rw [← hval]
      refine (hload.reported_iff r hr j (by omega) ?_).mpr (by rw [hcode]; exact hnew)
      rw [hval]
      exact tokenOf_nonneg t ht
  · rw [hload.count r hr, ← hp.countP_eq]
    have hnew := codes_nodup r (Nat.lt_of_lt_of_le hr hb) _ hp.nodup.1 hp.lt.1
    have hsign : ∀ j < SEQ_LEN, decide (0 ≤ (writeRows b SEQ_LEN tokens).call.topkIndices r j)
        = decide ((writeRows b SEQ_LEN tokens).call.codes r j ≠ -1) := by
      intro j hj
      rw [decide_eq_decide]
      exact ⟨fun ht => ne_neg_one_of_nonneg _ (hwf.code_nonneg r hr j hj ht),
        Call.nonneg_of_code r j⟩
    -- Both rows are lists, so positions are counted as members.
    have hcount := countTrue_diffMask_listRow (-1) SEQ_LEN ((tokens r).1.map (codeOf r))
      ((tokens r).2.map (codeOf r)) (by rw [List.length_map]; omega)
      (by rw [List.length_map]; omega) hnew.2
    rw [← funext (writeRows_codes hpair hr), ← funext (writeRows_last tokens hr),
      List.countP_map] at hcount
    refine (countTrue_congr _ _ SEQ_LEN (fun j hj => by rw [hsign j hj])).trans
      (hcount.trans (List.countP_congr (fun t ht => ?_)))
    rw [Function.comp_apply, decide_eq_true_eq, decide_eq_true_eq,
      codeOf_mem_iff r (Nat.lt_of_lt_of_le hr hb) _ hp.lt.2 t (hp.lt.1 t ht)]

end Rows

/-- What the reference and the operator leave on a pair of inputs: the same,
    and in the answer the tokens of `misses`, row by row. -/
structure Agreement (i : Inputs) (misses : ℕ → List ℕ)
    (pt asc : (ℕ → ℕ → Int32) × (ℕ → ℕ → Int64)) : Prop where
  result : ∀ r < i.batch_size, ∀ k < i.topk, pt.1 r k = asc.1 r k
  last_step : ∀ r < MAX_NUM_REQS, ∀ k < i.topk, pt.2 r k = asc.2 r k
  reported_iff : ∀ r < i.batch_size, ∀ t < 2 ^ 31,
    (∃ k < i.topk, asc.1 r k = tokenOf t) ↔ t ∈ misses r
  reported_count : ∀ r < i.batch_size,
    countTrue (fun k => decide (asc.1 r k ≠ -1)) i.topk = (misses r).length

/-- On inputs of the kernel's width, the operator's part of the test is a
    call. -/
theorem ascendImpl_of_run {plat : Platform} (i : Inputs) (hi : i.topk = SEQ_LEN) (o : Outcome)
    (h : i.call.run plat MAX_NUM_REQS i.last_step_topk_indices = .ok o) :
    ascendImpl plat i = .ok (o.topkIndices, o.buffer) := by
  unfold Call.run Call.ids Call.topk at h
  unfold ascendImpl
  rw [hi]
  dsimp only [Inputs.call] at h
  generalize getCacheMissTopkIndices plat (.long (contiguous1 MAX_NUM_REQS reqIdsTensor))
    { topk_indices := .int (contiguous2 i.batch_size SEQ_LEN i.topk_indices)
      last_step_topk_indices :=
        .long (contiguous2 MAX_NUM_REQS SEQ_LEN i.last_step_topk_indices) } = left at h ⊢
  rcases left with ⟨e | u, caller⟩
  · exact absurd h (error_ne_ok _ _)
  · rw [← Except.ok.inj h]

theorem referenceImpl_of_some (i : Inputs) (out : (ℕ → ℕ → Int32) × (ℕ → ℕ → Int64))
    (h : pytorchReference i.topk MAX_NUM_REQS i.call i.last_step_topk_indices = some out) :
    referenceImpl i = .ok out := by
  unfold referenceImpl
  rw [h]

/-- Both complete on rows that are pairs, and agree. -/
theorem writeRows_agreement (plat : Platform) (b : ℕ) (tokens : ℕ → List ℕ × List ℕ)
    (miss : ℕ → List ℕ) (hpair : ∀ r < b, IsPair (miss r) (tokens r)) (hb : b ≤ MAX_NUM_REQS)
    (hfit : Fits plat b) :
    ∃ pt asc, referenceImpl (writeRows b SEQ_LEN tokens) = .ok pt ∧
      ascendImpl plat (writeRows b SEQ_LEN tokens) = .ok asc ∧
      Agreement (writeRows b SEQ_LEN tokens) miss pt asc := by
  rcases writeRows_completes hpair hb hfit with ⟨o, ho⟩
  rcases reference_of_run (writeRows_regular hpair hb hfit) (writeRows_padded hpair hb) o ho with
    ⟨res, last, href, hres, hlast⟩
  have hreports := writeRows_reports hpair hb hfit o ho
  refine ⟨(res, last), (o.topkIndices, o.buffer), referenceImpl_of_some _ _ href,
    ascendImpl_of_run _ rfl o ho, ?_⟩
  exact ⟨fun r hr k hk => (hres r hr k hk).symm, fun r _ k hk => (hlast r k hk).symm,
    fun r hr => (hreports r hr).1, fun r hr => (hreports r hr).2⟩

end AscendKernel
