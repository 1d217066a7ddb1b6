import AscendKernel.Library.MaskedCopy
import Mathlib.Data.Finset.Image

/-!
# Rows Padded with a Sentinel

A row of fixed width that stores a set: its members in any order, and a
sentinel value in the positions left over. Replacing one stored set by another
while moving as little as possible takes two set differences and a top-up. The
members of the new row that the old one lacks have to be brought in; the
positions of the old row whose member the new one lacks may be overwritten;
and when the second mask is smaller than the first, positions holding the
sentinel make up the shortage, taken from the left.

The set differences do not know about the sentinel. It takes part in both as
if it were a member, so a row with padding facing a row without any counts
each padding position as a difference. `diffMask_count` accounts for that: a
difference has the members it should, plus all of its own padding when the
other row is full.

`slots_balance` is the exact outcome. The positions offered are never fewer
than the members to bring in, and they are as many except in one case, when
the old row is not full and stores more members than the new one: nothing in
the top-up ever takes a position back.

`replaced_occurrences` is the reason to care. When the two numbers agree,
writing the missing members into the offered positions turns the old row into
a rearrangement of the new one, sentinel included. Members and padding need no
separate argument: the members kept are the common ones on both sides, and
then the padding has to agree as well because the totals do.

## Main definitions

* `diffMask`: The positions of one row whose entry the other row lacks.
* `DistinctOffPad`: No entry other than the sentinel is repeated.
* `occupancy`: How many positions hold something other than the sentinel.
* `hits`: How many members of a row the other row holds too.
* `firstFit`: A mask topped up with the first positions of another.
* `slots`: The positions offered by an old row to a new one.
* `replaced`: The old row once the missing members are written into it.
* `reported`: Those members, at the positions they are written into.

## Theorems

* `diffMask_iff`: A position is in the difference when no entry matches.
* `hits_comm`: Both rows have the same number of common members.
* `diffMask_count`: The size of a set difference.
* `firstFit_signed`: A signed limit selects what its truncation does.
* `firstFit_of_settled`: Topping up a second time adds nothing.
* `countTrue_topUp_eq_iff`: When topping up adds as many as its limit.
* `slots_balance`: Offered positions against missing members, exactly.
* `slots_hit`: A position holding a common member is never offered.
* `replaced_occurrences`: A balanced replacement rearranges the new row.
* `slots_of_rearranged`: A row facing its own rearrangement offers nothing.
-/

namespace AscendKernel

variable {α : Type*} [DecidableEq α]

/-- The positions of `a` whose entry occurs nowhere in the first `n` entries
    of `b`. -/
def diffMask (n : ℕ) (a b : ℕ → α) (i : ℕ) : Bool :=
  !((List.range n).any fun j => decide (a i = b j))

/-- Entries other than the sentinel are pairwise distinct. -/
def DistinctOffPad (pad : α) (n : ℕ) (a : ℕ → α) : Prop :=
  ∀ i < n, ∀ j < n, a i ≠ pad → a i = a j → i = j

/-- How many of the first `n` entries are not the sentinel. -/
def occupancy (pad : α) (n : ℕ) (a : ℕ → α) : ℕ := countTrue (fun i => decide (a i ≠ pad)) n

/-- How many members of `a` also occur in `b`. -/
def hits (pad : α) (n : ℕ) (a b : ℕ → α) : ℕ :=
  countTrue (fun i => decide (a i ≠ pad) && !diffMask n a b i) n

/-- A mask topped up with the positions of `empty` counted up to a limit. -/
def firstFit (avail empty : ℕ → Bool) (limit i : ℕ) : Bool :=
  avail i || (empty i && decide (countTrue empty (i + 1) ≤ limit))

/-- The positions an old row offers to a new one: those whose entry the new
    row lacks, topped up with sentinel positions by the shortage. -/
def slots (pad : α) (n : ℕ) (new old : ℕ → α) : ℕ → Bool :=
  firstFit (diffMask n old new) (fun i => decide (old i = pad))
    (countTrue (diffMask n new old) n - countTrue (diffMask n old new) n)

theorem diffMask_iff (n : ℕ) (a b : ℕ → α) (i : ℕ) :
    diffMask n a b i = true ↔ ∀ j < n, a i ≠ b j := by
  simp only [diffMask, Bool.not_eq_true', List.any_eq_false, List.mem_range, decide_eq_true_eq,
    ne_eq]

theorem diffMask_eq_false_iff (n : ℕ) (a b : ℕ → α) (i : ℕ) :
    diffMask n a b i = false ↔ ∃ j < n, a i = b j := by
  rw [← Bool.not_eq_true, diffMask_iff]
  push Not
  rfl

theorem diffMask_congr (n : ℕ) (a a' b b' : ℕ → α) (i : ℕ) (ha : a i = a' i)
    (hb : ∀ j < n, b j = b' j) : diffMask n a b i = diffMask n a' b' i := by
  rw [Bool.eq_iff_iff, diffMask_iff, diffMask_iff, ha]
  constructor
  · intro h j hj
    rw [← hb j hj]
    exact h j hj
  · intro h j hj
    rw [hb j hj]
    exact h j hj

theorem occupancy_le (pad : α) (n : ℕ) (a : ℕ → α) : occupancy pad n a ≤ n := countTrue_le _ n

/-- A row is full when the sentinel does not occur in it. -/
theorem occupancy_eq_iff (pad : α) (n : ℕ) (a : ℕ → α) :
    occupancy pad n a = n ↔ ∀ i < n, a i ≠ pad := by
  rw [occupancy, countTrue_eq_self_iff]
  simp only [decide_eq_true_eq]

/-- A row whose members come first, all of them, and whose rest is padding. -/
theorem occupancy_leading (pad : α) (n m : ℕ) (a : ℕ → α) (hm : m ≤ n)
    (hmem : ∀ i < m, a i ≠ pad) (hpad : ∀ i, m ≤ i → a i = pad) : occupancy pad n a = m := by
  have hlead : countTrue (fun i => decide (a i ≠ pad)) m = m :=
    (countTrue_eq_self_iff _ m).mpr (fun i hi => decide_eq_true (hmem i hi))
  have hrest : countTrue (fun k => decide (a (m + k) ≠ pad)) (n - m) = 0 := by
    rw [countTrue_eq_zero_iff]
    intro k _
    exact decide_eq_false (not_not.mpr (hpad (m + k) (Nat.le_add_right m k)))
  rw [occupancy, ← Nat.add_sub_of_le hm, countTrue_add, hlead, hrest, Nat.add_zero]

/-- What a row does not hold in members it holds in sentinels. -/
theorem countTrue_pad (pad : α) (n : ℕ) (a : ℕ → α) :
    countTrue (fun i => decide (a i = pad)) n = n - occupancy pad n a := by
  have h := countTrue_not (fun i => decide (a i = pad)) n
  have hocc : occupancy pad n a = countTrue (fun i => !decide (a i = pad)) n :=
    countTrue_congr _ _ n (fun i _ => by simp only [ne_eq, decide_not])
  omega

theorem occurrences_pos_iff (v : ℕ → α) (n : ℕ) (x : α) :
    0 < occurrences v n x ↔ ∃ i < n, v i = x := by
  rw [Nat.pos_iff_ne_zero, ne_eq, occurrences, countTrue_eq_zero_iff]
  push Not
  simp only [ne_eq, decide_eq_false_iff_not, not_not]

/-- A member occurs at most once. -/
theorem occurrences_le_one (pad : α) (n : ℕ) (a : ℕ → α) (ha : DistinctOffPad pad n a) (x : α)
    (hx : x ≠ pad) : occurrences a n x ≤ 1 := by
  rw [occurrences, countTrue_eq_card, Finset.card_le_one]
  intro i hi j hj
  simp only [Finset.mem_filter, Finset.mem_range, decide_eq_true_eq] at hi hj
  exact ha i hi.1 j hj.1 (by rw [hi.2]; exact hx) (by rw [hi.2, hj.2])

/-- A member that occurs, occurs once. -/
theorem occurrences_eq_one (pad : α) (n : ℕ) (a : ℕ → α) (ha : DistinctOffPad pad n a) (i : ℕ)
    (hi : i < n) (hpad : a i ≠ pad) : occurrences a n (a i) = 1 := by
  have hle := occurrences_le_one pad n a ha (a i) hpad
  have hpos := (occurrences_pos_iff a n (a i)).mpr ⟨i, hi, rfl⟩
  omega

/-- Distinctness off the sentinel is a property of the entries, not of their
    order. -/
theorem distinctOffPad_of_occurrences (pad : α) (n : ℕ) (a b : ℕ → α)
    (ha : DistinctOffPad pad n a) (h : ∀ x, occurrences b n x = occurrences a n x) :
    DistinctOffPad pad n b := by
  intro i hi j hj hpad hij
  have hle := occurrences_le_one pad n a ha (b i) hpad
  rw [← h, occurrences, countTrue_eq_card, Finset.card_le_one] at hle
  refine hle i ?_ j ?_
  · simp only [Finset.mem_filter, Finset.mem_range, decide_true, and_true]
    exact hi
  · simp only [Finset.mem_filter, Finset.mem_range, decide_eq_true_eq]
    exact ⟨hj, hij.symm⟩

/-- The members a row shares with another, as a set of positions. -/
theorem hits_eq_card (pad : α) (n : ℕ) (a b : ℕ → α) :
    hits pad n a b
      = ((Finset.range n).filter (fun i => a i ≠ pad ∧ ∃ j < n, a i = b j)).card := by
  rw [hits, countTrue_eq_card]
  congr 1
  ext i
  simp only [Finset.mem_filter, Bool.and_eq_true, decide_eq_true_eq, Bool.not_eq_true',
    diffMask_eq_false_iff]

/-- Both rows have the same number of common members: the positions on either
    side are in bijection with the common values. -/
theorem hits_comm (pad : α) (n : ℕ) (a b : ℕ → α) (ha : DistinctOffPad pad n a)
    (hb : DistinctOffPad pad n b) : hits pad n a b = hits pad n b a := by
  -- Distinct members: as many values as positions.
  have hcard : ∀ c d : ℕ → α, DistinctOffPad pad n c →
      (((Finset.range n).filter (fun i => c i ≠ pad ∧ ∃ j < n, c i = d j)).image c).card
        = ((Finset.range n).filter (fun i => c i ≠ pad ∧ ∃ j < n, c i = d j)).card := by
    intro c d hc
    refine Finset.card_image_of_injOn (fun i hi j hj hij => ?_)
    simp only [Finset.coe_filter, Finset.mem_range, Set.mem_ofPred_eq] at hi hj
    exact hc i hi.1 j hj.1 hi.2.1 hij
  -- And a common value is common from either side.
  have hsub : ∀ c d : ℕ → α,
      ((Finset.range n).filter (fun i => c i ≠ pad ∧ ∃ j < n, c i = d j)).image c
        ⊆ ((Finset.range n).filter (fun i => d i ≠ pad ∧ ∃ j < n, d i = c j)).image d := by
    intro c d x hx
    rw [Finset.mem_image] at hx ⊢
    rcases hx with ⟨i, hi, rfl⟩
    rw [Finset.mem_filter, Finset.mem_range] at hi
    rcases hi with ⟨hin, hpad, j, hj, hij⟩
    refine ⟨j, ?_, hij.symm⟩
    rw [Finset.mem_filter, Finset.mem_range]
    exact ⟨hj, by rw [← hij]; exact hpad, i, hin, hij.symm⟩
  rw [hits_eq_card, hits_eq_card, ← hcard a b ha, ← hcard b a hb,
    Finset.Subset.antisymm (hsub a b) (hsub b a)]

theorem hits_le_occupancy (pad : α) (n : ℕ) (a b : ℕ → α) :
    hits pad n a b ≤ occupancy pad n a := by
  refine countTrue_le_of_imp _ _ n (fun i _ h => ?_)
  rw [Bool.and_eq_true] at h
  exact h.1

/-- The size of a set difference: the members not shared, and all of the
    row's own padding when the other row has none. -/
theorem diffMask_count (pad : α) (n : ℕ) (a b : ℕ → α) :
    countTrue (diffMask n a b) n
      = (occupancy pad n a - hits pad n a b)
        + if occupancy pad n b = n then n - occupancy pad n a else 0 := by
  rw [countTrue_split (diffMask n a b) (fun i => decide (a i ≠ pad)) n]
  congr 1
  · -- Members: the row's own, less the shared ones.
    have hocc := countTrue_split (fun i => decide (a i ≠ pad)) (diffMask n a b) n
    have hswap : countTrue (fun i => diffMask n a b i && decide (a i ≠ pad)) n
        = countTrue (fun i => decide (a i ≠ pad) && diffMask n a b i) n :=
      countTrue_congr _ _ n (fun i _ => Bool.and_comm _ _)
    rw [hswap, occupancy, hits]
    omega
  · -- Padding: a difference exactly when the other row has no sentinel.
    by_cases hfull : occupancy pad n b = n
    · rw [if_pos hfull, ← countTrue_pad]
      rw [occupancy_eq_iff] at hfull
      refine countTrue_congr _ _ n (fun i _ => ?_)
      rw [Bool.eq_iff_iff, Bool.and_eq_true, diffMask_iff]
      simp only [ne_eq, decide_not, Bool.not_not, decide_eq_true_eq]
      constructor
      · intro h
        exact h.2
      · intro h
        exact ⟨fun j hj heq => hfull j hj (by rw [← heq, h]), h⟩
    · rw [if_neg hfull, countTrue_eq_zero_iff]
      intro i _
      rw [occupancy_eq_iff] at hfull
      push Not at hfull
      rcases hfull with ⟨j, hj, hbj⟩
      rw [← Bool.not_eq_true, Bool.and_eq_true, diffMask_iff]
      simp only [ne_eq, decide_not, Bool.not_not, decide_eq_true_eq]
      rintro ⟨hdiff, hai⟩
      exact hdiff j hj (by rw [hai, hbj])

/-- A signed limit selects what its truncation does: a position counts itself,
    so no count is within a limit of zero or less. -/
theorem firstFit_signed (avail empty : ℕ → Bool) (a b i : ℕ) :
    (avail i || (decide ((countTrue empty (i + 1) : ℤ) ≤ (a : ℤ) - b) && empty i))
      = firstFit avail empty (a - b) i := by
  rw [firstFit]
  cases he : empty i with
  | false => rw [Bool.and_false, Bool.false_and]
  | true =>
      have hpos : 1 ≤ countTrue empty (i + 1) := by
        rw [countTrue_succ, he, if_pos rfl]
        omega
      rw [Bool.and_true, Bool.true_and]
      congr 1
      rw [decide_eq_decide]
      omega

/-- Topping up adds the first positions of the other mask. -/
theorem firstFit_eq (avail empty : ℕ → Bool) (limit i : ℕ) :
    firstFit avail empty limit i = (avail i || firstTrue empty limit i) := by
  rw [firstFit, firstTrue_eq]

/-- Topping up adds nothing where it was done before, within the same limit
    or a larger one. -/
theorem firstFit_of_settled (avail empty : ℕ → Bool) (limit i : ℕ)
    (h : firstTrue empty limit i = true → avail i = true) :
    firstFit avail empty limit i = avail i := by
  rw [firstFit_eq]
  cases hf : firstTrue empty limit i with
  | false => rw [Bool.or_false]
  | true => rw [h hf, Bool.or_true]

/-- Topping up an empty limit adds nothing. -/
theorem firstFit_zero (avail empty : ℕ → Bool) (i : ℕ) :
    firstFit avail empty 0 i = avail i := by
  refine firstFit_of_settled avail empty 0 i (fun h => ?_)
  rw [firstTrue, Bool.and_eq_true, decide_eq_true_eq] at h
  exact absurd h.2 (Nat.not_lt_zero _)

/-- A topped-up mask is what it was plus the added positions it lacked. -/
theorem countTrue_topUp (avail empty : ℕ → Bool) (limit n : ℕ) :
    countTrue (firstFit avail empty limit) n
      = countTrue avail n + countTrue (fun i => firstTrue empty limit i && !avail i) n := by
  rw [funext (firstFit_eq avail empty limit), countTrue_or]

theorem countTrue_topUp_le (avail empty : ℕ → Bool) (limit n : ℕ) :
    countTrue (firstFit avail empty limit) n
      ≤ countTrue avail n + min limit (countTrue empty n) := by
  have hsplit := countTrue_split (firstTrue empty limit) avail n
  rw [countTrue_firstTrue] at hsplit
  rw [countTrue_topUp]
  omega

/-- The whole limit is added exactly when there is room for it and none of it
    goes to a position already there. -/
theorem countTrue_topUp_eq_iff (avail empty : ℕ → Bool) (limit n : ℕ) :
    countTrue (firstFit avail empty limit) n = countTrue avail n + limit ↔
      limit ≤ countTrue empty n ∧ ∀ i < n, firstTrue empty limit i = true → avail i = false := by
  have hsplit := countTrue_split (firstTrue empty limit) avail n
  rw [countTrue_firstTrue] at hsplit
  -- The positions added twice over are the ones that cost.
  have hover : countTrue (fun i => firstTrue empty limit i && avail i) n = 0 ↔
      ∀ i < n, firstTrue empty limit i = true → avail i = false := by
    rw [countTrue_eq_zero_iff]
    refine forall₂_congr (fun i _ => ?_)
    cases firstTrue empty limit i <;> cases avail i <;> simp
  rw [countTrue_topUp, ← hover]
  omega

/-- Positions that were not there before all count. -/
theorem countTrue_firstFit_disjoint (avail empty : ℕ → Bool) (limit n : ℕ)
    (hdisj : ∀ i < n, empty i = true → avail i = false) :
    countTrue (firstFit avail empty limit) n
      = countTrue avail n + min limit (countTrue empty n) := by
  rw [countTrue_topUp, ← countTrue_firstTrue]
  congr 1
  refine countTrue_congr _ _ n (fun i hi => ?_)
  rw [firstTrue]
  cases he : empty i with
  | false => simp only [Bool.false_and]
  | true => rw [hdisj i hi he, Bool.not_false, Bool.and_true]

/-- Offered positions against missing members, exactly. They agree except when
    the old row is not full and stores more members than the new one, and then
    the surplus is the difference of the two. -/
theorem slots_balance (pad : α) (n : ℕ) (new old : ℕ → α) (hnew : DistinctOffPad pad n new)
    (hold : DistinctOffPad pad n old) :
    countTrue (slots pad n new old) n
      = countTrue (diffMask n new old) n
        + if occupancy pad n new < occupancy pad n old ∧ occupancy pad n old < n
          then occupancy pad n old - occupancy pad n new else 0 := by
  have hp := occupancy_le pad n new
  have hq := occupancy_le pad n old
  have hcomm := hits_comm pad n new old hnew hold
  have hle := hits_le_occupancy pad n new old
  have hle' := hits_le_occupancy pad n old new
  have hmiss := diffMask_count pad n new old
  have havail := diffMask_count pad n old new
  rw [slots]
  by_cases hlim : countTrue (diffMask n new old) n - countTrue (diffMask n old new) n = 0
  · -- No shortage: the second mask stands as it is.
    rw [hlim, show firstFit (diffMask n old new) (fun i => decide (old i = pad)) 0
      = diffMask n old new from funext (firstFit_zero _ _)]
    split_ifs at hmiss havail ⊢ <;> omega
  · -- A shortage only arises when neither row is full, so the new row has
    -- padding and no sentinel position of the old row is offered already.
    have hnf : occupancy pad n new ≠ n := by
      intro h
      rw [if_pos h] at havail
      split_ifs at hmiss <;> omega
    have hof : occupancy pad n old ≠ n := by
      intro h
      rw [if_pos h] at hmiss
      rw [if_neg hnf] at havail
      omega
    rw [if_neg hof] at hmiss
    rw [if_neg hnf] at havail
    have hdisj : ∀ i < n, decide (old i = pad) = true → diffMask n old new i = false := by
      intro i _ hi
      rw [ne_eq, occupancy_eq_iff] at hnf
      push Not at hnf
      rcases hnf with ⟨j, hj, hpad⟩
      rw [diffMask_eq_false_iff]
      exact ⟨j, hj, by rw [decide_eq_true_eq.mp hi, hpad]⟩
    rw [countTrue_firstFit_disjoint _ _ _ n hdisj, countTrue_pad, if_neg (by omega)]
    omega

/-- A position holding a member the new row has too is never offered. -/
theorem slots_hit (pad : α) (n : ℕ) (new old : ℕ → α) (i : ℕ) (hpad : old i ≠ pad)
    (hhit : ∃ j < n, old i = new j) : slots pad n new old i = false := by
  rw [slots, firstFit, (diffMask_eq_false_iff n old new i).mpr hhit, decide_eq_false hpad]
  rfl

/-- An offered position holds the sentinel or a member the new row lacks. -/
theorem slots_off_pad (pad : α) (n : ℕ) (new old : ℕ → α) (i : ℕ) (hpad : old i ≠ pad) :
    slots pad n new old i = diffMask n old new i := by
  rw [slots, firstFit, decide_eq_false hpad, Bool.false_and, Bool.or_false]

/-- A member common to both rows is counted once among the entries a row
    shares, any other value not at all. -/
theorem shared_count (pad : α) (n : ℕ) (a b : ℕ → α) (ha : DistinctOffPad pad n a) (y : α)
    (hy : y ≠ pad) :
    countTrue (fun i => !diffMask n a b i && decide (a i = y)) n
      = if (∃ i < n, a i = y) ∧ ∃ j < n, b j = y then 1 else 0 := by
  by_cases hb : ∃ j < n, b j = y
  · -- The other row has the member, so all of this row's occurrences are shared.
    have hall : countTrue (fun i => !diffMask n a b i && decide (a i = y)) n
        = occurrences a n y := by
      refine countTrue_congr _ _ n (fun i _ => ?_)
      by_cases h : a i = y
      · rcases hb with ⟨j, hj, hbj⟩
        rw [(diffMask_eq_false_iff n a b i).mpr ⟨j, hj, by rw [h, hbj]⟩, Bool.not_false,
          Bool.true_and]
      · rw [decide_eq_false h, Bool.and_false]
    rw [hall]
    by_cases hex : ∃ i < n, a i = y
    · rw [if_pos ⟨hex, hb⟩]
      rcases hex with ⟨i, hi, rfl⟩
      exact occurrences_eq_one pad n a ha i hi hy
    · rw [if_neg (fun h => hex h.1)]
      have := (occurrences_pos_iff a n y).not.mpr hex
      omega
  · -- The other row lacks it, so none is.
    rw [if_neg (fun h => hb h.2), countTrue_eq_zero_iff]
    intro i _
    by_cases h : a i = y
    · have hdiff : diffMask n a b i = true := by
        rw [diffMask_iff]
        intro j hj heq
        exact hb ⟨j, hj, by rw [← heq, h]⟩
      rw [hdiff, Bool.not_true, Bool.false_and]
    · rw [decide_eq_false h, Bool.and_false]

/-- What lies outside a mask is sentinels and members. -/
theorem outside_split (pad : α) (n : ℕ) (m : ℕ → Bool) (v : ℕ → α) :
    countTrue (fun i => !m i) n
      = countTrue (fun i => !m i && decide (v i = pad)) n
        + countTrue (fun i => decide (v i ≠ pad) && !m i) n := by
  rw [countTrue_split _ (fun i => decide (v i = pad)) n]
  congr 1
  refine countTrue_congr _ _ n (fun i _ => ?_)
  simp only [ne_eq, decide_not, Bool.and_comm]

/-- The kept entries of the old row are the unselected entries of the new one,
    when as many positions are offered as members are missing. -/
theorem kept_eq_unselected (pad : α) (n : ℕ) (new old : ℕ → α)
    (hnew : DistinctOffPad pad n new) (hold : DistinctOffPad pad n old)
    (hbal : countTrue (slots pad n new old) n = countTrue (diffMask n new old) n) (x : α) :
    countTrue (fun i => !slots pad n new old i && decide (old i = x)) n
      = countTrue (fun i => !diffMask n new old i && decide (new i = x)) n := by
  by_cases hx : x = pad
  · -- Padding: the totals agree and the members do, so the rest does.
    subst hx
    have hnot := countTrue_not (slots x n new old) n
    have hnot' := countTrue_not (diffMask n new old) n
    have hkept : countTrue (fun i => decide (old i ≠ x) && !slots x n new old i) n
        = hits x n old new := by
      refine countTrue_congr _ _ n (fun i _ => ?_)
      by_cases h : old i = x
      · rw [decide_eq_false (not_not.mpr h), Bool.false_and, Bool.false_and]
      · rw [slots_off_pad x n new old i h]
    have hcomm := hits_comm x n new old hnew hold
    have hout := outside_split x n (slots x n new old) old
    have hout' : countTrue (fun i => !diffMask n new old i) n
        = countTrue (fun i => !diffMask n new old i && decide (new i = x)) n
          + hits x n new old := outside_split x n (diffMask n new old) new
    omega
  · -- Members: on either side, those common to both rows.
    have hmem : countTrue (fun i => !slots pad n new old i && decide (old i = x)) n
        = countTrue (fun i => !diffMask n old new i && decide (old i = x)) n := by
      refine countTrue_congr _ _ n (fun i _ => ?_)
      by_cases h : old i = x
      · rw [slots_off_pad pad n new old i (by rw [h]; exact hx)]
      · rw [decide_eq_false h, Bool.and_false, Bool.and_false]
    rw [hmem, shared_count pad n old new hold x hx, shared_count pad n new old hnew x hx]
    exact if_congr and_comm rfl rfl

/-- The old row once the missing members are written into the positions it
    offers, in order. -/
def replaced (pad : α) (n : ℕ) (new old : ℕ → α) : ℕ → α :=
  rowFill (slots pad n new old) (maskedSelect (diffMask n new old) new n) old

/-- The missing members at the positions they are written into, and the
    sentinel elsewhere. -/
def reported (pad : α) (n : ℕ) (new old : ℕ → α) : ℕ → α :=
  rowFill (slots pad n new old) (maskedSelect (diffMask n new old) new n) fun _ => pad

theorem slots_congr (pad : α) (n : ℕ) (new new' old old' : ℕ → α) (hnew : ∀ i < n, new i = new' i)
    (hold : ∀ i < n, old i = old' i) (i : ℕ) (hi : i < n) :
    slots pad n new old i = slots pad n new' old' i := by
  have hempty : countTrue (fun j => decide (old j = pad)) (i + 1)
      = countTrue (fun j => decide (old' j = pad)) (i + 1) :=
    countTrue_congr _ _ (i + 1) (fun j hj => by rw [hold j (by omega)])
  rw [slots, slots, firstFit, firstFit, hempty, hold i hi,
    diffMask_congr n old old' new new' i (hold i hi) hnew,
    countTrue_congr _ _ n (fun j hj => diffMask_congr n new new' old old' j (hnew j hj) hold),
    countTrue_congr _ _ n (fun j hj => diffMask_congr n old old' new new' j (hold j hj) hnew)]

/-- What a replacement writes and reports depends on the two rows. -/
theorem replaced_congr (pad : α) (n : ℕ) (new new' old old' : ℕ → α)
    (hnew : ∀ i < n, new i = new' i) (hold : ∀ i < n, old i = old' i) (i : ℕ) (hi : i < n) :
    replaced pad n new old i = replaced pad n new' old' i ∧
      reported pad n new old i = reported pad n new' old' i := by
  have hsrc : maskedSelect (diffMask n new old) new n
      = maskedSelect (diffMask n new' old') new' n :=
    maskedSelect_congr _ _ _ _ n
      (fun j hj => diffMask_congr n new new' old old' j (hnew j hj) hold) hnew
  have hslot : ∀ j ≤ i, slots pad n new old j = slots pad n new' old' j :=
    fun j hj => slots_congr pad n new new' old old' hnew hold j (by omega)
  rw [replaced, replaced, reported, reported, hsrc]
  exact ⟨rowFill_congr _ _ _ _ _ i hslot (hold i hi), rowFill_congr _ _ _ _ _ i hslot rfl⟩

/-- A balanced replacement turns the old row into a rearrangement of the new
    one, sentinel included. -/
theorem replaced_occurrences (pad : α) (n : ℕ) (new old : ℕ → α)
    (hnew : DistinctOffPad pad n new) (hold : DistinctOffPad pad n old)
    (hbal : countTrue (slots pad n new old) n = countTrue (diffMask n new old) n) (x : α) :
    occurrences (replaced pad n new old) n x = occurrences new n x :=
  occurrences_rowFill _ _ old new n x hbal (kept_eq_unselected pad n new old hnew hold hbal x)

/-- A row whose entries all occur in the other one misses nothing. -/
theorem diffMask_of_subset (n : ℕ) (a b : ℕ → α) (h : ∀ i < n, ∃ j < n, a i = b j) (i : ℕ)
    (hi : i < n) : diffMask n a b i = false :=
  (diffMask_eq_false_iff n a b i).mpr (h i hi)

/-- A row facing a rearrangement of itself misses nothing and offers
    nothing. -/
theorem slots_of_rearranged (pad : α) (n : ℕ) (new old : ℕ → α)
    (h : ∀ x, occurrences old n x = occurrences new n x) :
    (∀ i < n, diffMask n new old i = false) ∧ ∀ i < n, slots pad n new old i = false := by
  have hsub : ∀ a b : ℕ → α, (∀ x, occurrences a n x = occurrences b n x) →
      ∀ i < n, diffMask n a b i = false := by
    intro a b hab
    refine diffMask_of_subset n a b (fun i hi => ?_)
    have hpos := (occurrences_pos_iff a n (a i)).mpr ⟨i, hi, rfl⟩
    rw [hab, occurrences_pos_iff] at hpos
    rcases hpos with ⟨j, hj, hbj⟩
    exact ⟨j, hj, hbj.symm⟩
  have hmiss := hsub new old (fun x => (h x).symm)
  refine ⟨hmiss, fun i hi => ?_⟩
  -- No member is missing, so there is no shortage to top up.
  have hzero : countTrue (diffMask n new old) n = 0 := (countTrue_eq_zero_iff _ n).mpr hmiss
  rw [slots, hzero, Nat.zero_sub, firstFit_zero]
  exact hsub old new h i hi

end AscendKernel
