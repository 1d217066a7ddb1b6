import AscendKernel.Library.Count
import Mathlib.Algebra.BigOperators.Group.List.Basic

/-!
# Sums in Short Floating-Point Arithmetic

Adding many small integers in a format with few significant bits. A value
below `2 ^ p` is held exactly in `p` bits and every larger one is rounded, so
whether a long sum is right depends on its partial sums, and those depend on
the order of the additions. A vector unit does not promise an order.

`SumTree` is an order: a binary tree with the summed positions at its leaves.
`SumTree.eval` adds along it and rounds every partial sum, to nearest with ties
to even. `SumTree.eval_mask` is the fact that makes an order irrelevant: over a
0/1 mask no partial sum exceeds the number of leaves below it, so as long as
there are at most `2 ^ p` leaves nothing is ever rounded and the result is the
number of true positions.

The bound is where the format runs out. One more than `2 ^ p` lies halfway
between two numbers of `p` bits and rounds down, so adding ones from left to
right gets no further than `2 ^ p`, however many there are, and
`SumOrder.eval_mask_iff` can say that exactly the masks of at most `2 ^ p`
positions are counted right.

## Main definitions

* `roundNat`: A natural number rounded to so many significant bits.
* `SumTree`: An order of additions.
* `SumTree.eval`: The sum along an order, rounding every partial sum.
* `SumOrder`: An order in which each of the first `n` positions appears once.

## Theorems

* `roundNat_of_le`: Numbers that fit are left alone.
* `SumTree.eval_mask`: Summing a mask counts its leaves while they fit.
* `SumOrder.eval_mask`: A mask of at most `2 ^ p` positions is counted exactly.
* `roundNat_two_pow_succ`: One more than `2 ^ p` is rounded down.
* `SumTree.eval_leftToRight`: Adding ones from left to right stops at `2 ^ p`.
* `SumOrder.eval_mask_iff`: No longer mask is always counted exactly.
-/

namespace AscendKernel

/-- Round to `p` significant bits: to nearest, ties to an even significand,
    with no bound on the exponent. -/
def roundNat (p x : ℕ) : ℕ :=
  if x < 2 ^ p then x
  else
    let ulp := 2 ^ (x.log2 + 1 - p)
    let q := x / ulp
    let r := x % ulp
    if 2 * r < ulp ∨ (2 * r = ulp ∧ q % 2 = 0) then q * ulp else (q + 1) * ulp

/-- A number that fits in `p` bits is left alone, and so is `2 ^ p`. -/
theorem roundNat_of_le (p x : ℕ) (hp : 0 < p) (h : x ≤ 2 ^ p) : roundNat p x = x := by
  unfold roundNat
  by_cases hlt : x < 2 ^ p
  · rw [if_pos hlt]
  · -- Only `2 ^ p` itself is left, and its last place divides it.
    rw [if_neg hlt]
    have hx : x = 2 ^ p := by omega
    have hpos : 0 < 2 ^ (x.log2 + 1 - p) := Nat.two_pow_pos _
    have hdvd : 2 ^ (x.log2 + 1 - p) ∣ x := by
      rw [hx, Nat.log2_two_pow, Nat.add_sub_cancel_left]
      exact pow_dvd_pow 2 (by omega)
    simp only []
    rw [Nat.mod_eq_zero_of_dvd hdvd, if_pos (Or.inl (by omega)), Nat.div_mul_cancel hdvd]

/-- One more than `2 ^ p` needs one bit more than there is. It lies halfway
    between its neighbours and goes to the even one, `2 ^ p`. -/
theorem roundNat_two_pow_succ (p : ℕ) (hp : 2 ≤ p) : roundNat p (2 ^ p + 1) = 2 ^ p := by
  have hpow : 2 ^ p = 4 * 2 ^ (p - 2) := by
    rw [show p = p - 2 + 2 by omega, pow_add, Nat.add_sub_cancel]
    exact Nat.mul_comm _ _
  have hpos : 0 < 2 ^ (p - 2) := Nat.two_pow_pos _
  have hlog : (2 ^ p + 1).log2 = p := by
    rw [Nat.log2_eq_iff (by omega), pow_succ]
    omega
  unfold roundNat
  -- The last place has weight two, and the remainder is half of it.
  rw [if_neg (by omega), hlog, Nat.add_sub_cancel_left]
  simp only [pow_one]
  rw [if_pos (Or.inr (by omega))]
  omega

/-- An order of additions, with the summed positions at the leaves. -/
inductive SumTree where
  | leaf (i : ℕ)
  | node (l r : SumTree)

namespace SumTree

/-- The positions summed, from left to right. -/
def leaves : SumTree → List ℕ
  | leaf i => [i]
  | node l r => l.leaves ++ r.leaves

/-- Add along the tree in `p` significant bits, rounding every partial sum. -/
def eval (p : ℕ) (v : ℕ → ℕ) : SumTree → ℕ
  | leaf i => v i
  | node l r => roundNat p (l.eval p v + r.eval p v)

/-- A sum depends only on the values at the leaves. -/
theorem eval_congr (p : ℕ) (v w : ℕ → ℕ) (t : SumTree) (h : ∀ i ∈ t.leaves, v i = w i) :
    t.eval p v = t.eval p w := by
  induction t with
  | leaf i => exact h i (List.mem_singleton_self i)
  | node l r ihl ihr =>
      rw [eval, eval, ihl (fun i hi => h i (List.mem_append_left _ hi)),
        ihr (fun i hi => h i (List.mem_append_right _ hi))]

/-- Summing a mask gives the number of true leaves, while the leaves are at
    most `2 ^ p` in number. -/
theorem eval_mask (p : ℕ) (hp : 0 < p) (m : ℕ → Bool) (t : SumTree)
    (h : t.leaves.length ≤ 2 ^ p) :
    t.eval p (fun i => (m i).toNat) = t.leaves.countP m := by
  induction t with
  | leaf i =>
      simp only [eval, leaves, List.countP_singleton]
      cases m i <;> rfl
  | node l r ihl ihr =>
      -- Both partial sums are exact, and so is rounding their sum.
      have hlen : l.leaves.length + r.leaves.length ≤ 2 ^ p := by
        rwa [leaves, List.length_append] at h
      have hl := List.countP_le_length (p := m) (l := l.leaves)
      have hr := List.countP_le_length (p := m) (l := r.leaves)
      rw [eval, ihl (by omega), ihr (by omega), leaves, List.countP_append,
        roundNat_of_le p _ hp (by omega)]

end SumTree

/-- The length-`n` initial segment's true positions, listed or counted. -/
theorem countP_range (m : ℕ → Bool) (n : ℕ) : (List.range n).countP m = countTrue m n := by
  induction n with
  | zero => rfl
  | succ k ih =>
      rw [List.range_succ, List.countP_append, ih, countTrue_succ, List.countP_singleton]

/-- An order of additions in which each of the first `n` positions appears
    exactly once. -/
structure SumOrder (n : ℕ) where
  tree : SumTree
  covers : tree.leaves.Perm (List.range n)

/-- A mask of at most `2 ^ p` positions is counted exactly in `p` significant
    bits, whatever the order of the additions. -/
theorem SumOrder.eval_mask {n : ℕ} (o : SumOrder n) (p : ℕ) (hp : 0 < p) (m : ℕ → Bool)
    (h : n ≤ 2 ^ p) :
    o.tree.eval p (fun i => (m i).toNat) = countTrue m n := by
  have hlen : o.tree.leaves.length = n := by
    rw [o.covers.length_eq, List.length_range]
  rw [SumTree.eval_mask p hp m o.tree (by omega), o.covers.countP_eq, countP_range]

/-- The order that adds positions one after the other, left to right. -/
def SumTree.leftToRight : ℕ → SumTree
  | 0 => .leaf 0
  | n + 1 => .node (leftToRight n) (.leaf (n + 1))

theorem SumTree.leaves_leftToRight (n : ℕ) :
    (SumTree.leftToRight n).leaves = List.range (n + 1) := by
  induction n with
  | zero => rfl
  | succ k ih => rw [leftToRight, leaves, ih, leaves, ← List.range_succ]

/-- The left-to-right order covers every nonempty range, so orders exist. -/
def SumOrder.leftToRight (n : ℕ) : SumOrder (n + 1) where
  tree := SumTree.leftToRight n
  covers := by rw [SumTree.leaves_leftToRight]

/-- Adding ones from left to right stops at `2 ^ p`. The induction is on the
    number of ones; once there, each further one is rounded away. -/
theorem SumTree.eval_leftToRight (p : ℕ) (hp : 2 ≤ p) (n : ℕ) :
    (SumTree.leftToRight n).eval p (fun _ => 1) = min (n + 1) (2 ^ p) := by
  have hpos : 0 < 2 ^ p := Nat.two_pow_pos p
  induction n with
  | zero =>
      change 1 = min (0 + 1) (2 ^ p)
      omega
  | succ k ih =>
      change roundNat p ((SumTree.leftToRight k).eval p (fun _ => 1) + 1) = _
      rw [ih]
      by_cases hk : k + 1 < 2 ^ p
      · rw [Nat.min_eq_left (by omega), Nat.min_eq_left (by omega)]
        exact roundNat_of_le p _ (by omega) (by omega)
      · rw [Nat.min_eq_right (by omega), Nat.min_eq_right (by omega)]
        exact roundNat_two_pow_succ p hp

/-- Which masks are always counted exactly: those of at most `2 ^ p`
    positions. The orders may be held to the ones that keep the positions in
    sequence and only associate the additions. -/
theorem SumOrder.eval_mask_iff (p : ℕ) (hp : 2 ≤ p) (n : ℕ) :
    (∀ (o : SumOrder n) (m : ℕ → Bool), o.tree.leaves = List.range n →
      o.tree.eval p (fun i => (m i).toNat) = countTrue m n) ↔ n ≤ 2 ^ p := by
  constructor
  · intro h
    cases n with
    | zero => exact Nat.zero_le _
    | succ k =>
        have hall : countTrue (fun _ => true) (k + 1) = k + 1 :=
          (countTrue_eq_self_iff _ _).mpr (fun _ _ => rfl)
        -- Left to right, a row of ones never gets past `2 ^ p`.
        have hsum : (SumTree.leftToRight k).eval p (fun _ => 1) = k + 1 :=
          (h (SumOrder.leftToRight k) (fun _ => true) (SumTree.leaves_leftToRight k)).trans hall
        rw [SumTree.eval_leftToRight p hp k] at hsum
        omega
  · intro h o m _
    exact o.eval_mask p (by omega) m h

end AscendKernel
