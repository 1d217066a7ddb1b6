import AscendKernel.Library.PaddedRow
import Mathlib.Data.List.GetD

/-!
# Padded Rows from Lists

Rows that are filled from the left with a list, and hold the sentinel from
there on. Questions about such a row are questions about its list: whether an
entry is repeated, how many positions are taken, what a set difference leaves.

Two lists made from pieces of one list without repetitions need nothing more.
When one is the first and the second piece in some order and the other the
first and the third, what the first list has over the other is the second
piece, however both were shuffled.

## Main definitions

* `listRow`: A list, followed by the sentinel.
* `gather`: The entries of a list at the positions of another.

## Theorems

* `distinctOffPad_listRow`: A list without repetitions gives a padded row.
* `occupancy_listRow`: It takes as many positions as it is long.
* `countTrue_diffMask_listRow`: What a set difference leaves of a list.
* `gather_perm`: Gathering at shuffled positions shuffles.
* `mem_piece_iff`: What one shuffled list has over another.
* `countP_piece`: And how much of it there is.
-/

namespace AscendKernel

variable {α : Type*}

/-- The list `xs` from position 0 on, and `pad` after it. -/
def listRow (pad : α) (xs : List α) (i : ℕ) : α := xs.getD i pad

/-- The entries of `xs` at the positions listed in `order`. -/
def gather (default : α) (xs : List α) (order : List ℕ) : List α :=
  order.map fun j => xs.getD j default

theorem listRow_eq {pad : α} {xs : List α} {i : ℕ} (h : i < xs.length) :
    listRow pad xs i = xs[i] := List.getD_eq_getElem _ _ h

theorem listRow_pad {pad : α} {xs : List α} {i : ℕ} (h : xs.length ≤ i) :
    listRow pad xs i = pad := List.getD_eq_default _ _ h

theorem listRow_map {β : Type*} (f : α → β) {pad : β} {xs : List α} {i : ℕ} (h : i < xs.length) :
    listRow pad (xs.map f) i = f xs[i] := by
  rw [listRow_eq (by rw [List.length_map]; exact h), List.getElem_map]

theorem listRow_map_pad {β : Type*} (f : α → β) {pad : β} {xs : List α} {i : ℕ}
    (h : xs.length ≤ i) : listRow pad (xs.map f) i = pad :=
  listRow_pad (by rw [List.length_map]; exact h)

theorem listRow_mem {pad : α} {xs : List α} {i : ℕ} (h : i < xs.length) :
    listRow pad xs i ∈ xs := by
  rw [listRow_eq h]
  exact List.getElem_mem h

/-- An entry other than the sentinel is one of the list. -/
theorem lt_of_listRow_ne {pad : α} {xs : List α} {i : ℕ} (h : listRow pad xs i ≠ pad) :
    i < xs.length := by
  by_contra hge
  exact h (listRow_pad (Nat.le_of_not_lt hge))

theorem exists_listRow {pad : α} {xs : List α} {x : α} (h : x ∈ xs) :
    ∃ i < xs.length, listRow pad xs i = x := by
  rcases List.mem_iff_getElem.mp h with ⟨i, hi, hx⟩
  exact ⟨i, hi, by rw [listRow_eq hi, hx]⟩

/-- A list that fits has its members at some position of the row. -/
theorem exists_listRow_iff {pad : α} {n : ℕ} {xs : List α} {x : α} (hlen : xs.length ≤ n)
    (hx : x ≠ pad) : (∃ i < n, listRow pad xs i = x) ↔ x ∈ xs := by
  constructor
  · rintro ⟨i, _, rfl⟩
    exact listRow_mem (lt_of_listRow_ne hx)
  · intro h
    rcases exists_listRow h with ⟨i, hi, heq⟩
    exact ⟨i, Nat.lt_of_lt_of_le hi hlen, heq⟩

/-- A list without repetitions gives a row without repetitions. -/
theorem distinctOffPad_listRow (pad : α) (n : ℕ) (xs : List α) (h : xs.Nodup) :
    DistinctOffPad pad n (listRow pad xs) := by
  intro i _ j _ hpad heq
  have hi := lt_of_listRow_ne hpad
  have hj := lt_of_listRow_ne (by rw [← heq]; exact hpad)
  rw [listRow_eq hi, listRow_eq hj] at heq
  exact (List.Nodup.getElem_inj_iff h).mp heq

/-- How many positions of a row hold a member with some property, when the
    sentinel does not have it. -/
theorem countTrue_listRow (p : α → Bool) (pad : α) (n : ℕ) (xs : List α) (hlen : xs.length ≤ n)
    (hpad : p pad = false) : countTrue (fun i => p (listRow pad xs i)) n = xs.countP p := by
  induction xs generalizing n with
  | nil =>
      rw [List.countP_nil, countTrue_eq_zero_iff]
      intro i _
      rw [listRow_pad (Nat.zero_le i), hpad]
  | cons x xs ih =>
      rcases Nat.exists_eq_succ_of_ne_zero (Nat.ne_of_gt (Nat.lt_of_lt_of_le
        (Nat.zero_lt_succ _) hlen)) with ⟨m, rfl⟩
      have hrest := ih m (Nat.le_of_succ_le_succ hlen)
      -- Position 0 is the head, and the rest of the row is the row of the tail.
      rw [Nat.succ_eq_one_add, countTrue_add, List.countP_cons]
      have hshift : countTrue (fun k => p (listRow pad (x :: xs) (1 + k))) m
          = countTrue (fun k => p (listRow pad xs k)) m :=
        countTrue_congr _ _ m (fun k _ => by rw [Nat.add_comm 1 k]; rfl)
      have hhead : countTrue (fun i => p (listRow pad (x :: xs) i)) 1
          = if p x = true then 1 else 0 := (countTrue_succ _ 0).trans (Nat.zero_add _)
      rw [hshift, hrest, hhead, Nat.add_comm]

variable [DecidableEq α]

theorem occupancy_listRow (pad : α) (n : ℕ) (xs : List α) (hlen : xs.length ≤ n)
    (hpad : pad ∉ xs) : occupancy pad n (listRow pad xs) = xs.length :=
  occupancy_leading pad n _ _ hlen
    (fun i hi heq => hpad (by rw [← heq]; exact listRow_mem hi))
    (fun i hi => listRow_pad hi)

/-- A member of one list is missing from the row of another when it is not in
    that list. -/
theorem diffMask_listRow (pad : α) (n : ℕ) (a : ℕ → α) (ys : List α) (i : ℕ)
    (hlen : ys.length ≤ n) (hi : a i ≠ pad) :
    diffMask n a (listRow pad ys) i = decide (a i ∉ ys) := by
  rw [Bool.eq_iff_iff, diffMask_iff, decide_eq_true_eq, ← exists_listRow_iff hlen hi]
  push Not
  exact forall₂_congr (fun j _ => ne_comm)

/-- What a set difference leaves of a list, sentinels apart. -/
theorem countTrue_diffMask_listRow (pad : α) (n : ℕ) (xs ys : List α) (hx : xs.length ≤ n)
    (hy : ys.length ≤ n) (hpad : pad ∉ xs) :
    countTrue (fun i => diffMask n (listRow pad xs) (listRow pad ys) i &&
        decide (listRow pad xs i ≠ pad)) n
      = xs.countP fun x => decide (x ∉ ys) := by
  have hrow := countTrue_listRow (fun x => decide (x ≠ pad) && decide (x ∉ ys)) pad n xs hx
    (by rw [decide_eq_false (fun h => h rfl), Bool.false_and])
  have hmask : countTrue (fun i => diffMask n (listRow pad xs) (listRow pad ys) i &&
        decide (listRow pad xs i ≠ pad)) n
      = countTrue (fun i => decide (listRow pad xs i ≠ pad) &&
          decide (listRow pad xs i ∉ ys)) n := by
    refine countTrue_congr _ _ n (fun i _ => ?_)
    by_cases hi : listRow pad xs i = pad
    · rw [decide_eq_false (fun h => h hi), Bool.and_false, Bool.false_and]
    · rw [diffMask_listRow pad n _ ys i hy hi, Bool.and_comm]
  rw [hmask, hrow]
  refine List.countP_congr (fun x hmem => ?_)
  rw [Bool.and_eq_true, decide_eq_true_eq, and_iff_right]
  intro heq
  rw [heq] at hmem
  exact hpad hmem

omit [DecidableEq α]

/-- Gathering a list at all of its positions, in any order, gives the list in
    some order. -/
theorem gather_perm (default : α) (xs : List α) (order : List ℕ)
    (h : order.Perm (List.range xs.length)) : (gather default xs order).Perm xs := by
  have hall : (List.range xs.length).map (fun j => xs.getD j default) = xs := by
    refine List.ext_getElem (by rw [List.length_map, List.length_range]) (fun i hi hi' => ?_)
    rw [List.getElem_map, List.getElem_range, List.getD_eq_getElem _ _ hi']
  have hmap := h.map fun j => xs.getD j default
  rw [hall] at hmap
  exact hmap

section Pieces

variable {a b c xs ys : List α} (h : (a ++ b ++ c).Nodup) (hx : xs.Perm (a ++ b))
  (hy : ys.Perm (a ++ c))

include h hx

theorem nodup_first : xs.Nodup := hx.nodup_iff.mpr (List.nodup_append.mp h).1

omit hx
include hy

theorem nodup_second : ys.Nodup := by
  refine hy.nodup_iff.mpr (List.Nodup.sublist ?_ h)
  exact (List.sublist_append_left a b).append (List.Sublist.refl c)

include hx

/-- What the one list has over the other is the piece the other lacks. -/
theorem mem_piece_iff (x : α) : x ∈ xs ∧ x ∉ ys ↔ x ∈ b := by
  rw [List.nodup_append, List.nodup_append] at h
  rcases h with ⟨⟨_, _, hab⟩, _, habc⟩
  rw [hx.mem_iff, hy.mem_iff, List.mem_append, List.mem_append, not_or]
  constructor
  · rintro ⟨ha | hb, hna, _⟩
    · exact absurd ha hna
    · exact hb
  · intro hb
    refine ⟨Or.inr hb, fun ha => hab x ha x hb rfl, fun hc => ?_⟩
    exact habc x (List.mem_append_right a hb) x hc rfl

theorem countP_piece [DecidableEq α] : xs.countP (fun x => decide (x ∉ ys)) = b.length := by
  have hmem := mem_piece_iff h hx hy
  rw [hx.countP_eq, List.countP_append]
  have ha : a.countP (fun x => decide (x ∉ ys)) = 0 := by
    rw [List.countP_eq_zero]
    intro x hxa hnot
    exact of_decide_eq_true hnot (hy.mem_iff.mpr (List.mem_append_left c hxa))
  have hb : b.countP (fun x => decide (x ∉ ys)) = b.length := by
    rw [List.countP_eq_length]
    exact fun x hxb => decide_eq_true ((hmem x).mpr hxb).2
  rw [ha, hb, Nat.zero_add]

end Pieces

end AscendKernel
