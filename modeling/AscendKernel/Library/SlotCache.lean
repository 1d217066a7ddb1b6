import AscendKernel.Library.PaddedRow

/-!
# Slot Caches

What replacing the contents of a row is for.

A cache of `n` slots holds keys. A step wants certain keys to be there
afterwards; keys already held must stay in the slots they are in, because
something large has been loaded next to them, and every other wanted key must
be given a slot and reported, so that it can be loaded. `Serves` states this
about the slots before and after a step and the report, for any type of keys
and with no word on how the slots are chosen.

The replacement of one padded row by another is such a step whenever it is
balanced. That is `serves_replaced`, and the rest follows from `Serves` alone:
no key is ever held twice, no key is reported twice, and a wanted key without
a report was already in its slot.

## Main definitions

* `Serves`: One step of a slot cache.

## Theorems

* `serves_replaced`: A balanced replacement is a step.
* `Serves.holds_iff`: The slots hold what was wanted.
* `Serves.distinct`: No key is held twice.
* `Serves.unreported`: A key without a report stayed in its slot.
* `Serves.reports_eq`: How many keys are reported.
-/

namespace AscendKernel

variable {α : Type*} [DecidableEq α]

/-- One step of a cache of `n` slots, of which those holding `pad` are empty:
    the keys wanted, the slots before and after, and the keys reported for
    loading, each at its slot. -/
structure Serves (pad : α) (n : ℕ) (want old new out : ℕ → α) : Prop where
  /-- The slots hold what was wanted, in some order. -/
  stored : ∀ x, occurrences new n x = occurrences want n x
  /-- A wanted key that was held stays where it is. -/
  kept : ∀ i < n, old i ≠ pad → (∃ j < n, want j = old i) → new i = old i ∧ out i = pad
  /-- A reported key is in its slot, was wanted, and was not held. -/
  loaded : ∀ i < n, out i ≠ pad →
    new i = out i ∧ (∃ j < n, want j = out i) ∧ ∀ j < n, old j ≠ out i
  /-- A slot without a report keeps its key or is emptied. -/
  silent : ∀ i < n, out i = pad → new i = old i ∨ new i = pad
  /-- Every wanted key that was not held is reported. -/
  complete : ∀ j < n, want j ≠ pad → (∀ k < n, old k ≠ want j) → ∃ i < n, out i = want j

section Replacement

variable (pad : α) (n : ℕ) (new old : ℕ → α)

/-- Where a position is offered, both rows receive the same missing member. -/
theorem replaced_of_slot
    (hbal : countTrue (slots pad n new old) n = countTrue (diffMask n new old) n) (i : ℕ)
    (hi : i < n) (hslot : slots pad n new old i = true) :
    replaced pad n new old i = reported pad n new old i ∧
      ∃ j < n, diffMask n new old j = true ∧ new j = reported pad n new old i := by
  have hlen : countTrue (slots pad n new old) n
      ≤ (maskedSelect (diffMask n new old) new n).length := by
    rw [maskedSelect_length]
    omega
  have hrep := rowFill_mem _ _ old n i hi hslot hlen
  have hout := rowFill_mem _ _ (fun _ => pad) n i hi hslot hlen
  refine ⟨Option.some_inj.mp (hrep.symm.trans hout), ?_⟩
  exact (mem_maskedSelect _ new n _).mp (List.mem_of_getElem? hout)

/-- Every missing member is received by an offered position. -/
theorem exists_slot_of_missing
    (hbal : countTrue (slots pad n new old) n = countTrue (diffMask n new old) n) (j : ℕ)
    (hj : j < n) (hmiss : diffMask n new old j = true) :
    ∃ i < n, slots pad n new old i = true ∧ replaced pad n new old i = new j := by
  have hrank := countTrue_lt (diffMask n new old) hj hmiss
  rw [← hbal] at hrank
  rcases exists_countTrue_eq _ n _ hrank with ⟨i, hi, hslot, hcount⟩
  refine ⟨i, hi, hslot, ?_⟩
  rw [replaced, rowFill, if_pos hslot, hcount, maskedSelect_getElem _ new n j hj hmiss,
    Option.getD_some]

/-- Where a position is not offered, nothing is written or reported. -/
theorem replaced_of_not_slot (i : ℕ) (hslot : slots pad n new old i = false) :
    replaced pad n new old i = old i ∧ reported pad n new old i = pad :=
  ⟨rowFill_of_not_slot _ _ old i hslot, rowFill_of_not_slot _ _ _ i hslot⟩

/-- A balanced replacement is a step of a slot cache. -/
theorem serves_replaced (hnew : DistinctOffPad pad n new) (hold : DistinctOffPad pad n old)
    (hbal : countTrue (slots pad n new old) n = countTrue (diffMask n new old) n) :
    Serves pad n new old (replaced pad n new old) (reported pad n new old) := by
  have hstored := replaced_occurrences pad n new old hnew hold hbal
  have hsplit : ∀ i < n, (replaced pad n new old i = old i ∧ reported pad n new old i = pad) ∨
      (replaced pad n new old i = reported pad n new old i ∧
        ∃ j < n, diffMask n new old j = true ∧ new j = reported pad n new old i) := by
    intro i hi
    cases hs : slots pad n new old i with
    | false => exact Or.inl (replaced_of_not_slot pad n new old i hs)
    | true => exact Or.inr (replaced_of_slot pad n new old hbal i hi hs)
  refine ⟨hstored, ?_, ?_, ?_, ?_⟩
  · -- A held key that is wanted is a hit, and a hit is never offered.
    rintro i hi hpad ⟨j, hj, hji⟩
    exact replaced_of_not_slot pad n new old i (slots_hit pad n new old i hpad ⟨j, hj, hji.symm⟩)
  · intro i hi hout
    rcases hsplit i hi with ⟨_, hnone⟩ | ⟨heq, j, hj, hdiff, hval⟩
    · exact absurd hnone hout
    · refine ⟨heq, ⟨j, hj, hval⟩, fun k hk hkeq => ?_⟩
      rw [diffMask_iff] at hdiff
      exact hdiff k hk (by rw [hval, hkeq])
  · intro i hi hout
    rcases hsplit i hi with ⟨hkeep, _⟩ | ⟨heq, _⟩
    · exact Or.inl hkeep
    · exact Or.inr (heq.trans hout)
  · intro j hj hpad hmiss
    -- The member is stored somewhere, and no position keeping its entry has it.
    have hpos := (occurrences_pos_iff new n (new j)).mpr ⟨j, hj, rfl⟩
    rw [← hstored, occurrences_pos_iff] at hpos
    rcases hpos with ⟨i, hi, hval⟩
    refine ⟨i, hi, ?_⟩
    rcases hsplit i hi with ⟨hkeep, _⟩ | ⟨heq, _⟩
    · exact absurd (hkeep.symm.trans hval) (hmiss i hi)
    · exact heq.symm.trans hval

end Replacement

namespace Serves

variable {pad : α} {n : ℕ} {want old new out : ℕ → α}

/-- A step is a matter of the slots there are. -/
theorem congr (h : Serves pad n want old new out) (new' out' : ℕ → α)
    (hnew : ∀ i < n, new' i = new i) (hout : ∀ i < n, out' i = out i) :
    Serves pad n want old new' out' := by
  refine ⟨fun x => ?_, ?_, ?_, ?_, ?_⟩
  · rw [← h.stored x, occurrences, occurrences]
    exact countTrue_congr _ _ n (fun i hi => by rw [hnew i hi])
  · intro i hi hpad hheld
    rw [hnew i hi, hout i hi]
    exact h.kept i hi hpad hheld
  · intro i hi hne
    rw [hout i hi] at hne ⊢
    rw [hnew i hi]
    exact h.loaded i hi hne
  · intro i hi hnone
    rw [hout i hi] at hnone
    rw [hnew i hi]
    exact h.silent i hi hnone
  · intro j hj hpad hmiss
    rcases h.complete j hj hpad hmiss with ⟨i, hi, hval⟩
    exact ⟨i, hi, by rw [hout i hi, hval]⟩

/-- The slots hold exactly the keys wanted. -/
theorem holds_iff (h : Serves pad n want old new out) (x : α) :
    (∃ i < n, new i = x) ↔ ∃ j < n, want j = x := by
  rw [← occurrences_pos_iff, ← occurrences_pos_iff, h.stored]

/-- As many slots are taken as keys were wanted. -/
theorem occupancy_eq (h : Serves pad n want old new out) :
    occupancy pad n new = occupancy pad n want := by
  have hpad := h.stored pad
  rw [occurrences, occurrences, countTrue_pad, countTrue_pad] at hpad
  have hnew := occupancy_le pad n new
  have hwant := occupancy_le pad n want
  omega

/-- No key is held twice, when none is wanted twice. -/
theorem distinct (h : Serves pad n want old new out) (hwant : DistinctOffPad pad n want) :
    DistinctOffPad pad n new :=
  distinctOffPad_of_occurrences pad n want new hwant h.stored

/-- A wanted key is in exactly one slot. -/
theorem unique_slot (h : Serves pad n want old new out) (hwant : DistinctOffPad pad n want)
    (j : ℕ) (hj : j < n) (hpad : want j ≠ pad) : ∃! i, i < n ∧ new i = want j := by
  rcases (h.holds_iff (want j)).mpr ⟨j, hj, rfl⟩ with ⟨i, hi, hval⟩
  refine ⟨i, ⟨hi, hval⟩, ?_⟩
  rintro k ⟨hk, hkval⟩
  exact h.distinct hwant k hk i hi (by rw [hkval]; exact hpad) (by rw [hkval, hval])

/-- A slot holding a key without a report held it before. -/
theorem unreported (h : Serves pad n want old new out) (i : ℕ) (hi : i < n) (hpad : new i ≠ pad)
    (hout : out i = pad) : old i = new i := by
  rcases h.silent i hi hout with hkeep | hempty
  · exact hkeep.symm
  · exact absurd hempty hpad

/-- No key is reported twice. -/
theorem reports_distinct (h : Serves pad n want old new out) (hwant : DistinctOffPad pad n want) :
    DistinctOffPad pad n out := by
  intro i hi j hj hpad heq
  have hi' := (h.loaded i hi hpad).1
  have hj' := (h.loaded j hj (by rw [← heq]; exact hpad)).1
  exact h.distinct hwant i hi j hj (by rw [hi']; exact hpad) (by rw [hi', hj', heq])

/-- As many keys are reported as were wanted and not held. -/
theorem reports_eq (h : Serves pad n want old new out) (hwant : DistinctOffPad pad n want) :
    occupancy pad n out
      = countTrue (fun j => diffMask n want old j && decide (want j ≠ pad)) n := by
  have hout : ∀ i, i ∈ (Finset.range n).filter (fun i => decide (out i ≠ pad) = true) ↔
      i < n ∧ out i ≠ pad := by
    intro i
    rw [Finset.mem_filter, Finset.mem_range, decide_eq_true_eq]
  have hmiss : ∀ j, j ∈ (Finset.range n).filter
      (fun j => (diffMask n want old j && decide (want j ≠ pad)) = true) ↔
      j < n ∧ (∀ k < n, want j ≠ old k) ∧ want j ≠ pad := by
    intro j
    rw [Finset.mem_filter, Finset.mem_range, Bool.and_eq_true, diffMask_iff, decide_eq_true_eq]
  rw [occupancy, countTrue_eq_card, countTrue_eq_card]
  -- Both sides count keys, the same ones, each of them once.
  have hkeys : ((Finset.range n).filter (fun i => decide (out i ≠ pad) = true)).image out
      = ((Finset.range n).filter
          (fun j => (diffMask n want old j && decide (want j ≠ pad)) = true)).image want := by
    ext x
    rw [Finset.mem_image, Finset.mem_image]
    constructor
    · rintro ⟨i, hi, rfl⟩
      rw [hout] at hi
      rcases (h.loaded i hi.1 hi.2).2 with ⟨⟨j, hj, hval⟩, habsent⟩
      refine ⟨j, (hmiss j).mpr ⟨hj, fun k hk heq => ?_, by rw [hval]; exact hi.2⟩, hval⟩
      exact habsent k hk (by rw [← heq, hval])
    · rintro ⟨j, hj, rfl⟩
      rw [hmiss] at hj
      rcases h.complete j hj.1 hj.2.2 (fun k hk heq => hj.2.1 k hk heq.symm) with ⟨i, hi, hval⟩
      exact ⟨i, (hout i).mpr ⟨hi, by rw [hval]; exact hj.2.2⟩, hval⟩
  rw [← Finset.card_image_of_injOn (f := out), hkeys, Finset.card_image_of_injOn]
  · intro i hi j hj heq
    rw [Finset.mem_coe, hmiss] at hi hj
    exact hwant i hi.1 j hj.1 hi.2.2 heq
  · intro i hi j hj heq
    rw [Finset.mem_coe, hout] at hi hj
    exact h.reports_distinct hwant i hi.1 j hj.1 hi.2 heq

end Serves

end AscendKernel
