import AscendKernel.Library.SlotCache

/-!
# Tagged Caches

A slot cache whose keys are encodings of something richer.

The entries a step wants are encoded, and the cache sees only the encodings.
Next to each slot lies whatever was loaded for the entry last reported there;
`tags` records that entry. The cache never reads the tags, so whether they
follow the slots is a property of the encoding, not of the cache: a slot that
is kept because its key is wanted may have been loaded for another entry with
the same key.

`Stocked` is what a user of the cache relies on: every wanted entry is in a
slot that was loaded for it, and nothing else is held. A step preserves that
exactly when no new entry shares a key with an old entry it differs from;
`TagStep.not_clash` and `TagStep.stocked` are the two directions.

## Main definitions

* `keys`: The keys of a row of entries.
* `TagStep`: A step of a slot cache with its tags.
* `Stocked`: Every wanted entry is in a slot tagged with it.
* `Clash`: Two different entries with one key.

## Theorems

* `TagStep.entry`: Without a clash, a slot in use is tagged with a wanted entry.
* `TagStep.not_clash`: A step that leaves the cache stocked met no clash.
* `TagStep.stocked`: A step that meets no clash leaves the cache stocked.
-/

namespace AscendKernel

variable {α β : Type*}

/-- The keys of a row of entries: `pad` where there is no entry. -/
def keys (pad : α) (code : β → α) (want : ℕ → Option β) (j : ℕ) : α := (want j).elim pad code

theorem keys_some {pad : α} {code : β → α} {want : ℕ → Option β} {j : ℕ} {e : β}
    (h : want j = some e) : keys pad code want j = code e := by
  unfold keys
  rw [h]
  rfl

/-- A key that is not the sentinel is the key of an entry. -/
theorem exists_entry {pad : α} {code : β → α} {want : ℕ → Option β} {j : ℕ}
    (h : keys pad code want j ≠ pad) : ∃ e, want j = some e ∧ code e = keys pad code want j := by
  cases hw : want j with
  | none =>
      refine absurd ?_ h
      unfold keys
      rw [hw]
      rfl
  | some e => exact ⟨e, rfl, (keys_some hw).symm⟩

variable [DecidableEq α] in
/-- A step of a slot cache with its tags: a reported slot is tagged with the
    entry it was reported for, and the other tags stay. -/
structure TagStep (pad : α) (n : ℕ) (code : β → α) (want : ℕ → Option β) (old new out : ℕ → α)
    (tags tags' : ℕ → Option β) : Prop where
  serves : Serves pad n (keys pad code want) old new out
  loaded : ∀ i < n, out i ≠ pad → ∃ j < n, ∃ e, want j = some e ∧ code e = out i ∧ tags' i = some e
  idle : ∀ i < n, out i = pad → tags' i = tags i

/-- Every slot in use is tagged with a wanted entry of its key, and every
    wanted entry is in a slot tagged with it. -/
structure Stocked (pad : α) (n : ℕ) (code : β → α) (want : ℕ → Option β) (slot : ℕ → α)
    (tags : ℕ → Option β) : Prop where
  entry : ∀ i < n, slot i ≠ pad → ∃ j < n, ∃ e, want j = some e ∧ slot i = code e ∧ tags i = some e
  placed : ∀ j < n, ∀ e, want j = some e → ∃ i < n, slot i = code e ∧ tags i = some e

/-- Two different entries, one of either row, have the same key. -/
def Clash (n : ℕ) (code : β → α) (want want' : ℕ → Option β) : Prop :=
  ∃ i < n, ∃ j < n, ∃ e e', want i = some e ∧ want' j = some e' ∧ code e = code e' ∧ e ≠ e'

/-- An empty cache is stocked with nothing. -/
theorem stocked_empty (pad : α) (n : ℕ) (code : β → α) (tags : ℕ → Option β) :
    Stocked pad n code (fun _ => none) (fun _ => pad) tags :=
  ⟨fun _ _ hpad => absurd rfl hpad, fun _ _ _ h => absurd h (Option.some_ne_none _).symm⟩

theorem Stocked.congr {pad : α} {n : ℕ} {code : β → α} {want : ℕ → Option β} {slot slot' : ℕ → α}
    {tags tags' : ℕ → Option β} (h : Stocked pad n code want slot tags)
    (hslot : ∀ i < n, slot' i = slot i) (htags : ∀ i < n, tags' i = tags i) :
    Stocked pad n code want slot' tags' := by
  constructor
  · intro i hi hpad
    rw [hslot i hi] at hpad ⊢
    rw [htags i hi]
    exact h.entry i hi hpad
  · intro j hj e he
    rcases h.placed j hj e he with ⟨i, hi, hkey, htag⟩
    exact ⟨i, hi, by rw [hslot i hi, hkey], by rw [htags i hi, htag]⟩

namespace TagStep

variable [DecidableEq α] {pad : α} {n : ℕ} {code : β → α} {want want₀ : ℕ → Option β}
  {old new out : ℕ → α} {tags tags' : ℕ → Option β}

/-- Without a clash, a slot in use is tagged with a wanted entry of its key. -/
theorem entry (h : TagStep pad n code want old new out tags tags')
    (hold : Stocked pad n code want₀ old tags) (hclash : ¬ Clash n code want₀ want) (i : ℕ)
    (hi : i < n) (hpad : new i ≠ pad) :
    ∃ j < n, ∃ e, want j = some e ∧ new i = code e ∧ tags' i = some e := by
  by_cases hout : out i = pad
  · -- The slot held its key before, for an entry of the old row.
    have hkeep := h.serves.unreported i hi hpad hout
    rcases hold.entry i hi (by rw [hkeep]; exact hpad) with ⟨k, hk, e₀, hwant₀, hkey₀, htag₀⟩
    rcases (h.serves.holds_iff (new i)).mp ⟨i, hi, rfl⟩ with ⟨j, hj, hkey⟩
    rcases exists_entry (by rw [hkey]; exact hpad) with ⟨e, hwant, hcode⟩
    have heq : code e₀ = code e := by rw [hcode, hkey, ← hkeep, hkey₀]
    have hsame : e₀ = e := by
      by_contra hne
      exact hclash ⟨k, hk, j, hj, e₀, e, hwant₀, hwant, heq, hne⟩
    refine ⟨j, hj, e, hwant, by rw [hcode, hkey], ?_⟩
    rw [h.idle i hi hout, htag₀, hsame]
  · -- The slot was just loaded.
    rcases h.loaded i hi hout with ⟨j, hj, e, hwant, hcode, htag⟩
    exact ⟨j, hj, e, hwant, by rw [(h.serves.loaded i hi hout).1, hcode], htag⟩

/-- A step after which every wanted entry is in a slot tagged with it met no
    clash: the slot of an old entry would have been kept, with its old tag. -/
theorem not_clash (h : TagStep pad n code want old new out tags tags')
    (hold : Stocked pad n code want₀ old tags)
    (hdist : DistinctOffPad pad n (keys pad code want))
    (hpad : ∀ j < n, ∀ e, want j = some e → code e ≠ pad)
    (hplaced : ∀ j < n, ∀ e, want j = some e → ∃ i < n, new i = code e ∧ tags' i = some e) :
    ¬ Clash n code want₀ want := by
  rintro ⟨k, hk, j, hj, e₀, e, hwant₀, hwant, heq, hne⟩
  rcases hold.placed k hk e₀ hwant₀ with ⟨i, hi, hkey, htag⟩
  have hne' : old i ≠ pad := by
    rw [hkey, heq]
    exact hpad j hj e hwant
  have hheld : ∃ j < n, keys pad code want j = old i :=
    ⟨j, hj, by rw [keys_some hwant, hkey, heq]⟩
  rcases h.serves.kept i hi hne' hheld with ⟨hstay, hquiet⟩
  -- The slot tagged with the new entry has the same key, so it is that slot.
  rcases hplaced j hj e hwant with ⟨m, hm, hkeym, htagm⟩
  have hsame : i = m := by
    refine h.serves.distinct hdist i hi m hm ?_ ?_
    · rw [hstay]
      exact hne'
    · rw [hstay, hkey, heq, hkeym]
  rw [← hsame, h.idle i hi hquiet, htag, Option.some.injEq] at htagm
  exact hne htagm

/-- A step that meets no clash leaves the cache stocked. -/
theorem stocked (h : TagStep pad n code want old new out tags tags')
    (hold : Stocked pad n code want₀ old tags)
    (hdist : DistinctOffPad pad n (keys pad code want))
    (hpad : ∀ j < n, ∀ e, want j = some e → code e ≠ pad) (hclash : ¬ Clash n code want₀ want) :
    Stocked pad n code want new tags' := by
  refine ⟨fun i hi => h.entry hold hclash i hi, fun j hj e hwant => ?_⟩
  have hne := hpad j hj e hwant
  -- The key is stored somewhere, and its slot is tagged with an entry of it.
  rcases (h.serves.holds_iff (code e)).mpr ⟨j, hj, keys_some hwant⟩ with ⟨i, hi, hkey⟩
  rcases h.entry hold hclash i hi (by rw [hkey]; exact hne) with ⟨k, hk, e', hwant', hcode, htag⟩
  have hsame : k = j := by
    refine hdist k hk j hj ?_ ?_
    · rw [keys_some hwant', ← hcode, hkey]
      exact hne
    · rw [keys_some hwant', keys_some hwant, ← hcode, hkey]
  rw [hsame, hwant, Option.some.injEq] at hwant'
  rw [← hwant'] at htag
  exact ⟨i, hi, hkey, htag⟩

end TagStep

end AscendKernel
