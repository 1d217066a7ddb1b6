import AscendKernel.Theory.Launch

/-!
# What the Record of Copies Says

The record of copies, against what a launch does to memory.

Every copy puts itself on record, so the record says which elements a launch
reads and writes. Here the record is tied to the effect. What no recorded copy
writes stays as it was. What is left where a row was written is decided by what
memory held where the row was read. And nothing is on record in vain: for every
element read there are contents for which it makes a difference to its row, and
for every element written there are contents for which it changes.

The four are one structure, `Accounted`, about a launch as a function of what
the memory holds. `launchFrom` is that function for packed matrices of one
shape, and `launchFrom_accounted` has no condition on the shape.

A row's contribution is known from `foldl_avail`: where its offset points, the
mask is topped up by the shortage. So the contents that show an element to
matter are those that move the shortage of an otherwise empty row from zero to
one, or an entry of the row from full to empty.

## Main definitions

* `touched`: The elements copied while processing a row.
* `processRows`: A list of rows processed, starting with nothing on record.
* `Accounted`: The record is what a launch does to memory.
* `launchFrom`: A launch as a function of what the memory holds.

## Theorems

* `touched_processRows`: What a list of processed rows touches.
* `processRows_avail`: What is left where a processed row points.
* `processRows_accounted`: A list of processed rows is accounted for.
* `launchFrom_accounted`: So is every launch.
-/

namespace AscendKernel

/-- The elements of one buffer copied in, or out, while row `r` is processed. -/
def touched (gm : GlobalMemory) (r : ℕ) (buffer : GlobalBuffer) (isWrite : Bool) : Set ℕ :=
  {e | ∃ c ∈ gm.copies, c.batchIdx = r ∧ c.buffer = buffer ∧ c.isWrite = isWrite ∧
    c.offset ≤ e ∧ e < c.offset + c.count}

/-- The copies on record after a run are what the run does to memory: `run` is
    the run as a function of what the memory holds, and `before` and `after` are
    the memory at its two ends. -/
structure Accounted (run : GlobalMemory → Except Failure GlobalMemory)
    (before after : GlobalMemory) : Prop where
  /-- What no copy writes stays as it was. -/
  kept : ∀ buffer e, (∀ r, e ∉ touched after r buffer true) →
    after.contents buffer e = before.contents buffer e
  /-- What is left where a row is written is decided by what is read for it. -/
  decided : ∀ r m,
    (∀ buffer, ∀ e ∈ touched after r buffer false, m.contents buffer e = before.contents buffer e) →
    ∃ m', run m = .ok m' ∧
      ∀ buffer, ∀ e ∈ touched after r buffer true, m'.contents buffer e = after.contents buffer e
  /-- Every element read can make a difference to its row, all else being equal. -/
  matters : ∀ r buffer, ∀ e ∈ touched after r buffer false, ∃ m₁ m₂ m₁' m₂',
    run m₁ = .ok m₁' ∧ run m₂ = .ok m₂' ∧
    (∀ b a, ¬ (b = buffer ∧ a = e) → m₁.contents b a = m₂.contents b a) ∧
    ∃ b, ∃ a ∈ touched after r b true, m₁'.contents b a ≠ m₂'.contents b a
  /-- Every element written can change. -/
  changes : ∀ r buffer, ∀ e ∈ touched after r buffer true, ∃ m m',
    run m = .ok m' ∧ m'.contents buffer e ≠ m.contents buffer e

theorem mem_rowCopies (c : DataCopy) (b offset count : ℕ) :
    c ∈ rowCopies b offset count ↔
      c.batchIdx = b ∧ c.offset = offset ∧ c.count = count ∧
        (c.isWrite = false ∨ c.buffer = .availMask) := by
  rcases c with ⟨batchIdx, buffer, isWrite, off, cnt⟩
  simp only [rowCopies, List.mem_cons, List.not_mem_nil, DataCopy.mk.injEq]
  cases buffer <;> cases isWrite <;> simp only [reduceCtorEq, Bool.true_eq_false,
    Bool.false_eq_true, false_and, and_false, or_false, false_or, true_and, and_true, and_self,
    or_true, or_self]

/-- A list of rows processed, starting with nothing on record. -/
def processRows (plat : Platform) (vs : List Word) (m : GlobalMemory) : GlobalMemory :=
  vs.foldl (processBatch plat) { m with copies := [] }

section Rows

variable (plat : Platform) (vs : List Word)

/-- The copies made while processing a list of rows: those of each row, from
    where its 32-bit offset points. -/
theorem mem_processRows_copies (m : GlobalMemory) (c : DataCopy) :
    c ∈ (processRows plat vs m).copies ↔
      c.batchIdx ∈ vs.map Word.val ∧ c.offset = c.batchIdx % 2 ^ 21 * SEQ_LEN ∧
        c.count = SEQ_LEN ∧ (c.isWrite = false ∨ c.buffer = .availMask) := by
  rw [processRows, foldl_copies, List.nil_append, List.mem_flatMap]
  constructor
  · rintro ⟨v, hv, hc⟩
    rw [mem_rowCopies, rowOffset_val] at hc
    rcases hc with ⟨hb, hoff, hrest⟩
    exact ⟨hb ▸ List.mem_map_of_mem hv, hb ▸ hoff, hrest⟩
  · rintro ⟨hb, hoff, hrest⟩
    rcases List.mem_map.mp hb with ⟨v, hv, hvb⟩
    refine ⟨v, hv, ?_⟩
    rw [mem_rowCopies, rowOffset_val, hvb]
    exact ⟨rfl, hoff, hrest⟩

/-- What a list of processed rows touches: a row in the list, one stretch in
    each buffer it reads and in the one it writes. -/
theorem touched_processRows (m : GlobalMemory) (r : ℕ) (buffer : GlobalBuffer) (isWrite : Bool)
    (e : ℕ) :
    e ∈ touched (processRows plat vs m) r buffer isWrite ↔
      (r ∈ vs.map Word.val ∧ (isWrite = false ∨ buffer = .availMask)) ∧
        r % 2 ^ 21 * SEQ_LEN ≤ e ∧ e < r % 2 ^ 21 * SEQ_LEN + SEQ_LEN := by
  rw [touched, Set.mem_ofPred_eq]
  constructor
  · rintro ⟨c, hc, rfl, rfl, rfl, hlo, hhi⟩
    rw [mem_processRows_copies] at hc
    rcases hc with ⟨hb, hoff, hcnt, hkind⟩
    rw [hoff] at hlo hhi
    rw [hcnt] at hhi
    exact ⟨⟨hb, hkind⟩, hlo, hhi⟩
  · rintro ⟨⟨hr, hkind⟩, hlo, hhi⟩
    refine ⟨⟨r, buffer, isWrite, r % 2 ^ 21 * SEQ_LEN, SEQ_LEN⟩, ?_, rfl, rfl, rfl, hlo, hhi⟩
    rw [mem_processRows_copies]
    exact ⟨hr, rfl, rfl, hkind⟩

/-- A touched element lies in the row its 32-bit offset points at, and that row
    is processed. -/
theorem exists_of_touched {m : GlobalMemory} {r : ℕ} {buffer : GlobalBuffer} {isWrite : Bool}
    {e : ℕ} (h : e ∈ touched (processRows plat vs m) r buffer isWrite) :
    (r ∈ vs.map Word.val ∧ (isWrite = false ∨ buffer = .availMask)) ∧
      ∃ i < SEQ_LEN, e = r % 2 ^ 21 * SEQ_LEN + i := by
  rw [touched_processRows] at h
  rcases h with ⟨hrow, hlo, hhi⟩
  exact ⟨hrow, e - r % 2 ^ 21 * SEQ_LEN, by omega, by omega⟩

theorem mem_touched (m : GlobalMemory) {r i : ℕ} {buffer : GlobalBuffer} {isWrite : Bool}
    (h : r ∈ vs.map Word.val ∧ (isWrite = false ∨ buffer = .availMask)) (hi : i < SEQ_LEN) :
    r % 2 ^ 21 * SEQ_LEN + i ∈ touched (processRows plat vs m) r buffer isWrite := by
  rw [touched_processRows]
  exact ⟨h, by omega, by omega⟩

/-- What is left where a processed row points. -/
theorem processRows_avail (m : GlobalMemory) {r i : ℕ} (hr : r ∈ vs.map Word.val)
    (hi : i < SEQ_LEN) :
    (processRows plat vs m).availMaskGm (r % 2 ^ 21 * SEQ_LEN + i)
      = processRow SEQ_LEN (castSum plat.sumOrder) (rowAt m.missMaskGm (r % 2 ^ 21))
          (rowAt m.availMaskGm (r % 2 ^ 21)) (rowAt m.idxGm (r % 2 ^ 21)) i := by
  have hmem : r % 2 ^ 21 ∈ vs.map (fun v => v.val % 2 ^ 21) := by
    rcases List.mem_map.mp hr with ⟨v, hv, rfl⟩
    exact List.mem_map.mpr ⟨v, hv, rfl⟩
  refine (foldl_avail plat vs { m with copies := [] } (r % 2 ^ 21) i hi).trans ?_
  rw [if_pos hmem]

/-- Rows that are all empty: as many entries become available as there are
    tokens to load. -/
theorem processRows_vacant (miss : ℕ → Bool) {r i : ℕ} (hr : r ∈ vs.map Word.val)
    (hi : i < SEQ_LEN) :
    (processRows plat vs ⟨miss, fun _ => false, fun _ => -1, []⟩).availMaskGm
        (r % 2 ^ 21 * SEQ_LEN + i)
      = decide (i + 1 ≤ countTrue (rowAt miss (r % 2 ^ 21)) SEQ_LEN) := by
  have hnone : countTrue (fun _ => false) SEQ_LEN = 0 :=
    (countTrue_eq_zero_iff _ _).mpr (fun _ _ => rfl)
  have hall : countTrue (fun _ => true) (i + 1) = i + 1 :=
    (countTrue_eq_self_iff _ _).mpr (fun _ _ => rfl)
  rw [processRows_avail plat vs _ hr hi,
    processRow_eq SEQ_LEN _ (castSum_eq plat.sumOrder (le_refl SEQ_LEN)) _ _ _ i hi]
  change (false || (true && decide (countTrue (fun _ => true) (i + 1)
    ≤ countTrue (rowAt miss (r % 2 ^ 21)) SEQ_LEN - countTrue (fun _ => false) SEQ_LEN))) = _
  rw [hall, hnone, Nat.sub_zero, Bool.false_or, Bool.true_and]

/-- What no row points at, and the other two buffers, stay as they were. -/
theorem processRows_kept (m : GlobalMemory) (buffer : GlobalBuffer) (e : ℕ)
    (h : ∀ r, e ∉ touched (processRows plat vs m) r buffer true) :
    (processRows plat vs m).contents buffer e = m.contents buffer e := by
  cases buffer with
  | missMask => exact congrFun (foldl_miss plat vs { m with copies := [] }) e
  | idx => exact congrFun (foldl_idx plat vs { m with copies := [] }) e
  | availMask =>
      have hpos := SEQ_LEN_pos
      have hcell : e / SEQ_LEN * SEQ_LEN + e % SEQ_LEN = e := Nat.div_add_mod' e SEQ_LEN
      have hrow := foldl_avail plat vs { m with copies := [] } (e / SEQ_LEN) (e % SEQ_LEN)
        (Nat.mod_lt e hpos)
      have hnot : e / SEQ_LEN ∉ vs.map (fun v => v.val % 2 ^ 21) := by
        intro hmem
        rcases List.mem_map.mp hmem with ⟨v, hv, hq⟩
        refine h v.val (hcell ▸ ?_)
        rw [← hq]
        exact mem_touched plat vs m ⟨List.mem_map_of_mem hv, Or.inr rfl⟩ (Nat.mod_lt e hpos)
      rw [if_neg hnot, rowAt, rowAt, hcell] at hrow
      exact hrow

/-- Memories that agree where a row is read agree afterwards where it is
    written. -/
theorem processRows_decided (m m' : GlobalMemory) (r : ℕ)
    (h : ∀ buffer, ∀ e ∈ touched (processRows plat vs m) r buffer false,
      m'.contents buffer e = m.contents buffer e)
    (buffer : GlobalBuffer) (e : ℕ) (he : e ∈ touched (processRows plat vs m) r buffer true) :
    (processRows plat vs m').contents buffer e = (processRows plat vs m).contents buffer e := by
  rcases exists_of_touched plat vs he with ⟨⟨hr, hkind⟩, i, hi, rfl⟩
  rcases hkind.resolve_left (by decide) with rfl
  have hread : ∀ buffer, ∀ j < SEQ_LEN, m'.contents buffer (r % 2 ^ 21 * SEQ_LEN + j)
      = m.contents buffer (r % 2 ^ 21 * SEQ_LEN + j) :=
    fun buffer j hj => h buffer _ (mem_touched plat vs m ⟨hr, Or.inl rfl⟩ hj)
  change (processRows plat vs m').availMaskGm _ = (processRows plat vs m).availMaskGm _
  rw [processRows_avail plat vs m' hr hi, processRows_avail plat vs m hr hi]
  exact processRow_congr SEQ_LEN _ (castSum_eq plat.sumOrder (le_refl SEQ_LEN)) _ _ _ _ _ _
    (hread .missMask) (hread .availMask) (hread .idx) i hi

/-- Every element a processed row reads makes a difference to it for some
    contents. -/
theorem processRows_matters (m : GlobalMemory) (r : ℕ) (buffer : GlobalBuffer) (e : ℕ)
    (he : e ∈ touched (processRows plat vs m) r buffer false) :
    ∃ m₁ m₂ : GlobalMemory,
      (∀ b a, ¬ (b = buffer ∧ a = e) → m₁.contents b a = m₂.contents b a) ∧
      ∃ b, ∃ a ∈ touched (processRows plat vs m) r b true,
        (processRows plat vs m₁).contents b a ≠ (processRows plat vs m₂).contents b a := by
  have hpos := SEQ_LEN_pos
  have hsum := castSum_eq plat.sumOrder (le_refl SEQ_LEN)
  rcases exists_of_touched plat vs he with ⟨⟨hr, _⟩, i, hi, rfl⟩
  have hwrite : ∀ {j}, j < SEQ_LEN → r % 2 ^ 21 * SEQ_LEN + j
      ∈ touched (processRows plat vs m) r .availMask true :=
    fun hj => mem_touched plat vs m ⟨hr, Or.inr rfl⟩ hj
  have hnone : countTrue (fun _ => false) SEQ_LEN = 0 :=
    (countTrue_eq_zero_iff _ _).mpr (fun _ _ => rfl)
  cases buffer with
  | missMask =>
      -- One token to load or none: the first entry of an empty row is taken or not.
      refine ⟨⟨fun a => decide (a = r % 2 ^ 21 * SEQ_LEN + i), fun _ => false, fun _ => -1, []⟩,
        ⟨fun _ => false, fun _ => false, fun _ => -1, []⟩, fun b a hne => ?_,
        .availMask, _, hwrite hpos, ?_⟩
      · cases b with
        | missMask => exact decide_eq_false (fun ha => hne ⟨rfl, ha⟩)
        | availMask => rfl
        | idx => rfl
      · change (processRows plat vs _).availMaskGm _ ≠ (processRows plat vs _).availMaskGm _
        have hone : countTrue (rowAt (fun a => decide (a = r % 2 ^ 21 * SEQ_LEN + i))
            (r % 2 ^ 21)) SEQ_LEN = 1 := by
          refine countTrue_single _ _ i hi (fun j hj => ?_)
          rw [rowAt, decide_eq_true_eq]
          omega
        rw [processRows_vacant plat vs _ hr hpos, processRows_vacant plat vs _ hr hpos, hone]
        change decide (1 ≤ 1) ≠ decide (1 ≤ countTrue (fun _ => false) SEQ_LEN)
        rw [hnone]
        decide
  | availMask =>
      -- Without a token to load a row is left as it is.
      refine ⟨⟨fun _ => false, fun a => decide (a = r % 2 ^ 21 * SEQ_LEN + i), fun _ => 0, []⟩,
        ⟨fun _ => false, fun _ => false, fun _ => 0, []⟩, fun b a hne => ?_,
        .availMask, _, hwrite hi, ?_⟩
      · cases b with
        | missMask => rfl
        | availMask => exact decide_eq_false (fun ha => hne ⟨rfl, ha⟩)
        | idx => rfl
      · change (processRows plat vs _).availMaskGm _ ≠ (processRows plat vs _).availMaskGm _
        have hsame : ∀ avail idx, (processRows plat vs ⟨fun _ => false, avail, idx, []⟩).availMaskGm
            = avail := by
          intro avail idx
          refine foldl_avail_of_no_shortage plat vs ⟨fun _ => false, avail, idx, []⟩ (fun q _ => ?_)
          change countTrue (fun _ => false) SEQ_LEN ≤ _
          rw [hnone]
          exact Nat.zero_le _
        rw [hsame, hsame]
        simp only [decide_true, ne_eq, Bool.true_eq_false, not_false_eq_true]
  | idx =>
      -- With a row's worth of tokens to load, an entry is taken when it is empty.
      refine ⟨⟨fun _ => true, fun _ => false,
          fun a => if a = r % 2 ^ 21 * SEQ_LEN + i then -1 else 0, []⟩,
        ⟨fun _ => true, fun _ => false, fun _ => 0, []⟩, fun b a hne => ?_,
        .availMask, _, hwrite hi, ?_⟩
      · cases b with
        | missMask => rfl
        | availMask => rfl
        | idx => exact if_neg (fun ha => hne ⟨rfl, ha⟩)
      · change (processRows plat vs _).availMaskGm _ ≠ (processRows plat vs _).availMaskGm _
        have hall : countTrue (fun _ => true) SEQ_LEN = SEQ_LEN :=
          (countTrue_eq_self_iff _ _).mpr (fun _ _ => rfl)
        rw [processRows_avail plat vs _ hr hi, processRows_avail plat vs _ hr hi,
          processRow_eq SEQ_LEN _ hsum _ _ _ i hi, processRow_eq SEQ_LEN _ hsum _ _ _ i hi]
        have htaken : countTrue (emptySlots (rowAt
            (fun a => if a = r % 2 ^ 21 * SEQ_LEN + i then (-1 : Int64) else 0) (r % 2 ^ 21)))
            (i + 1) ≤ countTrue (fun _ => true) SEQ_LEN - countTrue (fun _ => false) SEQ_LEN := by
          rw [hall, hnone]
          exact (countTrue_le _ _).trans hi
        have hempty : emptySlots (rowAt
            (fun a => if a = r % 2 ^ 21 * SEQ_LEN + i then (-1 : Int64) else 0) (r % 2 ^ 21)) i
            = true := decide_eq_true (if_pos rfl)
        change (false || (_ && decide (_ ≤ countTrue (fun _ => true) SEQ_LEN
          - countTrue (fun _ => false) SEQ_LEN))) ≠ (false || (false && _))
        rw [hempty, decide_eq_true htaken, Bool.false_and]
        decide

/-- Every element a processed row writes changes for some contents. -/
theorem processRows_changes (m : GlobalMemory) (r : ℕ) (buffer : GlobalBuffer) (e : ℕ)
    (he : e ∈ touched (processRows plat vs m) r buffer true) :
    ∃ m' : GlobalMemory, (processRows plat vs m').contents buffer e ≠ m'.contents buffer e := by
  rcases exists_of_touched plat vs he with ⟨⟨hr, hkind⟩, i, hi, rfl⟩
  rcases hkind.resolve_left (by decide) with rfl
  refine ⟨⟨fun _ => true, fun _ => false, fun _ => -1, []⟩, ?_⟩
  change (processRows plat vs _).availMaskGm _ ≠ false
  have hall : countTrue (rowAt (fun _ => true) (r % 2 ^ 21)) SEQ_LEN = SEQ_LEN :=
    (countTrue_eq_self_iff _ _).mpr (fun _ _ => rfl)
  rw [processRows_vacant plat vs _ hr hi, hall, decide_eq_true (Nat.succ_le_of_lt hi)]
  decide

/-- A list of rows, processed in order, is accounted for. -/
theorem processRows_accounted (run : GlobalMemory → Except Failure GlobalMemory)
    (hrun : ∀ m, run m = .ok (processRows plat vs m)) (m : GlobalMemory) :
    Accounted run m (processRows plat vs m) where
  kept := processRows_kept plat vs m
  decided := fun r m' h => ⟨_, hrun m', processRows_decided plat vs m m' r h⟩
  matters := by
    intro r buffer e he
    rcases processRows_matters plat vs m r buffer e he with ⟨m₁, m₂, hsame, hdiff⟩
    exact ⟨m₁, m₂, _, _, hrun m₁, hrun m₂, hsame, hdiff⟩
  changes := by
    intro r buffer e he
    rcases processRows_changes plat vs m r buffer e he with ⟨m', hne⟩
    exact ⟨m', _, hrun m', hne⟩

end Rows

/-- `cache_miss_topk` up to the end of the launch, on packed `B` by `L` matrices
    that hold what the memory holds. -/
def launchFrom (plat : Platform) (B L : ℕ) (m : GlobalMemory) : Except Failure GlobalMemory :=
  checkedLaunch plat (.bool (contiguous2 B L fun r i => m.missMaskGm (r * L + i)))
    (.bool (contiguous2 B L fun r i => m.availMaskGm (r * L + i)))
    (.long (contiguous2 B L fun r i => m.idxGm (r * L + i)))

/-- Packed matrices of one shape pass the checks, and a launch on them is a
    list of rows that does not depend on what the memory holds. -/
theorem launchFrom_eq (plat : Platform) (B L : ℕ) (m : GlobalMemory) :
    launchFrom plat B L m =
      if B % 2 ^ 32 = 0 then .ok (processRows plat [] m)
      else
        match hostTiling (Word.ofResult B true) (Word.ofResult plat.coreNum true) with
        | none => .error .divisionByZero
        | some l => .ok (processRows plat (launchedBatches l.blockDim l.tiling) m) := by
  rw [launchFrom, checkedLaunch_contiguous, launchMemory, rowMajor_rows, rowMajor_rows,
    rowMajor_rows]
  rfl

/-- A launch on packed matrices of one shape, when it completes for some
    contents: the rows it processes, whatever the contents. -/
theorem launchFrom_rows {plat : Platform} {B L : ℕ} {m after : GlobalMemory}
    (h : launchFrom plat B L m = .ok after) :
    ∃ vs, ∀ m', launchFrom plat B L m' = .ok (processRows plat vs m') := by
  simp only [launchFrom_eq] at h ⊢
  by_cases hB : B % 2 ^ 32 = 0
  · exact ⟨[], fun _ => if_pos hB⟩
  · simp only [if_neg hB] at h ⊢
    cases hl : hostTiling (Word.ofResult B true) (Word.ofResult plat.coreNum true) with
    | none =>
        rw [hl] at h
        exact absurd h (error_ne_ok _ _)
    | some l => exact ⟨_, fun _ => rfl⟩

/-- Whatever the shape, a launch that completes is accounted for. -/
theorem launchFrom_accounted {plat : Platform} {B L : ℕ} {before after : GlobalMemory}
    (h : launchFrom plat B L before = .ok after) :
    Accounted (launchFrom plat B L) before after := by
  rcases launchFrom_rows h with ⟨vs, hvs⟩
  have hafter := hvs before
  rw [h, Except.ok.injEq] at hafter
  rw [hafter]
  exact processRows_accounted plat vs _ hvs before

end AscendKernel
