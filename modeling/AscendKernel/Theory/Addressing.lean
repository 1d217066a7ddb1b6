import AscendKernel.Theory.Footprint

/-!
# The Memory a Launch Touches

Whether the kernel works on the elements the host means it to.

The host accepts any width and any number of rows. The kernel knows neither:
it multiplies a row number by its own width in 32 bits and copies that many
elements from there. The record of copies, which accounts for all a launch does
to memory, says what follows. A row that is processed is always processed from
`r % 2 ^ 21` times the kernel's width, and never for any other number of
elements, so the two sides agree on one width and on batches of at most
`2 ^ 21` rows.

Past those bounds there is one more shape on which nothing goes wrong, because
nothing happens: a batch without elements for which the host's arithmetic
launches no block. `launchedBatches_eq_nil_iff` says when that is.

## Main definitions

* `AddressingAgrees`: Every row's copies are the row's own elements.
* `Addressable`: The shapes on which that is so.

## Theorems

* `launchedBatches_eq_nil_iff`: When a launch processes no row.
* `addressingAgrees_width`: Agreement fixes the width.
* `checkedLaunch_addressing`: The kernel agrees with the host on exactly the
  addressable shapes.
-/

namespace AscendKernel

/-- Every row of a `B` by `L` batch is read from and written to its own
    elements, and nothing outside the batch is touched. -/
structure AddressingAgrees (B L : ℕ) (gm : GlobalMemory) : Prop where
  reads : ∀ r < B, ∀ buffer, touched gm r buffer false = Set.Ico (r * L) (r * L + L)
  writes : ∀ r < B, touched gm r .availMask true = Set.Ico (r * L) (r * L + L)
  read_only : ∀ r < B, ∀ buffer, buffer ≠ .availMask → touched gm r buffer true = ∅
  inside : ∀ c ∈ gm.copies, ∀ e, c.offset ≤ e → e < c.offset + c.count → e < B * L
  /-- No offset wrapped. -/
  offsets : ∀ c ∈ gm.copies, c.offset = c.batchIdx * SEQ_LEN

/-- The shapes on which kernel and host agree: the kernel's width with few
    enough rows, or no elements and no block launched. -/
def Addressable (B L coreNum : ℕ) : Prop :=
  (L = SEQ_LEN ∧ B * SEQ_LEN ≤ 2 ^ 32 ∧ B + coreNum - 1 < 2 ^ 32) ∨
  (L = 0 ∧ (B % 2 ^ 32 = 0 ∨
    (B % 2 ^ 32 + coreNum - 1 < 2 ^ 32 ∧
      2 ^ 32 ≤ B % 2 ^ 32 + (B % 2 ^ 32 + coreNum - 1) / coreNum - 1)))

/-- Block zero starts at row zero, so it processes a row when it is a block of
    the launch, has a share and the batch is not empty. -/
theorem process_zero_ne_nil (t : CacheMissTopkTilingData) (hused : 1 ≤ t.usedCoreNum.val)
    (hbatch : 1 ≤ t.batchSize.val) (hshare : 1 ≤ (t.blockBatches (Word.ofResult 0 true)).val) :
    process t (Word.ofResult 0 true) ≠ [] := by
  intro hnil
  have hstart : (Word.ofResult 0 true * t.formerLength + 0).val = 0 := by
    rw [Word.add_val, Word.mul_val]
    change (0 % 2 ^ 32 * t.formerLength.val % 2 ^ 32 + 0) % 2 ^ 32 = 0
    rw [Nat.zero_mod, Nat.zero_mul, Nat.zero_mod, Nat.add_zero, Nat.zero_mod]
  have hgo : ¬ t.usedCoreNum.val ≤ (Word.ofResult 0 true).val := by
    change ¬ t.usedCoreNum.val ≤ 0
    omega
  rw [process, if_neg hgo] at hnil
  cases hn : (t.blockBatches (Word.ofResult 0 true)).val with
  | zero => omega
  | succ k =>
      rw [hn, batchLoop] at hnil
      simp only [hstart] at hnil
      rw [if_neg (by omega)] at hnil
      exact List.cons_ne_nil _ _ hnil

/-- A launch over a nonempty batch processes no row exactly when the host's
    second rounded division wraps; otherwise block zero has row zero. -/
theorem launchedBatches_eq_nil_iff (b c : Word) (l : KernelLaunch)
    (hb : 1 ≤ b.val) (hc : 1 ≤ c.val) (hl : hostTiling b c = some l) :
    launchedBatches l.blockDim l.tiling = [] ↔
      2 ^ 32 ≤ b.val + (b.val + c.val - 1) / c.val - 1 := by
  have hsum := hostTiling_some_sum_lt b c l hl
  have hblt := b.isLt
  have hclt := c.isLt
  have hone : (1 : Word).val = 1 := rfl
  set w := (b.val + c.val - 1) / c.val with hw
  have hwpos : 1 ≤ w := share_pos b.val c.val hb hc
  have hwle : w ≤ b.val := share_le b.val c.val hc
  have hper : ((b + c - 1) / c).val = w := (hostTiling_exists b c hb hc hsum).1
  set per := (b + c - 1) / c with hperdef
  have hperlt := per.isLt
  have hlast : (b + per - 1).val = (b.val + w - 1) % 2 ^ 32 := by
    rw [Word.sub_val, Word.add_val, hone, hper]
    omega
  rcases hostTiling_fields b c l hl with ⟨_, _, hdim, hbatch, hformer, hlen, hnum, htail⟩
  rw [← hperdef] at hdim hlen
  have hu : l.blockDim.val = (b.val + w - 1) % 2 ^ 32 / w := by
    rw [hdim, Word.div_val, hlast, hper]
  have hult := l.blockDim.isLt
  constructor
  · intro hnil
    by_contra hlt
    rw [Nat.mod_eq_of_lt (by omega)] at hu
    have hupos : 1 ≤ l.blockDim.val := hu ▸ share_pos b.val w hb hwpos
    -- Block zero is among the blocks, and it has a share.
    have hused : l.tiling.usedCoreNum.val = l.blockDim.val := by
      rw [CacheMissTopkTilingData.usedCoreNum, Word.add_val, hformer, hnum, hone, Word.sub_val,
        hone]
      omega
    have hshare : 1 ≤ (l.tiling.blockBatches (Word.ofResult 0 true)).val := by
      unfold CacheMissTopkTilingData.blockBatches
      by_cases hone' : (Word.ofResult 0 true).val = (l.tiling.usedCoreNum - 1).val
      · -- A single block takes the whole batch.
        rw [if_pos hone']
        change 0 = _ at hone'
        rw [Word.sub_val, hused, hone] at hone'
        have hform : l.tiling.formerNum.val = 0 := by
          rw [hformer, Word.sub_val, hone]
          omega
        have hleft : (b - l.tiling.formerNum * l.tiling.formerLength).val = b.val := by
          rw [Word.sub_val, Word.mul_val, hform, Nat.zero_mul, Nat.zero_mod]
          omega
        rw [htail, if_neg (by rw [hleft]; omega), hleft]
        exact hb
      · rw [if_neg hone', hlen, hper]
        exact hwpos
    rw [launchedBatches, List.flatMap_eq_nil_iff] at hnil
    exact process_zero_ne_nil l.tiling (by omega) (by rw [hbatch]; exact hb) hshare
      (hnil 0 (List.mem_range.mpr hupos))
  · intro hge
    have hzero : l.blockDim.val = 0 := by
      rw [hu]
      exact Nat.div_eq_of_lt (by omega)
    rw [launchedBatches, hzero, List.range_zero, List.flatMap_nil]

section Agreement

variable (plat : Platform) (vs : List Word) (m : GlobalMemory) (B L : ℕ)

/-- Agreement on a batch with elements fixes the width and bounds the rows:
    row zero is copied at the kernel's width, and row `2 ^ 21` would be copied
    from where row zero is. -/
theorem addressingAgrees_width (hB : 1 ≤ B) (hL : L ≠ 0)
    (h : AddressingAgrees B L (processRows plat vs m)) :
    L = SEQ_LEN ∧ B * SEQ_LEN ≤ 2 ^ 32 := by
  have hrow : ∀ r < B, ∀ e, (r * L ≤ e ∧ e < r * L + L) ↔
      r ∈ vs.map Word.val ∧ r % 2 ^ 21 * SEQ_LEN ≤ e ∧ e < r % 2 ^ 21 * SEQ_LEN + SEQ_LEN := by
    intro r hr e
    have he := touched_processRows plat vs m r .missMask false e
    rw [h.reads r hr, Set.mem_Ico] at he
    rw [he]
    simp only [true_or, and_true]
  have hpos := SEQ_LEN_pos
  have hwidth : L = SEQ_LEN := by
    have hzero := (hrow 0 hB 0).mp ⟨by omega, by omega⟩
    -- The two stretches of row zero have the same last element.
    have hlast := (hrow 0 hB (L - 1)).mp ⟨by omega, by omega⟩
    have hlast' := (hrow 0 hB (SEQ_LEN - 1)).mpr ⟨hzero.1, by omega, by omega⟩
    omega
  refine ⟨hwidth, (rows_le_iff B).mpr ?_⟩
  by_contra hlt
  have hfar := (hrow (2 ^ 21) (by omega) (2 ^ 21 * L)).mp ⟨by omega, by omega⟩
  rw [Nat.mod_self, Nat.zero_mul, hwidth] at hfar
  omega

/-- Processing the rows of a batch that fits touches what it should. -/
theorem addressingAgrees_of_range (hrows : B * SEQ_LEN ≤ 2 ^ 32)
    (hvs : vs.map Word.val = List.range B) :
    AddressingAgrees B SEQ_LEN (processRows plat vs m) := by
  have hle := (rows_le_iff B).mp hrows
  have htouched : ∀ r < B, ∀ buffer isWrite, (isWrite = false ∨ buffer = .availMask) →
      touched (processRows plat vs m) r buffer isWrite
        = Set.Ico (r * SEQ_LEN) (r * SEQ_LEN + SEQ_LEN) := by
    intro r hr buffer isWrite hkind
    ext e
    rw [touched_processRows, hvs, List.mem_range, Nat.mod_eq_of_lt (by omega), Set.mem_Ico]
    exact ⟨fun he => he.2, fun he => ⟨⟨hr, hkind⟩, he⟩⟩
  -- A copy belongs to a row of the batch, so its offset is exact.
  have hcopy : ∀ c ∈ (processRows plat vs m).copies,
      c.batchIdx < B ∧ c.offset = c.batchIdx * SEQ_LEN ∧ c.count = SEQ_LEN := by
    intro c hc
    rw [mem_processRows_copies, hvs, List.mem_range] at hc
    rcases hc with ⟨hb, hoff, hcnt, _⟩
    rw [Nat.mod_eq_of_lt (by omega)] at hoff
    exact ⟨hb, hoff, hcnt⟩
  refine
    { reads := fun r hr buffer => htouched r hr buffer false (Or.inl rfl)
      writes := fun r hr => htouched r hr .availMask true (Or.inr rfl)
      read_only := ?_, inside := ?_, offsets := fun c hc => (hcopy c hc).2.1 }
  · intro r _ buffer hne
    ext e
    rw [touched_processRows]
    constructor
    · rintro ⟨⟨_, hkind⟩, _⟩
      exact absurd hkind (fun hk => hk.elim (by decide) hne)
    · intro he
      exact absurd he (Set.notMem_empty e)
  · intro c hc e _ he
    rcases hcopy c hc with ⟨hb, hoff, hcnt⟩
    rw [hoff, hcnt] at he
    have hend := row_elem_lt (K := SEQ_LEN) hb (show SEQ_LEN - 1 < SEQ_LEN by decide)
    have hpos := SEQ_LEN_pos
    omega

/-- Without a copy, agreement is a batch without elements. -/
theorem addressingAgrees_of_no_copy (gm : GlobalMemory) (hgm : gm.copies = []) :
    AddressingAgrees B 0 gm := by
  have hnone : ∀ r buffer isWrite, touched gm r buffer isWrite = ∅ := by
    intro r buffer isWrite
    ext e
    simp only [touched, hgm, List.not_mem_nil, false_and, exists_false, Set.mem_ofPred_eq,
      Set.mem_empty_iff_false]
  have hempty : ∀ r, Set.Ico (r * 0) (r * 0 + 0) = ∅ := fun r => Set.Ico_self (r * 0)
  exact
    { reads := fun r _ buffer => by rw [hnone, hempty]
      writes := fun r _ => by rw [hnone, hempty]
      read_only := fun r _ buffer _ => hnone r buffer true
      inside := fun c hc => by rw [hgm] at hc; exact absurd hc (List.not_mem_nil)
      offsets := fun c hc => by rw [hgm] at hc; exact absurd hc (List.not_mem_nil) }

end Agreement

/-- On a batch without elements, agreement means that no row is processed. -/
theorem addressingAgrees_zero (plat : Platform) (vs : List Word) (m : GlobalMemory) (B : ℕ)
    (h : AddressingAgrees B 0 (processRows plat vs m)) : vs = [] := by
  rcases vs with _ | ⟨v, vs⟩
  · rfl
  · have hpos := SEQ_LEN_pos
    have hin := h.inside ⟨v.val, .idx, false, v.val % 2 ^ 21 * SEQ_LEN, SEQ_LEN⟩
      ((mem_processRows_copies plat (v :: vs) m _).mpr
        ⟨List.mem_map_of_mem (List.mem_cons_self), rfl, rfl, Or.inl rfl⟩)
      (v.val % 2 ^ 21 * SEQ_LEN) (le_refl _) (Nat.lt_add_of_pos_right hpos)
    rw [Nat.mul_zero] at hin
    exact absurd hin (Nat.not_lt_zero _)

section Shapes

variable (plat : Platform) (B L : ℕ) (m : GlobalMemory)

theorem coreNum_val (plat : Platform) :
    (Word.ofResult plat.coreNum true).val = plat.coreNum := Nat.mod_eq_of_lt plat.coreNum_lt

/-- A launch that agrees with the host had an addressable shape. -/
theorem addressable_of_agrees (hB : 1 ≤ B) (after : GlobalMemory)
    (hrun : launchFrom plat B L m = .ok after) (hagree : AddressingAgrees B L after) :
    Addressable B L plat.coreNum := by
  have hcore := coreNum_val plat
  rw [launchFrom_eq] at hrun
  by_cases hmod : B % 2 ^ 32 = 0
  · -- The row count is zero in 32 bits, so nothing is launched.
    rw [if_pos hmod, Except.ok.injEq] at hrun
    rw [← hrun] at hagree
    have hL : L = 0 := by
      by_contra hL
      have hread := (hagree.reads 0 hB .idx).ge (show 0 * L ∈ Set.Ico (0 * L) (0 * L + L) from
        ⟨le_refl _, by omega⟩)
      rw [touched_processRows] at hread
      exact absurd hread.1.1 (List.not_mem_nil)
    exact Or.inr ⟨hL, Or.inl hmod⟩
  · rw [if_neg hmod] at hrun
    cases hl : hostTiling (Word.ofResult B true) (Word.ofResult plat.coreNum true) with
    | none =>
        rw [hl] at hrun
        exact absurd hrun (error_ne_ok _ _)
    | some l =>
        rw [hl] at hrun
        simp only [Except.ok.injEq] at hrun
        have hsum := hostTiling_some_sum_lt _ _ l hl
        rw [hcore] at hsum
        change B % 2 ^ 32 + plat.coreNum - 1 < 2 ^ 32 at hsum
        rw [← hrun] at hagree
        by_cases hL : L = 0
        · have hnil := addressingAgrees_zero plat _ m B (hL ▸ hagree)
          rw [launchedBatches_eq_nil_iff _ _ l (Nat.one_le_iff_ne_zero.mpr hmod)
            (by rw [hcore]; exact plat.coreNum_pos) hl, hcore] at hnil
          exact Or.inr ⟨hL, Or.inr ⟨hsum, hnil⟩⟩
        · rcases addressingAgrees_width plat _ m B L hB hL hagree with ⟨hwidth, hrows⟩
          have hle := (rows_le_iff B).mp hrows
          rw [Nat.mod_eq_of_lt (show B < 2 ^ 32 by omega)] at hsum
          exact Or.inl ⟨hwidth, hrows, hsum⟩

/-- A batch of the kernel's width that fits. -/
theorem agrees_of_fits (hB : 1 ≤ B) (hfit : Fits plat B) :
    ∃ after, launchFrom plat B SEQ_LEN m = .ok after ∧ AddressingAgrees B SEQ_LEN after := by
  have hrows := (rows_le_iff B).mp hfit.1
  rcases hostTiling_spec B plat.coreNum hB plat.coreNum_pos hrows hfit.2 with ⟨l, hl, hspec⟩
  have hw := share_pos B plat.coreNum hB plat.coreNum_pos
  have hu := share_pos B _ hB hw
  have hrange := (launchedBatches_range hspec hu (last_share B _ hB hw).1).1
  refine ⟨processRows plat (launchedBatches l.blockDim l.tiling) m, ?_,
    addressingAgrees_of_range plat _ m B hfit.1 hrange⟩
  rw [launchFrom_eq, if_neg (by omega), hl]

/-- A batch without elements for which no block is launched. -/
theorem agrees_of_no_block (hempty : B % 2 ^ 32 = 0 ∨
    (B % 2 ^ 32 + plat.coreNum - 1 < 2 ^ 32 ∧
      2 ^ 32 ≤ B % 2 ^ 32 + (B % 2 ^ 32 + plat.coreNum - 1) / plat.coreNum - 1)) :
    ∃ after, launchFrom plat B 0 m = .ok after ∧ AddressingAgrees B 0 after := by
  rw [launchFrom_eq]
  by_cases hmod : B % 2 ^ 32 = 0
  · rw [if_pos hmod]
    exact ⟨_, rfl, addressingAgrees_of_no_copy B _ rfl⟩
  · rw [if_neg hmod]
    rcases hempty with hzero | ⟨hsum, hwrap⟩
    · exact absurd hzero hmod
    have hb : 1 ≤ (Word.ofResult B true).val := Nat.one_le_iff_ne_zero.mpr hmod
    have hc := coreNum_val plat
    have hcpos := plat.coreNum_pos
    rcases (hostTiling_exists (Word.ofResult B true) (Word.ofResult plat.coreNum true) hb
      (by omega) (by rw [hc]; exact hsum)).2 with ⟨l, hl⟩
    -- No block has a row, so the memory is as it was.
    have hnil := (launchedBatches_eq_nil_iff _ _ l hb (by omega) hl).mpr
      (by rw [hc]; exact hwrap)
    rw [hl]
    refine ⟨_, rfl, ?_⟩
    rw [hnil]
    exact addressingAgrees_of_no_copy B _ rfl

end Shapes

/-- On packed matrices of any shape, whatever they hold: what a launch has on
    record is what it does to memory, and it works on the elements the host
    means it to exactly when the shape is addressable. -/
theorem checkedLaunch_addressing (plat : Platform) (B L : ℕ) (before : GlobalMemory)
    (hB : 1 ≤ B) :
    (∀ after, launchFrom plat B L before = .ok after →
      Accounted (launchFrom plat B L) before after) ∧
    ((∃ after, launchFrom plat B L before = .ok after ∧ AddressingAgrees B L after) ↔
      Addressable B L plat.coreNum) := by
  refine ⟨fun _ hrun => launchFrom_accounted hrun, ?_⟩
  constructor
  · rintro ⟨after, hrun, hagree⟩
    exact addressable_of_agrees plat B L before hB after hrun hagree
  · rintro (⟨rfl, hrows, hsum⟩ | ⟨rfl, hempty⟩)
    · exact agrees_of_fits plat B before hB ⟨hrows, hsum⟩
    · exact agrees_of_no_block plat B before hempty

/-- Five rows of the kernel's width. -/
theorem checkedLaunch_addressing_five_rows :
    ∃ after,
      launchFrom Platform.singleCore 5 SEQ_LEN ⟨fun _ => true, fun _ => false, fun _ => -1, []⟩
        = .ok after ∧
      Accounted (launchFrom Platform.singleCore 5 SEQ_LEN)
        ⟨fun _ => true, fun _ => false, fun _ => -1, []⟩ after ∧
      AddressingAgrees 5 SEQ_LEN after := by
  rcases checkedLaunch_addressing Platform.singleCore 5 SEQ_LEN
    ⟨fun _ => true, fun _ => false, fun _ => -1, []⟩ (by decide) with ⟨haccounted, hiff⟩
  rcases hiff.mpr (Or.inl ⟨rfl, by decide, by decide⟩) with ⟨after, hrun, hagree⟩
  exact ⟨after, hrun, haccounted after hrun, hagree⟩

/-- A single row of one element passes every check, and the kernel copies a
    full row of its own width from it. -/
theorem checkedLaunch_addressing_narrow :
    ¬ ∀ (plat : Platform) (B L : ℕ) (before : GlobalMemory), 1 ≤ B →
      ∃ after, launchFrom plat B L before = .ok after ∧ AddressingAgrees B L after := by
  intro h
  rcases h Platform.singleCore 1 1 ⟨fun _ => true, fun _ => false, fun _ => -1, []⟩
    (le_refl 1) with ⟨after, hrun, hagree⟩
  rcases launchFrom_rows hrun with ⟨vs, hvs⟩
  rw [hvs, Except.ok.injEq] at hrun
  rw [← hrun] at hagree
  have hwidth := (addressingAgrees_width Platform.singleCore vs _ 1 1 (le_refl 1) one_ne_zero
    hagree).1
  exact absurd hwidth (by decide)

end AscendKernel
