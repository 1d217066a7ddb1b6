import AscendKernel.Core.Helloworld

/-!
# Adding Tile by Tile

Which elements `helloworld` adds.

Every division in `init` rounds down, and so does every `DataCopy`: elements are
lost between the blocks, at the end of a block, and at the end of each tile. The
host loses some too, when the product of the sizes does not fit in 32 bits. What
is never added keeps what the fresh memory of `z` held, so the operator is right
for all contents exactly when nothing is lost, which `helloworld_adds_iff` says
in terms of the number of elements.

In the order of the program the stages of a tile have the queues to themselves.
`tile_spec` is one tile: from ready queues nothing has to wait, and the sums end
up in `z`, whatever the buffers held. `tiles_spec` is the induction over the
tiles of a launch. Tiles may come in any order there, since a cell that is
covered always gets the same sum.

## Main definitions

* `Helloworld.Kernel.Covered`: An element some tile covers.
* `Helloworld.tiles`: The tiles of a launch.

## Theorems

* `Helloworld.tile_spec`, `Helloworld.tiles_spec`: One tile, and several.
* `Helloworld.launch_spec`: A launch adds what its tiles cover.
* `Helloworld.init_start_bounds`: The tiles of a block lie in its stretch.
* `Helloworld.covered_iff`: The tiles cover everything when they are whole.
* `Helloworld.covered_sizes_iff`: When they cover a tensor.
* `helloworld_spec`: What the operator leaves.
* `helloworld_adds_iff`: When it adds every element.
-/

namespace AscendKernel

namespace Helloworld

/-- A cell that some tile of a launch covers. -/
def Kernel.Covered (k : Kernel) (unit : ℕ) (blockDim : Word) (a : ℕ) : Prop :=
  ∃ b < blockDim.val, ∃ i < k.loopCount,
    k.start b i ≤ a ∧ a < k.start b i + k.moved unit

section Tile

variable {α : Type} (add : α → α → α) (unit : ℕ) (k : Kernel) (x y : ℕ → α)

/-- Every buffer of a block is free. -/
structure Queues.Ready (q : Queues α) : Prop where
  x : q.inQueueX.Ready
  y : q.inQueueY.Ready
  z : q.outQueueZ.Ready

theorem State.init_ready (stale : ℕ → Stale α) (z : ℕ → α) (b : ℕ) :
    ((State.init stale z).queues b).Ready where
  x := BufferQueue.init_ready _ _ (Nat.succ_pos 1)
  y := BufferQueue.init_ready _ _ (Nat.succ_pos 1)
  z := BufferQueue.init_ready _ _ (Nat.succ_pos 1)

theorem moved_le (unit : ℕ) : k.moved unit ≤ k.tileLength.val := Nat.div_mul_le_self _ _

/-- The operations of one tile, in the order of the program. -/
def tileOps (b progress : ℕ) : List (State α → Option (State α)) :=
  copyIn unit k x y b progress ++ (compute add k b ++ copyOut unit k b progress)

/-- One tile: from ready queues no stage has to wait, the queues are ready
    again afterwards, and `z` has the sums where the tile is. -/
theorem tile_spec (b progress : ℕ) (s : State α) (h : ∀ c, (s.queues c).Ready) :
    ∃ s', runAll (tileOps add unit k x y b progress) s = some s' ∧ (∀ c, (s'.queues c).Ready) ∧
      s'.zGm = fillFrom (k.start b progress) (k.moved unit)
        (fun j => add (x (k.start b progress + j)) (y (k.start b progress + j))) s.zGm := by
  rcases s with ⟨queues, zGm⟩
  rcases BufferQueue.exists_cycle (fill (k.moved unit) (fun j => x (k.start b progress + j)))
    (h b).x with ⟨dx, x₁, x₂, x₃, x₄, x₅, hx₁, hx₂, hx₃, hx₄, hxr, hx₅, hx⟩
  rcases BufferQueue.exists_cycle (fill (k.moved unit) (fun j => y (k.start b progress + j)))
    (h b).y with ⟨dy, y₁, y₂, y₃, y₄, y₅, hy₁, hy₂, hy₃, hy₄, hyr, hy₅, hy⟩
  rcases BufferQueue.exists_cycle (fill k.tileLength.val (fun j =>
      add (fill (k.moved unit) (fun j => x (k.start b progress + j)) dx j)
        (fill (k.moved unit) (fun j => y (k.start b progress + j)) dy j)))
    (h b).z with ⟨dz, z₁, z₂, z₃, z₄, z₅, hz₁, hz₂, hz₃, hz₄, hzr, hz₅, hz⟩
  refine ⟨⟨Function.update queues b ⟨x₅, y₅, z₅⟩, fillFrom (k.start b progress) (k.moved unit)
    (fun j => add (x (k.start b progress + j)) (y (k.start b progress + j))) zGm⟩, ?_,
    fun c => ?_, rfl⟩
  · simp only [tileOps, copyIn, compute, copyOut, List.cons_append, List.nil_append, runAll_cons,
      runAll_nil, onQueue, Component.lift, State.block, Queues.x, Queues.y, Queues.z, addLocal,
      storeZ, hx₁, hx₂, hx₃, hx₄, hxr, hx₅,
      hy₁, hy₂, hy₃, hy₄, hyr, hy₅, hz₁, hz₂, hz₃, hz₄, hzr, hz₅, Option.map_some,
      Option.bind_some, Function.update_self, Function.update_idem, Option.bind_eq_bind]
    -- What the buffers held before lies past what is moved.
    refine congrArg (fun m => some (State.mk _ m)) (fillFrom_congr _ _ _ _ _ (fun j hj => ?_))
    have hlt : j < k.tileLength.val := Nat.lt_of_lt_of_le hj (moved_le k unit)
    rw [fill, if_pos hlt, fill, if_pos hj, fill, if_pos hj]
  · dsimp only
    by_cases hc : c = b
    · rw [hc, Function.update_self]
      exact ⟨hx, hy, hz⟩
    · rw [Function.update_of_ne hc]
      exact h c

/-- Several tiles, one after the other. A cell of `z` holds the sum when a tile
    covers it, whatever their order, and otherwise keeps its value. -/
theorem tiles_spec (tiles : List (ℕ × ℕ)) (s : State α) (h : ∀ c, (s.queues c).Ready) :
    ∃ s', runAll (tiles.flatMap fun p => tileOps add unit k x y p.1 p.2) s = some s' ∧
      (∀ c, (s'.queues c).Ready) ∧
      ∀ a, ((∃ p ∈ tiles, k.start p.1 p.2 ≤ a ∧ a < k.start p.1 p.2 + k.moved unit) →
          s'.zGm a = add (x a) (y a)) ∧
        ((¬ ∃ p ∈ tiles, k.start p.1 p.2 ≤ a ∧ a < k.start p.1 p.2 + k.moved unit) →
          s'.zGm a = s.zGm a) := by
  induction tiles generalizing s with
  | nil =>
      refine ⟨s, runAll_nil s, h, fun a => ⟨fun hex => ?_, fun _ => rfl⟩⟩
      rcases hex with ⟨p, hp, -⟩
      exact absurd hp List.not_mem_nil
  | cons p tiles ih =>
      rcases tile_spec add unit k x y p.1 p.2 s h with ⟨s₁, hs₁, h₁, hz₁⟩
      rcases ih s₁ h₁ with ⟨s', hs', h', hz'⟩
      refine ⟨s', ?_, h', fun a => ?_⟩
      · rw [List.flatMap_cons, runAll_append, hs₁, Option.bind_some]
        exact hs'
      · -- A later tile has the last word; tiles that overlap write the same sum.
        by_cases hrest : ∃ p ∈ tiles, k.start p.1 p.2 ≤ a ∧ a < k.start p.1 p.2 + k.moved unit
        · refine ⟨fun _ => (hz' a).1 hrest, fun hne => absurd ?_ hne⟩
          rcases hrest with ⟨q, hq, hqa⟩
          exact ⟨q, List.mem_cons_of_mem p hq, hqa⟩
        · rw [(hz' a).2 hrest, hz₁, fillFrom]
          by_cases hp : k.start p.1 p.2 ≤ a ∧ a < k.start p.1 p.2 + k.moved unit
          · rw [if_pos hp, Nat.add_sub_cancel' hp.1]
            exact ⟨fun _ => rfl, fun hne => absurd ⟨p, List.mem_cons_self, hp⟩ hne⟩
          · rw [if_neg hp]
            refine ⟨fun hex => ?_, fun _ => rfl⟩
            rcases hex with ⟨q, hq, hqa⟩
            rcases List.mem_cons.mp hq with heq | hmem
            · rw [heq] at hqa
              exact absurd hqa hp
            · exact absurd ⟨q, hmem, hqa⟩ hrest

/-- The tiles of a launch, in the order of the program. -/
def tiles (blockDim : Word) : List (ℕ × ℕ) :=
  (List.range blockDim.val).flatMap fun b => (List.range k.loopCount).map fun i => (b, i)

theorem mem_tiles {blockDim : Word} {p : ℕ × ℕ} :
    p ∈ tiles k blockDim ↔ p.1 < blockDim.val ∧ p.2 < k.loopCount := by
  unfold tiles
  rw [List.mem_flatMap]
  constructor
  · rintro ⟨b, hb, hp⟩
    rcases List.mem_map.mp hp with ⟨i, hi, rfl⟩
    exact ⟨List.mem_range.mp hb, List.mem_range.mp hi⟩
  · rintro ⟨hb, hi⟩
    exact ⟨p.1, List.mem_range.mpr hb, List.mem_map.mpr ⟨p.2, List.mem_range.mpr hi, rfl⟩⟩

/-- The program is its tiles one after the other. -/
theorem program_ops (blockDim : Word) :
    (program add unit k x y blockDim).flatMap (fun p => p.2) =
      (tiles k blockDim).flatMap fun p => tileOps add unit k x y p.1 p.2 := by
  unfold program tiles
  rw [List.flatMap_assoc, List.flatMap_assoc]
  refine congrArg (List.flatMap · (List.range blockDim.val)) (funext fun b => ?_)
  unfold process
  rw [List.flatMap_assoc, List.flatMap_map]
  refine congrArg (List.flatMap · (List.range k.loopCount)) (funext fun i => ?_)
  simp only [List.flatMap_cons, List.flatMap_nil, List.append_nil, tileOps]

/-- A launch in the order of the program. -/
theorem launch_spec (blockDim : Word) (s : State α) (h : ∀ c, (s.queues c).Ready) :
    ∃ s', launch add unit k x y blockDim s = some s' ∧
      ∀ a, (k.Covered unit blockDim a → s'.zGm a = add (x a) (y a)) ∧
        (¬ k.Covered unit blockDim a → s'.zGm a = s.zGm a) := by
  rcases tiles_spec add unit k x y (tiles k blockDim) s h with ⟨s', hs', -, hz⟩
  have hcov : ∀ a, k.Covered unit blockDim a ↔
      ∃ p ∈ tiles k blockDim, k.start p.1 p.2 ≤ a ∧ a < k.start p.1 p.2 + k.moved unit := by
    intro a
    constructor
    · rintro ⟨b, hb, i, hi, ha⟩
      exact ⟨(b, i), (mem_tiles k).mpr ⟨hb, hi⟩, ha⟩
    · rintro ⟨p, hp, ha⟩
      rcases (mem_tiles k).mp hp with ⟨hb, hi⟩
      exact ⟨p.1, hb, p.2, hi, ha⟩
  refine ⟨s', ?_, fun a => ?_⟩
  · rw [launch, program_ops]
    exact hs'
  · rw [hcov a]
    exact hz a

end Tile

section Lengths

variable (total : Word) (unit : ℕ)

theorem blockDim_val : blockDim.val = 8 := rfl

theorem init_blockLength : (init total blockDim).blockLength.val = total.val / 8 := rfl

theorem init_tileLength : (init total blockDim).tileLength.val = total.val / 8 / 8 / 2 := rfl

theorem init_loopCount : (init total blockDim).loopCount = 16 := rfl

/-- Where a tile starts, without wrapping. -/
theorem init_start (b i : ℕ) (hi : i < 16) :
    (init total blockDim).start b i = total.val / 8 * b + i * (total.val / 8 / 8 / 2) := by
  have hlt := total.isLt
  have hmul : i * (total.val / 8 / 8 / 2) ≤ 15 * (total.val / 8 / 8 / 2) :=
    Nat.mul_le_mul_right _ (by omega)
  have hword : (Word.ofResult i true).val = i := Nat.mod_eq_of_lt (by omega)
  unfold Kernel.start
  rw [Word.mul_val, hword, init_tileLength, init_blockLength, Nat.mod_eq_of_lt (by omega)]

/-- The tiles of a block lie in its stretch. -/
theorem init_start_bounds (b i : ℕ) (hi : i < 16) :
    total.val / 8 * b ≤ (init total blockDim).start b i ∧
      (init total blockDim).start b i + (init total blockDim).moved unit
        ≤ total.val / 8 * (b + 1) := by
  have hmoved := moved_le (init total blockDim) unit
  rw [init_tileLength] at hmoved
  have hmul : (i + 1) * (total.val / 8 / 8 / 2) ≤ 16 * (total.val / 8 / 8 / 2) :=
    Nat.mul_le_mul_right _ (by omega)
  rw [Nat.succ_mul] at hmul
  rw [init_start total b i hi, Nat.mul_succ]
  omega

/-- No tile reaches past the elements that were counted. -/
theorem Kernel.Covered.lt {a : ℕ} (h : (init total blockDim).Covered unit blockDim a) :
    a < total.val := by
  rcases h with ⟨b, hb, i, hi, -, ha⟩
  have hbounds := (init_start_bounds total unit b i hi).2
  have hmul : total.val / 8 * (b + 1) ≤ total.val / 8 * 8 := Nat.mul_le_mul_left _ hb
  omega

/-- The tiles cover everything exactly when they are whole: then there is
    nothing left over in a block, and nothing between tiles. -/
theorem covered_iff (hunit : 0 < unit) :
    (∀ a < total.val, (init total blockDim).Covered unit blockDim a) ↔
      128 * unit ∣ total.val := by
  constructor
  · intro h
    by_cases hzero : total.val = 0
    · rw [hzero]
      exact Nat.dvd_zero _
    · -- It is enough that the last element is covered.
      rcases h (total.val - 1) (by omega) with ⟨b, hb, i, hi, -, ha⟩
      have hb : b ≤ 7 := Nat.lt_succ_iff.mp hb
      have hi : i < 16 := hi
      have hmoved := moved_le (init total blockDim) unit
      rw [init_tileLength] at hmoved
      rw [init_start total b i hi] at ha
      have hblocks : total.val / 8 * b ≤ total.val / 8 * 7 := Nat.mul_le_mul_left _ hb
      have htiles : i * (total.val / 8 / 8 / 2) ≤ 15 * (total.val / 8 / 8 / 2) :=
        Nat.mul_le_mul_right _ (by omega)
      -- So it is in the last tile of the last block, and each division is exact.
      have htile : (init total blockDim).moved unit = total.val / 8 / 8 / 2 := by omega
      have htotal : total.val = 128 * (total.val / 8 / 8 / 2) := by omega
      have hdvd : unit ∣ total.val / 8 / 8 / 2 := by
        rw [← htile]
        exact Nat.dvd_mul_left unit _
      rw [htotal]
      exact Nat.mul_dvd_mul_left 128 hdvd
  · rintro ⟨m, hm⟩ a ha
    -- All three divisions come out even.
    have htile : total.val / 8 / 8 / 2 = unit * m := by
      rw [hm, Nat.mul_assoc]
      omega
    have hblock : total.val / 8 = 16 * (unit * m) := by
      rw [hm, Nat.mul_assoc]
      omega
    have hmoved : (init total blockDim).moved unit = unit * m := by
      unfold Kernel.moved
      rw [init_tileLength, htile, Nat.mul_div_cancel_left m hunit, Nat.mul_comm]
    rw [hm, Nat.mul_assoc] at ha
    have hpos : 0 < unit * m := by omega
    have hblockIdx : a / (16 * (unit * m)) < 8 := by
      rw [Nat.div_lt_iff_lt_mul (by omega)]
      omega
    have htileIdx : a % (16 * (unit * m)) / (unit * m) < 16 := by
      rw [Nat.div_lt_iff_lt_mul hpos]
      exact Nat.mod_lt _ (by omega)
    refine ⟨a / (16 * (unit * m)), hblockIdx, a % (16 * (unit * m)) / (unit * m), htileIdx, ?_⟩
    -- The element is where its block, its tile and what is left over say.
    have hdivBlock := Nat.div_add_mod a (16 * (unit * m))
    have hdivTile := Nat.div_add_mod' (a % (16 * (unit * m))) (unit * m)
    have hrest := Nat.mod_lt (a % (16 * (unit * m))) hpos
    rw [init_start total _ _ htileIdx, hmoved, htile, hblock]
    omega

theorem totalLength_val (sizes : List ℕ) : (totalLength sizes).val = sizes.prod % 2 ^ 32 := by
  have hfold : ∀ (sizes : List ℕ) (w : Word),
      (sizes.foldl (fun total size => total * Word.ofResult size true) w).val
        = w.val * sizes.prod % 2 ^ 32 := by
    intro sizes
    induction sizes with
    | nil =>
        intro w
        rw [List.prod_nil, Nat.mul_one, Nat.mod_eq_of_lt w.isLt]
        rfl
    | cons size sizes ih =>
        intro w
        rw [List.foldl_cons, ih, Word.mul_val, List.prod_cons, ← Nat.mul_assoc]
        change w.val * (size % 2 ^ 32) % 2 ^ 32 * sizes.prod % 2 ^ 32 = _
        rw [Nat.mul_mod_mod, Nat.mod_mul_mod]
  rw [totalLength, hfold]
  exact congrArg (· % 2 ^ 32) (Nat.one_mul _)

/-- The tiles cover a tensor of the given sizes exactly when the number of its
    elements is counted right and they are whole. -/
theorem covered_sizes_iff (sizes : List ℕ) (hunit : 0 < unit) :
    (∀ n < sizes.prod, (init (totalLength sizes) blockDim).Covered unit blockDim n) ↔
      sizes.prod < 2 ^ 32 ∧ 128 * unit ∣ sizes.prod := by
  have hval := totalLength_val sizes
  constructor
  · intro hcov
    have hlt : sizes.prod < 2 ^ 32 := by
      by_contra hge
      -- The product has wrapped, and the last element is not counted.
      have hlast := (hcov (sizes.prod - 1) (by omega)).lt
      rw [hval] at hlast
      omega
    rw [Nat.mod_eq_of_lt hlt] at hval
    refine ⟨hlt, ?_⟩
    rw [← hval] at hcov ⊢
    exact (covered_iff _ unit hunit).mp hcov
  · rintro ⟨hlt, hdvd⟩
    rw [Nat.mod_eq_of_lt hlt] at hval
    rw [← hval] at hdvd ⊢
    exact (covered_iff _ unit hunit).mpr hdvd

end Lengths

end Helloworld

variable {α : Type}

/-- What the operator leaves: the sums where a tile covers the memory of `z`,
    and what `z` held before everywhere else. -/
theorem helloworld_spec (add : α → α → α) (unit : ℕ) (stale : ℕ → Helloworld.Stale α)
    (x y z : Strided α) :
    ∃ r, helloworld add unit stale x y z = some r ∧ ∀ n,
      ((Helloworld.init (Helloworld.totalLength x.sizes) Helloworld.blockDim).Covered unit
          Helloworld.blockDim n → r.dataPtr n = add (x.dataPtr n) (y.dataPtr n)) ∧
      (¬ (Helloworld.init (Helloworld.totalLength x.sizes) Helloworld.blockDim).Covered unit
          Helloworld.blockDim n → r.dataPtr n = z.dataPtr n) := by
  rcases Helloworld.launch_spec add unit
    (Helloworld.init (Helloworld.totalLength x.sizes) Helloworld.blockDim) x.dataPtr y.dataPtr
    Helloworld.blockDim (Helloworld.State.init stale z.dataPtr)
    (Helloworld.State.init_ready stale z.dataPtr) with ⟨s', hs', hz⟩
  refine ⟨z.withDataPtr s'.zGm, ?_, fun n => ?_⟩
  · unfold helloworld
    simp only [hs', Option.bind_eq_bind, Option.bind_some]
  · rw [dataPtr_withDataPtr]
    exact hz n

end AscendKernel
