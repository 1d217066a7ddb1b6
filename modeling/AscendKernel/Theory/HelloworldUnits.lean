import AscendKernel.Theory.Helloworld

/-!
# Units Side by Side

Any order in which the units of a launch can go ahead.

The copies in, the additions and the copies out of a block run on units of their
own, and the blocks on cores of their own. Only the queues hold them back. So a
unit may be as far ahead of the others as there are buffers, and there are very
many schedules. `helloworld_schedule` is that they all lead to the same end.

By `Threads.run_confluent` it is enough that operations of different units
commute. Units of one block meet at a queue, and then they stand at different
ends of it: `copyIn_compute`, `copyIn_copyOut`, `compute_copyOut`. Two operations
reach past one queue. The addition reads two queues and writes to the third, and
the copy to `z` reads a queue and writes to memory; each commutes with whatever
keeps what it reads. Units of different blocks meet only in the memory of `z`,
where their stretches are disjoint, `commutes_blocks`.

## Main definitions

* `Helloworld.CopyInOp`, `Helloworld.ComputeOp`: What two of the stages do to the
  queues.
* `Helloworld.UnitOp`: What a unit may be issued.

## Theorems

* `Helloworld.commutes_addLocal`, `Helloworld.commutes_storeZ`: The operations
  that reach past one queue.
* `Helloworld.commutes_stages`, `Helloworld.commutes_blocks`: Units of one block,
  and of different ones.
* `Helloworld.launchThreads_independent`: All units of a launch.
* `helloworld_schedule`: Every schedule leads to the same end.
-/

namespace AscendKernel

namespace Helloworld

variable {α : Type}

theorem x_disjoint_y : (Queues.x (α := α)).Disjoint Queues.y where
  get_left := fun _ _ => rfl
  get_right := fun _ _ => rfl
  set_comm := fun _ _ _ => rfl

theorem x_disjoint_z : (Queues.x (α := α)).Disjoint Queues.z where
  get_left := fun _ _ => rfl
  get_right := fun _ _ => rfl
  set_comm := fun _ _ _ => rfl

theorem y_disjoint_z : (Queues.y (α := α)).Disjoint Queues.z where
  get_left := fun _ _ => rfl
  get_right := fun _ _ => rfl
  set_comm := fun _ _ _ => rfl

theorem block_disjoint (b c : ℕ) (h : b ≠ c) :
    (State.block (α := α) b).Disjoint (State.block c) where
  get_left := fun s k => by
    change Function.update s.queues c k b = s.queues b
    rw [Function.update_of_ne h]
  get_right := fun s k => by
    change Function.update s.queues b k c = s.queues c
    rw [Function.update_of_ne h.symm]
  set_comm := fun s k k' => by
    change State.mk (Function.update (Function.update s.queues b k) c k') s.zGm
      = State.mk (Function.update (Function.update s.queues c k') b k) s.zGm
    rw [Function.update_comm h]

/-- What `CopyIn` does to the queues of its block. -/
inductive CopyInOp : (Queues α → Option (Queues α)) → Prop where
  | x {f : BufferQueue α → Option (BufferQueue α)} (h : BufferQueue.Producer f) :
      CopyInOp (Queues.x.lift f)
  | y {f : BufferQueue α → Option (BufferQueue α)} (h : BufferQueue.Producer f) :
      CopyInOp (Queues.y.lift f)

/-- What `Compute` does to the queues of its block. -/
inductive ComputeOp : (Queues α → Option (Queues α)) → Prop where
  | x {f : BufferQueue α → Option (BufferQueue α)} (h : BufferQueue.Consumer f) :
      ComputeOp (Queues.x.lift f)
  | y {f : BufferQueue α → Option (BufferQueue α)} (h : BufferQueue.Consumer f) :
      ComputeOp (Queues.y.lift f)
  | z {f : BufferQueue α → Option (BufferQueue α)} (h : BufferQueue.Producer f) :
      ComputeOp (Queues.z.lift f)
  | add (add : α → α → α) (n : ℕ) : ComputeOp (addLocal add n)

/-- The addition goes ahead when both tiles are there and there is room for the
    sums. -/
theorem addLocal_eq_some {add : α → α → α} {n : ℕ} {q q' : Queues α} :
    addLocal add n q = some q' ↔ ∃ xLocal yLocal, q.inQueueX.read = some xLocal ∧
      q.inQueueY.read = some yLocal ∧
      Queues.z.lift (BufferQueue.write (fill n (fun j => add (xLocal j) (yLocal j)))) q
        = some q' := by
  unfold addLocal
  simp only [Option.bind_eq_bind, Option.bind_eq_some_iff]
  constructor
  · rintro ⟨xLocal, hx, yLocal, hy, hz⟩
    exact ⟨xLocal, yLocal, hx, hy, hz⟩
  · rintro ⟨xLocal, yLocal, hx, hy, hz⟩
    exact ⟨xLocal, hx, yLocal, hy, hz⟩

/-- The addition commutes with an operation that keeps both tiles and commutes
    with the writing of the sums. -/
theorem commutes_addLocal (add : α → α → α) (n : ℕ) (p : Queues α → Option (Queues α))
    (hx : ∀ q q', p q = some q' → q'.inQueueX.read = q.inQueueX.read)
    (hy : ∀ q q', p q = some q' → q'.inQueueY.read = q.inQueueY.read)
    (hz : ∀ v, Commutes p (Queues.z.lift (BufferQueue.write v))) :
    Commutes p (addLocal add n) := by
  intro q q₁ q₂ h₁ h₂
  rcases addLocal_eq_some.mp h₂ with ⟨xLocal, yLocal, hxr, hyr, hw⟩
  rcases hz _ q q₁ q₂ h₁ hw with ⟨q', hw', hp'⟩
  refine ⟨q', addLocal_eq_some.mpr ⟨xLocal, yLocal, ?_, ?_, hw'⟩, hp'⟩
  · rw [hx q q₁ h₁]
    exact hxr
  · rw [hy q q₁ h₁]
    exact hyr

/-- `CopyIn` and `Compute` share two queues, one at each end. -/
theorem copyIn_compute {p c : Queues α → Option (Queues α)} (hp : CopyInOp p)
    (hc : ComputeOp c) : Commutes p c := by
  cases hp with
  | @x f hf =>
      cases hc with
      -- The one queue they share.
      | x hg => exact Queues.x.commutes_lift (BufferQueue.producer_consumer hf hg)
      | y hg => exact x_disjoint_y.commutes _ _
      | z hg => exact x_disjoint_z.commutes _ _
      | add add n =>
          -- The addition reads a tile that `CopyIn` no longer has.
          refine commutes_addLocal add n _ (fun q q' h => ?_) (fun q q' h => ?_)
            (fun v => x_disjoint_z.commutes _ _)
          · rcases Component.lift_eq_some.mp h with ⟨a, ha, rfl⟩
            exact hf.read_eq ha
          · rcases Component.lift_eq_some.mp h with ⟨a, -, rfl⟩
            rfl
  | @y f hf =>
      cases hc with
      | x hg => exact (x_disjoint_y.commutes _ _).symm
      | y hg => exact Queues.y.commutes_lift (BufferQueue.producer_consumer hf hg)
      | z hg => exact y_disjoint_z.commutes _ _
      | add add n =>
          refine commutes_addLocal add n _ (fun q q' h => ?_) (fun q q' h => ?_)
            (fun v => y_disjoint_z.commutes _ _)
          · rcases Component.lift_eq_some.mp h with ⟨a, -, rfl⟩
            rfl
          · rcases Component.lift_eq_some.mp h with ⟨a, ha, rfl⟩
            exact hf.read_eq ha

/-- `CopyIn` and `CopyOut` share no queue. -/
theorem copyIn_copyOut {p : Queues α → Option (Queues α)} (hp : CopyInOp p)
    (f : BufferQueue α → Option (BufferQueue α)) : Commutes p (Queues.z.lift f) := by
  cases hp with
  | x hf => exact x_disjoint_z.commutes _ _
  | y hf => exact y_disjoint_z.commutes _ _

/-- `Compute` and `CopyOut` share a queue, one at each end. -/
theorem compute_copyOut {p : Queues α → Option (Queues α)} (hp : ComputeOp p)
    {f : BufferQueue α → Option (BufferQueue α)} (hf : BufferQueue.Consumer f) :
    Commutes p (Queues.z.lift f) := by
  cases hp with
  | x hg => exact x_disjoint_z.commutes _ _
  | y hg => exact y_disjoint_z.commutes _ _
  | z hg => exact Queues.z.commutes_lift (BufferQueue.producer_consumer hg hf)
  | add add n =>
      refine (commutes_addLocal add n _ (fun q q' h => ?_) (fun q q' h => ?_) (fun v =>
        Queues.z.commutes_lift (BufferQueue.producer_consumer (.write v) hf).symm)).symm
      · rcases Component.lift_eq_some.mp h with ⟨a, -, rfl⟩
        rfl
      · rcases Component.lift_eq_some.mp h with ⟨a, -, rfl⟩
        rfl

/-- The sums that `CopyOut` has taken out stay as they are while the other
    units of the block go on. -/
theorem CopyInOp.read_eq {p : Queues α → Option (Queues α)} (hp : CopyInOp p) {q q' : Queues α}
    (h : p q = some q') : q'.outQueueZ.read = q.outQueueZ.read := by
  cases hp with
  | x hf =>
      rcases Component.lift_eq_some.mp h with ⟨a, -, rfl⟩
      rfl
  | y hf =>
      rcases Component.lift_eq_some.mp h with ⟨a, -, rfl⟩
      rfl

theorem ComputeOp.read_eq {p : Queues α → Option (Queues α)} (hp : ComputeOp p) {q q' : Queues α}
    (h : p q = some q') : q'.outQueueZ.read = q.outQueueZ.read := by
  cases hp with
  | x hf =>
      rcases Component.lift_eq_some.mp h with ⟨a, -, rfl⟩
      rfl
  | y hf =>
      rcases Component.lift_eq_some.mp h with ⟨a, -, rfl⟩
      rfl
  | z hf =>
      rcases Component.lift_eq_some.mp h with ⟨a, ha, rfl⟩
      exact hf.read_eq ha
  | add add n =>
      rcases addLocal_eq_some.mp h with ⟨xLocal, yLocal, -, -, hw⟩
      rcases Component.lift_eq_some.mp hw with ⟨a, ha, rfl⟩
      exact (BufferQueue.Producer.write _).read_eq ha

/-- The copy to `z` goes ahead when a tile of sums has been taken out. -/
theorem storeZ_eq_some {b offset n : ℕ} {s s' : State α} :
    storeZ b offset n s = some s' ↔ ∃ zLocal, (s.queues b).outQueueZ.read = some zLocal ∧
      { s with zGm := fillFrom offset n zLocal s.zGm } = s' := by
  unfold storeZ
  rw [Option.bind_eq_bind, Option.bind_eq_some_iff]
  exact exists_congr fun zLocal => and_congr_right fun _ => Option.some_inj

/-- The copy to `z` commutes with what leaves the tile of sums as it is. -/
theorem commutes_storeZ (b c offset n : ℕ) (p : Queues α → Option (Queues α))
    (h : ∀ q q', b = c → p q = some q' → q'.outQueueZ.read = q.outQueueZ.read) :
    Commutes ((State.block c).lift p) (storeZ b offset n) := by
  intro s s₁ s₂ h₁ h₂
  rcases Component.lift_eq_some.mp h₁ with ⟨k, hk, rfl⟩
  rcases storeZ_eq_some.mp h₂ with ⟨zLocal, hz, rfl⟩
  refine ⟨_, storeZ_eq_some.mpr ⟨zLocal, ?_, rfl⟩, Component.lift_eq_some.mpr ⟨k, hk, rfl⟩⟩
  change (Function.update s.queues c k b).outQueueZ.read = some zLocal
  by_cases hbc : b = c
  · subst hbc
    rw [Function.update_self, h _ _ rfl hk]
    exact hz
  · rw [Function.update_of_ne hbc]
    exact hz

/-- Copies to `z` from different blocks commute, when they go to different
    cells. -/
theorem storeZ_storeZ (b c o o' n n' : ℕ) (h : o + n ≤ o' ∨ o' + n' ≤ o) :
    Commutes (storeZ (α := α) b o n) (storeZ c o' n') := by
  intro s s₁ s₂ h₁ h₂
  rcases storeZ_eq_some.mp h₁ with ⟨zLocal, hz, rfl⟩
  rcases storeZ_eq_some.mp h₂ with ⟨zLocal', hz', rfl⟩
  refine ⟨_, storeZ_eq_some.mpr ⟨zLocal', hz', rfl⟩, storeZ_eq_some.mpr ⟨zLocal, hz, ?_⟩⟩
  exact congrArg (State.mk s.queues) (fillFrom_comm o o' n n' zLocal zLocal' s.zGm h)

/-- The operations a unit of block `b` may be issued. -/
def UnitOp (unit : ℕ) (k : Kernel) (b : ℕ) : Stage → (State α → Option (State α)) → Prop
  | .copyIn, op => ∃ p, CopyInOp p ∧ op = (State.block b).lift p
  | .compute, op => ∃ p, ComputeOp p ∧ op = (State.block b).lift p
  | .copyOut, op =>
    (∃ f, BufferQueue.Consumer f ∧ op = (State.block b).lift (Queues.z.lift f)) ∨
      ∃ i < k.loopCount, op = storeZ b (k.start b i) (k.moved unit)

variable (add : α → α → α) (unit : ℕ) (k : Kernel) (x y : ℕ → α)

theorem copyIn_unitOp (b progress : ℕ) (op : State α → Option (State α))
    (h : op ∈ copyIn unit k x y b progress) : UnitOp unit k b .copyIn op := by
  simp only [copyIn, List.mem_cons, List.not_mem_nil, or_false] at h
  rcases h with rfl | rfl | rfl | rfl | rfl | rfl
  · exact ⟨_, .x .allocTensor, rfl⟩
  · exact ⟨_, .y .allocTensor, rfl⟩
  · exact ⟨_, .x (.write _), rfl⟩
  · exact ⟨_, .y (.write _), rfl⟩
  · exact ⟨_, .x .enQue, rfl⟩
  · exact ⟨_, .y .enQue, rfl⟩

theorem compute_unitOp (b : ℕ) (op : State α → Option (State α)) (h : op ∈ compute add k b) :
    UnitOp unit k b .compute op := by
  simp only [compute, List.mem_cons, List.not_mem_nil, or_false] at h
  rcases h with rfl | rfl | rfl | rfl | rfl | rfl | rfl
  · exact ⟨_, .x .deQue, rfl⟩
  · exact ⟨_, .y .deQue, rfl⟩
  · exact ⟨_, .z .allocTensor, rfl⟩
  · exact ⟨_, .add add _, rfl⟩
  · exact ⟨_, .z .enQue, rfl⟩
  · exact ⟨_, .x .freeTensor, rfl⟩
  · exact ⟨_, .y .freeTensor, rfl⟩

theorem copyOut_unitOp (b progress : ℕ) (hp : progress < k.loopCount)
    (op : State α → Option (State α)) (h : op ∈ copyOut unit k b progress) :
    UnitOp unit k b .copyOut op := by
  simp only [copyOut, List.mem_cons, List.not_mem_nil, or_false] at h
  rcases h with rfl | rfl | rfl
  · exact Or.inl ⟨_, .deQue, rfl⟩
  · -- The copy to `z` is the only operation outside the queues.
    exact Or.inr ⟨progress, hp, rfl⟩
  · exact Or.inl ⟨_, .freeTensor, rfl⟩

/-- What a unit is issued. -/
theorem launchThreads_unitOp (blockDim : Word) (s : State α) (b : ℕ) (stage : Stage)
    (op : State α → Option (State α))
    (h : op ∈ (launchThreads add unit k x y blockDim s).rest (b, stage)) :
    UnitOp unit k b stage op := by
  rcases Threads.mem_issue.mp h with ⟨ops, hmem, hop⟩
  rcases List.mem_flatMap.mp hmem with ⟨c, -, hmem⟩
  rcases List.mem_flatMap.mp hmem with ⟨i, hi, hmem⟩
  have hi : i < k.loopCount := List.mem_range.mp hi
  simp only [List.mem_cons, List.not_mem_nil, or_false, Prod.mk.injEq] at hmem
  rcases hmem with ⟨⟨rfl, rfl⟩, rfl⟩ | ⟨⟨rfl, rfl⟩, rfl⟩ | ⟨⟨rfl, rfl⟩, rfl⟩
  · exact copyIn_unitOp unit k x y b i op hop
  · exact compute_unitOp add unit k b op hop
  · exact copyOut_unitOp unit k b i hi op hop

/-- A unit works on the queues of its block, or copies a tile of it to `z`. -/
theorem UnitOp.cases {unit : ℕ} {k : Kernel} {b : ℕ} {stage : Stage}
    {op : State α → Option (State α)} (h : UnitOp unit k b stage op) :
    (∃ p, op = (State.block b).lift p) ∨
      ∃ i < k.loopCount, op = storeZ b (k.start b i) (k.moved unit) := by
  cases stage with
  | copyIn =>
      rcases h with ⟨p, -, rfl⟩
      exact Or.inl ⟨p, rfl⟩
  | compute =>
      rcases h with ⟨p, -, rfl⟩
      exact Or.inl ⟨p, rfl⟩
  | copyOut =>
      rcases h with ⟨f, -, rfl⟩ | hstore
      · exact Or.inl ⟨_, rfl⟩
      · exact Or.inr hstore

/-- Units of different blocks share nothing but the memory of `z`, and write to
    different stretches of it. -/
theorem commutes_blocks (total : Word) (b c : ℕ) (hbc : b ≠ c) {stage stage' : Stage}
    {p q : State α → Option (State α)} (hp : UnitOp unit (init total blockDim) b stage p)
    (hq : UnitOp unit (init total blockDim) c stage' q) : Commutes p q := by
  rcases hp.cases with ⟨f, rfl⟩ | ⟨i, hi, rfl⟩
  · rcases hq.cases with ⟨g, rfl⟩ | ⟨j, hj, rfl⟩
    · exact (block_disjoint b c hbc).commutes f g
    · exact commutes_storeZ c b _ _ f (fun _ _ heq _ => absurd heq.symm hbc)
  · rcases hq.cases with ⟨g, rfl⟩ | ⟨j, hj, rfl⟩
    · exact (commutes_storeZ b c _ _ g (fun _ _ heq _ => absurd heq hbc)).symm
    · refine storeZ_storeZ b c _ _ _ _ ?_
      have hb := init_start_bounds total unit b i hi
      have hc := init_start_bounds total unit c j hj
      -- The stretch of the lower block ends where the other's may begin.
      rcases Nat.lt_or_gt_of_ne hbc with hlt | hgt
      · have hle : total.val / 8 * (b + 1) ≤ total.val / 8 * c := Nat.mul_le_mul_left _ hlt
        omega
      · have hle : total.val / 8 * (c + 1) ≤ total.val / 8 * b := Nat.mul_le_mul_left _ hgt
        omega

/-- `CopyOut` commutes with what keeps to the other end of its queue. -/
theorem commutes_copyOut (b : ℕ) {f : Queues α → Option (Queues α)}
    {op : State α → Option (State α)}
    (hqueue : ∀ g, BufferQueue.Consumer g → Commutes f (Queues.z.lift g))
    (hread : ∀ q q', f q = some q' → q'.outQueueZ.read = q.outQueueZ.read)
    (h : UnitOp unit k b .copyOut op) : Commutes ((State.block b).lift f) op := by
  rcases h with ⟨g, hg, rfl⟩ | ⟨i, -, rfl⟩
  · exact (State.block b).commutes_lift (hqueue g hg)
  · exact commutes_storeZ b b _ _ f (fun q q' _ h => hread q q' h)

/-- The units of one block share queues, and stand at different ends. -/
theorem commutes_stages (b : ℕ) {stage stage' : Stage} (hne : stage ≠ stage')
    {p q : State α → Option (State α)} (hp : UnitOp unit k b stage p)
    (hq : UnitOp unit k b stage' q) : Commutes p q := by
  cases stage with
  | copyIn =>
      rcases hp with ⟨f, hf, rfl⟩
      cases stage' with
      | copyIn => exact absurd rfl hne
      | compute =>
          rcases hq with ⟨g, hg, rfl⟩
          exact (State.block b).commutes_lift (copyIn_compute hf hg)
      | copyOut =>
          exact commutes_copyOut unit k b (fun g _ => copyIn_copyOut hf g)
            (fun _ _ h => hf.read_eq h) hq
  | compute =>
      rcases hp with ⟨f, hf, rfl⟩
      cases stage' with
      | copyIn =>
          rcases hq with ⟨g, hg, rfl⟩
          exact ((State.block b).commutes_lift (copyIn_compute hg hf)).symm
      | compute => exact absurd rfl hne
      | copyOut =>
          exact commutes_copyOut unit k b (fun g hg => compute_copyOut hf hg)
            (fun _ _ h => hf.read_eq h) hq
  | copyOut =>
      cases stage' with
      | copyIn =>
          rcases hq with ⟨g, hg, rfl⟩
          exact (commutes_copyOut unit k b (fun g' _ => copyIn_copyOut hg g')
            (fun _ _ h => hg.read_eq h) hp).symm
      | compute =>
          rcases hq with ⟨g, hg, rfl⟩
          exact (commutes_copyOut unit k b (fun g' hg' => compute_copyOut hg hg')
            (fun _ _ h => hg.read_eq h) hp).symm
      | copyOut => exact absurd rfl hne

/-- The units of a launch keep out of each other's way. -/
theorem launchThreads_independent (total : Word) (s : State α) :
    (launchThreads add unit (init total blockDim) x y blockDim s).Independent := by
  rintro ⟨b, stage⟩ ⟨c, stage'⟩ hne p hp q hq
  have hp' := launchThreads_unitOp add unit (init total blockDim) x y blockDim s b stage p hp
  have hq' := launchThreads_unitOp add unit (init total blockDim) x y blockDim s c stage' q hq
  by_cases hbc : b = c
  · subst hbc
    exact commutes_stages unit _ b (fun heq => hne (congrArg (Prod.mk b) heq)) hp' hq'
  · exact commutes_blocks unit total b c hbc hp' hq'

/-- A tile is sixteen operations, whoever does them. -/
theorem process_length (b : ℕ) :
    ((process add unit k x y b).flatMap fun p => List.replicate p.2.length p.1).length
      = k.loopCount * 16 := by
  unfold process
  rw [List.flatMap_assoc, List.length_flatMap]
  have htile : ∀ i, (([ ((b, Stage.copyIn), copyIn unit k x y b i),
      ((b, Stage.compute), compute add k b), ((b, Stage.copyOut), copyOut unit k b i) ]).flatMap
        fun p => List.replicate p.2.length p.1).length = 16 := fun i => rfl
  simp only [htile, List.map_const', List.length_range, List.sum_replicate, smul_eq_mul]

theorem program_length (total : Word) :
    ((program add unit (init total blockDim) x y blockDim).flatMap fun p =>
      List.replicate p.2.length p.1).length = 2048 := by
  unfold program
  rw [List.flatMap_assoc, List.length_flatMap]
  simp only [process_length, init_loopCount, List.map_const', List.length_range,
    List.sum_replicate, smul_eq_mul, blockDim_val]

end Helloworld

/-- However the units of the blocks take turns, as long as the queues let them
    go ahead: they never come to wait for each other, a launch is always 2048
    operations long, and in the end `z` is what the program leaves that runs
    them in order. What the local memory held before makes no difference. -/
theorem helloworld_schedule {α : Type} (add : α → α → α) (unit : ℕ)
    (stale : ℕ → Helloworld.Stale α) (x y z : Strided α) (w : List (ℕ × Helloworld.Stage))
    (m : Threads (ℕ × Helloworld.Stage) (Helloworld.State α))
    (h : Threads.run w (Helloworld.launchThreads add unit
      (Helloworld.init (Helloworld.totalLength x.sizes) Helloworld.blockDim) x.dataPtr y.dataPtr
      Helloworld.blockDim (Helloworld.State.init stale z.dataPtr)) = some m) :
    (∃ w' m', Threads.run w' m = some m' ∧ m'.Done ∧ w.length + w'.length = 2048) ∧
      (m.Done → helloworld add unit stale x y z = some (z.withDataPtr m.shared.zGm)) := by
  have hind := Helloworld.launchThreads_independent add unit x.dataPtr y.dataPtr
    (Helloworld.totalLength x.sizes) (Helloworld.State.init stale z.dataPtr)
  rcases Helloworld.launch_spec add unit
    (Helloworld.init (Helloworld.totalLength x.sizes) Helloworld.blockDim) x.dataPtr y.dataPtr
    Helloworld.blockDim (Helloworld.State.init stale z.dataPtr)
    (Helloworld.State.init_ready stale z.dataPtr) with ⟨s', hs', -⟩
  -- The order of the program is one schedule, and it finishes.
  have hrun := Threads.run_issue _ _ s' hs'
  have hdone : (Threads.issue [] s' :
      Threads (ℕ × Helloworld.Stage) (Helloworld.State α)).Done := fun t => rfl
  refine ⟨?_, fun hm => ?_⟩
  · rcases Threads.run_confluent _ w hind hrun hdone h with ⟨w', hw', hlen⟩
    rw [Helloworld.program_length] at hlen
    exact ⟨w', _, hw', hdone, hlen⟩
  · rw [Threads.run_done _ w hind hrun hdone h hm]
    unfold helloworld
    simp only [hs', Option.bind_eq_bind, Option.bind_some]
    rfl

/-- Two blocks that start copying in before either has added anything. -/
theorem helloworld_schedule_ahead :
    let x : Strided ℤ := contiguous1 128 (fun n => n)
    let stale : ℕ → Helloworld.Stale ℤ := fun _ => ⟨fun _ _ => 7, fun _ _ => 7, fun _ _ => 7⟩
    let w := [(0, Helloworld.Stage.copyIn), (1, Helloworld.Stage.copyIn),
      (0, Helloworld.Stage.copyIn)]
    ∃ m, Threads.run w (Helloworld.launchThreads (· + ·) 1
        (Helloworld.init (Helloworld.totalLength x.sizes) Helloworld.blockDim) x.dataPtr x.dataPtr
        Helloworld.blockDim (Helloworld.State.init stale x.dataPtr)) = some m ∧
      ∃ w' m', Threads.run w' m = some m' ∧ m'.Done ∧ w.length + w'.length = 2048 := by
  intro x stale w
  refine ⟨_, rfl, ?_⟩
  exact (helloworld_schedule (· + ·) 1 stale x x x w _ rfl).1

end AscendKernel
