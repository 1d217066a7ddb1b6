import AscendKernel.Theory.Launch

/-!
# Stopping without a Trace

What a call of the operator leaves behind when it does not complete.

The operator writes two of its caller's tensors, and hands the memory of one
of them to the kernel before it has decided anything. A failed call must leave
both as they were. The launch does not write the old rows, so the buffer comes
back from it unchanged; the two scatters have the same mask, the same source
and windows of the same shape, so the second cannot fail after the first; and
the buffer is written only by the second.

The checks of `cache_miss_topk` are repeated on tensors the operator has made
itself, all of one shape. They never fail there. The one way the inner
operator can still stop is the host's arithmetic running into a zero divisor.

## Theorems

* `entryChecks_ok`: What the checks on entry establish.
* `checkedLaunch_idx`: A launch leaves the old rows alone.
* `checkedLaunch_no_check_fails`: Matching shapes pass the inner checks.
* `second_scatter_ok`: The second scatter completes when the first does.
* `caller_of_failure`: Every stop returns the tensors as they were.
* `getCacheMissTopkIndices_atomic`: A failed call leaves the caller's tensors
  as they were.
-/

namespace AscendKernel

theorem torchCheck_eq_ok (c : Bool) (msg : String) (u : Unit) :
    torchCheck c msg = .ok u ↔ c = true := by
  unfold torchCheck
  by_cases h : c = true
  · simp only [h, if_true]
  · simp only [h, Bool.false_eq_true, if_false, reduceCtorEq]

theorem checkInt_eq_ok (t : Tensor) (msg : String) (s : Strided Int32) :
    t.checkInt msg = .ok s ↔ t = .int s := by
  cases t <;> simp only [Tensor.checkInt, reduceCtorEq, Except.ok.injEq, Tensor.int.injEq]

theorem checkLong_eq_ok (t : Tensor) (msg : String) (s : Strided Int64) :
    t.checkLong msg = .ok s ↔ t = .long s := by
  cases t <;> simp only [Tensor.checkLong, reduceCtorEq, Except.ok.injEq, Tensor.long.injEq]

/-- What the checks on entry establish about the tensors they hand out. -/
theorem entryChecks_ok (t l i : Tensor) (topk : Strided Int32) (last ids : Strided Int64) :
    entryChecks t l i = .ok (topk, last, ids) ↔
      t = .int topk ∧ l = .long last ∧ i = .long ids ∧ topk.dim = 2 ∧ last.dim = 2 ∧
        ids.dim = 1 ∧ topk.size 0 ≤ last.size 0 ∧ last.size 1 = topk.size 1 ∧
        topk.size 0 ≤ ids.size 0 := by
  unfold entryChecks
  simp only [bind_eq_ok, torchCheck_eq_ok, checkInt_eq_ok, checkLong_eq_ok, beq_iff_eq,
    decide_eq_true_eq, pure, Except.pure, Except.ok.injEq, Prod.mk.injEq]
  constructor
  · rintro ⟨_, hdt, _, hdl, _, hdi, topk', ht, last', hl, ids', hi, _, hrows, _, hwidth, _, hids,
      rfl, rfl, rfl⟩
    subst ht hl hi
    exact ⟨rfl, rfl, rfl, hdt, hdl, hdi, hrows, hwidth, hids⟩
  · rintro ⟨rfl, rfl, rfl, hdt, hdl, hdi, hrows, hwidth, hids⟩
    exact ⟨(), hdt, (), hdl, (), hdi, topk, rfl, last, rfl, ids, rfl, (), hrows, (), hwidth, (),
      hids, rfl, rfl, rfl⟩

/-- Writing back what was read changes nothing. -/
theorem withDataPtr_dataPtr {α : Type} (t : Strided α) : t.withDataPtr t.dataPtr = t := by
  unfold Strided.withDataPtr
  congr 1
  ext a
  by_cases h : a < t.storageOffset
  · rw [if_pos h]
  · rw [if_neg h, Strided.dataPtr]
    congr 1
    omega

theorem launch_idx (plat : Platform) (blockDim : Word) (t : CacheMissTopkTilingData)
    (gm : GlobalMemory) : (launch plat blockDim t gm).idxGm = gm.idxGm := foldl_idx plat _ gm

/-- A launch leaves the memory of the old rows alone. -/
theorem checkedLaunch_idx (plat : Platform) (miss avail : Tensor) (old : Strided Int64)
    (gm : GlobalMemory) (h : checkedLaunch plat miss avail (.long old) = .ok gm) :
    gm.idxGm = old.dataPtr := by
  unfold checkedLaunch at h
  simp only [bind_eq_ok, torchCheck_eq_ok, checkLong_eq_ok, Tensor.long.injEq] at h
  rcases h with ⟨_, _, _, _, _, _, _, _, _, _, m, _, a, _, old', rfl, h⟩
  by_cases hzero : (Word.ofResult (m.size 0) true).val = 0
  · rw [if_pos hzero] at h
    simp only [pure, Except.pure, Except.ok.injEq] at h
    rw [← h]
  · rw [if_neg hzero] at h
    cases hl : hostTiling (Word.ofResult (m.size 0) true) (Word.ofResult plat.coreNum true) with
    | none =>
        rw [hl] at h
        exact absurd h (by simp only [throw, throwThe, MonadExceptOf.throw, reduceCtorEq,
          not_false_eq_true])
    | some l =>
        rw [hl] at h
        simp only [pure, Except.pure, Except.ok.injEq] at h
        rw [← h, launch_idx]

theorem cacheMissTopk_ok (plat : Platform) (miss : Tensor) (avail mask : Strided Bool)
    (old old' : Strided Int64) :
    cacheMissTopk plat miss avail old = .ok (mask, old') ↔
      ∃ gm, checkedLaunch plat miss (.bool avail) (.long old) = .ok gm ∧
        mask = avail.withDataPtr gm.availMaskGm ∧ old' = old := by
  unfold cacheMissTopk
  cases h : checkedLaunch plat miss (.bool avail) (.long old) with
  | error e => simp only [reduceCtorEq, false_and, exists_false]
  | ok gm =>
      have hidx := checkedLaunch_idx plat miss (.bool avail) old gm h
      simp only [Except.ok.injEq, Prod.mk.injEq, exists_eq_left']
      rw [hidx, withDataPtr_dataPtr]
      constructor
      · rintro ⟨hm, ho⟩
        exact ⟨hm.symm, ho.symm⟩
      · rintro ⟨hm, ho⟩
        exact ⟨hm.symm, ho.symm⟩

/-- Masks and old rows of one two-dimensional shape pass the inner checks, so
    what is left to stop the launch is a zero divisor. -/
theorem checkedLaunch_no_check_fails (plat : Platform) (miss avail : Strided Bool)
    (old : Strided Int64) (hdim : miss.sizes.length = 2) (havail : miss.sizes = avail.sizes)
    (hold : miss.sizes = old.sizes) (msg : String) :
    checkedLaunch plat (.bool miss) (.bool avail) (.long old) ≠ .error (.torchCheck msg) := by
  have hrank : (miss.sizes.length == 2) = true := beq_iff_eq.mpr hdim
  have hshape : (miss.sizes == miss.sizes) = true := beq_self_eq_true _
  unfold checkedLaunch
  simp only [Tensor.dim, Tensor.sizes, ← havail, ← hold, hrank, hshape]
  change (if (Word.ofResult (miss.size 0) true).val = 0 then (.ok _ : Except Failure GlobalMemory)
    else _) ≠ _
  by_cases hzero : (Word.ofResult (miss.size 0) true).val = 0
  · rw [if_pos hzero]
    simp only [ne_eq, reduceCtorEq, not_false_eq_true]
  · rw [if_neg hzero]
    cases hostTiling (Word.ofResult (miss.size 0) true) (Word.ofResult plat.coreNum true) with
    | none => simp only [throw, throwThe, MonadExceptOf.throw, ne_eq, Except.error.injEq,
        reduceCtorEq, not_false_eq_true]
    | some l => simp only [pure, Except.pure, ne_eq, reduceCtorEq, not_false_eq_true]

/-- Whether a scatter stops depends on its mask, its source and the shape of
    its window. -/
theorem inplaceMaskedScatter_ok {α : Type} (self : Strided α) (mask : Strided Bool)
    (source : List α) (t : Strided α) :
    inplaceMaskedScatter self mask source = .ok t ↔
      countTrue (rowMajor (self.size 1) mask.at2) (self.size 0 * self.size 1) ≤ source.length ∧
      t = { self with
              storage := maskedScatter self.elem (rowMajor (self.size 1) mask.at2) source
                self.storage (self.size 0 * self.size 1) } := by
  unfold inplaceMaskedScatter
  simp only []
  by_cases h : source.length
      < countTrue (rowMajor (self.size 1) mask.at2) (self.size 0 * self.size 1)
  · rw [if_pos h]
    simp only [reduceCtorEq, false_iff, not_and]
    omega
  · rw [if_neg h, Except.ok.injEq]
    constructor
    · intro ht
      exact ⟨by omega, ht.symm⟩
    · intro ht
      exact ht.2.symm

/-- The leading rows of a matrix that has them, as a shape. -/
theorem slice0_sizes {α : Type} (t : Strided α) (n K : ℕ) (hdim : t.dim = 2) (hn : n ≤ t.size 0)
    (hK : t.size 1 = K) : (t.slice0 n).sizes = [n, K] := by
  rcases t with ⟨sizes, strides, offset, storage⟩
  rcases sizes with _ | ⟨a, _ | ⟨b, _ | ⟨c, rest⟩⟩⟩
  · change 0 = 2 at hdim
    omega
  · change 1 = 2 at hdim
    omega
  · change n ≤ a at hn
    change b = K at hK
    change min n a :: [b] = [n, K]
    rw [Nat.min_eq_left hn, hK]
  · change rest.length + 1 + 1 + 1 = 2 at hdim
    omega

/-- The old rows of tensors that pass the checks have the shape of the
    tokens. -/
theorem slice0_of_entryChecks (t l i : Tensor) (topk : Strided Int32) (last ids : Strided Int64)
    (h : entryChecks t l i = .ok (topk, last, ids)) :
    (last.slice0 (topk.size 0)).sizes = [topk.size 0, topk.size 1] := by
  rw [entryChecks_ok] at h
  rcases h with ⟨_, _, _, _, hdl, _, hrows, hwidth, _⟩
  exact slice0_sizes last (topk.size 0) (topk.size 1) hdl hrows hwidth

/-- The two scatters see the same mask, the same source and the same shape, so
    the second completes when the first does. -/
theorem second_scatter_ok (topk : Strided Int32) (last : Strided Int64) (mask : Strided Bool)
    (source : List Int64)
    (hsizes : (last.slice0 (topk.size 0)).sizes = [topk.size 0, topk.size 1])
    (first : Strided Int64)
    (hfirst : inplaceMaskedScatter
      (contiguous2 (topk.size 0) (topk.size 1) fun _ _ => (-1 : Int64)) mask source = .ok first) :
    ∃ second, inplaceMaskedScatter (last.slice0 (topk.size 0)) mask source = .ok second := by
  have h0 : (last.slice0 (topk.size 0)).size 0 = topk.size 0 := by
    rw [Strided.size, hsizes]
    rfl
  have h1 : (last.slice0 (topk.size 0)).size 1 = topk.size 1 := by
    rw [Strided.size, hsizes]
    rfl
  rw [inplaceMaskedScatter_ok] at hfirst
  refine ⟨_, (inplaceMaskedScatter_ok _ _ _ _).mpr ⟨?_, rfl⟩⟩
  rw [h0, h1]
  exact hfirst.1

/-- Once the checks on entry pass, those of the inner operator do. -/
theorem inner_checks_pass (plat : Platform) (topk : Strided Int32) (last ids : Strided Int64)
    (hsizes : (last.slice0 (topk.size 0)).sizes = [topk.size 0, topk.size 1]) (msg : String) :
    cacheMissTopk plat (.bool (cacheMissTokenMask topk last ids)) (availableSlotMask topk last ids)
      (last.slice0 (topk.size 0)) ≠ .error (.torchCheck msg) := by
  intro hfail
  refine checkedLaunch_no_check_fails plat (cacheMissTokenMask topk last ids)
    (availableSlotMask topk last ids) (last.slice0 (topk.size 0)) rfl rfl hsizes.symm msg ?_
  unfold cacheMissTopk at hfail
  cases hrun : checkedLaunch plat (.bool (cacheMissTokenMask topk last ids))
      (.bool (availableSlotMask topk last ids)) (.long (last.slice0 (topk.size 0))) with
  | error e =>
      rw [hrun, Except.error.injEq] at hfail
      rw [hfail]
  | ok gm =>
      rw [hrun] at hfail
      exact absurd hfail.symm (error_ne_ok _ _)

/-- Every stop returns the tensors as they were. The cases are the stops, in
    the order the operator meets them. -/
theorem caller_of_failure (plat : Platform) (req_ids_tensor : Tensor) (caller caller' : Caller)
    (e : Failure)
    (h : getCacheMissTopkIndices plat req_ids_tensor caller = (.error e, caller')) :
    caller' = caller := by
  unfold getCacheMissTopkIndices at h
  cases hentry : entryChecks caller.topk_indices caller.last_step_topk_indices req_ids_tensor with
  | error e' =>
      rw [hentry] at h
      exact (congrArg Prod.snd h).symm
  | ok t =>
      rcases t with ⟨topk, last, ids⟩
      rw [hentry] at h
      simp only [] at h
      cases hmask : cacheMissTopk plat (.bool (cacheMissTokenMask topk last ids))
          (availableSlotMask topk last ids) (last.slice0 (topk.size 0)) with
      | error e' =>
          rw [hmask] at h
          exact (congrArg Prod.snd h).symm
      | ok m =>
          rcases m with ⟨mask, old⟩
          rw [hmask] at h
          simp only [] at h
          -- The kernel has not touched the buffer, so the state is the caller's.
          rcases (cacheMissTopk_ok _ _ _ _ _ _).mp hmask with ⟨_, _, _, hold⟩
          have hlast : caller.last_step_topk_indices = .long last :=
            ((entryChecks_ok _ _ _ topk last ids).mp hentry).2.1
          have hsame : ({ caller with last_step_topk_indices := .long last } : Caller)
              = caller := by
            rw [← hlast]
          rw [hold] at h
          cases hfirst : inplaceMaskedScatter
              (contiguous2 (topk.size 0) (topk.size 1) fun _ _ => (-1 : Int64)) mask
              (topkToLoad topk last ids) with
          | error e' =>
              rw [hfirst] at h
              exact (congrArg Prod.snd h).symm.trans hsame
          | ok first =>
              -- The buffer is only written after this, and nothing stops any more.
              have hsizes := slice0_of_entryChecks _ _ _ topk last ids hentry
              rcases second_scatter_ok topk last mask _ hsizes first hfirst with ⟨second, hsnd⟩
              rw [hfirst] at h
              simp only [Strided.slice0] at h hsnd
              rw [hsnd] at h
              exact absurd (congrArg Prod.fst h).symm (error_ne_ok e ())

/-- A failed call leaves the caller's tensors as they were. Once the checks on
    entry pass, the inner checks cannot fail, the kernel leaves the old rows
    alone, and the second scatter completes whenever the first one does. -/
theorem getCacheMissTopkIndices_atomic (plat : Platform) (req_ids_tensor : Tensor)
    (caller : Caller) :
    (∀ e caller', getCacheMissTopkIndices plat req_ids_tensor caller = (.error e, caller') →
      caller' = caller) ∧
    ∀ topk last ids,
      entryChecks caller.topk_indices caller.last_step_topk_indices req_ids_tensor
        = .ok (topk, last, ids) →
      (∀ msg, cacheMissTopk plat (.bool (cacheMissTokenMask topk last ids))
        (availableSlotMask topk last ids) (last.slice0 (topk.size 0))
          ≠ .error (.torchCheck msg)) ∧
      ∀ mask old, cacheMissTopk plat (.bool (cacheMissTokenMask topk last ids))
        (availableSlotMask topk last ids) (last.slice0 (topk.size 0)) = .ok (mask, old) →
        old = last.slice0 (topk.size 0) ∧
        ((∃ first, inplaceMaskedScatter
            (contiguous2 (topk.size 0) (topk.size 1) fun _ _ => (-1 : Int64)) mask
            (topkToLoad topk last ids) = .ok first) →
          ∃ second, inplaceMaskedScatter (last.slice0 (topk.size 0)) mask
            (topkToLoad topk last ids) = .ok second) := by
  constructor
  · intro e caller' h
    exact caller_of_failure plat req_ids_tensor caller caller' e h
  · intro topk last ids hentry
    have hsizes := slice0_of_entryChecks _ _ _ topk last ids hentry
    refine ⟨inner_checks_pass plat topk last ids hsizes, fun mask old hmask => ?_⟩
    rcases (cacheMissTopk_ok _ _ _ _ _ _).mp hmask with ⟨_, _, _, hold⟩
    refine ⟨hold, ?_⟩
    rintro ⟨first, hfirst⟩
    exact second_scatter_ok topk last mask _ hsizes first hfirst

/-- Tokens of the wrong type stop a call, and tokens of the right one take it
    past the inner checks. -/
theorem getCacheMissTopkIndices_atomic_one_row :
    let ids := Tensor.long (contiguous1 1 fun _ => 7)
    let last := contiguous2 1 SEQ_LEN fun _ _ => (-1 : Int64)
    let topk := contiguous2 1 SEQ_LEN fun _ _ => (3 : Int32)
    let wrong : Caller := { topk_indices := .long last, last_step_topk_indices := .long last }
    (getCacheMissTopkIndices Platform.singleCore ids wrong).2 = wrong ∧
      ∀ msg, cacheMissTopk Platform.singleCore
        (.bool (cacheMissTokenMask topk last (contiguous1 1 fun _ => 7)))
        (availableSlotMask topk last (contiguous1 1 fun _ => 7)) (last.slice0 1)
          ≠ .error (.torchCheck msg) := by
  intro ids last topk wrong
  refine ⟨?_, ?_⟩
  · exact (getCacheMissTopkIndices_atomic Platform.singleCore ids wrong).1
      (.torchCheck "get_cache_miss_topk_indices: topk_indices must be int32") _ rfl
  · exact ((getCacheMissTopkIndices_atomic Platform.singleCore ids
      { topk_indices := .int topk, last_step_topk_indices := .long last }).2 topk last
      (contiguous1 1 fun _ => 7) rfl).1

end AscendKernel
