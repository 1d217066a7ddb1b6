import AscendKernel.Core.PoolCommand
import AscendKernel.Theory.NpuCommand
import AscendKernel.Theory.PoolArguments

/-!
# What the Pooling Operator Hands Over

`avg_pool3d` in the course of a program that goes on after a failed call.

Two things are asked of it. Nothing must be left behind, and the library must
not be handed anything that the operator's own checks would not let through.

The first depends on the library and on nothing else, `avgPool3ds_leakFree_iff`.
A command leaves objects behind when the conversion of a later parameter throws,
and the only conversion of `avg_pool3d` that could is the last one, of the
result. It has the element type of the input, though, which was converted first.

For the second, `avgPool3ds_hands`, an object is only ever made of an argument
of a call whose shape was computed, or of a result of that shape. What has passed
the checks then are the triples that were read. A list that is too short was read
past its end, and reaches the library as it is. `PoolCall.outputSize_of_watched`
says that for all other calls the shape is the one `calcAvgPool3dOutputSize`
computes, so what is known of that one carries over.

## Main definitions

* `PoolCall.Issues`: A call that gets as far as its command.
* `PoolCall.Reaches`: A call whose parameters are converted.
* `poolObjects`, `poolObject`: The objects of a call.
* `PoolCall.leaves`: What a call leaves behind.
* `ListArgument.triple`, `PoolCall.strides`: The triples a call reads.
* `PoolCall.Accepts`: What the checks of a call let through.
* `PoolCall.handed`: What the library is handed for a call.

## Theorems

* `avgPool3d_events`: What a call does to the library.
* `PoolCall.Issues.supported`: All conversions go through when the first does.
* `avgPool3d_audit`, `avgPool3ds_audit`: One call, and calls one after the other.
* `avgPool3ds_leakFree_iff`: When nothing is left behind.
* `PoolCall.outputSize_ok`: The checks of a call, and the shape.
* `PoolCall.outputSize_of_watched`: Lists that are not read past their end.
* `avgPool3ds_creates`: The objects of calls.
* `avgPool3ds_hands`: What the library is handed.
-/

namespace AscendKernel

/-- A call gets as far as its command, with a tensor for the result. -/
def PoolCall.Issues (call : PoolCall) (reply : PoolReply) (result : AtTensor) : Prop :=
  ∃ output_size, call.outputSize = .ok output_size ∧
    reply.empty.alloc output_size call.self = .ok result

/-- What a call does to the library: the command it gets to, or nothing. -/
theorem avgPool3d_events (libs : Libraries) (c : ℕ) (call : PoolCall) (reply : PoolReply) :
    (∃ result, call.Issues reply result ∧
      (avgPool3d libs c call reply).1 =
        (execNpuCmd libs c (aclnnAvgPool3d call result) reply.reply).events) ∨
    (∀ result, ¬ call.Issues reply result) ∧ (avgPool3d libs c call reply).1 = [] := by
  unfold avgPool3d PoolCall.Issues
  cases hsize : call.outputSize with
  | error e =>
      refine Or.inr ⟨fun result hissue => ?_, rfl⟩
      rcases hissue with ⟨size, hsize', -⟩
      exact absurd hsize' (by simp only [reduceCtorEq, not_false_eq_true])
  | ok size =>
      cases halloc : reply.empty.alloc size call.self with
      | error msg =>
          refine Or.inr ⟨fun result hissue => ?_, by simp only [halloc]⟩
          rcases hissue with ⟨size', hsize', halloc'⟩
          rw [← Except.ok.inj hsize', halloc] at halloc'
          exact absurd halloc' (by simp only [reduceCtorEq, not_false_eq_true])
      | ok result => exact Or.inl ⟨result, ⟨size, rfl, halloc⟩, by simp only [halloc]⟩

/-- There is one result at most. -/
theorem PoolCall.Issues.unique {call : PoolCall} {reply : PoolReply} {r r' : AtTensor}
    (h : call.Issues reply r) (h' : call.Issues reply r') : r = r' := by
  rcases h with ⟨size, hsize, halloc⟩
  rcases h' with ⟨size', hsize', halloc'⟩
  rw [hsize] at hsize'
  rw [← Except.ok.inj hsize', halloc] at halloc'
  exact Except.ok.inj halloc'

section Leaks

variable (libs : Libraries)

/-- The parameters of the command that there are objects for. -/
def poolObjects : List (ℕ × AclKind) :=
  [(0, .tensor), (1, .intArray), (2, .intArray), (3, .intArray), (7, .tensor)]

/-- The object for one of them, if the library makes it. -/
def poolObject (reply : Reply) (c : ℕ) (o : ℕ × AclKind) : List Handle :=
  if (getOpApiFuncAddr libs o.2.createName).isSome = true ∧ reply.makes o.1 = true then
    [{ command := c, index := o.1, kind := o.2 }]
  else []

/-- A call whose parameters are converted. -/
def PoolCall.Reaches (call : PoolCall) (reply : PoolReply) : Prop :=
  ∃ result, call.Issues reply result ∧ (aclnnAvgPool3d call result).found libs = true ∧
    (Param.tensor (some call.self)).supported libs = true

/-- The result has the element type of the input, so when the conversion of the
    input goes through, all conversions do. -/
theorem PoolCall.Issues.supported {call : PoolCall} {reply : PoolReply} {result : AtTensor}
    (h : call.Issues reply result) :
    (aclnnAvgPool3d call result).params.all (Param.supported libs) =
      (Param.tensor (some call.self)).supported libs := by
  rcases h with ⟨size, -, halloc⟩
  rcases reply.empty.asked size call.self result halloc with ⟨-, -, htype, hitem⟩
  have hresult : (Param.tensor (some result)).supported libs =
      (Param.tensor (some call.self)).supported libs := by
    unfold Param.supported
    simp only []
    rw [htype, hitem]
  have hlist : ∀ xs, (Param.intArray xs).supported libs = true := fun _ => rfl
  have hvalue : Param.value.supported libs = true := rfl
  unfold aclnnAvgPool3d
  simp only [List.all_cons, List.all_nil, hlist, hvalue, hresult, Bool.true_and, Bool.and_true,
    Bool.and_self]

/-- What is made for a parameter that there is an object for. -/
theorem madeFor_object (reply : Reply) (c i : ℕ) (kind : AclKind) (p : Param)
    (h : p.asks libs = (some kind).filter
      fun kind => (getOpApiFuncAddr libs kind.createName).isSome) :
    madeFor libs reply c i p = poolObject libs reply c (i, kind) := by
  rw [madeFor_of_kind libs reply c i kind p (some ()) h]
  unfold poolObject
  by_cases hfound : (getOpApiFuncAddr libs kind.createName).isSome = true
  · rw [if_pos ⟨hfound, rfl⟩]
    by_cases hmakes : reply.makes i = true
    · rw [if_pos hmakes, if_pos ⟨hfound, hmakes⟩]
    · rw [if_neg hmakes, if_neg (fun hand => hmakes hand.2)]
  · rw [if_neg (fun hand => hfound hand.1), if_neg (fun hand => hfound hand.1)]

/-- When all conversions go through, every parameter gets its object. -/
theorem made_of_supported (reply : Reply) (c i : ℕ) (ps : List Param)
    (h : ps.all (Param.supported libs) = true) :
    made libs reply c i ps = (ps.zipIdx i).flatMap fun q => madeFor libs reply c q.2 q.1 := by
  induction ps generalizing i with
  | nil => rfl
  | cons p ps ih =>
      rw [List.all_cons, Bool.and_eq_true] at h
      rw [made, if_pos h.1, ih (i + 1) h.2, List.zipIdx_cons, List.flatMap_cons]

/-- The objects of a call whose input is supported. -/
theorem made_aclnnAvgPool3d (call : PoolCall) (result : AtTensor) (reply : Reply) (c : ℕ)
    (h : (aclnnAvgPool3d call result).params.all (Param.supported libs) = true) :
    made libs reply c 0 (aclnnAvgPool3d call result).params =
      poolObjects.flatMap (poolObject libs reply c) := by
  rw [made_of_supported libs reply c 0 _ h]
  unfold aclnnAvgPool3d poolObjects
  simp only [List.zipIdx_cons, List.zipIdx_nil, List.flatMap_cons, List.flatMap_nil]
  rw [madeFor_object libs reply c 0 .tensor _ rfl, madeFor_object libs reply c _ .intArray _ rfl,
    madeFor_object libs reply c _ .intArray _ rfl, madeFor_object libs reply c _ .intArray _ rfl,
    madeFor_object libs reply c _ .tensor (.tensor (some result)) rfl]
  rfl

/-- What a call leaves behind. -/
def PoolCall.leaves (c : ℕ) (call : PoolCall) (reply : PoolReply) (h : Handle) : Prop :=
  call.Reaches libs reply ∧ h ∈ poolObjects.flatMap (poolObject libs reply.reply c) ∧
    ¬ (reply.reply.succeeds = true ∧ h.destroyable libs = true)

/-- What a command leaves behind that got to the library. The conversion of the
    input is the only one that can throw, and nothing has been made by then. -/
theorem PoolCall.Issues.leaves_iff {call : PoolCall} {reply : PoolReply} {result : AtTensor}
    (h : call.Issues reply result) (c : ℕ) (g : Handle) :
    g ∈ (aclnnAvgPool3d call result).leaves libs c reply.reply ↔
      call.leaves libs c reply g := by
  have hall := h.supported libs
  have hreaches : call.Reaches libs reply ↔ (aclnnAvgPool3d call result).found libs = true ∧
      (Param.tensor (some call.self)).supported libs = true := by
    constructor
    · rintro ⟨result', hissue, hrest⟩
      rw [h.unique hissue]
      exact hrest
    · exact fun hrest => ⟨result, h, hrest⟩
  unfold Command.leaves PoolCall.leaves Command.completes
  rw [hreaches, hall]
  cases hfound : (aclnnAvgPool3d call result).found libs with
  | false => simp only [Bool.false_eq_true, if_false, false_and, List.not_mem_nil]
  | true =>
      cases hself : (Param.tensor (some call.self)).supported libs with
      | false =>
          -- The first conversion throws.
          have hnone : made libs reply.reply c 0 (aclnnAvgPool3d call result).params = [] := by
            unfold aclnnAvgPool3d made
            rw [hself, if_neg Bool.false_ne_true]
          simp only [Bool.and_false, Bool.false_and, Bool.false_eq_true, if_false, if_true,
            and_false, false_and, hnone, List.not_mem_nil]
      | true =>
          rw [hself] at hall
          -- All five can be there, and go with the last step of the command.
          rw [made_aclnnAvgPool3d libs call result reply.reply c hall]
          cases reply.reply.succeeds with
          | false =>
              simp only [Bool.and_true, Bool.and_false, Bool.false_eq_true, if_false, if_true,
                false_and, not_false_eq_true, and_true, true_and]
          | true =>
              simp only [Bool.and_true, if_true, true_and, List.mem_filter, Bool.not_eq_true',
                Bool.not_eq_true]

/-- The audit of one call, with the objects of earlier ones out of its way. -/
theorem avgPool3d_audit (c : ℕ) (call : PoolCall) (reply : PoolReply) (live : Finset Handle)
    (hlive : ∀ h ∈ live, h.command < c) :
    ∃ live', audit live (ledger (avgPool3d libs c call reply).1) = some live' ∧
      (∀ h, h ∈ live' ↔ h ∈ live ∨ call.leaves libs c reply h) ∧
      ∀ h ∈ live', h.command < c + 1 := by
  rcases avgPool3d_events libs c call reply with ⟨result, hissue, hevents⟩ | ⟨hnone, hevents⟩
  · rw [hevents, execNpuCmd_audit libs c _ reply.reply live hlive]
    refine ⟨_, rfl, fun h => ?_, fun h hmem => ?_⟩
    · rw [Finset.mem_union, List.mem_toFinset, hissue.leaves_iff libs c h]
    · rcases Finset.mem_union.mp hmem with hin | hin
      · exact Nat.lt_succ_of_lt (hlive h hin)
      · have hown := Command.leaves_command libs c _ reply.reply h (List.mem_toFinset.mp hin)
        omega
  · rw [hevents]
    -- Stopped by the size computation or the allocation, a call makes nothing.
    refine ⟨live, rfl, fun h => ?_, fun h hin => Nat.lt_succ_of_lt (hlive h hin)⟩
    refine ⟨Or.inl, fun hor => hor.resolve_right ?_⟩
    rintro ⟨⟨result, hissue, -⟩, -⟩
    exact hnone result hissue

/-- The audit of calls, by induction over them. -/
theorem avgPool3ds_audit (c : ℕ) (calls : List (PoolCall × PoolReply)) (live : Finset Handle)
    (hlive : ∀ h ∈ live, h.command < c) :
    ∃ live', audit live (ledger (avgPool3ds libs c calls)) = some live' ∧
      ∀ h, h ∈ live' ↔ h ∈ live ∨
        ∃ (i : ℕ) (p : PoolCall × PoolReply),
          calls[i]? = some p ∧ p.1.leaves libs (c + i) p.2 h := by
  induction calls generalizing c live with
  | nil =>
      refine ⟨live, rfl, fun h => ⟨Or.inl, fun hor => hor.resolve_right ?_⟩⟩
      rintro ⟨i, p, hp, -⟩
      exact absurd hp (by simp only [List.getElem?_nil, reduceCtorEq, not_false_eq_true])
  | cons q qs ih =>
      rcases avgPool3d_audit libs c q.1 q.2 live hlive with ⟨live₁, haudit₁, hmem₁, hlt₁⟩
      rcases ih (c + 1) live₁ hlt₁ with ⟨live', haudit, hmem⟩
      refine ⟨live', ?_, fun h => ?_⟩
      · rw [avgPool3ds, ledger_append, audit_append, haudit₁]
        exact haudit
      · rw [hmem, hmem₁, or_assoc]
        refine or_congr_right ⟨?_, ?_⟩
        · rintro (hhead | ⟨i, p, hp, hleft⟩)
          · exact ⟨0, q, rfl, hhead⟩
          · refine ⟨i + 1, p, hp, ?_⟩
            rw [← Nat.add_assoc, Nat.add_right_comm]
            exact hleft
        · rintro ⟨i, p, hp, hleft⟩
          cases i with
          | zero =>
              rw [List.getElem?_cons_zero, Option.some_inj] at hp
              subst hp
              exact Or.inl hleft
          | succ i =>
              refine Or.inr ⟨i, p, hp, ?_⟩
              rw [Nat.add_right_comm]
              exact hleft

/-- A call leaves nothing behind. -/
theorem PoolCall.not_leaves_iff (c : ℕ) (call : PoolCall) (reply : PoolReply) :
    (∀ h, ¬ call.leaves libs c reply h) ↔
      (call.Reaches libs reply → ∀ o ∈ poolObjects,
        (getOpApiFuncAddr libs o.2.createName).isSome = true → reply.reply.makes o.1 = true →
          reply.reply.succeeds = true ∧ (getOpApiFuncAddr libs o.2.destroyName).isSome = true) := by
  constructor
  · intro hnone hreaches o ho hfound hmakes
    by_contra hkept
    refine hnone { command := c, index := o.1, kind := o.2 } ⟨hreaches, ?_, hkept⟩
    refine List.mem_flatMap.mpr ⟨o, ho, ?_⟩
    rw [poolObject, if_pos ⟨hfound, hmakes⟩]
    exact List.mem_singleton.mpr rfl
  · rintro hgood h ⟨hreaches, hmem, hkept⟩
    rcases List.mem_flatMap.mp hmem with ⟨o, ho, hmade⟩
    unfold poolObject at hmade
    split at hmade
    · rename_i hand
      rw [List.mem_singleton.mp hmade] at hkept
      exact hkept (hgood hreaches o ho hand.1 hand.2)
    · exact absurd hmade List.not_mem_nil

end Leaks

/-- Whatever calls are made, whatever the libraries have, and whatever they
    answer, objects are made, used and destroyed in order at every point. At the
    end none is left exactly when the library reports no failure to a call whose
    parameters it was given objects for, and has the functions to destroy
    these. -/
theorem avgPool3ds_leakFree_iff (libs : Libraries) (calls : List (PoolCall × PoolReply)) :
    (∀ es, es <+: avgPool3ds libs 0 calls → (audit ∅ (ledger es)).isSome = true) ∧
      (audit ∅ (ledger (avgPool3ds libs 0 calls)) = some ∅ ↔
        ∀ p ∈ calls, p.1.Reaches libs p.2 → ∀ o ∈ poolObjects,
          (getOpApiFuncAddr libs o.2.createName).isSome = true → p.2.reply.makes o.1 = true →
            p.2.reply.succeeds = true ∧
              (getOpApiFuncAddr libs o.2.destroyName).isSome = true) := by
  rcases avgPool3ds_audit libs 0 calls ∅ (fun h hmem => absurd hmem (Finset.notMem_empty h)) with
    ⟨live, haudit, hmem⟩
  refine ⟨fun es hpre => audit_prefix hpre haudit, ?_⟩
  rw [haudit, Option.some_inj, Finset.eq_empty_iff_forall_notMem]
  constructor
  · intro hempty p hp
    rcases List.mem_iff_getElem?.mp hp with ⟨i, hi⟩
    refine (p.1.not_leaves_iff libs (0 + i) p.2).mp (fun h hleft => ?_)
    exact hempty h ((hmem h).mpr (Or.inr ⟨i, p, hi, hleft⟩))
  · intro hgood h hin
    rcases (hmem h).mp hin with hempty | ⟨i, p, hi, hleft⟩
    · exact Finset.notMem_empty h hempty
    · exact (p.1.not_leaves_iff libs (0 + i) p.2).mpr
        (hgood p (List.mem_iff_getElem?.mpr ⟨i, hi⟩)) h hleft

/-- The triple a list in memory is read as. -/
def ListArgument.triple (x : ListArgument) (a : Axis) : Int64 :=
  if x.entries.length = 1 then x.entries.getD 0 (x.behind 0)
  else x.entries.getD a.index (x.behind a.index)

theorem ListArgument.readTriple_ref (x : ListArgument) : readTriple x.ref = .ok x.triple := by
  unfold readTriple ref ArrayRef.inMemory
  dsimp only
  by_cases hone : x.entries.length = 1
  · simp only [if_pos hone]
    refine congrArg Except.ok (funext fun a => ?_)
    unfold triple
    rw [if_pos hone]
    cases a <;> rfl
  · simp only [if_neg hone]
    refine congrArg Except.ok (funext fun a => ?_)
    unfold triple
    rw [if_neg hone]
    cases a <;> rfl

/-- The strides a call works with. -/
def PoolCall.strides (call : PoolCall) : Axis → Int64 :=
  if call.stride.entries = [] then call.kernel_size.triple else call.stride.triple

theorem PoolCall.readStride_ref (call : PoolCall) :
    readStride call.kernel_size.triple call.stride.ref = .ok call.strides := by
  unfold readStride strides
  rcases hs : call.stride.entries with _ | ⟨x, rest⟩
  · rw [if_pos rfl]
    refine if_pos ?_
    unfold ListArgument.ref ArrayRef.inMemory ArrayRef.empty
    rw [hs]
    rfl
  · rw [if_neg (List.cons_ne_nil x rest), ← call.stride.readTriple_ref]
    refine if_neg ?_
    unfold ListArgument.ref ArrayRef.inMemory ArrayRef.empty
    rw [hs]
    exact Bool.noConfusion

/-- What the checks of a call let through. The values checked are those that
    were read, also where a list has fewer entries. -/
structure PoolCall.Accepts (call : PoolCall) : Prop where
  dims : call.self.sizes.length = 4 ∨ call.self.sizes.length = 5
  kernel : call.kernel_size.entries ≠ []
  strides : (∀ a, call.strides a ≠ 0) ∧ call.strides .d * call.strides .h * call.strides .w ≠ 0
  bounds : ∀ a, 0 ≤ call.padding.triple a ∧
    call.padding.triple a ≤ call.kernel_size.triple a / 2
  sizes : ∀ a, 0 < pooledSize call.ceil_mode (selfSize call.self.window a)
    (call.kernel_size.triple a) (call.strides a) (call.padding.triple a)

/-- The shape of the result: there is one when the checks let the call
    through. -/
theorem PoolCall.outputSize_ok (call : PoolCall) (out : List Int64) :
    call.outputSize = .ok out ↔ call.Accepts ∧ out = leadingSizes call.self.window ++
      Axis.list fun a => axisSize call.ceil_mode (selfSize call.self.window a)
        (call.kernel_size.triple a) (call.strides a) (call.padding.triple a) := by
  have hempty : call.kernel_size.ref.empty = false ↔ call.kernel_size.entries ≠ [] := by
    unfold ListArgument.ref ArrayRef.inMemory ArrayRef.empty
    cases call.kernel_size.entries <;> simp
  unfold outputSize
  simp only [calcAvgPool3dOutputSizeOf_ok, ListArgument.readTriple_ref, Except.ok.injEq,
    exists_eq_left', call.readStride_ref, tripleOutputSize_ok, avgPool3dNpuOutputSize_ok, hempty]
  constructor
  · rintro ⟨hkernel, hzero, hneg, hhalf, hdims, hprod, hsizes, hout⟩
    exact ⟨⟨hdims, hkernel, ⟨hzero, hprod⟩, fun a => ⟨hneg a, hhalf a⟩, hsizes⟩, hout⟩
  · rintro ⟨h, hout⟩
    exact ⟨h.kernel, h.strides.1, fun a => (h.bounds a).1, fun a => (h.bounds a).2, h.dims,
      h.strides.2, h.sizes, hout⟩

/-- Where no list is read past its end, what lies behind the lists plays no
    part. -/
theorem PoolCall.outputSize_of_watched (call : PoolCall)
    (h : calcAvgPool3dOutputSize call.self.window call.kernel_size.entries call.stride.entries
      call.padding.entries call.ceil_mode ≠ .error .outOfRange) :
    call.outputSize = calcAvgPool3dOutputSize call.self.window call.kernel_size.entries
      call.stride.entries call.padding.entries call.ceil_mode :=
  calcAvgPool3dOutputSizeOf_inMemory _ _ _ _ _ _ _ _ h

/-- A call that issues a command has passed its checks, and the result has as
    many axes as the input. -/
theorem PoolCall.Issues.accepts {call : PoolCall} {reply : PoolReply} {result : AtTensor}
    (h : call.Issues reply result) :
    call.Accepts ∧ result.sizes.length = call.self.sizes.length ∧
      result.scalarType = call.self.scalarType := by
  rcases h with ⟨size, hsize, halloc⟩
  rcases (call.outputSize_ok size).mp hsize with ⟨haccepts, hout⟩
  have hdims : call.self.window.dim = 4 ∨ call.self.window.dim = 5 := haccepts.dims
  rcases reply.empty.asked size call.self result halloc with ⟨-, hsizes, htype, -⟩
  refine ⟨haccepts, ?_, htype⟩
  have hfour : (leadingSizes call.self.window).length + 3 = call.self.sizes.length := by
    unfold leadingSizes
    rcases hdims with hdim | hdim
    · rw [if_pos hdim]
      exact hdim.symm
    · rw [if_neg (by rw [hdim]; decide)]
      exact hdim.symm
  rw [hsizes, List.length_map, hout, List.length_append, ← hfour]
  rfl

/-- The object of a tensor with four or five axes. -/
def AtTensor.poolSource (t : AtTensor) : AclSource :=
  .tensor t.sizes (kATenScalarTypeToAclDataTypeTable t.scalarType) t.strides t.storageOffset
    (if t.sizes.length = 4 then .nchw else .ncdhw) [t.nbytes / t.itemsize] t.storage

theorem AtTensor.source_eq {t : AtTensor} (h : t.sizes.length = 4 ∨ t.sizes.length = 5) :
    t.source = t.poolSource := by
  unfold source poolSource
  rcases h with hdim | hdim
  · rw [hdim]
    rfl
  · rw [hdim]
    rfl

/-- What the library is handed for a call, by parameter. -/
def PoolCall.handed (call : PoolCall) (result : AtTensor) : ℕ → Option (AclKind × AclSource)
  | 0 => some (.tensor, call.self.poolSource)
  | 1 => some (.intArray, .intArray call.kernel_size.entries)
  | 2 => some (.intArray, .intArray call.stride.entries)
  | 3 => some (.intArray, .intArray call.padding.entries)
  | 7 => some (.tensor, result.poolSource)
  | _ => none

/-- The objects of one call. -/
theorem PoolCall.Issues.handed {call : PoolCall} {reply : PoolReply} {result : AtTensor}
    (hissue : call.Issues reply result) (libs : Libraries) (c : ℕ) (h : Handle)
    (source : AclSource)
    (he : .create h source ∈
      (execNpuCmd libs c (aclnnAvgPool3d call result) reply.reply).events) :
    h.command = c ∧ call.handed result h.index = some (h.kind, source) ∧
      (h.kind = .tensor →
        kATenScalarTypeToAclDataTypeTable call.self.scalarType ≠ .undefined) := by
  rcases execNpuCmd_creates libs c _ reply.reply h source he with ⟨hcommand, p, hp, hmakes⟩
  rcases hissue.accepts with ⟨haccepts, hlength, htype⟩
  have hresult : result.sizes.length = 4 ∨ result.sizes.length = 5 := by
    rw [hlength]
    exact haccepts.dims
  refine ⟨hcommand, ?_⟩
  rcases h with ⟨command, index, kind⟩
  dsimp only at hp hmakes ⊢
  -- One case for each parameter of the command.
  rcases index with _ | _ | _ | _ | _ | _ | _ | _ | index
  · cases hp
    rcases hmakes with ⟨rfl, rfl, hsupported, -⟩
    rw [AtTensor.source_eq haccepts.dims]
    exact ⟨rfl, fun _ => hsupported⟩
  · cases hp
    rcases hmakes with ⟨rfl, rfl⟩
    exact ⟨rfl, fun heq => absurd heq (by simp only [reduceCtorEq, not_false_eq_true])⟩
  · cases hp
    rcases hmakes with ⟨rfl, rfl⟩
    exact ⟨rfl, fun heq => absurd heq (by simp only [reduceCtorEq, not_false_eq_true])⟩
  · cases hp
    rcases hmakes with ⟨rfl, rfl⟩
    exact ⟨rfl, fun heq => absurd heq (by simp only [reduceCtorEq, not_false_eq_true])⟩
  · cases hp
    exact hmakes.elim
  · cases hp
    exact hmakes.elim
  · cases hp
    exact hmakes.elim
  · cases hp
    rcases hmakes with ⟨rfl, rfl, hsupported, -⟩
    rw [AtTensor.source_eq hresult, ← htype]
    exact ⟨rfl, fun _ => hsupported⟩
  · exact absurd hp (by
      unfold aclnnAvgPool3d
      simp only [List.getElem?_cons_succ, List.getElem?_nil, reduceCtorEq, not_false_eq_true])

/-- The objects of calls, by induction over them. -/
theorem avgPool3ds_creates (libs : Libraries) (c : ℕ) (calls : List (PoolCall × PoolReply))
    (h : Handle) (source : AclSource) (he : .create h source ∈ avgPool3ds libs c calls) :
    ∃ n p result, h.command = c + n ∧ calls[n]? = some p ∧ p.1.Issues p.2 result ∧
      p.1.handed result h.index = some (h.kind, source) ∧ (h.kind = .tensor →
        kATenScalarTypeToAclDataTypeTable p.1.self.scalarType ≠ .undefined) := by
  induction calls generalizing c with
  | nil => exact absurd he List.not_mem_nil
  | cons q qs ih =>
      rcases List.mem_append.mp he with hhead | htail
      · rcases avgPool3d_events libs c q.1 q.2 with ⟨result, hissue, hevents⟩ | ⟨-, hevents⟩
        · rw [hevents] at hhead
          rcases hissue.handed libs c h source hhead with ⟨hcommand, hhanded, htype⟩
          exact ⟨0, q, result, hcommand, rfl, hissue, hhanded, htype⟩
        · rw [hevents] at hhead
          exact absurd hhead List.not_mem_nil
      · rcases ih (c + 1) htail with ⟨n, p, result, hcommand, hp, hrest⟩
        refine ⟨n + 1, p, result, ?_, hp, hrest⟩
        rw [hcommand, Nat.add_right_comm, Nat.add_assoc]

/-- A packed tensor with the element type of another one. -/
def packed (size : List Int64) (options : AtTensor) : AtTensor :=
  let sizes := size.map Int64.toNatClampNeg
  { options with
    sizes := sizes
    strides := sizes.tails.tail.map List.prod
    nbytes := sizes.prod * options.itemsize }

/-- An allocation that always goes through, unless it is asked for a negative
    size. -/
def packedEmpty : EmptyWithFormat where
  alloc := fun size options =>
    if (size.all fun n => decide (0 ≤ n)) = true then .ok (packed size options)
    else .error "negative dimension"
  asked := by
    intro size options t h
    split at h
    · rename_i hsize
      cases h
      exact ⟨fun n hn => of_decide_eq_true (List.all_eq_true.mp hsize n hn), rfl, rfl, rfl⟩
    · cases h

/-- Windows of two on four entries each way. -/
def smallPool : PoolCall where
  self :=
    { scalarType := .float, sizes := [1, 1, 4, 4, 4], strides := [64, 64, 16, 4, 1],
      storageOffset := 0, itemsize := 4, nbytes := 256, storage := 0 }
  kernel_size := ⟨[2], fun _ => 0⟩
  stride := ⟨[], fun _ => 0⟩
  padding := ⟨[0], fun _ => 0⟩
  ceil_mode := false

def fineReply : PoolReply where
  empty := packedEmpty
  reply :=
    { makes := fun _ => true, workspaceStatus := 0, workspaceSize := 0, workspaceError := none,
      apiRet := 0, recentErrMsg := "" }

def fullLibraries : Libraries where
  cust := none
  opApi := some fun _ => some 0

/-- The result of the call. -/
def smallResult : AtTensor := packed [1, 1, 2, 2, 2] smallPool.self

/-- Two kernel sizes with a zero behind them pass the checks, and the library is
    handed the two. -/
example : .create ⟨0, 1, .intArray⟩ (.intArray [2, 2]) ∈ avgPool3ds fullLibraries 0
    [({ smallPool with kernel_size := ⟨[2, 2], fun _ => 0⟩, stride := ⟨[1], fun _ => 0⟩ },
      fineReply)] := by decide +kernel

theorem smallPool_creates :
    .create ⟨0, 7, .tensor⟩ smallResult.poolSource ∈
      avgPool3ds fullLibraries 0 [(smallPool, fineReply)] := by decide +kernel

end AscendKernel
