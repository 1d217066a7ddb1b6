import AscendKernel.Core.NpuCommand

/-!
# What Objects Are Made Of

Computations on the operator library step by step, and the objects that the
conversion of parameters makes.

A handle carries the index of a parameter, and this is what it means: an object
is made of the parameter at that index and of nothing else. A tensor among them
has an element type that the library knows, since the others stop the command
first. Conversions do nothing else, so what is known of the making of objects is
known of all their events, `convertTypes_mem`.

## Main definitions

* `AtTensor.source`: What the object of a tensor contains.
* `Param.Makes`: The object that can be made of a parameter.

## Theorems

* `NpuRun.bind_of_ok`, `NpuRun.bind_of_error`, `NpuRun.mem_bind`: One
  computation after another.
* `convertType_mem`, `convertTypes_mem`: One conversion, and all of them.
-/

namespace AscendKernel

namespace NpuRun

variable {α β : Type}

theorem bind_of_ok {r : NpuRun α} {a : α} (h : r.result = .ok a) (f : α → NpuRun β) :
    (r >>= f).events = r.events ++ (f a).events ∧ (r >>= f).result = (f a).result := by
  change (r.andThen f).events = _ ∧ (r.andThen f).result = _
  unfold andThen
  rw [h]
  exact ⟨rfl, rfl⟩

theorem bind_of_error {r : NpuRun α} {e : NpuFailure} (h : r.result = .error e)
    (f : α → NpuRun β) : (r >>= f).events = r.events ∧ (r >>= f).result = .error e := by
  change (r.andThen f).events = _ ∧ (r.andThen f).result = _
  unfold andThen
  rw [h]
  exact ⟨rfl, rfl⟩

theorem torchCheck_bind (cond : Bool) (msg : String) (f : Unit → NpuRun β) :
    (torchCheck cond msg >>= f) =
      if cond = true then f () else { events := [], result := .error (.torchCheck msg) } := by
  cases cond <;> rfl

theorem emit_bind (es : List NpuEvent) (f : Unit → NpuRun β) :
    (emit es >>= f) = { events := es ++ (f ()).events, result := (f ()).result } := rfl

/-- The events of both parts are those of a computation. -/
theorem mem_bind (r : NpuRun α) (f : α → NpuRun β) (e : NpuEvent)
    (he : e ∈ (r >>= f).events) : e ∈ r.events ∨ ∃ a, r.result = .ok a ∧ e ∈ (f a).events := by
  cases hresult : r.result with
  | ok a =>
      rw [(bind_of_ok hresult f).1] at he
      exact (List.mem_append.mp he).imp_right fun hf => ⟨a, rfl, hf⟩
  | error e' =>
      rw [(bind_of_error hresult f).1] at he
      exact Or.inl he

end NpuRun

variable (libs : Libraries)

/-- What the object made of a tensor contains. -/
def AtTensor.source (t : AtTensor) : AclSource :=
  .tensor t.sizes (kATenScalarTypeToAclDataTypeTable t.scalarType) t.strides t.storageOffset
    (formatOf t.sizes.length) [t.nbytes / t.itemsize] t.storage

/-- The object that can be made of a parameter. -/
def Param.Makes (kind : AclKind) (source : AclSource) : Param → Prop
  | .tensor (some t) => kind = .tensor ∧ source = t.source ∧
      kATenScalarTypeToAclDataTypeTable t.scalarType ≠ .undefined ∧ t.itemsize ≠ 0
  | .scalar (some s) =>
    kind = .scalar ∧ source = .scalar s (kATenScalarTypeToAclDataTypeTable s.type)
  | .intArray (some xs) => kind = .intArray ∧ source = .intArray xs
  | .boolArray bs => kind = .boolArray ∧ source = .boolArray bs
  | _ => False

/-- The only event of `create` is the object it makes. -/
theorem create_mem (reply : Reply) (c i : ℕ) (kind : AclKind) (source : AclSource) (e : NpuEvent)
    (he : e ∈ (create reply c i kind source).events) :
    e = .create { command := c, index := i, kind := kind } source := by
  unfold create at he
  split at he
  · exact List.mem_singleton.mp he
  · exact absurd he List.not_mem_nil

theorem whenFound_mem {α : Type} (kind : AclKind) (x : Option α) (convert : α → NpuRun Arg)
    (e : NpuEvent) (he : e ∈ (whenFound libs kind x convert).events) :
    ∃ v, x = some v ∧ e ∈ (convert v).events := by
  unfold whenFound at he
  split at he
  · cases x with
    | none => exact absurd he List.not_mem_nil
    | some v => exact ⟨v, rfl, he⟩
  · exact absurd he List.not_mem_nil

/-- A conversion makes an object of its parameter or does nothing. -/
theorem convertType_mem (reply : Reply) (c i : ℕ) (p : Param) (e : NpuEvent)
    (he : e ∈ (convertType libs reply c i p).events) :
    ∃ kind source, e = .create { command := c, index := i, kind := kind } source ∧
      p.Makes kind source := by
  cases p with
  | tensor t =>
      rcases whenFound_mem libs .tensor t _ e he with ⟨v, rfl, hv⟩
      unfold convertTensor at hv
      simp only [NpuRun.torchCheck_bind, bne_iff_ne] at hv
      split at hv
      · rename_i htype
        split at hv
        · exact absurd hv List.not_mem_nil
        · rename_i hsize
          exact ⟨_, _, create_mem reply c i _ _ e hv, rfl, rfl, htype, hsize⟩
      · exact absurd hv List.not_mem_nil
  | scalar s =>
      rcases whenFound_mem libs .scalar s _ e he with ⟨v, rfl, hv⟩
      unfold convertScalar at hv
      simp only [NpuRun.torchCheck_bind] at hv
      split at hv
      · exact ⟨_, _, create_mem reply c i _ _ e hv, rfl, rfl⟩
      · exact absurd hv List.not_mem_nil
  | intArray xs =>
      rcases whenFound_mem libs .intArray xs _ e he with ⟨v, rfl, hv⟩
      exact ⟨_, _, create_mem reply c i _ _ e hv, rfl, rfl⟩
  | boolArray bs =>
      rcases whenFound_mem libs .boolArray (some bs) _ e he with ⟨v, hbs, hv⟩
      cases hbs
      exact ⟨_, _, create_mem reply c i _ _ e hv, rfl, rfl⟩
  | value => exact absurd he List.not_mem_nil

/-- All conversions: every object is made of the parameter it has the index
    of. -/
theorem convertTypes_mem (reply : Reply) (c i : ℕ) (ps : List Param) (e : NpuEvent)
    (he : e ∈ (convertTypes libs reply c i ps).events) :
    ∃ n p kind source, ps[n]? = some p ∧
      e = .create { command := c, index := i + n, kind := kind } source ∧ p.Makes kind source := by
  induction ps generalizing i with
  | nil => exact absurd he List.not_mem_nil
  | cons q qs ih =>
      unfold convertTypes at he
      rcases NpuRun.mem_bind _ _ e he with hhead | ⟨a, -, hrest⟩
      · rcases convertType_mem libs reply c i q e hhead with ⟨kind, source, heq, hmakes⟩
        exact ⟨0, q, kind, source, rfl, heq, hmakes⟩
      · rcases NpuRun.mem_bind _ _ e hrest with htail | ⟨rest, -, hdone⟩
        · rcases ih (i + 1) htail with ⟨n, p, kind, source, hp, heq, hmakes⟩
          refine ⟨n + 1, p, kind, source, hp, ?_, hmakes⟩
          rw [heq, Nat.add_right_comm, Nat.add_assoc]
        · exact absurd hdone List.not_mem_nil

end AscendKernel
