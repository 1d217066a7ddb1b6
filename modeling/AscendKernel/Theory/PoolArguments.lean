import AscendKernel.Core.AvgPool

/-!
# The Argument Lists of Pooling

Which lists the size computation accepts, and what it takes them to mean.

Each of the three lists is read as a triple by the same rule: with one entry it
stands for that entry on every axis, otherwise its first three entries are
read. `readTriple_eq` shows where this goes wrong. An empty list and a list of
two are read past their end, and of a list of four or more everything after the
third entry is silently dropped. Of all this the source checks only that the
kernel list is not empty; an empty stride list is never read, so there it is
harmless.

Once the lists have been read, what is left is a computation on triples,
`tripleOutputSize`. `calcAvgPool3dOutputSize_ok` and
`calcAvgPool3dOutputSize_outOfRange` take the whole apart, and everything later
about accepted arguments starts from the first of them.

In the operator the bounds are not watched. `ArrayRef.inMemory` reads on there,
and `calcAvgPool3dOutputSizeOf_inMemory` says that where nothing is read past an
end the two agree.

## Main definitions

* `normal`, `normalStride`: The triples a call works with.
* `tripleOutputSize`: What a call comes to on triples.
* `asTriple`: What a list of one or three stands for.
* `ListsAsDocumented`: The lengths the arguments are meant to have.
* `Configures`: Lists of these lengths, with the triples they stand for.
* `ValuesPass`: The checks made on values.
* `HandlesLists`: Lists handled as meant.

## Theorems

* `readTriple_eq`: A list read as a triple.
* `calcAvgPool3dOutputSizeOf_ok`: When a call returns a shape, however its lists
  are read.
* `calcAvgPool3dOutputSize_ok`: When a call returns a shape.
* `calcAvgPool3dOutputSize_outOfRange`: When it reads past the end of a list.
* `calcAvgPool3dOutputSizeOf_inMemory`: When it does not, bounds play no part.
* `Configures.calc_ok`: When lists of the lengths meant give a shape.
* `handlesLists_iff`: When the lists are handled as meant.
-/

namespace AscendKernel

theorem Axis.forall_iff (P : Axis → Prop) : (∀ a, P a) ↔ P .d ∧ P .h ∧ P .w := by
  constructor
  · intro h
    exact ⟨h .d, h .h, h .w⟩
  · rintro ⟨hd, hh, hw⟩ (_ | _ | _)
    · exact hd
    · exact hh
    · exact hw

theorem poolCheck_eq_ok (c : Bool) (msg : String) (u : Unit) :
    poolCheck c msg = .ok u ↔ c = true := by
  cases c <;> simp [poolCheck]

/-- A failed check is not a read past the end of a list. -/
theorem poolCheck_eq_outOfRange (c : Bool) (msg : String) :
    poolCheck c msg = .error .outOfRange ↔ False := by
  cases c <;> simp [poolCheck]

/-- The triple a list is read as. -/
def normal (xs : List Int64) (a : Axis) : Int64 :=
  if xs.length = 1 then xs.getD 0 0 else xs.getD a.index 0

/-- The strides a call works with. -/
def normalStride (kernel_size stride : List Int64) : Axis → Int64 :=
  if stride = [] then normal kernel_size else normal stride

/-- A list is read within its bounds unless it is empty or has two entries. -/
theorem readTriple_eq (xs : List Int64) :
    readTriple (.ofList xs)
      = if xs = [] ∨ xs.length = 2 then .error .outOfRange else .ok (normal xs) := by
  rcases xs with _ | ⟨x, _ | ⟨y, _ | ⟨z, rest⟩⟩⟩
  · rfl
  · refine congrArg Except.ok (funext fun a => ?_)
    cases a <;> rfl
  · -- The third of two entries.
    rfl
  · -- What follows the third entry is not looked at.
    have hread : readTriple (.ofList (x :: y :: z :: rest)) = .ok (Axis.triple x y z) := by
      unfold readTriple
      simp [ArrayRef.ofList, bind, Except.bind, pure, Except.pure]
    rw [hread, if_neg (by simp)]
    refine congrArg Except.ok (funext fun a => ?_)
    cases a <;> simp [normal, Axis.triple, Axis.index]

theorem readTriple_eq_ok (xs : List Int64) (x : Axis → Int64) :
    readTriple (.ofList xs) = .ok x ↔ (xs ≠ [] ∧ xs.length ≠ 2) ∧ x = normal xs := by
  rw [readTriple_eq]
  by_cases h : xs = [] ∨ xs.length = 2
  · rw [if_pos h]
    simp only [reduceCtorEq, false_iff, not_and]
    rintro ⟨hne, htwo⟩
    exact absurd h (not_or.mpr ⟨hne, htwo⟩)
  · rw [if_neg h, Except.ok.injEq]
    exact ⟨fun heq => ⟨not_or.mp h, heq.symm⟩, fun heq => heq.2.symm⟩

theorem readTriple_eq_outOfRange (xs : List Int64) :
    readTriple (.ofList xs) = .error .outOfRange ↔ xs = [] ∨ xs.length = 2 := by
  rw [readTriple_eq]
  by_cases h : xs = [] ∨ xs.length = 2
  · rw [if_pos h]
    exact iff_of_true rfl h
  · rw [if_neg h]
    simp only [reduceCtorEq, h]

/-- The strides are read within bounds unless there are two of them. -/
theorem readStride_eq (kernel_size stride : List Int64) :
    readStride (normal kernel_size) (.ofList stride)
      = if stride.length = 2 then .error .outOfRange
        else .ok (normalStride kernel_size stride) := by
  rcases stride with _ | ⟨x, rest⟩
  · -- Without strides nothing is read.
    rfl
  · rw [readStride, if_neg (by simp [ArrayRef.empty, ArrayRef.ofList]), readTriple_eq, normalStride]
    simp

theorem readStride_eq_ok (kernel_size stride : List Int64) (s : Axis → Int64) :
    readStride (normal kernel_size) (.ofList stride) = .ok s ↔
      stride.length ≠ 2 ∧ s = normalStride kernel_size stride := by
  rw [readStride_eq]
  by_cases h : stride.length = 2
  · rw [if_pos h]
    simp only [reduceCtorEq, false_iff, not_and]
    exact fun hne => absurd h hne
  · rw [if_neg h, Except.ok.injEq]
    exact ⟨fun heq => ⟨h, heq.symm⟩, fun heq => heq.2.symm⟩

theorem readStride_eq_outOfRange (kernel_size stride : List Int64) :
    readStride (normal kernel_size) (.ofList stride) = .error .outOfRange ↔ stride.length = 2 := by
  rw [readStride_eq]
  by_cases h : stride.length = 2
  · rw [if_pos h]
    exact iff_of_true rfl h
  · rw [if_neg h]
    simp only [reduceCtorEq, h]

/-- The size of one axis of the result. -/
def axisSize (ceil_mode : Bool) (self_x : Int32) (kernel stride padding : Int64) : Int64 :=
  correctedSize ceil_mode (pooledSize ceil_mode self_x kernel stride padding) self_x stride padding

/-- The sizes of the result before its spatial ones. -/
def leadingSizes (self : Tensor) : List Int64 :=
  if self.dim = 4 then [Int64.ofNat (self.size 0)]
  else [Int64.ofNat (self.size 0), Int64.ofNat (self.size 1)]

theorem entry_list (x : Axis → Int64) (a : Axis) : entry (Axis.list x) a = x a := by
  cases a <;> rfl

section Triples

variable (self : Tensor) (k s p : Axis → Int64) (ceil_mode : Bool)

/-- On triples, what the inner function checks and returns. -/
theorem avgPool3dNpuOutputSize_ok (out : List Int64) :
    avgPool3dNpuOutputSize self (Axis.list k) (Axis.list s) (Axis.list p) ceil_mode = .ok out ↔
      (self.dim = 4 ∨ self.dim = 5) ∧ s .d * s .h * s .w ≠ 0 ∧
        (∀ a, 0 < pooledSize ceil_mode (selfSize self a) (k a) (s a) (p a)) ∧
        out = leadingSizes self
          ++ Axis.list fun a => axisSize ceil_mode (selfSize self a) (k a) (s a) (p a) := by
  have hlen : ∀ x : Axis → Int64, ((Axis.list x).length == 3) = true := fun _ => rfl
  unfold avgPool3dNpuOutputSize
  simp only [bind_eq_ok, poolCheck_eq_ok, entry_list, hlen, exists_const, true_and,
    Bool.or_eq_true, beq_iff_eq, decide_eq_true_eq, Axis.forall_iff, and_assoc]
  refine and_congr_right (fun _ => and_congr_right (fun _ => and_congr_right (fun _ =>
    and_congr_right (fun _ => and_congr_right (fun _ => ?_)))))
  rw [leadingSizes]
  -- The two shapes, with and without a batch axis.
  by_cases h : self.dim = 4
  · rw [if_pos h, if_pos h]
    exact (Except.ok.injEq _ _).to_iff.trans eq_comm
  · rw [if_neg h, if_neg h]
    exact (Except.ok.injEq _ _).to_iff.trans eq_comm

/-- The inner function reads its lists only after checking their lengths. -/
theorem avgPool3dNpuOutputSize_ne_outOfRange (kernel_size stride padding : List Int64) :
    avgPool3dNpuOutputSize self kernel_size stride padding ceil_mode ≠ .error .outOfRange := by
  intro h
  unfold avgPool3dNpuOutputSize at h
  simp only [bind_eq_error, poolCheck_eq_outOfRange, false_or] at h
  -- No check stops with it, and all that is left returns one of two shapes.
  rcases h with ⟨_, _, _, _, _, _, _, _, _, _, _, _, _, _, _, _, h⟩
  split at h <;> simp [pure, Except.pure] at h

end Triples

/-- What a call comes to once its lists have been read as triples. -/
def tripleOutputSize (self : Tensor) (k s p : Axis → Int64) (ceil_mode : Bool) :
    Except PoolFailure (List Int64) := do
  poolCheck (decide (s .d ≠ 0 ∧ s .h ≠ 0 ∧ s .w ≠ 0)) "stride should not be zero"
  poolCheck (decide (0 ≤ p .d ∧ 0 ≤ p .h ∧ 0 ≤ p .w)) "pad should not be less than 0"
  poolCheck (decide (p .d ≤ k .d / 2 ∧ p .h ≤ k .h / 2 ∧ p .w ≤ k .w / 2))
    "pad should be smaller than or equal to half of kernel size"
  avgPool3dNpuOutputSize self (Axis.list k) (Axis.list s) (Axis.list p) ceil_mode

/-- The checks a triple has to pass. -/
theorem tripleOutputSize_ok (self : Tensor) (k s p : Axis → Int64) (ceil_mode : Bool)
    (out : List Int64) :
    tripleOutputSize self k s p ceil_mode = .ok out ↔
      (∀ a, s a ≠ 0) ∧ (∀ a, 0 ≤ p a) ∧ (∀ a, p a ≤ k a / 2) ∧
        avgPool3dNpuOutputSize self (Axis.list k) (Axis.list s) (Axis.list p) ceil_mode
          = .ok out := by
  unfold tripleOutputSize
  simp only [bind_eq_ok, poolCheck_eq_ok, exists_const, decide_eq_true_eq, Axis.forall_iff]

section Refs

variable (self : Tensor) {K S P : ArrayRef} {k s p : Axis → Int64} (ceil_mode : Bool)

/-- Lists that can be read as triples are handled as these triples. -/
theorem calcAvgPool3dOutputSizeOf_eq (hne : K.empty = false) (hk : readTriple K = .ok k)
    (hs : readStride k S = .ok s) (hp : readTriple P = .ok p) :
    calcAvgPool3dOutputSizeOf self K S P ceil_mode = tripleOutputSize self k s p ceil_mode := by
  unfold calcAvgPool3dOutputSizeOf tripleOutputSize
  rw [hne, hk]
  simp only [hs, hp, ok_bind]
  rfl

/-- A call returns a shape when its lists can be read as triples, and these
    pass the checks. -/
theorem calcAvgPool3dOutputSizeOf_ok (K S P : ArrayRef) (out : List Int64) :
    calcAvgPool3dOutputSizeOf self K S P ceil_mode = .ok out ↔
      K.empty = false ∧ ∃ k, readTriple K = .ok k ∧ ∃ s, readStride k S = .ok s ∧
        ∃ p, readTriple P = .ok p ∧ tripleOutputSize self k s p ceil_mode = .ok out := by
  constructor
  · intro h
    have hcalc := h
    unfold calcAvgPool3dOutputSizeOf at h
    simp only [bind_eq_ok, poolCheck_eq_ok, Bool.not_eq_true'] at h
    rcases h with ⟨_, hne, k, hk, s, hs, _, _, p, hp, _⟩
    rw [calcAvgPool3dOutputSizeOf_eq self ceil_mode hne hk hs hp] at hcalc
    exact ⟨hne, k, hk, s, hs, p, hp, hcalc⟩
  · rintro ⟨hne, k, hk, s, hs, p, hp, hout⟩
    rw [calcAvgPool3dOutputSizeOf_eq self ceil_mode hne hk hs hp]
    exact hout

end Refs

theorem ArrayRef.ofList_empty (xs : List Int64) :
    (ArrayRef.ofList xs).empty = false ↔ xs ≠ [] := by
  cases xs <;> simp [ArrayRef.ofList, ArrayRef.empty]

section Lists

variable (self : Tensor) (kernel_size stride padding : List Int64) (ceil_mode : Bool)

/-- A call returns a shape when its lists are read within bounds, the checks on
    the triples pass, and the inner function returns it. -/
theorem calcAvgPool3dOutputSize_ok (out : List Int64) :
    calcAvgPool3dOutputSize self kernel_size stride padding ceil_mode = .ok out ↔
      (kernel_size ≠ [] ∧ kernel_size.length ≠ 2) ∧ stride.length ≠ 2 ∧
        (∀ a, normalStride kernel_size stride a ≠ 0) ∧
        (padding ≠ [] ∧ padding.length ≠ 2) ∧ (∀ a, 0 ≤ normal padding a) ∧
        (∀ a, normal padding a ≤ normal kernel_size a / 2) ∧
        avgPool3dNpuOutputSize self (Axis.list (normal kernel_size))
          (Axis.list (normalStride kernel_size stride)) (Axis.list (normal padding)) ceil_mode
          = .ok out := by
  unfold calcAvgPool3dOutputSize
  simp only [calcAvgPool3dOutputSizeOf_ok, ArrayRef.ofList_empty, readTriple_eq_ok,
    tripleOutputSize_ok]
  constructor
  · rintro ⟨_, k, ⟨hk, rfl⟩, s, hs, p, ⟨hp, rfl⟩, hzero, hrest⟩
    rw [readStride_eq_ok] at hs
    rcases hs with ⟨hs, rfl⟩
    exact ⟨hk, hs, hzero, hp, hrest⟩
  · rintro ⟨hk, hs, hzero, hp, hrest⟩
    exact ⟨hk.1, _, ⟨hk, rfl⟩, _, (readStride_eq_ok _ _ _).mpr ⟨hs, rfl⟩, _, ⟨hp, rfl⟩, hzero,
      hrest⟩

/-- A call reads past the end of a list when the kernel or the stride list has
    two entries, or, with strides that pass their check, the padding list has
    none or two. -/
theorem calcAvgPool3dOutputSize_outOfRange :
    calcAvgPool3dOutputSize self kernel_size stride padding ceil_mode = .error .outOfRange ↔
      kernel_size ≠ [] ∧ (kernel_size.length = 2 ∨ stride.length = 2 ∨
        (∀ a, normalStride kernel_size stride a ≠ 0) ∧ (padding = [] ∨ padding.length = 2)) := by
  have hnil : (!(ArrayRef.ofList kernel_size).empty) = true ↔ kernel_size ≠ [] := by
    rw [Bool.not_eq_true', ArrayRef.ofList_empty]
  unfold calcAvgPool3dOutputSize calcAvgPool3dOutputSizeOf
  simp only [bind_eq_error, poolCheck_eq_ok, poolCheck_eq_outOfRange, readTriple_eq_ok,
    readTriple_eq_outOfRange, avgPool3dNpuOutputSize_ne_outOfRange, false_or, or_false, and_false,
    exists_false, exists_const, hnil]
  refine and_congr_right (fun hne => ?_)
  constructor
  · rintro ((hk | hk) | ⟨k, ⟨_, rfl⟩, hs | ⟨s, hs, hzero, hp⟩⟩)
    · exact absurd hk hne
    · exact Or.inl hk
    · exact Or.inr (Or.inl ((readStride_eq_outOfRange _ _).mp hs))
    · rw [readStride_eq_ok] at hs
      rcases hs with ⟨_, rfl⟩
      rw [decide_eq_true_eq] at hzero
      exact Or.inr (Or.inr ⟨(Axis.forall_iff _).mpr hzero, hp⟩)
  · -- The kernel list is read first, then the strides, then the padding.
    intro h
    by_cases hk : kernel_size.length = 2
    · exact Or.inl (Or.inr hk)
    refine Or.inr ⟨_, ⟨⟨hne, hk⟩, rfl⟩, ?_⟩
    by_cases hs : stride.length = 2
    · exact Or.inl ((readStride_eq_outOfRange _ _).mpr hs)
    rcases h with h | h | ⟨hzero, hp⟩
    · exact absurd h hk
    · exact absurd h hs
    · exact Or.inr ⟨_, (readStride_eq_ok _ _ _).mpr ⟨hs, rfl⟩,
        decide_eq_true ((Axis.forall_iff _).mp hzero), hp⟩

/-- The same outcome, unless the first of two computations watches its lists and
    reads past the end of one. -/
def Unwatched {α : Type} (r r' : Except PoolFailure α) : Prop :=
  r ≠ .error .outOfRange → r' = r

theorem Unwatched.bind {α β : Type} {r r' : Except PoolFailure α}
    {f f' : α → Except PoolFailure β} (h : Unwatched r r') (hf : ∀ a, Unwatched (f a) (f' a)) :
    Unwatched (r >>= f) (r' >>= f') := by
  intro hne
  cases r with
  | error e =>
      have hr : Except.error e ≠ .error .outOfRange := fun heq => hne (congrArg (· >>= f) heq)
      rw [h hr]
      rfl
  | ok a =>
      rw [h (by simp only [ne_eq, reduceCtorEq, not_false_eq_true])]
      exact hf a hne

theorem ArrayRef.get_unwatched (xs : List Int64) (behind : ℕ → Int64) (i : ℕ) :
    Unwatched ((ArrayRef.ofList xs).get i) ((ArrayRef.inMemory xs behind).get i) := by
  intro hne
  unfold ArrayRef.ofList at hne ⊢
  unfold ArrayRef.inMemory
  dsimp only at hne ⊢
  rw [List.getD_eq_getElem?_getD]
  cases hi : xs[i]? with
  | none =>
      rw [hi] at hne
      exact absurd rfl hne
  | some x => rfl

theorem readTriple_unwatched (xs : List Int64) (behind : ℕ → Int64) :
    Unwatched (readTriple (.ofList xs)) (readTriple (.inMemory xs behind)) := by
  have hread := ArrayRef.get_unwatched xs behind
  unfold readTriple
  refine (hread 0).bind (fun x => ?_)
  change Unwatched (do
    let x_h ← if xs.length = 1 then .ok x else (ArrayRef.ofList xs).get 1
    let x_w ← if xs.length = 1 then .ok x else (ArrayRef.ofList xs).get 2
    pure (Axis.triple x x_h x_w)) (do
    let x_h ← if xs.length = 1 then .ok x else (ArrayRef.inMemory xs behind).get 1
    let x_w ← if xs.length = 1 then .ok x else (ArrayRef.inMemory xs behind).get 2
    pure (Axis.triple x x_h x_w))
  by_cases hone : xs.length = 1
  · simp only [if_pos hone]
    exact fun _ => rfl
  · simp only [if_neg hone]
    exact (hread 1).bind fun y => (hread 2).bind fun z => fun _ => rfl

/-- A call that reads nothing past the end of a list does not depend on what lies
    there. -/
theorem calcAvgPool3dOutputSizeOf_inMemory (kernel_behind stride_behind padding_behind : ℕ → Int64)
    (h : calcAvgPool3dOutputSize self kernel_size stride padding ceil_mode
      ≠ .error .outOfRange) :
    calcAvgPool3dOutputSizeOf self (.inMemory kernel_size kernel_behind)
        (.inMemory stride stride_behind) (.inMemory padding padding_behind) ceil_mode
      = calcAvgPool3dOutputSize self kernel_size stride padding ceil_mode := by
  refine Unwatched.bind (fun _ => rfl) (fun _ => ?_) h
  refine (readTriple_unwatched kernel_size kernel_behind).bind (fun k => ?_)
  refine Unwatched.bind ?_ (fun s => ?_)
  · unfold readStride
    change Unwatched (if (stride.length == 0) = true then _ else _)
      (if (stride.length == 0) = true then _ else _)
    by_cases hempty : (stride.length == 0) = true
    · rw [if_pos hempty, if_pos hempty]
      exact fun _ => rfl
    · rw [if_neg hempty, if_neg hempty]
      exact readTriple_unwatched stride stride_behind
  · refine Unwatched.bind (fun _ => rfl) (fun _ => ?_)
    refine (readTriple_unwatched padding padding_behind).bind (fun p => ?_)
    exact fun _ => rfl

/-- What a list of one or three stands for. -/
def asTriple (xs : List Int64) : List Int64 := if xs.length = 1 then xs ++ xs ++ xs else xs

/-- The lengths the arguments are meant to have: one or three, or none for the
    strides. -/
def ListsAsDocumented : Prop :=
  (kernel_size.length = 1 ∨ kernel_size.length = 3) ∧
  (stride.length = 0 ∨ stride.length = 1 ∨ stride.length = 3) ∧
  (padding.length = 1 ∨ padding.length = 3)

end Lists

theorem list_injective {x y : Axis → Int64} (h : Axis.list x = Axis.list y) : x = y := by
  ext a
  simp only [Axis.list, List.cons.injEq, and_true] at h
  cases a
  · rw [h.1]
  · rw [h.2.1]
  · rw [h.2.2]

theorem list_normal (xs : List Int64) (h : xs.length = 1 ∨ xs.length = 3) :
    Axis.list (normal xs) = asTriple xs := by
  rcases xs with _ | ⟨x, _ | ⟨y, _ | ⟨z, _ | ⟨u, rest⟩⟩⟩⟩
  · simp at h
  · rfl
  · simp at h
  · rfl
  · simp at h

theorem length_of_asTriple (xs : List Int64) (x : Axis → Int64) (h : asTriple xs = Axis.list x) :
    xs.length = 1 ∨ xs.length = 3 := by
  have hlen : (asTriple xs).length = 3 := by
    rw [h]
    rfl
  by_cases hone : xs.length = 1
  · exact Or.inl hone
  · rw [asTriple, if_neg hone] at hlen
    exact Or.inr hlen

/-- A list of one or three is read as the triple it stands for. -/
theorem readTriple_asTriple (xs : List Int64) (x : Axis → Int64) (h : asTriple xs = Axis.list x) :
    readTriple (.ofList xs) = .ok x := by
  have hlen := length_of_asTriple xs x h
  -- A triple is determined by its list.
  have hx : x = normal xs := list_injective (by rw [list_normal xs hlen, h])
  have hne : xs ≠ [] := by
    rintro rfl
    simp at hlen
  exact (readTriple_eq_ok xs x).mpr ⟨⟨hne, by omega⟩, hx⟩

/-- Lists of the lengths meant, with the triples they stand for: a single entry
    for itself on every axis, three entries for themselves, and no strides for
    the kernel's triple. -/
structure Configures (kernel_size stride padding : List Int64) (k s p : Axis → Int64) : Prop where
  kernel : asTriple kernel_size = Axis.list k
  strides : (if stride = [] then asTriple kernel_size else asTriple stride) = Axis.list s
  paddings : asTriple padding = Axis.list p

theorem configures_list (k s p : Axis → Int64) :
    Configures (Axis.list k) (Axis.list s) (Axis.list p) k s p where
  kernel := rfl
  strides := rfl
  paddings := rfl

section Configured

variable (self : Tensor) {kernel_size stride padding : List Int64} {k s p : Axis → Int64}
  (ceil_mode : Bool)

/-- Lists of the lengths meant are handled as the triples they stand for. -/
theorem Configures.calc_eq (h : Configures kernel_size stride padding k s p) :
    calcAvgPool3dOutputSize self kernel_size stride padding ceil_mode
      = tripleOutputSize self k s p ceil_mode := by
  have hk := readTriple_asTriple kernel_size k h.kernel
  have hp := readTriple_asTriple padding p h.paddings
  have hs : readStride k (.ofList stride) = .ok s := by
    have hstrides := h.strides
    rw [readStride]
    by_cases hnil : stride = []
    · rw [if_pos hnil, h.kernel] at hstrides
      rw [hnil, list_injective hstrides]
      exact if_pos rfl
    · rw [if_neg hnil] at hstrides
      have hempty := (ArrayRef.ofList_empty stride).mpr hnil
      rw [if_neg (by rw [hempty]; decide), readTriple_asTriple stride s hstrides]
  have hne : kernel_size ≠ [] := by
    rintro rfl
    exact absurd (length_of_asTriple _ k h.kernel) (by simp)
  exact calcAvgPool3dOutputSizeOf_eq self ceil_mode ((ArrayRef.ofList_empty _).mpr hne) hk hs hp

theorem configures_normal (h : ListsAsDocumented kernel_size stride padding) :
    Configures kernel_size stride padding (normal kernel_size) (normalStride kernel_size stride)
      (normal padding) where
  kernel := (list_normal kernel_size h.1).symm
  strides := by
    rw [normalStride]
    by_cases hnil : stride = []
    · rw [if_pos hnil, if_pos hnil, list_normal kernel_size h.1]
    · rw [if_neg hnil, if_neg hnil]
      refine (list_normal stride (h.2.1.resolve_left (fun hlen => hnil ?_))).symm
      exact List.length_eq_zero_iff.mp hlen
  paddings := (list_normal padding h.2.2).symm

/-- A call returns a shape when the checks on its triples pass. -/
theorem Configures.calc_ok (h : Configures kernel_size stride padding k s p) (out : List Int64) :
    calcAvgPool3dOutputSize self kernel_size stride padding ceil_mode = .ok out ↔
      ((∀ a, s a ≠ 0) ∧ (∀ a, 0 ≤ p a) ∧ ∀ a, p a ≤ k a / 2) ∧
        (self.dim = 4 ∨ self.dim = 5) ∧ s .d * s .h * s .w ≠ 0 ∧
        (∀ a, 0 < pooledSize ceil_mode (selfSize self a) (k a) (s a) (p a)) ∧
        out = leadingSizes self
          ++ Axis.list fun a => axisSize ceil_mode (selfSize self a) (k a) (s a) (p a) := by
  rw [h.calc_eq self ceil_mode, tripleOutputSize_ok, avgPool3dNpuOutputSize_ok]
  simp only [and_assoc]

end Configured

/-- The checks the source makes on values, once the lists have been read. -/
def ValuesPass (self : Tensor) (k s p : Axis → Int64) (ceil_mode : Bool) : Prop :=
  (∀ a, 0 ≤ p a) ∧ (∀ a, p a ≤ k a / 2) ∧ (self.dim = 4 ∨ self.dim = 5) ∧
    s .d * s .h * s .w ≠ 0 ∧ ∀ a, 0 < pooledSize ceil_mode (selfSize self a) (k a) (s a) (p a)

/-- A call handles its lists as meant: it reads nothing past an end, returns no
    shape for lists of other lengths, and takes lists of the lengths meant for
    the triples they stand for. -/
def HandlesLists (self : Tensor) (kernel_size stride padding : List Int64) (ceil_mode : Bool) :
    Prop :=
  calcAvgPool3dOutputSize self kernel_size stride padding ceil_mode ≠ .error .outOfRange ∧
  (∀ out, calcAvgPool3dOutputSize self kernel_size stride padding ceil_mode = .ok out →
    ListsAsDocumented kernel_size stride padding) ∧
  (ListsAsDocumented kernel_size stride padding →
    ∃ k s p, Configures kernel_size stride padding k s p ∧
      calcAvgPool3dOutputSize self kernel_size stride padding ceil_mode
        = tripleOutputSize self k s p ceil_mode)

section Handled

variable (self : Tensor) (kernel_size stride padding : List Int64) (ceil_mode : Bool)

/-- When a call returns a shape at all. -/
theorem calc_returns_iff :
    (∃ out, calcAvgPool3dOutputSize self kernel_size stride padding ceil_mode = .ok out) ↔
      (kernel_size ≠ [] ∧ kernel_size.length ≠ 2) ∧ stride.length ≠ 2 ∧
        (∀ a, normalStride kernel_size stride a ≠ 0) ∧ (padding ≠ [] ∧ padding.length ≠ 2) ∧
        ValuesPass self (normal kernel_size) (normalStride kernel_size stride) (normal padding)
          ceil_mode := by
  simp only [calcAvgPool3dOutputSize_ok, avgPool3dNpuOutputSize_ok, exists_and_left, exists_eq,
    and_true, ValuesPass]

/-- Lists of the lengths meant are always taken for the triples they stand for,
    so what is left to handle is to read nothing past an end, and to return no
    shape for other lists. -/
theorem handlesLists_eq :
    HandlesLists self kernel_size stride padding ceil_mode ↔
      calcAvgPool3dOutputSize self kernel_size stride padding ceil_mode ≠ .error .outOfRange ∧
      ((∃ out, calcAvgPool3dOutputSize self kernel_size stride padding ceil_mode = .ok out) →
        ListsAsDocumented kernel_size stride padding) := by
  have hmeant : ListsAsDocumented kernel_size stride padding →
      ∃ k s p, Configures kernel_size stride padding k s p ∧
        calcAvgPool3dOutputSize self kernel_size stride padding ceil_mode
          = tripleOutputSize self k s p ceil_mode := fun h =>
    ⟨_, _, _, configures_normal h, (configures_normal h).calc_eq self ceil_mode⟩
  rw [HandlesLists, and_iff_left hmeant, exists_imp]

end Handled

/-- A freshly allocated tensor of 32-bit floats, whose values play no part. -/
def floatTensor (sizes : List ℕ) : Tensor :=
  .other 6
    { sizes := sizes, strides := sizes.tails.tail.map List.prod, storageOffset := 0,
      storage := fun _ => 0 }

/-- Of four, the last is ignored. -/
example : calcAvgPool3dOutputSize (floatTensor [1, 1, 8, 8, 8]) [2, 2, 2, 9] [] [0] false
    = .ok [1, 1, 4, 4, 4] := by decide

end AscendKernel
