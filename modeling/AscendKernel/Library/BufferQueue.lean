import AscendKernel.Library.Confluence
import Mathlib.Data.Int.ModEq

/-!
# Buffer Queues

A queue between two ends of a program, with a fixed number of buffers of its
own.

The producing end takes a free buffer, writes to it, and puts it in the queue.
The consuming end takes the oldest buffer out, reads it, and gives it back.
Nothing is ever copied, and a buffer given back keeps its contents until it is
written to again.

Each end has at most one buffer at a time, and the buffers go round in order, so
the `i`-th tensor to pass through lives in buffer `i % num` and four counters
say where every buffer is. Which counter can be ahead of which is a field of the
structure: no buffer is given back before it was taken out, none taken out
before it was queued, and none handed out twice.

Each operation is partial. It is not defined where a program has to wait, for a
free buffer or for something in the queue, nor where it would use a buffer it
does not have. The two ends may run side by side: the operations of one end
commute with those of the other, `producer_consumer`, since what one end does
never takes from the other what it has or is about to get.

## Main definitions

* `BufferQueue`: The buffers, and the four counters.
* `BufferQueue.allocTensor`, `write`, `enQue`: What the producing end does.
* `BufferQueue.deQue`, `read`, `freeTensor`: What the consuming end does.
* `BufferQueue.Producer`, `BufferQueue.Consumer`: The operations of an end.
* `BufferQueue.Ready`: Every buffer is free, and there is one.

## Theorems

* `producer_consumer`: The ends commute.
* `Producer.read_eq`: What the consuming end has is safe from the other one.
* `exists_cycle`: A tensor that passes through a ready queue.
-/

namespace AscendKernel

/-- A queue with `num` buffers. The counters are the tensors handed out,
    queued, taken out again and given back so far. -/
@[ext] structure BufferQueue (α : Type*) where
  num : ℕ
  allocated : ℕ
  queued : ℕ
  taken : ℕ
  freed : ℕ
  data : ℕ → ℕ → α
  /-- Each end has at most one buffer. -/
  producing : queued ≤ allocated ∧ allocated ≤ queued + 1
  consuming : freed ≤ taken ∧ taken ≤ freed + 1
  /-- What is taken out was queued, and what is handed out was free. -/
  order : taken ≤ queued ∧ allocated ≤ freed + num

namespace BufferQueue

variable {α : Type*}

/-- A queue with its buffers free, whatever they contain. -/
def init (num : ℕ) (data : ℕ → ℕ → α) : BufferQueue α where
  num := num
  allocated := 0
  queued := 0
  taken := 0
  freed := 0
  data := data
  producing := ⟨le_refl 0, Nat.zero_le 1⟩
  consuming := ⟨le_refl 0, Nat.zero_le 1⟩
  order := ⟨le_refl 0, Nat.zero_le _⟩

/-- Take a free buffer. -/
def allocTensor (q : BufferQueue α) : Option (BufferQueue α) :=
  -- The end has no buffer yet, and one is free.
  if h : q.allocated = q.queued ∧ q.allocated < q.freed + q.num then
    some
      { q with
        allocated := q.allocated + 1
        producing := by omega
        order := ⟨q.order.1, h.2⟩ }
  else none

/-- Change the contents of the buffer the producing end has. -/
def write (v : (ℕ → α) → ℕ → α) (q : BufferQueue α) : Option (BufferQueue α) :=
  let b := q.queued % q.num
  if q.queued < q.allocated then
    some { q with data := Function.update q.data b (v (q.data b)) }
  else none

/-- Put the buffer the producing end has in the queue. -/
def enQue (q : BufferQueue α) : Option (BufferQueue α) :=
  if h : q.queued < q.allocated then
    some
      { q with
        queued := q.queued + 1
        producing := ⟨h, Nat.le_succ_of_le q.producing.2⟩
        order := ⟨Nat.le_succ_of_le q.order.1, q.order.2⟩ }
  else none

/-- Take the oldest buffer out of the queue. -/
def deQue (q : BufferQueue α) : Option (BufferQueue α) :=
  -- The end has no buffer yet, and one is queued.
  if h : q.taken = q.freed ∧ q.taken < q.queued then
    some
      { q with
        taken := q.taken + 1
        consuming := by omega
        order := ⟨h.2, q.order.2⟩ }
  else none

/-- The contents of the buffer the consuming end has. -/
def read (q : BufferQueue α) : Option (ℕ → α) :=
  if q.freed < q.taken then some (q.data (q.freed % q.num)) else none

/-- Give the buffer the consuming end has back. -/
def freeTensor (q : BufferQueue α) : Option (BufferQueue α) :=
  if h : q.freed < q.taken then
    some
      { q with
        freed := q.freed + 1
        consuming := ⟨h, Nat.le_succ_of_le q.consuming.2⟩
        order := ⟨q.order.1, by have := q.order.2; omega⟩ }
  else none

/-- The operations of the producing end. -/
inductive Producer : (BufferQueue α → Option (BufferQueue α)) → Prop where
  | allocTensor : Producer allocTensor
  | write (v : (ℕ → α) → ℕ → α) : Producer (write v)
  | enQue : Producer enQue

/-- The operations of the consuming end that change the queue. -/
inductive Consumer : (BufferQueue α → Option (BufferQueue α)) → Prop where
  | deQue : Consumer deQue
  | freeTensor : Consumer freeTensor

/-- Every buffer is free, and there is one. -/
def Ready (q : BufferQueue α) : Prop := q.allocated = q.freed ∧ 0 < q.num

theorem init_ready (num : ℕ) (data : ℕ → ℕ → α) (h : 0 < num) : (init num data).Ready := ⟨rfl, h⟩

variable {q q' : BufferQueue α}

theorem allocTensor_eq_some : q.allocTensor = some q' ↔
    ∃ h : q.allocated = q.queued ∧ q.allocated < q.freed + q.num,
      { q with
        allocated := q.allocated + 1
        producing := by omega
        order := ⟨q.order.1, h.2⟩ } = q' := by
  unfold allocTensor
  rw [Option.dite_none_right_eq_some]
  exact exists_congr fun h => Option.some_inj

theorem write_eq_some {v : (ℕ → α) → ℕ → α} : q.write v = some q' ↔ q.queued < q.allocated ∧
    { q with data := Function.update q.data (q.queued % q.num) (v (q.data (q.queued % q.num))) }
      = q' := by
  unfold write
  rw [Option.ite_none_right_eq_some, Option.some_inj]

theorem enQue_eq_some : q.enQue = some q' ↔
    ∃ h : q.queued < q.allocated,
      { q with
        queued := q.queued + 1
        producing := ⟨h, Nat.le_succ_of_le q.producing.2⟩
        order := ⟨Nat.le_succ_of_le q.order.1, q.order.2⟩ } = q' := by
  unfold enQue
  rw [Option.dite_none_right_eq_some]
  exact exists_congr fun h => Option.some_inj

theorem deQue_eq_some : q.deQue = some q' ↔
    ∃ h : q.taken = q.freed ∧ q.taken < q.queued,
      { q with
        taken := q.taken + 1
        consuming := by omega
        order := ⟨h.2, q.order.2⟩ } = q' := by
  unfold deQue
  rw [Option.dite_none_right_eq_some]
  exact exists_congr fun h => Option.some_inj

theorem freeTensor_eq_some : q.freeTensor = some q' ↔
    ∃ h : q.freed < q.taken,
      { q with
        freed := q.freed + 1
        consuming := ⟨h, Nat.le_succ_of_le q.consuming.2⟩
        order := ⟨q.order.1, by have := q.order.2; omega⟩ } = q' := by
  unfold freeTensor
  rw [Option.dite_none_right_eq_some]
  exact exists_congr fun h => Option.some_inj

/-- The buffer of the producing end is not the one of the consuming end. -/
theorem ends_ne (q : BufferQueue α) (hp : q.queued < q.allocated) (hc : q.freed < q.taken) :
    q.freed % q.num ≠ q.queued % q.num := by
  intro heq
  have horder := q.order
  -- The counters are less than `num` apart, so equal remainders are equal.
  have hle : q.num ≤ q.queued - q.freed :=
    Nat.le_of_dvd (by omega) ((Nat.modEq_iff_dvd' (by omega)).mp heq)
  omega

/-- What the consuming end has is safe from the producing end. -/
theorem Producer.read_eq {f : BufferQueue α → Option (BufferQueue α)} (hf : Producer f)
    (h : f q = some q') : q'.read = q.read := by
  cases hf with
  | allocTensor =>
      rcases allocTensor_eq_some.mp h with ⟨-, rfl⟩
      rfl
  | enQue =>
      rcases enQue_eq_some.mp h with ⟨-, rfl⟩
      rfl
  | write v =>
      rcases write_eq_some.mp h with ⟨hp, rfl⟩
      unfold read
      by_cases hc : q.freed < q.taken
      · rw [if_pos hc, if_pos hc]
        exact congrArg some (Function.update_of_ne (q.ends_ne hp hc) _ _)
      · rw [if_neg hc, if_neg hc]

/-- The two ends of a queue may run side by side. -/
theorem producer_consumer {f g : BufferQueue α → Option (BufferQueue α)} (hf : Producer f)
    (hg : Consumer g) : Commutes f g := by
  intro q q₁ q₂ h₁ h₂
  cases hf with
  | allocTensor =>
      rcases allocTensor_eq_some.mp h₁ with ⟨h, rfl⟩
      cases hg with
      | deQue =>
          rcases deQue_eq_some.mp h₂ with ⟨k, rfl⟩
          exact ⟨_, deQue_eq_some.mpr ⟨k, rfl⟩, allocTensor_eq_some.mpr ⟨h, rfl⟩⟩
      | freeTensor =>
          rcases freeTensor_eq_some.mp h₂ with ⟨k, rfl⟩
          -- A buffer given back only leaves more of them free.
          refine ⟨_, freeTensor_eq_some.mpr ⟨k, rfl⟩, allocTensor_eq_some.mpr ⟨⟨h.1, ?_⟩, rfl⟩⟩
          have hlt := h.2
          dsimp only
          omega
  | write v =>
      rcases write_eq_some.mp h₁ with ⟨h, rfl⟩
      cases hg with
      | deQue =>
          rcases deQue_eq_some.mp h₂ with ⟨k, rfl⟩
          exact ⟨_, deQue_eq_some.mpr ⟨k, rfl⟩, write_eq_some.mpr ⟨h, rfl⟩⟩
      | freeTensor =>
          rcases freeTensor_eq_some.mp h₂ with ⟨k, rfl⟩
          exact ⟨_, freeTensor_eq_some.mpr ⟨k, rfl⟩, write_eq_some.mpr ⟨h, rfl⟩⟩
  | enQue =>
      rcases enQue_eq_some.mp h₁ with ⟨h, rfl⟩
      cases hg with
      | deQue =>
          rcases deQue_eq_some.mp h₂ with ⟨k, rfl⟩
          -- A buffer queued only leaves more to take out.
          exact ⟨_, deQue_eq_some.mpr ⟨⟨k.1, Nat.lt_succ_of_lt k.2⟩, rfl⟩,
            enQue_eq_some.mpr ⟨h, rfl⟩⟩
      | freeTensor =>
          rcases freeTensor_eq_some.mp h₂ with ⟨k, rfl⟩
          exact ⟨_, freeTensor_eq_some.mpr ⟨k, rfl⟩, enQue_eq_some.mpr ⟨h, rfl⟩⟩

/-- A tensor that passes through a ready queue: no operation has to wait, what
    comes out is what was written, and the queue is ready again. -/
theorem exists_cycle (v : (ℕ → α) → ℕ → α) (h : q.Ready) :
    ∃ d q₁ q₂ q₃ q₄ q₅, q.allocTensor = some q₁ ∧ q₁.write v = some q₂ ∧ q₂.enQue = some q₃ ∧
      q₃.deQue = some q₄ ∧ q₄.read = some (v d) ∧ q₄.freeTensor = some q₅ ∧ q₅.Ready := by
  have hp := q.producing
  have hc := q.consuming
  have ho := q.order
  rcases h with ⟨hfree, hnum⟩
  have halloc : q.allocated = q.queued ∧ q.allocated < q.freed + q.num := by omega
  have htaken : q.taken = q.freed := by omega
  refine ⟨q.data (q.queued % q.num), _, _, _, _, _, allocTensor_eq_some.mpr ⟨halloc, rfl⟩,
    write_eq_some.mpr ⟨?_, rfl⟩, enQue_eq_some.mpr ⟨?_, rfl⟩, deQue_eq_some.mpr ⟨⟨htaken, ?_⟩, rfl⟩,
    ?_, freeTensor_eq_some.mpr ⟨?_, rfl⟩, ⟨?_, hnum⟩⟩
  · dsimp only
    omega
  · dsimp only
    omega
  · dsimp only
    omega
  · -- All that was queued has come back, so this is the buffer written to.
    have hbuffer : q.freed = q.queued := by omega
    unfold read
    dsimp only
    rw [if_pos (by omega), hbuffer, Function.update_self]
  · dsimp only
    omega
  · dsimp only
    omega

end BufferQueue

end AscendKernel
