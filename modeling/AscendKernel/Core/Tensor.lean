import AscendKernel.Library.Checks
import AscendKernel.Library.MaskedCopy

/-!
# Tensors and Failures

What the host code can see of an `at::Tensor`, and the ways it can stop.

A tensor is a window onto a storage: sizes, strides, an offset, and the
storage itself. Keeping the strides is what makes a view different from a
copy. Torch operators read an element through the strides, while a kernel
launch passes only `data_ptr`, the address of the first element, and the
kernel reads consecutive memory from there. `at2` and `dataPtr` are the two
readings, and `contiguous2` is the layout on which they agree.

Every temporary the host code computes is freshly allocated by a torch
operator, so it is contiguous. Only the caller's own tensors may be laid out
in another way.

The element type is part of the tensor's value, as it is in torch, because the
host code checks it at run time. Types the code never computes with are kept
apart only by their code.

## Main definitions

* `Strided`: A typed window onto a storage.
* `Strided.at1`, `Strided.at2`: Elements as torch operators read them.
* `Strided.dataPtr`: Memory as a kernel reads it.
* `Strided.slice0`: The view of the leading rows.
* `contiguous1`, `contiguous2`: Freshly allocated tensors.
* `Tensor`: A tensor of any element type.
* `Failure`: How a call can stop without completing.
* `torchCheck`: The `TORCH_CHECK` macro.
* `writeAll`: Writing every element of a window.
* `fill`, `fillFrom`: Writing a row or a stretch of it.
* `inplaceMaskedScatter`: The `aclnnInplaceMaskedScatter` operator.

## Theorems

* `contiguous2_at2`: Reading a fresh matrix gives the entry it was made of.
* `contiguous2_dataPtr`: So does reading its memory in row-major order.
* `contiguous2_elem`: Its cells in row-major order are the memory in order.
* `writeAll_addr`: A written element holds its new value.
-/

namespace AscendKernel

/-- A typed window onto a storage. -/
structure Strided (α : Type) where
  sizes : List ℕ
  strides : List ℕ
  storageOffset : ℕ
  storage : ℕ → α

namespace Strided

variable {α : Type}

def dim (t : Strided α) : ℕ := t.sizes.length

def size (t : Strided α) (k : ℕ) : ℕ := t.sizes.getD k 0

def stride (t : Strided α) (k : ℕ) : ℕ := t.strides.getD k 0

/-- The cell of element `(r, i)` of a matrix. -/
def addr2 (t : Strided α) (r i : ℕ) : ℕ := t.storageOffset + r * t.stride 0 + i * t.stride 1

/-- The cell of the `n`-th element of a matrix in row-major order. -/
def elem (t : Strided α) (n : ℕ) : ℕ := rowMajor (t.size 1) t.addr2 n

def at1 (t : Strided α) (r : ℕ) : α := t.storage (t.storageOffset + r * t.stride 0)

def at2 (t : Strided α) (r i : ℕ) : α := t.storage (t.addr2 r i)

/-- The memory a kernel sees through the pointer it is given. -/
def dataPtr (t : Strided α) (n : ℕ) : α := t.storage (t.storageOffset + n)

/-- The same window after the memory behind its pointer has changed. -/
def withDataPtr (t : Strided α) (mem : ℕ → α) : Strided α :=
  { t with storage := fun a =>
      if a < t.storageOffset then t.storage a else mem (a - t.storageOffset) }

/-- The view `slice(0, 0, n)` of the leading rows. -/
def slice0 (t : Strided α) (n : ℕ) : Strided α :=
  { t with sizes := min n (t.size 0) :: t.sizes.tail }

end Strided

/-- A freshly allocated vector. -/
def contiguous1 {α : Type} (n : ℕ) (f : ℕ → α) : Strided α :=
  { sizes := [n], strides := [1], storageOffset := 0, storage := f }

/-- A freshly allocated matrix, its rows packed one after the other. -/
def contiguous2 {α : Type} (B K : ℕ) (f : ℕ → ℕ → α) : Strided α :=
  { sizes := [B, K], strides := [K, 1], storageOffset := 0, storage := rowMajor K f }

/-- A tensor of any element type. `other` stands for the types the code never
    computes with, each under its own code. -/
inductive Tensor where
  | bool (t : Strided Bool)
  | int (t : Strided Int32)
  | long (t : Strided Int64)
  | other (code : ℕ) (t : Strided UInt8)

/-- How a call can stop without completing. -/
inductive Failure where
  | torchCheck (msg : String)
  | aclnnInplaceMaskedScatter
  | divisionByZero
  deriving DecidableEq

/-- The `TORCH_CHECK` macro: stop with the message when the condition fails. -/
def torchCheck (cond : Bool) (msg : String) : Except Failure Unit :=
  if cond = true then .ok () else .error (.torchCheck msg)

namespace Tensor

def sizes : Tensor → List ℕ
  | bool t => t.sizes
  | int t => t.sizes
  | long t => t.sizes
  | other _ t => t.sizes

def dim (t : Tensor) : ℕ := t.sizes.length

def size (t : Tensor) (k : ℕ) : ℕ := t.sizes.getD k 0

/-- `TORCH_CHECK(t.dtype() == at::kBool, msg)`, handing out the typed tensor. -/
def checkBool (t : Tensor) (msg : String) : Except Failure (Strided Bool) :=
  match t with
  | bool s => .ok s
  | _ => .error (.torchCheck msg)

/-- `TORCH_CHECK(t.dtype() == at::kInt, msg)`, handing out the typed tensor. -/
def checkInt (t : Tensor) (msg : String) : Except Failure (Strided Int32) :=
  match t with
  | int s => .ok s
  | _ => .error (.torchCheck msg)

/-- `TORCH_CHECK(t.dtype() == at::kLong, msg)`, handing out the typed tensor. -/
def checkLong (t : Tensor) (msg : String) : Except Failure (Strided Int64) :=
  match t with
  | long s => .ok s
  | _ => .error (.torchCheck msg)

end Tensor

/-- Write `v i` into the cell of every index below `n`, in index order. -/
def writeAll {α : Type} (addr : ℕ → ℕ) (v : ℕ → α) (mem : ℕ → α) (n : ℕ) : ℕ → α :=
  (List.range n).foldl (fun mem i => Function.update mem (addr i) (v i)) mem

/-- Values written to the first positions of a row. -/
def fill {α : Type} (n : ℕ) (v d : ℕ → α) (i : ℕ) : α := if i < n then v i else d i

/-- Values written to a stretch of a memory. -/
def fillFrom {α : Type} (offset n : ℕ) (v d : ℕ → α) (a : ℕ) : α :=
  if offset ≤ a ∧ a < offset + n then v (a - offset) else d a

/-- The in-place `copy_` into a matrix window. -/
def Strided.copy {α : Type} (t : Strided α) (v : ℕ → ℕ → α) : Strided α :=
  { t with storage :=
      writeAll t.elem (rowMajor (t.size 1) v) t.storage (t.size 0 * t.size 1) }

/-- The `aclnnInplaceMaskedScatter` operator on matrix windows: it stops,
    having written nothing, when the mask has more true positions than the
    source has values, and otherwise hands the values out in row-major
    order. -/
def inplaceMaskedScatter {α : Type} (self : Strided α) (mask : Strided Bool) (source : List α) :
    Except Failure (Strided α) :=
  let numel := self.size 0 * self.size 1
  let flat := rowMajor (self.size 1) mask.at2
  if source.length < countTrue flat numel then .error .aclnnInplaceMaskedScatter
  else .ok { self with storage := maskedScatter self.elem flat source self.storage numel }

variable {α : Type}

@[simp] theorem contiguous2_size_zero (B K : ℕ) (f : ℕ → ℕ → α) :
    (contiguous2 B K f).size 0 = B := rfl

@[simp] theorem contiguous2_size_one (B K : ℕ) (f : ℕ → ℕ → α) :
    (contiguous2 B K f).size 1 = K := rfl

theorem contiguous2_addr2 (B K : ℕ) (f : ℕ → ℕ → α) (r i : ℕ) :
    (contiguous2 B K f).addr2 r i = r * K + i := by
  change 0 + r * K + i * 1 = r * K + i
  omega

/-- Reading a fresh matrix gives the entry it was made of. -/
theorem contiguous2_at2 (B K : ℕ) (f : ℕ → ℕ → α) (r i : ℕ) (hi : i < K) :
    (contiguous2 B K f).at2 r i = f r i := by
  rw [Strided.at2, contiguous2_addr2]
  exact rowMajor_at K f r i hi

/-- A fresh matrix's memory is the matrix in row-major order. -/
theorem contiguous2_dataPtr (B K : ℕ) (f : ℕ → ℕ → α) (n : ℕ) :
    (contiguous2 B K f).dataPtr n = rowMajor K f n := by
  change rowMajor K f (0 + n) = rowMajor K f n
  rw [Nat.zero_add]

/-- The leading rows of a fresh matrix are laid out as the matrix is. -/
theorem contiguous2_slice0 (N K n : ℕ) (f : ℕ → ℕ → α) (h : n ≤ N) :
    (contiguous2 N K f).slice0 n = contiguous2 n K f := by
  change ({ sizes := min n N :: [K], strides := _, storageOffset := _, storage := _ } : Strided α)
    = _
  rw [Nat.min_eq_left h]
  rfl

/-- The row-major cells of a fresh matrix are the memory in order. -/
theorem contiguous2_elem (B K : ℕ) (f : ℕ → ℕ → α) (n : ℕ) :
    (contiguous2 B K f).elem n = n := by
  rw [Strided.elem, contiguous2_size_one, rowMajor, contiguous2_addr2, Nat.mul_comm]
  exact Nat.div_add_mod n K

/-- A window reads the memory it was given. -/
theorem dataPtr_withDataPtr (t : Strided α) (mem : ℕ → α) (n : ℕ) :
    (t.withDataPtr mem).dataPtr n = mem n := by
  change (if t.storageOffset + n < t.storageOffset then t.storage (t.storageOffset + n)
    else mem (t.storageOffset + n - t.storageOffset)) = mem n
  rw [if_neg (Nat.not_lt.mpr (Nat.le_add_right _ _)), Nat.add_sub_cancel_left]

/-- One more value extends what is filled. -/
theorem fill_succ (n : ℕ) (v d : ℕ → α) :
    Function.update (fill n v d) n (v n) = fill (n + 1) v d := by
  ext i
  unfold fill
  by_cases hi : i = n
  · rw [hi, Function.update_self, if_pos (Nat.lt_succ_self n)]
  · rw [Function.update_of_ne hi]
    exact if_congr (by omega) rfl rfl

theorem fillFrom_succ (offset n : ℕ) (v d : ℕ → α) :
    Function.update (fillFrom offset n v d) (offset + n) (v n) = fillFrom offset (n + 1) v d := by
  ext a
  unfold fillFrom
  by_cases ha : a = offset + n
  · rw [ha, Function.update_self, if_pos (by omega), Nat.add_sub_cancel_left]
  · rw [Function.update_of_ne ha]
    exact if_congr (by omega) rfl rfl

/-- Only the values that are written matter. -/
theorem fillFrom_congr (offset n : ℕ) (v w d : ℕ → α) (h : ∀ i < n, v i = w i) :
    fillFrom offset n v d = fillFrom offset n w d := by
  ext a
  unfold fillFrom
  by_cases ha : offset ≤ a ∧ a < offset + n
  · rw [if_pos ha, if_pos ha, h (a - offset) (by omega)]
  · rw [if_neg ha, if_neg ha]

/-- Stretches that do not overlap can be written in either order. -/
theorem fillFrom_comm (o o' n n' : ℕ) (v w d : ℕ → α) (h : o + n ≤ o' ∨ o' + n' ≤ o) :
    fillFrom o n v (fillFrom o' n' w d) = fillFrom o' n' w (fillFrom o n v d) := by
  ext a
  unfold fillFrom
  by_cases ha : o ≤ a ∧ a < o + n
  · have ha' : ¬ (o' ≤ a ∧ a < o' + n') := by omega
    rw [if_pos ha, if_neg ha', if_pos ha]
  · rw [if_neg ha, if_neg ha]

theorem writeAll_succ (addr : ℕ → ℕ) (v : ℕ → α) (mem : ℕ → α) (n : ℕ) :
    writeAll addr v mem (n + 1) = Function.update (writeAll addr v mem n) (addr n) (v n) := by
  rw [writeAll, List.range_succ, List.foldl_append]
  rfl

/-- A written element holds its new value, as long as no two elements share a
    cell. -/
theorem writeAll_addr (addr : ℕ → ℕ) (v : ℕ → α) (mem : ℕ → α) (n i : ℕ)
    (hinj : ∀ j < n, ∀ k < n, addr j = addr k → j = k) (hi : i < n) :
    writeAll addr v mem n (addr i) = v i := by
  induction n with
  | zero => exact absurd hi (Nat.not_lt_zero i)
  | succ k ih =>
      rw [writeAll_succ]
      by_cases hik : i = k
      · rw [hik, Function.update_self]
      · rw [Function.update_of_ne (fun heq => hik (hinj i hi k (Nat.lt_succ_self k) heq))]
        exact ih (fun j hj q hq => hinj j (by omega) q (by omega)) (by omega)

/-- Copying into a fresh matrix leaves the copied entries. -/
theorem contiguous2_copy_at2 (B K : ℕ) (f v : ℕ → ℕ → α) (r i : ℕ) (hr : r < B) (hi : i < K) :
    ((contiguous2 B K f).copy v).at2 r i = v r i := by
  have hlt : r * K + i < B * K := row_elem_lt hr hi
  have helem : (contiguous2 B K f).elem = id := funext (contiguous2_elem B K f)
  have hcell : ((contiguous2 B K f).copy v).at2 r i
      = writeAll (contiguous2 B K f).elem (rowMajor K v) (contiguous2 B K f).storage (B * K)
        (r * K + i) := by
    change ((contiguous2 B K f).copy v).storage ((contiguous2 B K f).addr2 r i) = _
    rw [contiguous2_addr2]
    rfl
  rw [hcell, helem]
  have hw := writeAll_addr id (rowMajor K v) (contiguous2 B K f).storage (B * K) (r * K + i)
    (fun _ _ _ _ h => h) hlt
  rw [id_eq] at hw
  rw [hw, rowMajor_at K v r i hi]

end AscendKernel
