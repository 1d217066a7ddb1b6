import Mathlib.Tactic.Ring
import Mathlib.Algebra.Order.Floor.Div

/-!
# Words That Remember Wrapping

Unsigned 32-bit arithmetic, with a ghost bit on every value telling whether any
operation behind it wrapped or divided by zero.

A program computing in words is usually right because nothing ever wraps, and
proving that means bounding every intermediate result. Stating it is the
harder part: the intermediates have no names, and a specification that lists
them copies the program. Carrying the answer along with each value avoids the
copy. A computation written over `Word` reads like the source, computes what
the machine computes, and ends in values whose `unwrapped` bit answers for
every operation that went into them.

`Holds w n g` says a word's value is the number `n` and its ghost bit is `g`.
It is the form proofs work with: one rule per operation, each asking only that
the true result fits, and each handing the operands' ghost bits on unchanged.

## Main definitions

* `Word`: A 32-bit value and whether it is exact.
* `Word.ofResult`: The word an operation with a given true result leaves.
* `Word.Holds`: A word holding a number, with a given ghost bit.

## Theorems

* `Word.Holds.add`, `Word.Holds.sub`, `Word.Holds.mul`, `Word.Holds.div`: One
  rule per operation.
* `Word.Holds.add_pred`: A sum and a decrement, across the wrap.
-/

namespace AscendKernel

/-- An unsigned 32-bit value. `unwrapped` is a ghost: it is true when no
    operation the value was computed by wrapped or divided by zero. -/
@[ext] structure Word where
  val : ℕ
  isLt : val < 2 ^ 32
  unwrapped : Bool
  deriving DecidableEq

namespace Word

/-- The word left by an operation whose true result is `n`, on operands whose
    own history is `past`. -/
def ofResult (n : ℕ) (past : Bool) : Word :=
  { val := n % 2 ^ 32
    isLt := Nat.mod_lt n (by norm_num)
    unwrapped := past && decide (n < 2 ^ 32) }

/-- Literals and conversions start a fresh history. -/
instance (n : ℕ) : OfNat Word n := ⟨ofResult n true⟩

instance : Add Word := ⟨fun a b => ofResult (a.val + b.val) (a.unwrapped && b.unwrapped)⟩

instance : Mul Word := ⟨fun a b => ofResult (a.val * b.val) (a.unwrapped && b.unwrapped)⟩

/-- Subtraction borrows from above the word when the result is negative. -/
instance : Sub Word := ⟨fun a b =>
  { val := (a.val + (2 ^ 32 - b.val)) % 2 ^ 32
    isLt := Nat.mod_lt _ (by norm_num)
    unwrapped := a.unwrapped && b.unwrapped && decide (b.val ≤ a.val) }⟩

/-- A quotient never exceeds its dividend. A zero divisor spoils the ghost;
    the value it leaves is not meant to be used. -/
instance : Div Word := ⟨fun a b =>
  { val := a.val / b.val
    isLt := Nat.lt_of_le_of_lt (Nat.div_le_self _ _) a.isLt
    unwrapped := a.unwrapped && b.unwrapped && decide (b.val ≠ 0) }⟩

theorem add_val (a b : Word) : (a + b).val = (a.val + b.val) % 2 ^ 32 := rfl

theorem mul_val (a b : Word) : (a * b).val = a.val * b.val % 2 ^ 32 := rfl

theorem sub_val (a b : Word) : (a - b).val = (a.val + (2 ^ 32 - b.val)) % 2 ^ 32 := rfl

theorem div_val (a b : Word) : (a / b).val = a.val / b.val := rfl

/-- The word holds the number `n`, and its ghost bit is `g`. -/
def Holds (w : Word) (n : ℕ) (g : Bool) : Prop := w.val = n ∧ w.unwrapped = g

theorem holds_ofResult (n : ℕ) (g : Bool) (h : n < 2 ^ 32) : Holds (ofResult n g) n g := by
  refine ⟨Nat.mod_eq_of_lt h, ?_⟩
  change (g && decide (n < 2 ^ 32)) = g
  rw [decide_eq_true h, Bool.and_true]

theorem holds_ofNat (n : ℕ) (h : n < 2 ^ 32) : Holds (OfNat.ofNat n : Word) n true :=
  holds_ofResult n true h

theorem Holds.add {a b : Word} {m n : ℕ} {g k : Bool} (ha : Holds a m g) (hb : Holds b n k)
    (h : m + n < 2 ^ 32) : Holds (a + b) (m + n) (g && k) := by
  rcases ha with ⟨rfl, rfl⟩
  rcases hb with ⟨rfl, rfl⟩
  exact holds_ofResult _ _ h

theorem Holds.mul {a b : Word} {m n : ℕ} {g k : Bool} (ha : Holds a m g) (hb : Holds b n k)
    (h : m * n < 2 ^ 32) : Holds (a * b) (m * n) (g && k) := by
  rcases ha with ⟨rfl, rfl⟩
  rcases hb with ⟨rfl, rfl⟩
  exact holds_ofResult _ _ h

/-- Subtracting a value no larger leaves the difference. -/
theorem sub_val_of_le (a b : Word) (h : b.val ≤ a.val) : (a - b).val = a.val - b.val := by
  have ha := a.isLt
  rw [sub_val]
  omega

theorem Holds.sub {a b : Word} {m n : ℕ} {g k : Bool} (ha : Holds a m g) (hb : Holds b n k)
    (h : n ≤ m) : Holds (a - b) (m - n) (g && k) := by
  rcases ha with ⟨rfl, rfl⟩
  rcases hb with ⟨rfl, rfl⟩
  refine ⟨sub_val_of_le a b h, ?_⟩
  change (a.unwrapped && b.unwrapped && decide (b.val ≤ a.val)) = _
  rw [decide_eq_true h, Bool.and_true]

theorem Holds.div {a b : Word} {m n : ℕ} {g k : Bool} (ha : Holds a m g) (hb : Holds b n k)
    (h : n ≠ 0) : Holds (a / b) (m / n) (g && k) := by
  rcases ha with ⟨rfl, rfl⟩
  rcases hb with ⟨rfl, rfl⟩
  refine ⟨rfl, ?_⟩
  change (a.unwrapped && b.unwrapped && decide (b.val ≠ 0)) = _
  rw [decide_eq_true h, Bool.and_true]

/-- A sum followed by a decrement. The sum alone may reach `2 ^ 32` and wrap
    to zero; the decrement then wraps back, so the value is right even where
    the ghost bit is not. -/
theorem Holds.add_pred {a b : Word} {m n : ℕ} {g k : Bool} (ha : Holds a m g) (hb : Holds b n k)
    (hpos : 1 ≤ m + n) (h : m + n ≤ 2 ^ 32) :
    Holds (a + b - 1) (m + n - 1) (g && k && decide (m + n < 2 ^ 32)) := by
  by_cases hlt : m + n < 2 ^ 32
  · have hone : Holds 1 1 true := holds_ofNat 1 (by norm_num)
    have hsub := (ha.add hb hlt).sub hone hpos
    rw [decide_eq_true hlt]
    exact hsub
  · -- Exactly `2 ^ 32`: the sum is zero, and one less is the top of the range.
    rcases ha with ⟨rfl, rfl⟩
    rcases hb with ⟨rfl, rfl⟩
    have hzero : (a + b).val = 0 := by
      rw [add_val]
      omega
    have hone : (1 : Word).val = 1 := rfl
    refine ⟨?_, ?_⟩
    · rw [sub_val, hzero, hone]
      omega
    · rw [decide_eq_false hlt, Bool.and_false]
      change (_ && _ && decide ((1 : Word).val ≤ (a + b).val)) = false
      rw [hzero, hone, decide_eq_false (by norm_num), Bool.and_false]

end Word

end AscendKernel
