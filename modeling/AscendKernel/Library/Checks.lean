import Mathlib.Data.List.Forall2
import Mathlib.Logic.Basic

/-!
# Chains of Checks

Computations that stop at the first check that fails.

A chain of checks is a chain of binds in `Except`. It completes when each link
does, and it stops with an error that some link stops with, all links before it
having completed. The two statements take a chain apart without unfolding it,
whatever the errors are. The same computation made on every member of a list
completes when it does on each.

## Theorems

* `error_ne_ok`: Stopping is not completing.
* `bind_eq_ok`: When a chain completes.
* `bind_eq_error`: When it stops with a given error.
* `mapM_eq_ok`: When a computation on every member of a list completes.
-/

namespace AscendKernel

variable {ε α β : Type}

theorem error_ne_ok (e : ε) (a : α) : (Except.error e : Except ε α) ≠ .ok a := by
  intro h
  exact absurd h (by simp only [reduceCtorEq, not_false_eq_true])

theorem ok_bind (a : α) (f : α → Except ε β) : ((.ok a : Except ε α) >>= f) = f a := rfl

theorem bind_eq_ok (x : Except ε α) (f : α → Except ε β) (r : β) :
    (x >>= f) = .ok r ↔ ∃ a, x = .ok a ∧ f a = .ok r := by
  cases x with
  | error e =>
      constructor
      · intro h
        exact absurd h (by simp only [bind, Except.bind, reduceCtorEq, not_false_eq_true])
      · rintro ⟨a, ha, _⟩
        exact absurd ha (error_ne_ok _ _)
  | ok a =>
      constructor
      · intro h
        exact ⟨a, rfl, h⟩
      · rintro ⟨b, hb, hf⟩
        rw [Except.ok.injEq] at hb
        rw [← hb] at hf
        exact hf

theorem bind_eq_error (x : Except ε α) (f : α → Except ε β) (e : ε) :
    (x >>= f) = .error e ↔ x = .error e ∨ ∃ a, x = .ok a ∧ f a = .error e := by
  cases x with
  | error e' =>
      constructor
      · intro h
        exact Or.inl (congrArg Except.error (Except.error.inj h))
      · rintro (h | ⟨a, ha, _⟩)
        · exact congrArg Except.error (Except.error.inj h)
        · exact absurd ha (error_ne_ok _ _)
  | ok a =>
      constructor
      · intro h
        exact Or.inr ⟨a, rfl, h⟩
      · rintro (h | ⟨b, hb, hf⟩)
        · exact absurd h.symm (error_ne_ok _ _)
        · rw [Except.ok.injEq] at hb
          rw [← hb] at hf
          exact hf

/-- A computation on every member of a list completes with one result each. -/
theorem mapM_eq_ok (f : α → Except ε β) (xs : List α) (ys : List β) :
    xs.mapM f = .ok ys ↔ List.Forall₂ (fun x y => f x = .ok y) xs ys := by
  induction xs generalizing ys with
  | nil =>
      rw [List.mapM_nil, List.forall₂_nil_left_iff]
      exact ⟨fun h => (Except.ok.inj h).symm, fun h => by rw [h]; rfl⟩
  | cons x xs ih =>
      rw [List.mapM_cons, bind_eq_ok, List.forall₂_cons_left_iff]
      constructor
      · rintro ⟨y, hy, hrest⟩
        rcases (bind_eq_ok _ _ _).mp hrest with ⟨zs, hzs, heq⟩
        exact ⟨y, zs, hy, (ih zs).mp hzs, (Except.ok.inj heq).symm⟩
      · rintro ⟨y, zs, hy, hzs, rfl⟩
        exact ⟨y, hy, (bind_eq_ok _ _ _).mpr ⟨zs, (ih zs).mpr hzs, rfl⟩⟩

end AscendKernel
