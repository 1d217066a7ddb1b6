import Mathlib.Data.List.Count
import Mathlib.Logic.Function.Basic

/-!
# Interleaved Threads

Threads over a shared memory, one operation at a time, in any order.

Each thread has a state of its own and a list of operations left to run. An
operation reads and writes the thread's state and the shared memory, and a
schedule says which thread goes next. Nothing orders the threads, so in general
what is left depends on the schedule.

It does not when the threads keep out of each other's way. What a thread can
see of the memory is an equivalence on memories. If an operation of a thread
depends only on what that thread sees, and changes nothing another thread sees,
then every thread runs as if it were alone, whatever the schedule. That is
`run_view`, by one induction on the schedule. A schedule finishes when it picks
every thread as often as the thread has operations, and all schedules that
finish agree.

## Main definitions

* `Operation`: One operation of a thread.
* `alone`: Operations run without interruption.
* `Machine`: Threads in the middle of a run.
* `Machine.step`, `Machine.run`: The next operation of a thread, and a schedule.
* `Respects`: An operation that keeps to what its thread sees.

## Theorems

* `alone_view`: Operations alone depend on what their thread sees.
* `run_rest`: What a schedule leaves to run.
* `run_view`: Every thread runs as if it were alone.
* `finished_view`: What a finished schedule leaves.
-/

namespace AscendKernel

/-- One operation of a thread: on its own state and on the shared memory. -/
abbrev Operation (σ μ : Type*) := σ × μ → σ × μ

/-- Operations run one after the other, without interruption. -/
def alone {σ μ : Type*} (ops : List (Operation σ μ)) (x : σ × μ) : σ × μ :=
  ops.foldl (fun y op => op y) x

/-- Threads in the middle of a run: the memory, each thread's state, and the
    operations it has left. -/
structure Machine (T σ μ : Type*) where
  shared : μ
  locals : T → σ
  rest : T → List (Operation σ μ)

section Alone

variable {σ μ : Type*}

theorem alone_nil (x : σ × μ) : alone [] x = x := rfl

theorem alone_cons (op : Operation σ μ) (ops : List (Operation σ μ)) (x : σ × μ) :
    alone (op :: ops) x = alone ops (op x) := rfl

theorem alone_append (ops ops' : List (Operation σ μ)) (x : σ × μ) :
    alone (ops ++ ops') x = alone ops' (alone ops x) := List.foldl_append

end Alone

/-- An operation of thread `t` depends only on what `t` sees of the memory, and
    changes nothing that another thread sees. -/
structure Respects {T σ μ : Type*} (Same : T → μ → μ → Prop) (t : T) (op : Operation σ μ) :
    Prop where
  own : ∀ s m m', Same t m m' →
    (op (s, m)).1 = (op (s, m')).1 ∧ Same t (op (s, m)).2 (op (s, m')).2
  others : ∀ t', t' ≠ t → ∀ s m, Same t' (op (s, m)).2 m

section View

variable {T σ μ : Type*} {Same : T → μ → μ → Prop}

/-- Operations of a thread, run alone, depend on what the thread sees. -/
theorem alone_view (t : T) (ops : List (Operation σ μ)) (hops : ∀ op ∈ ops, Respects Same t op)
    (s : σ) (m m' : μ) (h : Same t m m') :
    (alone ops (s, m)).1 = (alone ops (s, m')).1 ∧
      Same t (alone ops (s, m)).2 (alone ops (s, m')).2 := by
  induction ops generalizing s m m' with
  | nil => exact ⟨rfl, h⟩
  | cons op ops ih =>
      have hop := (hops op List.mem_cons_self).own s m m' h
      have htail := ih (fun q hq => hops q (List.mem_cons_of_mem op hq)) (op (s, m')).1
        (op (s, m)).2 (op (s, m')).2 hop.2
      -- The states are the same, so the rest starts from one state.
      have hpair : op (s, m) = ((op (s, m')).1, (op (s, m)).2) := Prod.ext hop.1 rfl
      rw [alone_cons, alone_cons, hpair]
      exact htail

end View

namespace Machine

variable {T σ μ : Type*} [DecidableEq T]

/-- Let thread `t` run its next operation, if it has one. -/
def step (x : Machine T σ μ) (t : T) : Machine T σ μ :=
  match x.rest t with
  | [] => x
  | op :: ops =>
    { shared := (op (x.locals t, x.shared)).2
      locals := Function.update x.locals t (op (x.locals t, x.shared)).1
      rest := Function.update x.rest t ops }

/-- Follow a schedule: the threads in the order in which they are picked. -/
def run (x : Machine T σ μ) (schedule : List T) : Machine T σ μ := schedule.foldl step x

/-- No thread has anything left to run. -/
def Finished (x : Machine T σ μ) : Prop := ∀ t, x.rest t = []

theorem run_cons (x : Machine T σ μ) (t : T) (schedule : List T) :
    x.run (t :: schedule) = (x.step t).run schedule := rfl

theorem step_nil (x : Machine T σ μ) (t : T) (h : x.rest t = []) : x.step t = x := by
  unfold step
  rw [h]

theorem step_cons (x : Machine T σ μ) (t : T) (op : Operation σ μ) (ops : List (Operation σ μ))
    (h : x.rest t = op :: ops) :
    x.step t =
      { shared := (op (x.locals t, x.shared)).2
        locals := Function.update x.locals t (op (x.locals t, x.shared)).1
        rest := Function.update x.rest t ops } := by
  unfold step
  rw [h]

/-- A step takes one operation off its own thread. -/
theorem step_rest (x : Machine T σ μ) (t t' : T) :
    (x.step t).rest t' = if t' = t then (x.rest t').tail else x.rest t' := by
  cases h : x.rest t with
  | nil =>
      rw [step_nil x t h]
      by_cases heq : t' = t
      · rw [if_pos heq, heq, h, List.tail_nil]
      · rw [if_neg heq]
  | cons op ops =>
      rw [step_cons x t op ops h]
      by_cases heq : t' = t
      · rw [if_pos heq, heq, h, List.tail_cons]
        exact Function.update_self t ops x.rest
      · rw [if_neg heq]
        exact Function.update_of_ne heq ops x.rest

/-- A schedule takes as many operations off a thread as it picks it. -/
theorem run_rest (x : Machine T σ μ) (schedule : List T) (t : T) :
    (x.run schedule).rest t = (x.rest t).drop (schedule.count t) := by
  induction schedule generalizing x with
  | nil => rfl
  | cons t₀ schedule ih =>
      rw [run_cons, ih, step_rest, List.count_cons]
      by_cases heq : t = t₀
      · rw [if_pos heq, heq, beq_self_eq_true, if_pos rfl, List.drop_tail]
      · rw [if_neg heq, if_neg (fun h => heq (beq_iff_eq.mp h).symm), Nat.add_zero]

/-- A schedule finishes when it picks every thread often enough. -/
theorem run_finished_iff (x : Machine T σ μ) (schedule : List T) :
    (x.run schedule).Finished ↔ ∀ t, (x.rest t).length ≤ schedule.count t := by
  unfold Finished
  simp only [run_rest, List.drop_eq_nil_iff]

variable {Same : T → μ → μ → Prop}

/-- Every thread runs as if it were alone: its state, and what it sees of the
    memory, come from its own operations on the memory of the beginning. The
    induction is on the schedule, and a step of another thread is not seen. -/
theorem run_view (hequiv : ∀ t, Equivalence (Same t)) (x : Machine T σ μ)
    (hops : ∀ t, ∀ op ∈ x.rest t, Respects Same t op) (schedule : List T) (t : T) :
    ∃ done, x.rest t = done ++ (x.run schedule).rest t ∧
      (x.run schedule).locals t = (alone done (x.locals t, x.shared)).1 ∧
      Same t (x.run schedule).shared (alone done (x.locals t, x.shared)).2 := by
  induction schedule generalizing x with
  | nil => exact ⟨[], rfl, rfl, (hequiv t).refl _⟩
  | cons t₀ schedule ih =>
      rw [run_cons]
      cases hrest : x.rest t₀ with
      | nil =>
          -- A thread with nothing left to run does nothing.
          rw [step_nil x t₀ hrest]
          exact ih x hops
      | cons op ops =>
          have hstep := step_rest x t₀
          have hnext : ∀ t, ∀ q ∈ (x.step t₀).rest t, Respects Same t q := by
            intro t q hq
            rw [hstep] at hq
            by_cases heq : t = t₀
            · rw [if_pos heq] at hq
              exact hops t q (List.mem_of_mem_tail hq)
            · rw [if_neg heq] at hq
              exact hops t q hq
          rcases ih (x.step t₀) hnext with ⟨done, hdone, hloc, hsame⟩
          rw [hstep] at hdone
          by_cases heq : t = t₀
          · -- The step is the thread's own, and comes first.
            subst heq
            rw [if_pos rfl, hrest, List.tail_cons] at hdone
            have hpair : ((x.step t).locals t, (x.step t).shared) = op (x.locals t, x.shared) := by
              rw [step_cons x t op ops hrest]
              exact Prod.ext (Function.update_self t _ x.locals) rfl
            rw [hpair] at hloc hsame
            exact ⟨op :: done, by rw [hrest, hdone, List.cons_append], hloc, hsame⟩
          · -- The step is another thread's, and leaves what is seen alone.
            rw [if_neg heq] at hdone
            have hmine : (x.step t₀).locals t = x.locals t := by
              rw [step_cons x t₀ op ops hrest]
              exact Function.update_of_ne heq _ _
            have hseen : Same t (x.step t₀).shared x.shared := by
              rw [step_cons x t₀ op ops hrest]
              exact (hops t₀ op (by rw [hrest]; exact List.mem_cons_self)).others t heq _ _
            have hprefix : ∀ q ∈ done, Respects Same t q := by
              intro q hq
              exact hops t q (by rw [hdone]; exact List.mem_append_left _ hq)
            have hview := alone_view t done hprefix (x.locals t) _ _ hseen
            rw [hmine] at hloc hsame
            exact ⟨done, hdone, hloc.trans hview.1, (hequiv t).trans hsame hview.2⟩

/-- What a finished schedule leaves of a thread is what the thread leaves
    alone. -/
theorem finished_view (hequiv : ∀ t, Equivalence (Same t)) (x : Machine T σ μ)
    (hops : ∀ t, ∀ op ∈ x.rest t, Respects Same t op) (schedule : List T)
    (hfin : (x.run schedule).Finished) (t : T) :
    (x.run schedule).locals t = (alone (x.rest t) (x.locals t, x.shared)).1 ∧
      Same t (x.run schedule).shared (alone (x.rest t) (x.locals t, x.shared)).2 := by
  rcases run_view hequiv x hops schedule t with ⟨done, hdone, hloc, hsame⟩
  rw [hfin t, List.append_nil] at hdone
  rw [hdone]
  exact ⟨hloc, hsame⟩

end Machine

end AscendKernel
