import Mathlib.Data.List.Basic
import Mathlib.Logic.Function.Basic

/-!
# Threads that Wait for Each Other

Threads whose operations can block, and when the schedule does not matter.

An operation is partial: where it is not defined, the thread has to wait until
another one has changed the state. Then a schedule can do two bad things that a
schedule of total operations cannot. It may stop with threads that wait for each
other, and it may let one thread run ahead and find the state different from
how another schedule would have left it.

Neither happens when the operations of different threads commute: if both can
go ahead, either order is possible and both orders end the same. That property
is local to two operations, so it is checked case by case, and it is enough. If
some schedule finishes, then no schedule can get stuck, none is longer, and all
that finish end in the same state. `run_confluent` is that theorem; its proof
pulls a step of the one schedule through the other, `run_of_step`.

A state is often made of components. Operations on disjoint ones always
commute, and on the same one they commute as they do there.

## Main definitions

* `Commutes`: Either order of two operations is possible and ends the same.
* `Component`, `Component.lift`: A component of the state, and an operation on it.
* `runAll`: Operations one after the other.
* `Threads`: A shared state, and what each thread has left to do.
* `Threads.issue`: A program issued to its threads.
* `Threads.step`, `Threads.run`: The next operation of a thread, and a schedule.
* `Threads.Independent`: Operations of different threads commute.

## Theorems

* `Component.commutes_lift`, `Component.Disjoint.commutes`: Commuting by
  components.
* `run_of_step`: A step taken early.
* `run_confluent`: Every schedule leads to the end one schedule reaches.
* `run_issue`: The order of the program is a schedule.
-/

namespace AscendKernel

section Commuting

variable {S A B : Type*}

/-- If both operations can go ahead, either order is possible and both orders
    end the same. -/
def Commutes (p c : S → Option S) : Prop :=
  ∀ s s₁ s₂, p s = some s₁ → c s = some s₂ → ∃ s', c s₁ = some s' ∧ p s₂ = some s'

theorem Commutes.symm {p c : S → Option S} (h : Commutes p c) : Commutes c p := by
  intro s s₁ s₂ h₁ h₂
  rcases h s s₂ s₁ h₂ h₁ with ⟨s', hc, hp⟩
  exact ⟨s', hp, hc⟩

/-- A component of a state, which can be read and replaced. -/
structure Component (S A : Type*) where
  get : S → A
  set : S → A → S
  get_set : ∀ s a, get (set s a) = a
  set_set : ∀ s a b, set (set s a) b = set s b

/-- Neither component contains any of the other. -/
structure Component.Disjoint (c : Component S A) (d : Component S B) : Prop where
  get_left : ∀ s b, c.get (d.set s b) = c.get s
  get_right : ∀ s a, d.get (c.set s a) = d.get s
  set_comm : ∀ s a b, d.set (c.set s a) b = c.set (d.set s b) a

/-- An operation on a component of the state. -/
def Component.lift (c : Component S A) (f : A → Option A) (s : S) : Option S :=
  (f (c.get s)).map (c.set s)

/-- The component is replaced exactly when the operation on it goes ahead. -/
theorem Component.lift_eq_some {c : Component S A} {f : A → Option A} {s s' : S} :
    c.lift f s = some s' ↔ ∃ a, f (c.get s) = some a ∧ c.set s a = s' :=
  Option.map_eq_some_iff

theorem Component.commutes_lift (c : Component S A) {f g : A → Option A} (h : Commutes f g) :
    Commutes (c.lift f) (c.lift g) := by
  intro s s₁ s₂ h₁ h₂
  rcases lift_eq_some.mp h₁ with ⟨a₁, hf, rfl⟩
  rcases lift_eq_some.mp h₂ with ⟨a₂, hg, rfl⟩
  rcases h (c.get s) a₁ a₂ hf hg with ⟨a, hg', hf'⟩
  refine ⟨c.set s a, lift_eq_some.mpr ⟨a, ?_, c.set_set s a₁ a⟩,
    lift_eq_some.mpr ⟨a, ?_, c.set_set s a₂ a⟩⟩
  · rw [c.get_set]
    exact hg'
  · rw [c.get_set]
    exact hf'

theorem Component.Disjoint.commutes {c : Component S A} {d : Component S B} (h : c.Disjoint d)
    (f : A → Option A) (g : B → Option B) : Commutes (c.lift f) (d.lift g) := by
  intro s s₁ s₂ h₁ h₂
  rcases lift_eq_some.mp h₁ with ⟨a, hf, rfl⟩
  rcases lift_eq_some.mp h₂ with ⟨b, hg, rfl⟩
  refine ⟨c.set (d.set s b) a, lift_eq_some.mpr ⟨b, ?_, h.set_comm s a b⟩,
    lift_eq_some.mpr ⟨a, ?_, rfl⟩⟩
  · rw [h.get_right]
    exact hg
  · rw [h.get_left]
    exact hf

/-- Operations one after the other. -/
def runAll (ops : List (S → Option S)) (s : S) : Option S := ops.foldlM (fun s op => op s) s

theorem runAll_nil (s : S) : runAll [] s = some s := rfl

theorem runAll_cons (op : S → Option S) (ops : List (S → Option S)) (s : S) :
    runAll (op :: ops) s = (op s).bind (runAll ops) := List.foldlM_cons

theorem runAll_append (ops ops' : List (S → Option S)) (s : S) :
    runAll (ops ++ ops') s = (runAll ops s).bind (runAll ops') := List.foldlM_append

end Commuting

/-- Threads in the middle of a run: the state they share, and the operations
    each has left. -/
structure Threads (T S : Type*) where
  shared : S
  rest : T → List (S → Option S)

namespace Threads

variable {T S : Type*} [DecidableEq T]

/-- The next operation of a thread, if it has one and need not wait. -/
def step (t : T) (m : Threads T S) : Option (Threads T S) :=
  match m.rest t with
  | [] => none
  | op :: ops => (op m.shared).map fun s => { shared := s, rest := Function.update m.rest t ops }

/-- The threads of a schedule, one operation each. -/
def run : List T → Threads T S → Option (Threads T S)
  | [], m => some m
  | t :: w, m => (step t m).bind (run w)

/-- A program issued to its threads: each gets its own operations, in the order
    of the program. -/
def issue (program : List (T × List (S → Option S))) (s : S) : Threads T S where
  shared := s
  rest := fun t => (program.filter fun p => p.1 = t).flatMap fun p => p.2

/-- No thread has anything left. -/
def Done (m : Threads T S) : Prop := ∀ t, m.rest t = []

/-- Operations of different threads commute. -/
def Independent (m : Threads T S) : Prop :=
  ∀ t u, t ≠ u → ∀ p ∈ m.rest t, ∀ c ∈ m.rest u, Commutes p c

/-- A thread that can go ahead has an operation left, and it is defined. -/
theorem step_eq_some {t : T} {m m' : Threads T S} :
    m.step t = some m' ↔ ∃ op ops s, m.rest t = op :: ops ∧ op m.shared = some s ∧
      { shared := s, rest := Function.update m.rest t ops } = m' := by
  unfold step
  constructor
  · intro h
    split at h
    · exact absurd h.symm (Option.some_ne_none m')
    · rename_i op ops hrest
      rcases Option.map_eq_some_iff.mp h with ⟨s, hs, hm⟩
      exact ⟨op, ops, s, hrest, hs, hm⟩
  · rintro ⟨op, ops, s, hrest, hs, hm⟩
    rw [hrest]
    simp only []
    rw [hs, ← hm]
    rfl

theorem run_append (w v : List T) (m : Threads T S) :
    run (w ++ v) m = (run w m).bind (run v) := by
  induction w generalizing m with
  | nil => rfl
  | cons t w ih =>
      rw [List.cons_append, run, run, Option.bind_assoc]
      exact congrArg _ (funext fun m' => ih m')

/-- What a step leaves to do was there before. -/
theorem step_rest {t : T} {m m' : Threads T S} (h : m.step t = some m') (u : T)
    (op : S → Option S) (hop : op ∈ m'.rest u) : op ∈ m.rest u := by
  rcases step_eq_some.mp h with ⟨p, ops, s, hrest, -, rfl⟩
  by_cases hut : u = t
  · subst hut
    dsimp only at hop
    rw [Function.update_self] at hop
    rw [hrest]
    exact List.mem_cons_of_mem p hop
  · dsimp only at hop
    rwa [Function.update_of_ne hut] at hop

theorem Independent.step {t : T} {m m' : Threads T S} (hind : m.Independent)
    (h : m.step t = some m') : m'.Independent := fun u v huv p hp c hc =>
  hind u v huv p (step_rest h u p hp) c (step_rest h v c hc)

/-- Two threads that can both go ahead can do so in either order. -/
theorem step_diamond {t u : T} {m m₁ m₂ : Threads T S} (hind : m.Independent) (htu : t ≠ u)
    (h₁ : m.step t = some m₁) (h₂ : m.step u = some m₂) :
    ∃ m', m₁.step u = some m' ∧ m₂.step t = some m' := by
  rcases step_eq_some.mp h₁ with ⟨p, ops, s₁, hp, hs₁, rfl⟩
  rcases step_eq_some.mp h₂ with ⟨c, ops', s₂, hc, hs₂, rfl⟩
  have hpmem : p ∈ m.rest t := by
    rw [hp]
    exact List.mem_cons_self
  have hcmem : c ∈ m.rest u := by
    rw [hc]
    exact List.mem_cons_self
  rcases hind t u htu p hpmem c hcmem m.shared s₁ s₂ hs₁ hs₂ with ⟨s', hc', hp'⟩
  -- Each thread has its own operations left, in either order.
  refine ⟨{ shared := s', rest := Function.update (Function.update m.rest t ops) u ops' },
    step_eq_some.mpr ⟨c, ops', s', ?_, hc', rfl⟩, step_eq_some.mpr ⟨p, ops, s', ?_, hp', ?_⟩⟩
  · exact (Function.update_of_ne htu.symm _ _).trans hc
  · exact (Function.update_of_ne htu _ _).trans hp
  · rw [Function.update_comm htu]

/-- A step that is possible now can be taken before a schedule that finishes,
    which then has one step less. The induction is on the schedule. -/
theorem run_of_step (w : List T) {t : T} {m m₁ m' : Threads T S} (hind : m.Independent)
    (hrun : run w m = some m') (hdone : m'.Done) (h : m.step t = some m₁) :
    ∃ w', run w' m₁ = some m' ∧ w'.length + 1 = w.length := by
  induction w generalizing m m₁ with
  | nil =>
      -- Nothing is left, so there is no step to take.
      rcases step_eq_some.mp h with ⟨op, ops, s, hrest, -, -⟩
      rw [run, Option.some.injEq] at hrun
      rw [hrun, hdone t] at hrest
      exact absurd hrest.symm (List.cons_ne_nil op ops)
  | cons u w ih =>
      rcases Option.bind_eq_some_iff.mp hrun with ⟨m₂, hstep, hrest⟩
      by_cases htu : t = u
      · subst htu
        -- The schedule begins with this very step.
        rw [h, Option.some.injEq] at hstep
        subst hstep
        exact ⟨w, hrest, rfl⟩
      · -- Another thread goes first, and both steps are possible.
        rcases step_diamond hind htu h hstep with ⟨m₃, hu, ht⟩
        rcases ih (hind.step hstep) hrest ht with ⟨w', hw', hlen⟩
        refine ⟨u :: w', ?_, ?_⟩
        · rw [run, hu, Option.bind_some]
          exact hw'
        · rw [List.length_cons, List.length_cons, hlen]

/-- If a schedule finishes, every other one can be carried on to the same end,
    and takes as many steps in all. -/
theorem run_confluent (w v : List T) {m m' m'' : Threads T S} (hind : m.Independent)
    (hrun : run w m = some m') (hdone : m'.Done) (h : run v m = some m'') :
    ∃ w', run w' m'' = some m' ∧ v.length + w'.length = w.length := by
  induction v generalizing w m with
  | nil =>
      rw [run, Option.some.injEq] at h
      rw [← h]
      exact ⟨w, hrun, Nat.zero_add _⟩
  | cons t v ih =>
      rcases Option.bind_eq_some_iff.mp h with ⟨m₁, hstep, hv⟩
      -- The first step of `v` is pulled to the front of `w`.
      rcases run_of_step w hind hrun hdone hstep with ⟨w₁, hw₁, hlen₁⟩
      rcases ih w₁ (hind.step hstep) hw₁ hv with ⟨w', hw', hlen⟩
      refine ⟨w', hw', ?_⟩
      rw [List.length_cons]
      omega

/-- A schedule that finishes ends where every other one that finishes does. -/
theorem run_done (w v : List T) {m m' m'' : Threads T S} (hind : m.Independent)
    (hrun : run w m = some m') (hdone : m'.Done) (h : run v m = some m'') (hdone' : m''.Done) :
    m'' = m' := by
  rcases run_confluent w v hind hrun hdone h with ⟨w', hw', -⟩
  cases w' with
  | nil => exact Option.some.inj hw'
  | cons t w' =>
      rcases Option.bind_eq_some_iff.mp hw' with ⟨m₁, hstep, -⟩
      -- A thread that has nothing left does not step.
      rcases step_eq_some.mp hstep with ⟨op, ops, s, hrest, -, -⟩
      rw [hdone' t] at hrest
      exact absurd hrest.symm (List.cons_ne_nil op ops)

/-- A thread that runs a list of operations without waiting. -/
theorem run_ops (t : T) (ops ops' : List (S → Option S)) (m : Threads T S) (s : S)
    (hrest : m.rest t = ops ++ ops')
    (hops : runAll ops m.shared = some s) :
    run (List.replicate ops.length t) m =
      some { shared := s, rest := Function.update m.rest t ops' } := by
  induction ops generalizing m with
  | nil =>
      rw [List.nil_append] at hrest
      rw [runAll_nil, Option.some.injEq] at hops
      rw [← hops, ← hrest, Function.update_eq_self]
      rfl
  | cons op ops ih =>
      rw [runAll_cons] at hops
      rcases Option.bind_eq_some_iff.mp hops with ⟨s₁, hs₁, hs⟩
      have hstep : m.step t =
          some { shared := s₁, rest := Function.update m.rest t (ops ++ ops') } :=
        step_eq_some.mpr ⟨op, ops ++ ops', s₁, hrest, hs₁, rfl⟩
      rw [List.length_cons, List.replicate_succ, run, hstep, Option.bind_some,
        ih _ (Function.update_self t _ _) hs, Function.update_idem]

/-- The operations a thread is issued are those the program has for it. -/
theorem mem_issue {program : List (T × List (S → Option S))} {s : S} {t : T}
    {op : S → Option S} :
    op ∈ (issue program s).rest t ↔ ∃ ops, (t, ops) ∈ program ∧ op ∈ ops := by
  change op ∈ (program.filter fun p => p.1 = t).flatMap (fun p => p.2) ↔ _
  rw [List.mem_flatMap]
  constructor
  · rintro ⟨⟨u, ops⟩, hmem, hop⟩
    have hut : u = t := of_decide_eq_true (List.mem_filter.mp hmem).2
    subst hut
    exact ⟨ops, (List.mem_filter.mp hmem).1, hop⟩
  · rintro ⟨ops, hmem, hop⟩
    exact ⟨(t, ops), List.mem_filter.mpr ⟨hmem, decide_eq_true rfl⟩, hop⟩

/-- The order of the program is a schedule: if the program runs through, so do
    its threads. -/
theorem run_issue (program : List (T × List (S → Option S))) (s s' : S)
    (h : runAll (program.flatMap fun p => p.2) s = some s') :
    run (program.flatMap fun p => List.replicate p.2.length p.1) (issue program s) =
      some (issue [] s') := by
  induction program generalizing s with
  | nil =>
      rw [List.flatMap_nil, runAll_nil, Option.some.injEq] at h
      rw [List.flatMap_nil, run, h]
  | cons p program ih =>
      rcases p with ⟨t, ops⟩
      rw [List.flatMap_cons, runAll_append] at h
      rcases Option.bind_eq_some_iff.mp h with ⟨s₁, hs₁, hs'⟩
      have hrest : (issue ((t, ops) :: program) s).rest t = ops ++ (issue program s₁).rest t := by
        change ((_ :: program).filter fun p => p.1 = t).flatMap (fun p => p.2) = _
        rw [List.filter_cons, if_pos (decide_eq_true rfl), List.flatMap_cons]
        rfl
      have hissue : Function.update (issue ((t, ops) :: program) s).rest t
          ((issue program s₁).rest t) = (issue program s₁).rest := by
        funext u
        by_cases hut : u = t
        · rw [hut, Function.update_self]
        · -- Another thread is not issued these operations.
          rw [Function.update_of_ne hut]
          change ((_ :: program).filter fun p => p.1 = u).flatMap (fun p => p.2) = _
          rw [List.filter_cons, if_neg (fun heq => hut (of_decide_eq_true heq).symm)]
          rfl
      rw [List.flatMap_cons, run_append, run_ops t ops _ _ s₁ hrest hs₁, Option.bind_some, hissue]
      exact ih s₁ hs'

end Threads

end AscendKernel
