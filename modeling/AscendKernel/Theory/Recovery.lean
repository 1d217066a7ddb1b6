import AscendKernel.Theory.SessionPairs

/-!
# Callers that Catch

Sessions that go on after a call has failed.

A session ends with the first call that is stopped. A caller may as well catch
what a call throws and make the next one on the same tensors, and then it
matters what the failed call has done to them. It has done nothing: every stop
lies before the first write. So the calls that complete are a session of their
own, and those that fail might as well not have been made.

Which calls these are depends on the callers alone. A call completes when it
passes the checks on entry and no row is asked for less than the last completed
call on it asked for, unless that filled the row.

## Main definitions

* `Call.attempt`, `attempts`: Calls made by a caller that catches.
* `Call.Served`: A call is accepted, and no row shrinks.
* `completions`, `served`: Which calls complete, and these alone.

## Theorems

* `attempt_of_run`, `attempt_of_error`: What a call leaves to such a caller.
* `attempts_served`: The calls that complete are a session.
-/

namespace AscendKernel

/-- The operator on a call and a buffer of `N` rows: whether it completes, and
    the buffer its caller finds afterwards in any case. -/
def Call.attempt (c : Call) (plat : Platform) (N : ℕ) (buf : ℕ → ℕ → Int64) :
    Except Failure Unit × (ℕ → ℕ → Int64) :=
  let p := getCacheMissTopkIndices plat (.long c.ids)
    { topk_indices := .int c.topk,
      last_step_topk_indices := .long (contiguous2 N SEQ_LEN buf) }
  (p.1, p.2.last_step_topk_indices.readLong)

/-- Calls made one after the other, whether they fail or not: what each comes
    to, and the buffer at the end. -/
def attempts (plat : Platform) (N : ℕ) :
    List Call → (ℕ → ℕ → Int64) → List (Except Failure Unit) × (ℕ → ℕ → Int64)
  | [], buf => ([], buf)
  | c :: cs, buf =>
    let p := c.attempt plat N buf
    let rest := attempts plat N cs p.2
    (p.1 :: rest.1, rest.2)

/-- A call is accepted, and asks no row for fewer codes than it holds, unless
    the row is full. -/
def Call.Served (c : Call) (N : ℕ) (held : ℕ → ℕ) : Prop :=
  c.Accepted N ∧ ∀ r < c.numReqs, held r ≤ c.asks r ∨ held r = SEQ_LEN

instance (c : Call) (N : ℕ) (held : ℕ → ℕ) : Decidable (c.Served N held) :=
  inferInstanceAs (Decidable ((c.numReqs ≤ N ∧ c.numReqs ≤ c.numIds) ∧
    ∀ r < c.numReqs, held r ≤ c.asks r ∨ held r = SEQ_LEN))

/-- Which calls of a list are served, when rows hold what the served ones
    asked for. -/
def completions (N : ℕ) : List Call → (ℕ → ℕ) → List Bool
  | [], _ => []
  | c :: cs, held =>
    if c.Served N held then true :: completions N cs (c.holds held)
    else false :: completions N cs held

/-- The served calls alone. -/
def served (N : ℕ) : List Call → (ℕ → ℕ) → List Call
  | [], _ => []
  | c :: cs, held =>
    if c.Served N held then c :: served N cs (c.holds held) else served N cs held

section Attempts

variable {plat : Platform} {N : ℕ} {c : Call} {buf : ℕ → ℕ → Int64}

theorem attempt_of_run (o : Outcome) (h : c.run plat N buf = .ok o) :
    c.attempt plat N buf = (.ok (), o.buffer) := by
  unfold Call.run at h
  unfold Call.attempt
  generalize getCacheMissTopkIndices plat (.long c.ids)
    { topk_indices := .int c.topk
      last_step_topk_indices := .long (contiguous2 N SEQ_LEN buf) } = left at h ⊢
  rcases left with ⟨e | u, caller⟩
  · exact absurd h (error_ne_ok _ _)
  · rw [← Except.ok.inj h]

/-- A call that fails leaves the buffer as it was. -/
theorem attempt_of_error (e : Failure) (h : c.run plat N buf = .error e) :
    ∃ buf', c.attempt plat N buf = (.error e, buf') ∧ ∀ r, ∀ i < SEQ_LEN, buf' r i = buf r i := by
  unfold Call.run at h
  unfold Call.attempt
  generalize hleft : getCacheMissTopkIndices plat (.long c.ids)
    { topk_indices := .int c.topk
      last_step_topk_indices := .long (contiguous2 N SEQ_LEN buf) } = left at h ⊢
  rcases left with ⟨e' | u, caller⟩
  · rw [caller_of_failure plat _ _ caller e' hleft, Except.error.inj h]
    exact ⟨_, rfl, fun r i hi => contiguous2_at2 N SEQ_LEN buf r i hi⟩
  · exact absurd h.symm (error_ne_ok _ _)

/-- A served call on a padded buffer completes, and any other call fails. -/
theorem run_iff_served (hfit : Fits plat c.numReqs) (hdist : c.DistinctTokens)
    (hbuf : ∀ r, DistinctOffPad (-1) SEQ_LEN (buf r)) :
    (∃ o, c.run plat N buf = .ok o) ↔
      c.Served N fun r => occupancy (-1) SEQ_LEN (buf r) := by
  have hroom := Call.balanced_iff hdist (fun q _ => hbuf q)
  constructor
  · rintro ⟨o, ho⟩
    exact ⟨Call.accepted_of_run o ho,
      hroom.mp (Call.balanced_of_run hfit.1 hdist (fun q _ => hbuf q) o ho)⟩
  · rintro ⟨hacc, hbal⟩
    exact Call.completes_of_balanced hacc hfit (hroom.mpr hbal)

/-- The run lemma: from two buffers with the same rows, the calls of a caller
    that catches and the served ones among them on their own. -/
theorem attempts_along (calls : List Call)
    (hcalls : ∀ c ∈ calls, Fits plat c.numReqs ∧ c.DistinctTokens)
    (buf buf' : ℕ → ℕ → Int64) (hbuf : ∀ r, DistinctOffPad (-1) SEQ_LEN (buf r))
    (hsame : ∀ r, ∀ i < SEQ_LEN, buf r i = buf' r i) (held : ℕ → ℕ)
    (hheld : ∀ r, occupancy (-1) SEQ_LEN (buf r) = held r) :
    (attempts plat N calls buf').1.map Except.isOk = completions N calls held ∧
      ∃ os final, session plat N (served N calls held) buf = .ok (os, final) ∧
        ∀ r, ∀ i < SEQ_LEN, (attempts plat N calls buf').2 r i = final r i := by
  induction calls generalizing buf buf' held with
  | nil => exact ⟨rfl, [], buf, rfl, fun r i hi => (hsame r i hi).symm⟩
  | cons c cs ih =>
      have hc := hcalls c List.mem_cons_self
      have hrest := fun d hd => hcalls d (List.mem_cons_of_mem c hd)
      have hiff := run_iff_served (N := N) hc.1 hc.2 hbuf
      rw [funext hheld] at hiff
      unfold attempts completions served
      by_cases hserved : c.Served N held
      · -- A served call completes, on either buffer.
        rcases hiff.mpr hserved with ⟨o, ho⟩
        have ho' := ho
        rw [Call.run_congr c plat N buf buf' hsame] at ho'
        have hheld' : ∀ r, occupancy (-1) SEQ_LEN (o.buffer r) = c.holds held r := by
          intro r
          rw [occupancy_of_run ⟨hserved.1, hc.1, hc.2⟩ hbuf o ho r, funext hheld]
        rcases ih hrest o.buffer o.buffer (distinctOffPad_step hc.1.1 hc.2 hbuf o ho)
          (fun _ _ _ => rfl) (c.holds held) hheld' with ⟨hfates, os, final, hsession, hfinal⟩
        rw [if_pos hserved, if_pos hserved, attempt_of_run o ho']
        refine ⟨by rw [List.map_cons, hfates]; rfl, o :: os, final, ?_, hfinal⟩
        exact (session_cons c _ buf _ final).mpr ⟨o, os, ho, hsession, rfl⟩
      · cases hrun : c.run plat N buf' with
        | ok o =>
            rw [← Call.run_congr c plat N buf buf' hsame] at hrun
            exact absurd (hiff.mp ⟨o, hrun⟩) hserved
        | error e =>
            -- Nothing was written, so the next call finds the same rows.
            rcases attempt_of_error e hrun with ⟨after, hafter, hkept⟩
            rcases ih hrest buf after hbuf
              (fun r i hi => (hsame r i hi).trans (hkept r i hi).symm) held hheld with
              ⟨hfates, hsession⟩
            rw [if_neg hserved, if_neg hserved, hafter]
            exact ⟨by rw [List.map_cons, hfates]; rfl, hsession⟩

end Attempts

/-- From an empty buffer, a caller that catches has exactly the served calls
    completed, and finds the buffer these calls leave as a session on their
    own. A failed call leaves no trace. -/
theorem attempts_served (plat : Platform) (N : ℕ) (calls : List Call)
    (hcalls : ∀ c ∈ calls, Fits plat c.numReqs ∧ c.DistinctTokens) :
    (attempts plat N calls fun _ _ => -1).1.map Except.isOk = completions N calls (fun _ => 0) ∧
      ∃ os final, session plat N (served N calls fun _ => 0) (fun _ _ => -1) = .ok (os, final) ∧
        ∀ r, ∀ i < SEQ_LEN, (attempts plat N calls fun _ _ => -1).2 r i = final r i :=
  attempts_along calls hcalls _ _ (fun _ => distinctOffPad_empty) (fun _ _ _ => rfl) _
    (fun _ => occupancy_empty)

/-- Two tokens, then one of them, then two again. -/
def shrinkingSteps : List Call :=
  [Call.ofRows [(3, [5, 7])], Call.ofRows [(3, [5])], Call.ofRows [(3, [5, 9])]]

/-- A call of one row is served by the number of its tokens. -/
theorem oneRow_served (xs : List Int32) (hnodup : xs.Nodup) (hlen : xs.length ≤ SEQ_LEN)
    (hpos : xs.all (fun t => decide (0 ≤ t)) = true) (held : ℕ → ℕ) :
    ((Call.ofRows [(3, xs)]).Served 4 held ↔ held 0 ≤ xs.length ∨ held 0 = SEQ_LEN) ∧
      (Call.ofRows [(3, xs)]).holds held 0 = xs.length := by
  rcases oneRow_spec xs hnodup hlen hpos with ⟨_, hreg, hone, hasks⟩
  have hrow : (Call.ofRows [(3, xs)]).asks 0 = xs.length := hasks
  refine ⟨⟨fun h => ?_, fun h => ⟨hreg.accepted, fun r hr => ?_⟩⟩, ?_⟩
  · rw [← hrow]
    exact h.2 0 (by rw [hone]; exact Nat.one_pos)
  · rw [hone, Nat.lt_one_iff] at hr
    rw [hr, hrow]
    exact h
  · rw [Call.holds, if_pos (by rw [hone]; exact Nat.one_pos), hrow]

theorem shrinkingSteps_completions :
    completions 4 shrinkingSteps (fun _ => 0) = [true, false, true] := by
  have hwidth : 2 < SEQ_LEN := by decide
  have hfirst := oneRow_served [5, 7] (by decide) (Nat.le_of_lt hwidth) (by decide)
  have hsecond := oneRow_served [5] (by decide) (Nat.le_of_lt (Nat.lt_of_succ_lt hwidth))
    (by decide)
  have hthird := oneRow_served [5, 9] (by decide) (Nat.le_of_lt hwidth) (by decide)
  have hheld := (hfirst fun _ => 0).2
  unfold shrinkingSteps completions completions completions completions
  rw [if_pos ((hfirst _).1.mpr (Or.inl (Nat.zero_le _))), if_neg ?_,
    if_pos ((hthird _).1.mpr (Or.inl (by rw [hheld]; exact le_refl _)))]
  intro h
  rcases (hsecond _).1.mp h with h | h
  · rw [hheld] at h
    exact absurd h (by decide)
  · rw [hheld] at h
    exact absurd h (Nat.ne_of_lt hwidth)

/-- The second call fails, and the third goes on from the first. -/
theorem attempts_served_shrinking :
    (attempts Platform.singleCore 4 shrinkingSteps fun _ _ => -1).1.map Except.isOk
      = [true, false, true] := by
  rw [← shrinkingSteps_completions]
  refine (attempts_served Platform.singleCore 4 shrinkingSteps (fun c hc => ?_)).1
  have hwidth : 2 ≤ SEQ_LEN := by decide
  have hregular : c.Regular Platform.singleCore 4 := by
    unfold shrinkingSteps at hc
    rcases List.mem_cons.mp hc with rfl | hc
    · exact (oneRow_spec [5, 7] (by decide) hwidth (by decide)).2.1
    · rcases List.mem_cons.mp hc with rfl | hc
      · exact (oneRow_spec [5] (by decide) (Nat.le_of_succ_le hwidth) (by decide)).2.1
      · rw [List.mem_singleton.mp hc]
        exact (oneRow_spec [5, 9] (by decide) hwidth (by decide)).2.1
  exact ⟨hregular.fits, hregular.distinct⟩

end AscendKernel
