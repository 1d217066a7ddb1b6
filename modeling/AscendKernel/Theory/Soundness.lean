import AscendKernel.Library.TaggedCache
import AscendKernel.Theory.Invariant

/-!
# What a Hit Stands For

Whether a token without a report really is what its slot was loaded for.

The buffer holds codes. What a slot was loaded for is a request and a token,
and no part of the operator knows it, so it is followed here by a ghost: each
report of a completed call sets the ghost of its slot, and nothing else does. A
call is sound when every token it asks for without reporting it is in a slot
whose ghost is that request and that token.

A code is a token plus `2 ^ 16` times a request id, with no check on either.
Tokens of `2 ^ 16` and more share codes with tokens of later requests. So a row
handed to another request may hold a code the new request asks for, loaded for
the old one, and the call takes it for its own. `hitsSound_iff` is the exact
condition: soundness over a run is the absence of such codes, between each call
and what its rows were last used for, and of codes that wrap to a negative
number and are never reported at all.

## Main definitions

* `Entry`: What a slot is loaded for.
* `Ghost`: The entry each slot was last reported for.
* `History`: The completed calls of a run.
* `HitsSound`: Every call of a run is sound.
* `Unambiguous`: No call of a run meets a code of another entry.

## Theorems

* `tagStep_of_run`: A completed call is a step of a tagged cache.
* `sound_iff`: When one call is sound.
* `stocked_of_unambiguous`: The invariant of an unambiguous run.
* `hitsSound_iff`: When a run is sound.
* `unambiguous_of_smallTokens`: Tokens below the shift keep it sound.
* `hitsSound_shared_code`: It need not be.
-/

namespace AscendKernel

/-- A request and a token: what a slot is loaded for. -/
structure Entry where
  reqId : Int64
  token : Int32
  deriving DecidableEq

/-- The code of an entry, as the operator computes it. -/
def Entry.code (e : Entry) : Int64 :=
  e.token.toInt64 + e.reqId * ((1 : Int64) <<< (16 : Int64))

/-- The entries a call asks for. -/
def Call.wanted (c : Call) (r j : ℕ) : Option Entry :=
  if 0 ≤ c.topkIndices r j then some ⟨c.reqIds r, c.topkIndices r j⟩ else none

/-- For each slot, the entry it was last reported for. -/
abbrev Ghost := ℕ → ℕ → Option Entry

/-- A call sets the ghost of every slot it reports a token for. -/
def Ghost.after (g : Ghost) (c : Call) (o : Outcome) : Ghost := fun r i =>
  if r < c.numReqs ∧ 0 ≤ o.topkIndices r i then some ⟨c.reqIds r, o.topkIndices r i⟩ else g r i

/-- Every token a call asks for and does not report is in a slot of its row
    whose ghost is that token and the row's request. -/
def Call.Sound (c : Call) (o : Outcome) (g : Ghost) : Prop :=
  ∀ r < c.numReqs, ∀ j < SEQ_LEN, 0 ≤ c.topkIndices r j →
    (∀ i < SEQ_LEN, o.topkIndices r i ≠ c.topkIndices r j) →
    ∃ i < SEQ_LEN, o.buffer r i = c.codes r j ∧ g r i = some ⟨c.reqIds r, c.topkIndices r j⟩

/-- No code of a call is negative, and none is the code of another entry that
    the row was last used for. -/
structure Call.Unambiguous (c : Call) (last : ℕ → ℕ → Option Entry) : Prop where
  codes_nonneg : ∀ r < c.numReqs, ∀ j < SEQ_LEN, 0 ≤ c.topkIndices r j → 0 ≤ c.codes r j
  no_clash : ∀ r < c.numReqs, ¬ Clash SEQ_LEN Entry.code (last r) (c.wanted r)

/-- Calls with what they left, the latest first. -/
abbrev History := List (Call × Outcome)

namespace History

/-- The buffer after a history. -/
def buffer : History → ℕ → ℕ → Int64
  | [] => fun _ _ => -1
  | (_, o) :: _ => o.buffer

/-- The ghost after a history. -/
def ghost : History → Ghost
  | [] => fun _ _ => none
  | (c, o) :: h => (ghost h).after c o

/-- What each row was last used for. -/
def lastWanted : History → ℕ → ℕ → Option Entry
  | [] => fun _ _ => none
  | (c, _) :: h => fun r => if r < c.numReqs then c.wanted r else lastWanted h r

/-- Each call completed, on the buffer the earlier ones left. -/
def Completed (plat : Platform) (N : ℕ) : History → Prop
  | [] => True
  | (c, o) :: h => c.run plat N (buffer h) = .ok o ∧ Completed plat N h

/-- Every call of a history is sound. -/
def HitsSound : History → Prop
  | [] => True
  | (c, o) :: h => c.Sound o (ghost ((c, o) :: h)) ∧ HitsSound h

/-- Every call of a history is unambiguous, given the earlier ones. -/
def Unambiguous : History → Prop
  | [] => True
  | (c, _) :: h => c.Unambiguous (lastWanted h) ∧ Unambiguous h

end History

/-- The keys of the entries a call asks for are its codes. -/
theorem keys_wanted (c : Call) (r : ℕ) : keys (-1) Entry.code (c.wanted r) = c.codes r := by
  ext j
  unfold keys Call.wanted Call.codes topkIndicesNew
  by_cases ht : 0 ≤ c.topkIndices r j
  · rw [if_pos ht, if_pos ht]
    rfl
  · rw [if_neg ht, if_neg ht]
    rfl

theorem wanted_eq_some_iff (c : Call) (r j : ℕ) (e : Entry) :
    c.wanted r j = some e ↔ 0 ≤ c.topkIndices r j ∧ e = ⟨c.reqIds r, c.topkIndices r j⟩ := by
  unfold Call.wanted
  by_cases ht : 0 ≤ c.topkIndices r j
  · rw [if_pos ht, Option.some.injEq]
    exact ⟨fun h => ⟨ht, h.symm⟩, fun h => h.2.symm⟩
  · rw [if_neg ht]
    exact ⟨fun h => absurd h (Option.some_ne_none e).symm, fun h => absurd h.1 ht⟩

/-- The code of a token asked for is that of its entry. -/
theorem code_wanted (c : Call) (r j : ℕ) (ht : 0 ≤ c.topkIndices r j) :
    (⟨c.reqIds r, c.topkIndices r j⟩ : Entry).code = c.codes r j := by
  unfold Call.codes topkIndicesNew
  rw [if_pos ht]
  rfl

section Step

variable {c : Call} {plat : Platform} {N : ℕ} {buf : ℕ → ℕ → Int64}

/-- A token in the answer was asked for in its row, and its code, which is not
    negative, is the one reported for the slot. -/
theorem reported_of_answer (hrows : c.numReqs * SEQ_LEN ≤ 2 ^ 32) (hdist : c.DistinctTokens)
    (hbuf : c.PaddedRows buf) (o : Outcome) (h : c.run plat N buf = .ok o) (r i : ℕ)
    (hr : r < c.numReqs) (hi : i < SEQ_LEN) (hout : 0 ≤ o.topkIndices r i) :
    reported (-1) SEQ_LEN (c.codes r) (buf r) i ≠ -1 ∧
      ∃ j < SEQ_LEN, 0 ≤ c.topkIndices r j ∧ 0 ≤ c.codes r j ∧
        o.topkIndices r i = c.topkIndices r j ∧
        reported (-1) SEQ_LEN (c.codes r) (buf r) i = c.codes r j := by
  have hbal := Call.balanced_of_run hrows hdist hbuf o h
  have hans := (Call.run_rowLocal hrows hbal o h r i hr hi).2
  have hsome : reported (-1) SEQ_LEN (c.codes r) (buf r) i ≠ -1 := by
    intro hnone
    rw [hans, hnone, recovered_empty] at hout
    exact absurd hout (by decide)
  refine ⟨hsome, ?_⟩
  rcases ((serves_of_run hrows hdist hbuf o h r hr).loaded i hi hsome).2.1 with ⟨j, hj, hval⟩
  -- A negative code would have been answered by -1.
  have hpos : 0 ≤ c.codes r j := by
    by_contra hneg
    rw [hans, ← hval] at hout
    unfold recovered at hout
    rw [if_neg hneg] at hout
    exact absurd hout (by decide)
  have ht := Call.nonneg_of_code r j (ne_neg_one_of_nonneg _ hpos)
  refine ⟨j, hj, ht, hpos, ?_, hval.symm⟩
  rw [hans, ← hval]
  exact Call.recovered_codes r j ht hpos

/-- A token whose code the row held is not in the answer. -/
theorem not_answered_of_held (hrows : c.numReqs * SEQ_LEN ≤ 2 ^ 32) (hdist : c.DistinctTokens)
    (hbuf : c.PaddedRows buf) (o : Outcome) (h : c.run plat N buf = .ok o) (r j k : ℕ)
    (hr : r < c.numReqs) (ht : 0 ≤ c.topkIndices r j) (hk : k < SEQ_LEN)
    (hheld : buf r k = c.codes r j) (i : ℕ) (hi : i < SEQ_LEN) :
    o.topkIndices r i ≠ c.topkIndices r j := by
  intro hans
  -- An answer comes from a report, and no report was held.
  rcases reported_of_answer hrows hdist hbuf o h r i hr hi (by rw [hans]; exact ht) with
    ⟨hsome, m, _, htm, _, hansm, hrep⟩
  have hsame : c.codes r m = c.codes r j := by
    rw [← code_wanted c r m htm, ← code_wanted c r j ht, ← hansm, hans]
  exact ((serves_of_run hrows hdist hbuf o h r hr).loaded i hi hsome).2.2 k hk
    (by rw [hrep, hsame, hheld])

/-- A token whose code the row did not hold is in the answer. -/
theorem answered_of_missing (hrows : c.numReqs * SEQ_LEN ≤ 2 ^ 32) (hdist : c.DistinctTokens)
    (hbuf : c.PaddedRows buf) (o : Outcome) (h : c.run plat N buf = .ok o) (r j : ℕ)
    (hr : r < c.numReqs) (hj : j < SEQ_LEN) (hcode : 0 ≤ c.codes r j)
    (hmiss : ∀ k < SEQ_LEN, buf r k ≠ c.codes r j) :
    ∃ i < SEQ_LEN, o.topkIndices r i = c.topkIndices r j := by
  have hne := ne_neg_one_of_nonneg _ hcode
  have hbal := Call.balanced_of_run hrows hdist hbuf o h
  rcases (serves_of_run hrows hdist hbuf o h r hr).complete j hj hne hmiss with ⟨i, hi, hval⟩
  refine ⟨i, hi, ?_⟩
  rw [(Call.run_rowLocal hrows hbal o h r i hr hi).2, hval]
  exact Call.recovered_codes r j (Call.nonneg_of_code r j hne) hcode

/-- While no code is negative, a completed call is a step of a tagged cache in
    every row it uses. -/
theorem tagStep_of_run (hrows : c.numReqs * SEQ_LEN ≤ 2 ^ 32) (hdist : c.DistinctTokens)
    (hbuf : c.PaddedRows buf) (o : Outcome) (h : c.run plat N buf = .ok o) (g : Ghost)
    (hpos : ∀ r < c.numReqs, ∀ j < SEQ_LEN, 0 ≤ c.topkIndices r j → 0 ≤ c.codes r j) (r : ℕ)
    (hr : r < c.numReqs) :
    TagStep (-1) SEQ_LEN Entry.code (c.wanted r) (buf r) (o.buffer r)
      (reported (-1) SEQ_LEN (c.codes r) (buf r)) (g r) (g.after c o r) := by
  have hbal := Call.balanced_of_run hrows hdist hbuf o h
  have hserve := serves_of_run hrows hdist hbuf o h r hr
  refine ⟨by rw [keys_wanted]; exact hserve, fun i hi hsome => ?_, fun i hi hnone => ?_⟩
  · -- The code reported is that of a token, and the token is in the answer.
    rcases (hserve.loaded i hi hsome).2.1 with ⟨j, hj, hval⟩
    have ht := Call.nonneg_of_code r j (by rw [hval]; exact hsome)
    have hans : o.topkIndices r i = c.topkIndices r j := by
      rw [(Call.run_rowLocal hrows hbal o h r i hr hi).2, ← hval]
      exact Call.recovered_codes r j ht (hpos r hr j hj ht)
    refine ⟨j, hj, _, (wanted_eq_some_iff c r j _).mpr ⟨ht, rfl⟩, ?_, ?_⟩
    · rw [code_wanted c r j ht, hval]
    · unfold Ghost.after
      rw [hans, if_pos ⟨hr, ht⟩]
  · have hans : o.topkIndices r i = -1 := by
      rw [(Call.run_rowLocal hrows hbal o h r i hr hi).2, hnone, recovered_empty]
    unfold Ghost.after
    rw [hans, if_neg (fun h => absurd h.2 (by decide))]

/-- A completed call sets no ghost with a negative code. -/
theorem ghost_nonneg_step (hrows : c.numReqs * SEQ_LEN ≤ 2 ^ 32) (hdist : c.DistinctTokens)
    (hbuf : c.PaddedRows buf) (o : Outcome) (h : c.run plat N buf = .ok o) (g : Ghost)
    (hg : ∀ r, ∀ i < SEQ_LEN, ∀ e, g r i = some e → 0 ≤ e.code) (r i : ℕ) (hi : i < SEQ_LEN)
    (e : Entry) (he : g.after c o r i = some e) : 0 ≤ e.code := by
  unfold Ghost.after at he
  by_cases hset : r < c.numReqs ∧ 0 ≤ o.topkIndices r i
  · rw [if_pos hset, Option.some.injEq] at he
    rcases (reported_of_answer hrows hdist hbuf o h r i hset.1 hi hset.2).2 with
      ⟨j, _, ht, hpos, hans, _⟩
    rw [← he, hans, code_wanted c r j ht]
    exact hpos
  · rw [if_neg hset] at he
    exact hg r i hi e he

/-- A token in the answer is in a slot whose ghost is set to it. -/
theorem placed_of_answer (hrows : c.numReqs * SEQ_LEN ≤ 2 ^ 32) (hdist : c.DistinctTokens)
    (hbuf : c.PaddedRows buf) (o : Outcome) (h : c.run plat N buf = .ok o) (g : Ghost) (r i j : ℕ)
    (hr : r < c.numReqs) (hi : i < SEQ_LEN) (ht : 0 ≤ c.topkIndices r j)
    (hans : o.topkIndices r i = c.topkIndices r j) :
    0 ≤ c.codes r j ∧ o.buffer r i = c.codes r j ∧
      g.after c o r i = some ⟨c.reqIds r, c.topkIndices r j⟩ := by
  have hout : 0 ≤ o.topkIndices r i := by
    rw [hans]
    exact ht
  rcases reported_of_answer hrows hdist hbuf o h r i hr hi hout with
    ⟨hsome, k, hk, htk, hpos, hansk, hrep⟩
  -- Two tokens of a row that are equal have equal codes.
  have hcode : c.codes r k = c.codes r j := by
    rw [← code_wanted c r k htk, ← code_wanted c r j ht, ← hansk, hans]
  refine ⟨by rw [← hcode]; exact hpos, ?_, ?_⟩
  · rw [((serves_of_run hrows hdist hbuf o h r hr).loaded i hi hsome).1, hrep, hcode]
  · unfold Ghost.after
    rw [if_pos ⟨hr, hout⟩, hans]

/-- A completed call on rows stocked with what they were last used for is
    sound exactly when it is unambiguous. -/
theorem sound_iff (hrows : c.numReqs * SEQ_LEN ≤ 2 ^ 32) (hdist : c.DistinctTokens)
    (hbuf : c.PaddedRows buf) (o : Outcome) (h : c.run plat N buf = .ok o) (g : Ghost)
    (hg : ∀ r, ∀ i < SEQ_LEN, ∀ e, g r i = some e → 0 ≤ e.code) (last : ℕ → ℕ → Option Entry)
    (hlast : ∀ r, Stocked (-1) SEQ_LEN Entry.code (last r) (buf r) (g r)) :
    c.Sound o (g.after c o) ↔ c.Unambiguous last := by
  have hkeys : ∀ r < c.numReqs,
      DistinctOffPad (-1) SEQ_LEN (keys (-1) Entry.code (c.wanted r)) := by
    intro r hr
    rw [keys_wanted]
    exact Call.distinctOffPad_codes hdist r hr
  have hne : (∀ r < c.numReqs, ∀ j < SEQ_LEN, 0 ≤ c.topkIndices r j → 0 ≤ c.codes r j) →
      ∀ r < c.numReqs, ∀ j < SEQ_LEN, ∀ e, c.wanted r j = some e → e.code ≠ -1 := by
    intro hpos r hr j hj e he
    rcases (wanted_eq_some_iff c r j e).mp he with ⟨ht, rfl⟩
    rw [code_wanted c r j ht]
    exact ne_neg_one_of_nonneg _ (hpos r hr j hj ht)
  constructor
  · intro hsound
    have hpos : ∀ r < c.numReqs, ∀ j < SEQ_LEN, 0 ≤ c.topkIndices r j → 0 ≤ c.codes r j := by
      intro r hr j hj ht
      by_cases hans : ∃ i < SEQ_LEN, o.topkIndices r i = c.topkIndices r j
      · rcases hans with ⟨i, hi, hans⟩
        exact (placed_of_answer hrows hdist hbuf o h g r i j hr hi ht hans).1
      · -- Its ghost was set by some report, so its code was reported.
        push Not at hans
        rcases hsound r hr j hj ht hans with ⟨i, hi, _, hghost⟩
        rw [← code_wanted c r j ht]
        exact ghost_nonneg_step hrows hdist hbuf o h g hg r i hi _ hghost
    refine ⟨hpos, fun r hr => ?_⟩
    refine (tagStep_of_run hrows hdist hbuf o h g hpos r hr).not_clash (hlast r) (hkeys r hr)
      (hne hpos r hr) (fun j hj e he => ?_)
    rcases (wanted_eq_some_iff c r j e).mp he with ⟨ht, rfl⟩
    rw [code_wanted c r j ht]
    by_cases hans : ∃ i < SEQ_LEN, o.topkIndices r i = c.topkIndices r j
    · rcases hans with ⟨i, hi, hans⟩
      exact ⟨i, hi, (placed_of_answer hrows hdist hbuf o h g r i j hr hi ht hans).2⟩
    · push Not at hans
      exact hsound r hr j hj ht hans
  · rintro ⟨hpos, hclash⟩ r hr j hj ht _
    have hstock := (tagStep_of_run hrows hdist hbuf o h g hpos r hr).stocked (hlast r) (hkeys r hr)
      (hne hpos r hr) (hclash r hr)
    rcases hstock.placed j hj _ ((wanted_eq_some_iff c r j _).mpr ⟨ht, rfl⟩) with
      ⟨i, hi, hcode, hghost⟩
    rw [code_wanted c r j ht] at hcode
    exact ⟨i, hi, hcode, hghost⟩

end Step

section Run

variable {plat : Platform} {N : ℕ}

/-- A history of completed calls is a run. -/
theorem run_of_completed (P : Call → Prop) (h : History) (hcomp : h.Completed plat N)
    (hP : ∀ p ∈ h, P p.1) : Run plat N P (History.buffer h) := by
  induction h with
  | nil => exact Run.start
  | cons p h ih =>
      exact Run.step _ p.1 p.2 (ih hcomp.2 (fun q hq => hP q (List.mem_cons_of_mem p hq)))
        (hP p List.mem_cons_self) hcomp.1

/-- The calls of a history fit and ask for distinct tokens. -/
def History.Regular (h : History) : Prop :=
  ∀ p ∈ h, p.1.numReqs * SEQ_LEN ≤ 2 ^ 32 ∧ p.1.DistinctTokens

theorem History.Regular.tail {p : Call × Outcome} {h : History}
    (hreg : History.Regular (p :: h)) : History.Regular h :=
  fun q hq => hreg q (List.mem_cons_of_mem p hq)

theorem History.regular_cons (c : Call) (o : Outcome) (h : History)
    (hrows : c.numReqs * SEQ_LEN ≤ 2 ^ 32) (hdist : c.DistinctTokens) (hreg : h.Regular) :
    History.Regular ((c, o) :: h) := by
  intro p hp
  rcases List.mem_cons.mp hp with rfl | hp
  · exact ⟨hrows, hdist⟩
  · exact hreg p hp

theorem History.regular_nil : History.Regular [] := fun _ hp => absurd hp List.not_mem_nil

theorem paddedRows_of_completed (h : History) (hcomp : h.Completed plat N) (hreg : h.Regular)
    (c : Call) : c.PaddedRows (History.buffer h) :=
  fun r _ => distinctOffPad_of_run plat N _ (fun _ hc => hc) _ (run_of_completed _ h hcomp hreg) r

/-- No slot of a run has a ghost with a negative code. -/
theorem ghost_nonneg (h : History) (hcomp : h.Completed plat N) (hreg : h.Regular) (r i : ℕ)
    (hi : i < SEQ_LEN) (e : Entry) (he : History.ghost h r i = some e) : 0 ≤ e.code := by
  induction h generalizing r i e with
  | nil => exact absurd he (Option.some_ne_none e).symm
  | cons p h ih =>
      have hp := hreg p List.mem_cons_self
      refine ghost_nonneg_step hp.1 hp.2 (paddedRows_of_completed h hcomp.2 hreg.tail p.1) p.2
        hcomp.1 (History.ghost h) (fun q k hk d hd => ?_) r i hi e he
      exact ih hcomp.2 hreg.tail q k hk d hd

/-- The invariant of an unambiguous run: every row is stocked with what it was
    last used for. -/
theorem stocked_of_unambiguous (h : History) (hcomp : h.Completed plat N) (hreg : h.Regular)
    (hclear : h.Unambiguous) (r : ℕ) :
    Stocked (-1) SEQ_LEN Entry.code (History.lastWanted h r) (History.buffer h r)
      (History.ghost h r) := by
  induction h with
  | nil => exact stocked_empty (-1) SEQ_LEN Entry.code _
  | cons p h ih =>
      rcases p with ⟨c, o⟩
      have hp := hreg (c, o) List.mem_cons_self
      have hrow := ih hcomp.2 hreg.tail hclear.2
      change Stocked (-1) SEQ_LEN Entry.code
        (if r < c.numReqs then c.wanted r else History.lastWanted h r) (o.buffer r)
        ((History.ghost h).after c o r)
      by_cases hr : r < c.numReqs
      · -- A row in use: one step of the tagged cache, with no clash.
        rw [if_pos hr]
        have hbuf := paddedRows_of_completed h hcomp.2 hreg.tail c
        refine (tagStep_of_run hp.1 hp.2 hbuf o hcomp.1 _ hclear.1.codes_nonneg r hr).stocked hrow
          (by rw [keys_wanted]; exact Call.distinctOffPad_codes hp.2 r hr) (fun j hj e he => ?_)
          (hclear.1.no_clash r hr)
        rcases (wanted_eq_some_iff c r j e).mp he with ⟨ht, rfl⟩
        rw [code_wanted c r j ht]
        exact ne_neg_one_of_nonneg _ (hclear.1.codes_nonneg r hr j hj ht)
      · -- Any other row is left alone, and so are its ghosts.
        rw [if_neg hr]
        refine hrow.congr (fun i hi => run_frame o hcomp.1 r (Nat.le_of_not_lt hr) i hi)
          (fun i _ => ?_)
        unfold Ghost.after
        rw [if_neg (fun hset => hr hset.1)]

/-- The latest call of a history is sound exactly when it is unambiguous,
    after an unambiguous run. -/
theorem sound_iff_of_unambiguous (c : Call) (o : Outcome) (h : History)
    (hcomp : History.Completed plat N ((c, o) :: h)) (hreg : History.Regular ((c, o) :: h))
    (hclear : h.Unambiguous) :
    c.Sound o (History.ghost ((c, o) :: h)) ↔ c.Unambiguous (History.lastWanted h) := by
  have hp := hreg (c, o) List.mem_cons_self
  exact sound_iff hp.1 hp.2 (paddedRows_of_completed h hcomp.2 hreg.tail c) o hcomp.1
    (History.ghost h) (ghost_nonneg h hcomp.2 hreg.tail) (History.lastWanted h)
    (stocked_of_unambiguous h hcomp.2 hreg.tail hclear)

end Run

/-- Every call of a run is sound exactly when none of them meets a negative
    code, or the code of another entry that the row was last used for. -/
theorem hitsSound_iff (plat : Platform) (N : ℕ) (h : History) (hcomp : h.Completed plat N)
    (hreg : h.Regular) : h.HitsSound ↔ h.Unambiguous := by
  induction h with
  | nil => exact Iff.rfl
  | cons p h ih =>
      rcases p with ⟨c, o⟩
      have hrest := ih hcomp.2 hreg.tail
      constructor
      · rintro ⟨hsound, hsounds⟩
        have hclear := hrest.mp hsounds
        exact ⟨(sound_iff_of_unambiguous c o h hcomp hreg hclear).mp hsound, hclear⟩
      · rintro ⟨hthis, hclear⟩
        exact ⟨(sound_iff_of_unambiguous c o h hcomp hreg hclear).mpr hthis, hrest.mpr hclear⟩

/-- On an empty buffer nothing clashes, and small request ids do not wrap. -/
theorem unambiguous_first (c : Call) (o : Outcome) (hwf : c.WellFormed) :
    History.Unambiguous [(c, o)] := by
  refine ⟨⟨fun r hr j hj ht => ?_, fun r _ => ?_⟩, trivial⟩
  · exact Call.codes_nonneg r j (hwf.reqIds_nonneg r hr) ht (hwf.fits_int64 r hr j hj ht)
  · rintro ⟨i, _, j, _, e, e', hlast, _⟩
    exact absurd hlast (Option.some_ne_none e).symm

/-- The tokens a call asks for do not reach into the bits of the request
    id. -/
def Call.SmallTokens (c : Call) : Prop :=
  ∀ r < c.numReqs, ∀ j < SEQ_LEN, (c.topkIndices r j).toInt < 2 ^ 16

/-- Small tokens share no code with the small tokens of another request. -/
theorem wanted_inj (c d : Call) (hc : c.WellFormed ∧ c.SmallTokens)
    (hd : d.WellFormed ∧ d.SmallTokens) (r i j : ℕ) (hrc : r < c.numReqs) (hrd : r < d.numReqs)
    (hi : i < SEQ_LEN) (hj : j < SEQ_LEN) (e e' : Entry) (he : c.wanted r i = some e)
    (he' : d.wanted r j = some e') (hcode : e.code = e'.code) : e = e' := by
  rcases (wanted_eq_some_iff c r i e).mp he with ⟨ht, rfl⟩
  rcases (wanted_eq_some_iff d r j e').mp he' with ⟨ht', rfl⟩
  rw [code_wanted c r i ht, code_wanted d r j ht'] at hcode
  have hkey := congrArg Int64.toInt hcode
  rw [Call.codes_toInt r i (hc.1.reqIds_nonneg r hrc) ht (hc.1.fits_int64 r hrc i hi ht),
    Call.codes_toInt r j (hd.1.reqIds_nonneg r hrd) ht' (hd.1.fits_int64 r hrd j hj ht')] at hkey
  -- Both tokens are the remainder, and both ids the quotient, by the shift.
  have hlt := hc.2 r hrc i hi
  have hlt' := hd.2 r hrd j hj
  rw [Int32.le_iff_toInt_le] at ht ht'
  change 0 ≤ (c.topkIndices r i).toInt at ht
  change 0 ≤ (d.topkIndices r j).toInt at ht'
  unfold Call.key at hkey
  have htok : (c.topkIndices r i).toInt = (d.topkIndices r j).toInt := by omega
  have hid : (c.reqIds r).toInt = (d.reqIds r).toInt := by omega
  rw [Int32.toInt_inj.mp htok, Int64.toInt_inj.mp hid]

/-- What a row was last used for, some call of the history asked for. -/
theorem exists_of_lastWanted (h : History) (r j : ℕ) (e : Entry)
    (he : h.lastWanted r j = some e) : ∃ p ∈ h, r < p.1.numReqs ∧ p.1.wanted r j = some e := by
  induction h with
  | nil => exact absurd he (Option.some_ne_none e).symm
  | cons p h ih =>
      change (if r < p.1.numReqs then p.1.wanted r else History.lastWanted h r) j = some e at he
      by_cases hr : r < p.1.numReqs
      · rw [if_pos hr] at he
        exact ⟨p, List.mem_cons_self, hr, he⟩
      · rw [if_neg hr] at he
        rcases ih he with ⟨q, hq, hrest⟩
        exact ⟨q, List.mem_cons_of_mem p hq, hrest⟩

/-- A run of small tokens is unambiguous, whatever requests its rows pass
    through. -/
theorem unambiguous_of_smallTokens (h : History)
    (hcalls : ∀ p ∈ h, p.1.WellFormed ∧ p.1.SmallTokens) : h.Unambiguous := by
  induction h with
  | nil => exact trivial
  | cons p h ih =>
      have hp := hcalls p List.mem_cons_self
      have hrest := fun q hq => hcalls q (List.mem_cons_of_mem p hq)
      refine ⟨⟨fun r hr j hj ht => hp.1.code_nonneg r hr j hj ht, fun r hr => ?_⟩, ih hrest⟩
      rintro ⟨i, hi, j, hj, e, e', hlast, hwant, hcode, hne⟩
      rcases exists_of_lastWanted h r i e hlast with ⟨q, hq, hrq, hold⟩
      exact hne (wanted_inj q.1 p.1 (hrest q hq) hp r i j hrq hr hi hj e e' hold hwant hcode)

theorem ofRows_smallTokens (rows : List (Int64 × List Int32))
    (h : ∀ p ∈ rows, p.2.all (fun t => decide (t < 65536)) = true) :
    (Call.ofRows rows).SmallTokens := by
  intro r hr j _
  have hrow := h _ (Call.ofRows_mem rows r hr)
  change ((rows.getD r (0, [])).2.getD j (-1)).toInt < 2 ^ 16
  by_cases hj : j < (rows.getD r (0, [])).2.length
  · rw [List.getD_eq_getElem _ _ hj]
    exact Int32.lt_iff_toInt_lt.mp
      (of_decide_eq_true (List.all_eq_true.mp hrow _ (List.getElem_mem hj)))
  · rw [List.getD_eq_default _ _ (Nat.le_of_not_lt hj)]
    decide

/-- Request 3 asks for tokens 5 and 7. Then the row is request 4's. Its token 7
    is another one and is loaded, and token 9 with it; when the last call asks
    for 9 again, that is a hit. -/
theorem hitsSound_reused_row :
    ∃ o₁ o₂ o₃, (Call.ofRows [(3, [5, 7])]).run Platform.singleCore 4 (fun _ _ => -1) = .ok o₁ ∧
      (Call.ofRows [(4, [7, 9])]).run Platform.singleCore 4 o₁.buffer = .ok o₂ ∧
      (Call.ofRows [(4, [9, 2])]).run Platform.singleCore 4 o₂.buffer = .ok o₃ ∧
      (∃ i < SEQ_LEN, o₂.topkIndices 0 i = 7) ∧ (∀ i < SEQ_LEN, o₃.topkIndices 0 i ≠ 9) ∧
      History.HitsSound [(Call.ofRows [(4, [9, 2])], o₃), (Call.ofRows [(4, [7, 9])], o₂),
        (Call.ofRows [(3, [5, 7])], o₁)] := by
  have hlist : Listed [(3, [5, 7])] := by decide
  have hlist' : Listed [(4, [7, 9])] := by decide
  have hlist'' : Listed [(4, [9, 2])] := by decide
  have hwf := hlist.wellFormed
  have hwf' := hlist'.wellFormed
  have hwf'' := hlist''.wellFormed
  -- Each call asks for two tokens, so the next one completes.
  rcases hlist.completes_start 4 (by decide) with ⟨o₁, ho₁⟩
  have hcomp : History.Completed Platform.singleCore 4 [(Call.ofRows [(3, [5, 7])], o₁)] :=
    ⟨ho₁, trivial⟩
  have hreg := History.regular_cons _ o₁ [] hlist.rows_le hwf.distinct History.regular_nil
  rcases hlist.completes_next hlist' 4 (by decide) (by decide) (by decide) _
    (fun _ => distinctOffPad_empty) o₁ ho₁ with ⟨o₂, ho₂⟩
  have hreg' := History.regular_cons _ o₂ _ hlist'.rows_le hwf'.distinct hreg
  have hpad := fun r => distinctOffPad_step hlist.rows_le hwf.distinct
    (fun _ => distinctOffPad_empty) o₁ ho₁ r
  rcases hlist'.completes_next hlist'' 4 (by decide) (by decide) (by decide) _ hpad o₂ ho₂ with
    ⟨o₃, ho₃⟩
  have hreg'' := History.regular_cons _ o₃ _ hlist''.rows_le hwf''.distinct hreg'
  have hcomp' : History.Completed Platform.singleCore 4
      [(Call.ofRows [(4, [7, 9])], o₂), (Call.ofRows [(3, [5, 7])], o₁)] := ⟨ho₂, hcomp⟩
  refine ⟨o₁, o₂, o₃, ho₁, ho₂, ho₃, ?_, ?_, (hitsSound_iff Platform.singleCore 4
    [(Call.ofRows [(4, [9, 2])], o₃), (Call.ofRows [(4, [7, 9])], o₂),
      (Call.ofRows [(3, [5, 7])], o₁)] ⟨ho₃, hcomp'⟩ hreg'').mpr
    (unambiguous_of_smallTokens _ ?_)⟩
  · -- The row holds the codes of request 3 only.
    refine answered_of_missing hlist'.rows_le hwf'.distinct (fun q _ => hpad q) o₂ ho₂ 0 0
      (by decide) (by decide) (by decide) (fun k hk hheld => ?_)
    have hserve := serves_of_run hlist.rows_le hwf.distinct (Call.paddedRows_start _) o₁ ho₁ 0
      (by decide)
    rcases (hserve.holds_iff _).mp ⟨k, hk, hheld⟩ with ⟨j, _, hval⟩
    have hpos : 0 ≤ (Call.ofRows [(3, [5, 7])]).topkIndices 0 j :=
      Call.nonneg_of_code 0 j (by rw [hval]; decide)
    have hother : ∀ j < 2,
        (Call.ofRows [(3, [5, 7])]).codes 0 j ≠ (Call.ofRows [(4, [7, 9])]).codes 0 0 := by decide
    exact hother j (Call.ofRows_nonneg _ 0 j hpos) hval
  · -- The second call left the code of token 9 in some slot.
    have hserve := serves_of_run hlist'.rows_le hwf'.distinct (fun q _ => hpad q) o₂ ho₂ 0
      (by decide)
    rcases (hserve.holds_iff ((Call.ofRows [(4, [7, 9])]).codes 0 1)).mpr ⟨1, by decide, rfl⟩ with
      ⟨k, hk, hval⟩
    exact not_answered_of_held hlist''.rows_le hwf''.distinct
      (paddedRows_of_completed _ hcomp' hreg' _) o₃ ho₃ 0 0 k (by decide) (by decide) hk hval
  · intro p hp
    simp only [List.mem_cons, List.not_mem_nil, or_false] at hp
    rcases hp with rfl | rfl | rfl
    · exact ⟨hwf'', ofRows_smallTokens _ (by decide)⟩
    · exact ⟨hwf', ofRows_smallTokens _ (by decide)⟩
    · exact ⟨hwf, ofRows_smallTokens _ (by decide)⟩

/-- Token 65536 of request 0 and token 0 of request 1 have one code. On a row
    that goes from the first to the second, the second is never loaded. -/
theorem hitsSound_shared_code :
    ¬ ∀ (plat : Platform) (N : ℕ) (h : History), h.Completed plat N →
      (∀ p ∈ h, p.1.DistinctTokens ∧ ∀ r < p.1.numReqs, 0 ≤ p.1.reqIds r) → h.HitsSound := by
  intro hall
  have hlist : Listed [(0, [65536])] := by decide
  have hlist' : Listed [(1, [0])] := by decide
  have hwf := hlist.wellFormed
  have hwf' := hlist'.wellFormed
  rcases hlist.completes_start 1 (by decide) with ⟨o, ho⟩
  have hreg := History.regular_cons _ o [] hlist.rows_le hwf.distinct History.regular_nil
  have hfirst : History.Completed Platform.singleCore 1 [(Call.ofRows [(0, [65536])], o)] :=
    ⟨ho, trivial⟩
  -- The row holds one code and is asked for one, so the second call completes.
  rcases hlist.completes_next hlist' 1 (by decide) (by decide) (by decide) _
    (fun _ => distinctOffPad_empty) o ho with ⟨o', ho'⟩
  have hcomp : History.Completed Platform.singleCore 1
      [(Call.ofRows [(1, [0])], o'), (Call.ofRows [(0, [65536])], o)] := ⟨ho', hfirst⟩
  have hsound := hall Platform.singleCore 1 _ hcomp (fun p hp => ?_)
  · -- Sound, the second call would be unambiguous, and it is not.
    have hreg' := History.regular_cons _ o' _ hlist'.rows_le hwf'.distinct hreg
    have hclear := (sound_iff_of_unambiguous _ o' _ hcomp hreg'
      (unambiguous_first _ o hwf)).mp hsound.1
    exact hclear.no_clash 0 (by decide)
      ⟨0, by decide, 0, by decide, ⟨0, 65536⟩, ⟨1, 0⟩, rfl, rfl, by decide, by decide⟩
  · rcases List.mem_cons.mp hp with rfl | hp
    · exact ⟨hwf'.distinct, hwf'.reqIds_nonneg⟩
    · rw [List.mem_singleton.mp hp]
      exact ⟨hwf.distinct, hwf.reqIds_nonneg⟩

end AscendKernel
