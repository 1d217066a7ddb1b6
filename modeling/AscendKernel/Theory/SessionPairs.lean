import AscendKernel.Theory.Session

/-!
# Pairs of Sessions

A session compared with another one, and with the reference.

A completed call replaces each row by its own codes, whatever else is in the
batch. Two sessions that agree on what they do with a row, step by step,
therefore treat it alike from beginning to end: the other rows, how many there
are, where the row lies in the batch, how large the buffer is and how many
cores share the work make no difference to it.

The reference is a session of its own, on its own buffer. While the operator
goes on, the reference goes on with it and leaves the same answers and the same
buffer. The two can only part where the operator is stopped, and the reference
is not stopped there only if a single code is to be loaded, which an indexed
assignment spreads over all the slots.

## Main definitions

* `SameShare`: Two calls treat two rows alike.
* `referenceSession`: The reference, call after call.
* `AgreesWith`: The operator's answer is the reference's.

## Theorems

* `session_isolated`: A row's share of a session depends on the row alone.
* `session_refines_reference`: A session runs as the reference does.
-/

namespace AscendKernel

/-- Row `r` of one call and row `r'` of another are in use together, for the
    same request and the same tokens. -/
structure SameShare (r r' : ℕ) (c d : Call) : Prop where
  used : r < c.numReqs ↔ r' < d.numReqs
  reqId : r < c.numReqs → c.reqIds r = d.reqIds r'
  tokens : r < c.numReqs → ∀ i < SEQ_LEN, c.topkIndices r i = d.topkIndices r' i

section Isolation

variable {plat plat' : Platform} {N N' : ℕ} {r r' : ℕ}

/-- The step lemma: calls that treat two rows alike leave them alike. -/
theorem sameShare_step {c d : Call} (hsame : SameShare r r' c d)
    (hc : c.numReqs * SEQ_LEN ≤ 2 ^ 32 ∧ c.DistinctTokens)
    (hd : d.numReqs * SEQ_LEN ≤ 2 ^ 32 ∧ d.DistinctTokens) (buf buf' : ℕ → ℕ → Int64)
    (hbuf : ∀ q, DistinctOffPad (-1) SEQ_LEN (buf q))
    (hbuf' : ∀ q, DistinctOffPad (-1) SEQ_LEN (buf' q)) (o o' : Outcome)
    (ho : c.run plat N buf = .ok o) (ho' : d.run plat' N' buf' = .ok o')
    (hrow : ∀ i < SEQ_LEN, buf r i = buf' r' i) :
    (r < c.numReqs → ∀ i < SEQ_LEN, o.topkIndices r i = o'.topkIndices r' i) ∧
      ∀ i < SEQ_LEN, o.buffer r i = o'.buffer r' i := by
  by_cases hr : r < c.numReqs
  · have hrows := run_sameRow hc.1 hd.1 hc.2 hd.2 (fun q _ => hbuf q) (fun q _ => hbuf' q) o o' ho
      ho' r r' hr (hsame.used.mp hr) (hsame.tokens hr) hrow (hsame.reqId hr)
    exact ⟨fun _ i hi => (hrows i hi).1, fun i hi => (hrows i hi).2⟩
  · -- Neither call uses its row.
    have hr' : d.numReqs ≤ r' := Nat.le_of_not_lt (fun h => hr (hsame.used.mpr h))
    refine ⟨fun h => absurd h hr, fun i hi => ?_⟩
    rw [run_frame o ho r (Nat.le_of_not_lt hr) i hi, run_frame o' ho' r' hr' i hi, hrow i hi]

/-- The run lemma, from any two padded buffers that agree on the row. -/
theorem sameShare_along (calls calls' : List Call)
    (hsame : List.Forall₂ (SameShare r r') calls calls')
    (hcalls : ∀ c ∈ calls, c.numReqs * SEQ_LEN ≤ 2 ^ 32 ∧ c.DistinctTokens)
    (hcalls' : ∀ c ∈ calls', c.numReqs * SEQ_LEN ≤ 2 ^ 32 ∧ c.DistinctTokens)
    (buf buf' : ℕ → ℕ → Int64) (hbuf : ∀ q, DistinctOffPad (-1) SEQ_LEN (buf q))
    (hbuf' : ∀ q, DistinctOffPad (-1) SEQ_LEN (buf' q)) (os os' : List Outcome)
    (final final' : ℕ → ℕ → Int64) (h : session plat N calls buf = .ok (os, final))
    (h' : session plat' N' calls' buf' = .ok (os', final'))
    (hrow : ∀ i < SEQ_LEN, buf r i = buf' r' i) :
    List.Forall₂ (fun p q => r < p.1.numReqs →
        ∀ i < SEQ_LEN, p.2.topkIndices r i = q.2.topkIndices r' i)
      (calls.zip os) (calls'.zip os') ∧ ∀ i < SEQ_LEN, final r i = final' r' i := by
  induction hsame generalizing buf buf' os os' with
  | nil =>
      unfold session at h h'
      rw [Except.ok.injEq, Prod.mk.injEq] at h h'
      rw [← h.2, ← h'.2]
      exact ⟨List.Forall₂.nil, hrow⟩
  | @cons c d cs ds hcd _ ih =>
      rcases (session_cons c cs buf os final).mp h with ⟨o, os₁, ho, hrest, rfl⟩
      rcases (session_cons d ds buf' os' final').mp h' with ⟨o', os₁', ho', hrest', rfl⟩
      have hc := hcalls c List.mem_cons_self
      have hd := hcalls' d List.mem_cons_self
      have hstep := sameShare_step hcd hc hd buf buf' hbuf hbuf' o o' ho ho' hrow
      have htail := ih (fun e he => hcalls e (List.mem_cons_of_mem c he))
        (fun e he => hcalls' e (List.mem_cons_of_mem d he)) o.buffer o'.buffer
        (distinctOffPad_step hc.1 hc.2 hbuf o ho) (distinctOffPad_step hd.1 hd.2 hbuf' o' ho')
        os₁ os₁' hrest hrest' hstep.2
      exact ⟨List.Forall₂.cons hstep.1 htail.1, htail.2⟩

end Isolation

/-- A row's share of a session depends on the row alone: two sessions that
    agree on it, step by step, answer it alike and leave it alike, on any
    platforms, among any other rows. -/
theorem session_isolated (plat plat' : Platform) (N N' r r' : ℕ) (calls calls' : List Call)
    (hsame : List.Forall₂ (SameShare r r') calls calls')
    (hcalls : ∀ c ∈ calls, c.numReqs * SEQ_LEN ≤ 2 ^ 32 ∧ c.DistinctTokens)
    (hcalls' : ∀ c ∈ calls', c.numReqs * SEQ_LEN ≤ 2 ^ 32 ∧ c.DistinctTokens)
    (os os' : List Outcome) (final final' : ℕ → ℕ → Int64)
    (h : session plat N calls (fun _ _ => -1) = .ok (os, final))
    (h' : session plat' N' calls' (fun _ _ => -1) = .ok (os', final')) :
    List.Forall₂ (fun p q => r < p.1.numReqs →
        ∀ i < SEQ_LEN, p.2.topkIndices r i = q.2.topkIndices r' i)
      (calls.zip os) (calls'.zip os') ∧ ∀ i < SEQ_LEN, final r i = final' r' i :=
  sameShare_along calls calls' hsame hcalls hcalls' _ _ (fun _ => distinctOffPad_empty)
    (fun _ => distinctOffPad_empty) os os' final final' h h' (fun _ _ => rfl)

/-- The two steps of a request, as the second row beside another request that
    asks for more in the second of them. -/
def twoStepsBeside : List Call :=
  [Call.ofRows [(8, [1]), (3, [5, 7])], Call.ofRows [(8, [2, 1]), (3, [5, 9])]]

theorem twoStepsBeside_mem (c : Call) (hc : c ∈ twoStepsBeside) :
    c.numReqs * SEQ_LEN ≤ 2 ^ 32 ∧ c.DistinctTokens := by
  have hlist : Listed [(8, [1]), (3, [5, 7])] := by decide
  have hlist' : Listed [(8, [2, 1]), (3, [5, 9])] := by decide
  rcases List.mem_cons.mp hc with rfl | hc
  · exact ⟨hlist.rows_le, hlist.wellFormed.distinct⟩
  · rw [List.mem_singleton.mp hc]
    exact ⟨hlist'.rows_le, hlist'.wellFormed.distinct⟩

theorem twoStepsBeside_completes :
    ∃ os last, session Platform.singleCore 8 twoStepsBeside (fun _ _ => -1) = .ok (os, last) := by
  have hlist : Listed [(8, [1]), (3, [5, 7])] := by decide
  have hlist' : Listed [(8, [2, 1]), (3, [5, 9])] := by decide
  rcases hlist.completes_start 8 (by decide) with ⟨o, ho⟩
  rcases hlist.completes_next hlist' 8 (by decide) (by decide) (by decide) _
    (fun _ => distinctOffPad_empty) o ho with ⟨o', ho'⟩
  exact ⟨[o, o'], o'.buffer, (session_cons _ _ _ _ _).mpr
    ⟨o, [o'], ho, (session_cons _ _ _ _ _).mpr ⟨o', [], ho', rfl, rfl⟩, rfl⟩⟩

/-- Two steps of a request on its own, and as the second row of two in a larger
    buffer. -/
theorem session_isolated_two_steps :
    ∃ os final os' final',
      session Platform.singleCore 4 twoSteps (fun _ _ => -1) = .ok (os, final) ∧
      session Platform.singleCore 8 twoStepsBeside (fun _ _ => -1) = .ok (os', final') ∧
      List.Forall₂ (fun p q => 0 < p.1.numReqs →
          ∀ i < SEQ_LEN, p.2.topkIndices 0 i = q.2.topkIndices 1 i)
        (twoSteps.zip os) (twoStepsBeside.zip os') ∧ ∀ i < SEQ_LEN, final 0 i = final' 1 i := by
  rcases twoSteps_completes with ⟨os, final, h⟩
  rcases twoStepsBeside_completes with ⟨os', final', h'⟩
  have hsame : List.Forall₂ (SameShare 0 1) twoSteps twoStepsBeside :=
    List.Forall₂.cons ⟨by decide, fun _ => rfl, fun _ _ _ => rfl⟩
      (List.Forall₂.cons ⟨by decide, fun _ => rfl, fun _ _ _ => rfl⟩ List.Forall₂.nil)
  refine ⟨os, final, os', final', h, h', ?_⟩
  exact session_isolated Platform.singleCore Platform.singleCore 4 8 0 1 twoSteps twoStepsBeside
    hsame (fun c hc => ⟨(twoSteps_mem c hc).2.1.fits.1, (twoSteps_mem c hc).2.1.distinct⟩)
    twoStepsBeside_mem os os' final final' h h'

/-- The reference, call after call, each on the buffer the one before left. -/
def referenceSession (N : ℕ) :
    List Call → (ℕ → ℕ → Int64) → Option (List (ℕ → ℕ → Int32) × (ℕ → ℕ → Int64))
  | [], buf => some ([], buf)
  | c :: cs, buf =>
    (pytorchReference SEQ_LEN N c buf).bind fun p =>
      (referenceSession N cs p.2).map fun q => (p.1 :: q.1, q.2)

/-- The operator's answer to a call, given what the reference returned. -/
def AgreesWith (p : Call × Outcome) (res : ℕ → ℕ → Int32) : Prop :=
  ∀ r < p.1.numReqs, ∀ i < SEQ_LEN, p.2.topkIndices r i = res r i

section Reference

variable {plat : Platform} {N : ℕ} {c : Call} {buf : ℕ → ℕ → Int64}

/-- The slots the kernel leaves on a batch that fits are the reference's. -/
theorem referenceSlots_of_launched (hN : c.numReqs ≤ N) (hfit : Fits plat c.numReqs)
    (gm : GlobalMemory) (hrun : c.launched plat N buf = .ok gm) (r : ℕ) (hr : r < c.numReqs) (i : ℕ)
    (hi : i < SEQ_LEN) : rowAt gm.availMaskGm r i = c.referenceSlots buf r i := by
  rw [(Call.slots_of_launched hN hfit gm hrun r hr).1 i hi, Call.referenceSlots, filledSlotMask_eq,
    Call.miss, Call.avail, getSetDiffMask_eq, getSetDiffMask_eq]
  rfl

/-- The step lemma: where a call with distinct tokens completes, the reference
    leaves the same answer and the same buffer. -/
theorem reference_of_run (hreg : c.Regular plat N)
    (hbuf : ∀ r, DistinctOffPad (-1) SEQ_LEN (buf r)) (o : Outcome)
    (h : c.run plat N buf = .ok o) :
    ∃ res last, pytorchReference SEQ_LEN N c buf = some (res, last) ∧ AgreesWith (c, o) res ∧
      ∀ r, ∀ i < SEQ_LEN, o.buffer r i = last r i := by
  rcases Call.run_ok o h with ⟨hacc, gm, hrun, _, hout, hframe⟩
  have hbal := Call.balanced_of_run hreg.fits.1 hreg.distinct (fun q _ => hbuf q) o h
  have htotal := Call.total_of_balanced hacc.1 hreg.fits hbal gm hrun
  rcases pytorchReference_ok hacc gm.availMaskGm
    (referenceSlots_of_launched hacc.1 hreg.fits gm hrun) htotal.symm with
    ⟨res, last, href, hres, hrest⟩
  refine ⟨res, last, href, fun r hr i hi => ?_, fun r i hi => ?_⟩
  · rw [(hres r hr i hi).1]
    exact (hout r hr i hi).1
  · by_cases hr : r < c.numReqs
    · rw [(hout r hr i hi).2, (hres r hr i hi).2]
    · rw [hframe r (Nat.le_of_not_lt hr) i hi, hrest r (Nat.le_of_not_lt hr) i]

/-- Where a call that fits is stopped, the reference raises, unless there is a
    single code to load. -/
theorem reference_of_stop (hreg : c.Regular plat N) (e : Failure)
    (h : c.run plat N buf = .error e) :
    pytorchReference SEQ_LEN N c buf = none ∨ (c.loads buf).length = 1 := by
  rcases Call.launched_slots c buf hreg.accepted.1 hreg.fits with ⟨gm, hrun, _⟩
  have hmore : (c.loads buf).length < countTrue gm.availMaskGm (c.numReqs * SEQ_LEN) := by
    by_contra hle
    rcases Call.run_completes hreg.accepted gm hrun (Nat.le_of_not_lt hle) with ⟨o, ho⟩
    rw [ho] at h
    exact absurd h.symm (error_ne_ok _ _)
  have hcount : countTrue (rowMajor SEQ_LEN (c.referenceSlots buf)) (c.numReqs * SEQ_LEN)
      = countTrue gm.availMaskGm (c.numReqs * SEQ_LEN) := by
    refine countTrue_congr _ _ _ (fun a ha => ?_)
    rcases exists_row c.numReqs SEQ_LEN a ha with ⟨r, hr, i, hi, rfl⟩
    rw [rowMajor_at _ _ _ _ hi, ← referenceSlots_of_launched hreg.accepted.1 hreg.fits gm hrun r hr
      i hi]
    rfl
  -- An indexed assignment spreads a single value and refuses any other number.
  rw [pytorchReference_accepted hreg.accepted]
  unfold indexPut
  rw [if_neg (by omega)]
  cases hloads : c.loads buf with
  | nil => exact Or.inl rfl
  | cons x xs =>
      cases xs with
      | nil => exact Or.inr rfl
      | cons y ys => exact Or.inl rfl

/-- Rows that agree hold the same codes, none of them twice. -/
theorem distinctOffPad_of_agree {buf buf' : ℕ → ℕ → Int64}
    (hbuf : ∀ r, DistinctOffPad (-1) SEQ_LEN (buf r))
    (hsame : ∀ r, ∀ i < SEQ_LEN, buf r i = buf' r i) (r : ℕ) :
    DistinctOffPad (-1) SEQ_LEN (buf' r) := by
  intro i hi j hj hpad heq
  rw [← hsame r i hi] at hpad heq
  rw [← hsame r j hj] at heq
  exact hbuf r i hi j hj hpad heq

/-- The run lemma, from any padded buffer. -/
theorem reference_along (calls : List Call) (hreg : ∀ c ∈ calls, c.Regular plat N)
    (buf buf' : ℕ → ℕ → Int64) (hbuf : ∀ r, DistinctOffPad (-1) SEQ_LEN (buf r))
    (hsame : ∀ r, ∀ i < SEQ_LEN, buf r i = buf' r i) (os : List Outcome)
    (final : ℕ → ℕ → Int64) (h : session plat N calls buf = .ok (os, final)) :
    ∃ rs last, referenceSession N calls buf' = some (rs, last) ∧
      List.Forall₂ AgreesWith (calls.zip os) rs ∧ ∀ r, ∀ i < SEQ_LEN, final r i = last r i := by
  induction calls generalizing buf buf' os with
  | nil =>
      unfold session at h
      rw [Except.ok.injEq, Prod.mk.injEq] at h
      rw [← h.2]
      exact ⟨[], buf', rfl, List.Forall₂.nil, hsame⟩
  | cons c cs ih =>
      rcases (session_cons c cs buf os final).mp h with ⟨o, os', ho, hrest, rfl⟩
      have hc := hreg c List.mem_cons_self
      have hnext := distinctOffPad_step hc.fits.1 hc.distinct hbuf o ho
      -- The operator cannot tell the two buffers apart.
      rw [Call.run_congr c plat N buf buf' hsame] at ho
      have hbuf' := distinctOffPad_of_agree hbuf hsame
      rcases reference_of_run hc hbuf' o ho with ⟨res, last, href, hres, hlast⟩
      rcases ih (fun d hd => hreg d (List.mem_cons_of_mem c hd)) o.buffer last hnext hlast os' hrest
        with ⟨rs, last', hrs, hall, hfinal⟩
      refine ⟨res :: rs, last', ?_, List.Forall₂.cons hres hall, hfinal⟩
      unfold referenceSession
      rw [href, Option.bind_some, hrs]
      rfl

/-- Buffers with the same rows leave the same number of codes to load. -/
theorem loads_length_congr (c : Call) (buf buf' : ℕ → ℕ → Int64)
    (hsame : ∀ r, ∀ i < SEQ_LEN, buf r i = buf' r i) :
    (c.loads buf).length = (c.loads buf').length := by
  rw [Call.loads_length, Call.loads_length]
  refine Finset.sum_congr rfl (fun r _ => countTrue_congr _ _ SEQ_LEN (fun i _ => ?_))
  rw [Call.miss, Call.miss, getSetDiffMask_eq, getSetDiffMask_eq]
  exact diffMask_congr SEQ_LEN _ _ _ _ i rfl (hsame r)

/-- Where a session is stopped, the reference raises too, or has gone on past
    a call with a single code to load. -/
theorem reference_stop_along (calls : List Call) (hreg : ∀ c ∈ calls, c.Regular plat N)
    (buf buf' : ℕ → ℕ → Int64) (hbuf : ∀ r, DistinctOffPad (-1) SEQ_LEN (buf r))
    (hsame : ∀ r, ∀ i < SEQ_LEN, buf r i = buf' r i) (e : Failure)
    (h : session plat N calls buf = .error e) :
    referenceSession N calls buf' = none ∨
      ∃ before c after os final, calls = before ++ c :: after ∧
        session plat N before buf = .ok (os, final) ∧ c.run plat N final = .error e ∧
        (c.loads final).length = 1 := by
  induction calls generalizing buf buf' with
  | nil => exact absurd h.symm (error_ne_ok _ _)
  | cons c cs ih =>
      have hc := hreg c List.mem_cons_self
      have hrun' := Call.run_congr c plat N buf buf' hsame
      unfold referenceSession
      cases ho : c.run plat N buf with
      | error e' =>
          -- The first call is the one that is stopped.
          rw [session_error c cs buf e' ho] at h
          rcases reference_of_stop hc e' (hrun'.symm.trans ho) with hnone | hone
          · exact Or.inl (by rw [hnone, Option.bind_none])
          · refine Or.inr ⟨[], c, cs, [], buf, rfl, rfl, by rw [ho, Except.error.inj h], ?_⟩
            rw [loads_length_congr c buf buf' hsame, hone]
      | ok o =>
          -- Both go on, from buffers with the same rows.
          have hrest : session plat N cs o.buffer = .error e := by
            rw [session, ho, ok_bind, bind_eq_error] at h
            rcases h with h | ⟨p, _, hp⟩
            · exact h
            · exact absurd hp.symm (error_ne_ok _ _)
          have hbuf' := distinctOffPad_of_agree hbuf hsame
          rcases reference_of_run hc hbuf' o (hrun'.symm.trans ho) with ⟨res, last, href, _, hlast⟩
          rcases ih (fun d hd => hreg d (List.mem_cons_of_mem c hd)) o.buffer last
            (distinctOffPad_step hc.fits.1 hc.distinct hbuf o ho) hlast hrest with
            hnone | ⟨before, d, after, os, final, rfl, hos, hd, hone⟩
          · refine Or.inl ?_
            rw [href, Option.bind_some, hnone]
            rfl
          · exact Or.inr ⟨c :: before, d, after, o :: os, final, rfl,
              (session_cons _ _ _ _ _).mpr ⟨o, os, ho, hos, rfl⟩, hd, hone⟩

end Reference

/-- From an empty buffer, a session that completes is one the reference
    completes, with the same answers and the same buffer, on every platform. A
    session that is stopped is one the reference raises on as well, or goes on
    past by spreading the only code there is to load. -/
theorem session_refines_reference (plat : Platform) (N : ℕ) (calls : List Call)
    (hreg : ∀ c ∈ calls, c.Regular plat N) :
    (∀ os final, session plat N calls (fun _ _ => -1) = .ok (os, final) →
      ∃ rs last, referenceSession N calls (fun _ _ => -1) = some (rs, last) ∧
        List.Forall₂ AgreesWith (calls.zip os) rs ∧ ∀ r, ∀ i < SEQ_LEN, final r i = last r i) ∧
      ∀ e, session plat N calls (fun _ _ => -1) = .error e →
        referenceSession N calls (fun _ _ => -1) = none ∨
          ∃ before c after os final, calls = before ++ c :: after ∧
            session plat N before (fun _ _ => -1) = .ok (os, final) ∧
            c.run plat N final = .error e ∧ (c.loads final).length = 1 :=
  ⟨fun os final h => reference_along calls hreg _ _ (fun _ => distinctOffPad_empty)
      (fun _ _ _ => rfl) os final h,
    fun e h => reference_stop_along calls hreg _ _ (fun _ => distinctOffPad_empty)
      (fun _ _ _ => rfl) e h⟩

/-- The two steps, as the reference runs them. -/
theorem session_refines_reference_two_steps :
    ∃ os final rs last, session Platform.singleCore 4 twoSteps (fun _ _ => -1) = .ok (os, final) ∧
      referenceSession 4 twoSteps (fun _ _ => -1) = some (rs, last) ∧
      ∀ r, ∀ i < SEQ_LEN, final r i = last r i := by
  rcases twoSteps_completes with ⟨os, final, h⟩
  rcases (session_refines_reference Platform.singleCore 4 twoSteps
    (fun c hc => (twoSteps_mem c hc).2.1)).1 os final h with ⟨rs, last, href, _, hlast⟩
  exact ⟨os, final, rs, last, h, href, hlast⟩

end AscendKernel
