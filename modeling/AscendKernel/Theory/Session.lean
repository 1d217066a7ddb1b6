import AscendKernel.Theory.Reference
import AscendKernel.Theory.Relational
import AscendKernel.Theory.Soundness

/-!
# Sessions

Whole sequences of calls on one buffer, stated by what the caller asks for.

The invariant of `Invariant` is about the buffer a run has reached. A caller
does not see that buffer; it sees the calls it made. After a completed call
each row it used holds the codes asked for there and nothing else, so what a
row holds is what it was last asked for, and every statement about the next
call turns into one about the calls before it. A session goes on as long as no
row is asked for less than it was before, unless it was full. The codes
reported are those the previous call on the row did not ask for. A code asked
for again and again stays in its slot.

## Main definitions

* `session`: Calls made one after the other.
* `Call.asks`: How many codes a row of a call asks for.
* `NeverShrinks`: No row is asked for less than it holds, unless it is full.
* `HoldsLast`: Every row holds what it was last asked for.
* `Along`: Some property of every call of a session.
* `LoadsNew`: A call answers with what is new in it.
* `Resident`: A code stays in its slot.

## Theorems

* `session_completes_iff`: Which sessions complete, and how the others stop.
* `session_loadsNew`: What a session loads.
* `session_resident`: What is asked for again stays where it is.
-/

namespace AscendKernel

/-- Calls made one after the other, each on the buffer the one before left:
    what they leave, in order, and the buffer at the end. -/
def session (plat : Platform) (N : ℕ) :
    List Call → (ℕ → ℕ → Int64) → Except Failure (List Outcome × (ℕ → ℕ → Int64))
  | [], buf => .ok ([], buf)
  | c :: cs, buf => do
    let o ← c.run plat N buf
    let p ← session plat N cs o.buffer
    .ok (o :: p.1, p.2)

section Session

variable {plat : Platform} {N : ℕ}

/-- A session completes call by call. -/
theorem session_cons (c : Call) (cs : List Call) (buf : ℕ → ℕ → Int64) (os : List Outcome)
    (last : ℕ → ℕ → Int64) :
    session plat N (c :: cs) buf = .ok (os, last) ↔
      ∃ o os', c.run plat N buf = .ok o ∧ session plat N cs o.buffer = .ok (os', last) ∧
        os = o :: os' := by
  rw [session, bind_eq_ok]
  simp only [bind_eq_ok]
  constructor
  · rintro ⟨o, hrun, p, hrest, heq⟩
    rw [Except.ok.injEq, Prod.mk.injEq] at heq
    exact ⟨o, p.1, hrun, by rw [hrest, ← heq.2], heq.1.symm⟩
  · rintro ⟨o, os', hrun, hrest, rfl⟩
    exact ⟨o, hrun, (os', last), hrest, rfl⟩

/-- A session stops at the first call that does. -/
theorem session_error (c : Call) (cs : List Call) (buf : ℕ → ℕ → Int64) (e : Failure)
    (h : c.run plat N buf = .error e) : session plat N (c :: cs) buf = .error e := by
  rw [session, h]
  rfl

/-- Past a completed call a session stops where the rest of it does. -/
theorem session_error_tail (c : Call) (cs : List Call) (buf : ℕ → ℕ → Int64) (o : Outcome)
    (e : Failure) (h : c.run plat N buf = .ok o) (hrest : session plat N cs o.buffer = .error e) :
    session plat N (c :: cs) buf = .error e := by
  rw [session, h, ok_bind, hrest]
  rfl

end Session

namespace Call

/-- How many codes row `r` of a call asks for. -/
def asks (c : Call) (r : ℕ) : ℕ := occupancy (-1) SEQ_LEN (c.codes r)

/-- How many codes each row holds once a call is served, given how many it
    held before. -/
def holds (c : Call) (held : ℕ → ℕ) (r : ℕ) : ℕ := if r < c.numReqs then c.asks r else held r

/-- The call is accepted, fits, and asks for distinct tokens. -/
structure Regular (c : Call) (plat : Platform) (N : ℕ) : Prop where
  accepted : c.Accepted N
  fits : Fits plat c.numReqs
  distinct : c.DistinctTokens

end Call

/-- No call asks a row for fewer codes than it holds, unless the row is
    full. -/
def NeverShrinks : List Call → (ℕ → ℕ) → Prop
  | [], _ => True
  | c :: cs, held =>
    (∀ r < c.numReqs, held r ≤ c.asks r ∨ held r = SEQ_LEN) ∧ NeverShrinks cs (c.holds held)

section Completion

variable {plat : Platform} {N : ℕ} {c : Call} {buf : ℕ → ℕ → Int64}

/-- A completed call leaves as many codes in each row as were asked for. -/
theorem occupancy_of_run (hreg : c.Regular plat N)
    (hbuf : ∀ r, DistinctOffPad (-1) SEQ_LEN (buf r)) (o : Outcome)
    (h : c.run plat N buf = .ok o) (r : ℕ) :
    occupancy (-1) SEQ_LEN (o.buffer r)
      = c.holds (fun q => occupancy (-1) SEQ_LEN (buf q)) r := by
  unfold Call.holds
  by_cases hr : r < c.numReqs
  · rw [if_pos hr]
    exact (serves_of_run hreg.fits.1 hreg.distinct (fun q _ => hbuf q) o h r hr).occupancy_eq
  · rw [if_neg hr]
    exact countTrue_congr _ _ SEQ_LEN
      (fun i hi => by rw [run_frame o h r (Nat.le_of_not_lt hr) i hi])

/-- A call that is not balanced has a slot too many, and its first scatter
    stops it. -/
theorem run_of_not_balanced (hreg : c.Regular plat N)
    (hbuf : ∀ r, DistinctOffPad (-1) SEQ_LEN (buf r)) (hbal : ¬ c.Balanced buf) :
    c.run plat N buf = .error .aclnnInplaceMaskedScatter := by
  rcases Call.launched_slots c buf hreg.accepted.1 hreg.fits with ⟨gm, hrun, _⟩
  -- With enough codes for the slots it would complete, and be balanced.
  by_cases hlen : (c.loads buf).length < countTrue gm.availMaskGm (c.numReqs * SEQ_LEN)
  · rw [Call.run_accepted hreg.accepted, hrun]
    simp only []
    rw [if_pos hlen]
  · rcases Call.run_completes hreg.accepted gm hrun (Nat.le_of_not_lt hlen) with ⟨o, ho⟩
    exact absurd (Call.balanced_of_run hreg.fits.1 hreg.distinct (fun q _ => hbuf q) o ho) hbal

/-- From any padded buffer, a session completes when it never shrinks, and is
    stopped by a scatter when it does. -/
theorem session_of_padded (calls : List Call) (hreg : ∀ c ∈ calls, c.Regular plat N)
    (buf : ℕ → ℕ → Int64) (hbuf : ∀ r, DistinctOffPad (-1) SEQ_LEN (buf r)) (held : ℕ → ℕ)
    (hheld : ∀ r, occupancy (-1) SEQ_LEN (buf r) = held r) :
    (NeverShrinks calls held → ∃ os last, session plat N calls buf = .ok (os, last)) ∧
      (¬ NeverShrinks calls held →
        session plat N calls buf = .error .aclnnInplaceMaskedScatter) := by
  induction calls generalizing buf held with
  | nil => exact ⟨fun _ => ⟨[], buf, rfl⟩, fun h => absurd trivial h⟩
  | cons c cs ih =>
      have hc := hreg c List.mem_cons_self
      -- Balance is what is required of the first call.
      have hroom : c.Balanced buf ↔ ∀ r < c.numReqs, held r ≤ c.asks r ∨ held r = SEQ_LEN := by
        rw [Call.balanced_iff hc.distinct (fun q _ => hbuf q)]
        simp only [hheld]
        rfl
      by_cases hbal : c.Balanced buf
      · rcases Call.completes_of_balanced hc.accepted hc.fits hbal with ⟨o, ho⟩
        -- The rest of the session starts from what this call holds.
        have hrest := ih (fun d hd => hreg d (List.mem_cons_of_mem c hd)) o.buffer
          (distinctOffPad_step hc.fits.1 hc.distinct hbuf o ho) (c.holds held)
          (fun r => by rw [occupancy_of_run hc hbuf o ho r]; simp only [hheld])
        constructor
        · intro h
          rcases hrest.1 h.2 with ⟨os, last, hos⟩
          exact ⟨o :: os, last, (session_cons c cs buf _ last).mpr ⟨o, os, ho, hos, rfl⟩⟩
        · intro h
          exact session_error_tail c cs buf o _ ho
            (hrest.2 (fun hcs => h ⟨hroom.mp hbal, hcs⟩))
      · constructor
        · intro h
          exact absurd (hroom.mpr h.1) hbal
        · -- The first call is stopped, whatever comes after it.
          intro _
          exact session_error c cs buf _ (run_of_not_balanced hc hbuf hbal)

end Completion

/-- A call of one row, by the tokens it lists. -/
theorem oneRow_spec (xs : List Int32) (hnodup : xs.Nodup) (hlen : xs.length ≤ SEQ_LEN)
    (hpos : xs.all (fun t => decide (0 ≤ t)) = true) :
    (Call.ofRows [(3, xs)]).WellFormed ∧
      (Call.ofRows [(3, xs)]).Regular Platform.singleCore 4 ∧
      (Call.ofRows [(3, xs)]).numReqs = 1 ∧
      occupancy (-1) SEQ_LEN ((Call.ofRows [(3, xs)]).codes 0) = xs.length := by
  have hid : (0 : Int64) ≤ 3 ∧ (3 : Int64).toInt < 2 ^ 40 := by decide
  have hrows : 1 ≤ 4 ∧ 1 ≤ 2 ^ 20 := by decide
  have hlist : Listed [(3, xs)] := by
    refine ⟨hrows.2, fun p hp => ?_⟩
    rw [List.mem_singleton.mp hp]
    exact ⟨hnodup, hlen, hpos, hid⟩
  have hwf := hlist.wellFormed
  exact ⟨hwf, ⟨Call.ofRows_accepted _ 4 hrows.1, Call.ofRows_fits _ hrows.2, hwf.distinct⟩, rfl,
    hlist.occupancy_eq 0 Nat.one_pos⟩

/-- Two steps of one request, with one token replaced. -/
def twoSteps : List Call := [Call.ofRows [(3, [5, 7])], Call.ofRows [(3, [5, 9])]]

theorem twoSteps_mem (c : Call) (hc : c ∈ twoSteps) :
    c.WellFormed ∧ c.Regular Platform.singleCore 4 ∧ c.numReqs = 1 ∧
      occupancy (-1) SEQ_LEN (c.codes 0) = 2 := by
  have hwidth : 2 ≤ SEQ_LEN := by decide
  rcases List.mem_cons.mp hc with rfl | hc
  · exact oneRow_spec [5, 7] (by decide) hwidth (by decide)
  · rw [List.mem_singleton.mp hc]
    exact oneRow_spec [5, 9] (by decide) hwidth (by decide)

theorem twoSteps_neverShrinks : NeverShrinks twoSteps fun _ => 0 := by
  have hfirst := twoSteps_mem (Call.ofRows [(3, [5, 7])]) List.mem_cons_self
  have hsecond := twoSteps_mem (Call.ofRows [(3, [5, 9])])
    (List.mem_cons_of_mem _ List.mem_cons_self)
  refine ⟨fun r _ => Or.inl (Nat.zero_le _), fun r hr => Or.inl ?_, trivial⟩
  rw [hsecond.2.2.1, Nat.lt_one_iff] at hr
  unfold Call.holds Call.asks
  rw [hr, if_pos (by rw [hfirst.2.2.1]; exact Nat.one_pos), hfirst.2.2.2, hsecond.2.2.2]

theorem twoSteps_completes :
    ∃ os last, session Platform.singleCore 4 twoSteps (fun _ _ => -1) = .ok (os, last) :=
  (session_of_padded twoSteps (fun c hc => (twoSteps_mem c hc).2.1) _
    (fun _ => distinctOffPad_empty) _ (fun _ => occupancy_empty)).1 twoSteps_neverShrinks

/-- From an empty buffer, a session completes exactly when no call asks a row
    for fewer codes than the last call on that row did, unless those filled
    it. Any other session is stopped by a scatter. -/
theorem session_completes_iff (plat : Platform) (N : ℕ) (calls : List Call)
    (hreg : ∀ c ∈ calls, c.Regular plat N) :
    ((∃ os last, session plat N calls (fun _ _ => -1) = .ok (os, last)) ↔
        NeverShrinks calls fun _ => 0) ∧
      ((¬ ∃ os last, session plat N calls (fun _ _ => -1) = .ok (os, last)) →
        session plat N calls (fun _ _ => -1) = .error .aclnnInplaceMaskedScatter) := by
  have h := session_of_padded calls hreg (fun _ _ => -1) (fun _ => distinctOffPad_empty)
    (fun _ => 0) (fun _ => occupancy_empty)
  by_cases hn : NeverShrinks calls fun _ => 0
  · exact ⟨⟨fun _ => hn, h.1⟩, fun hno => absurd (h.1 hn) hno⟩
  · have hstop := h.2 hn
    refine ⟨⟨?_, fun hyes => absurd hyes hn⟩, fun _ => hstop⟩
    rintro ⟨os, last, hos⟩
    rw [hstop] at hos
    exact absurd hos (error_ne_ok _ _)

/-- The two steps ask for two codes each, so they complete. -/
theorem session_completes_iff_two_steps :
    ∃ os last, session Platform.singleCore 4 twoSteps (fun _ _ => -1) = .ok (os, last) :=
  (session_completes_iff Platform.singleCore 4 twoSteps
    (fun c hc => (twoSteps_mem c hc).2.1)).1.mpr twoSteps_neverShrinks

section Loads

variable {plat : Platform} {N : ℕ} {c : Call} {buf last : ℕ → ℕ → Int64}

/-- Every row of a buffer is a rearrangement of what it was last asked for. -/
def HoldsLast (buf last : ℕ → ℕ → Int64) : Prop :=
  ∀ r x, occurrences (buf r) SEQ_LEN x = occurrences (last r) SEQ_LEN x

/-- What each row was last asked for, once a call is served. -/
def Call.lastCodes (c : Call) (last : ℕ → ℕ → Int64) (r : ℕ) : ℕ → Int64 :=
  if r < c.numReqs then c.codes r else last r

/-- Some property of every call of a session, of what its rows were last asked
    for before it, and of what it leaves. -/
def Along (P : (ℕ → ℕ → Int64) → Call → Outcome → Prop) :
    List Call → List Outcome → (ℕ → ℕ → Int64) → Prop
  | c :: cs, o :: os, last => P last c o ∧ Along P cs os (c.lastCodes last)
  | [], [], _ => True
  | _, _, _ => False

theorem HoldsLast.mem_iff (h : HoldsLast buf last) (r : ℕ) (x : Int64) :
    (∃ i < SEQ_LEN, buf r i = x) ↔ ∃ i < SEQ_LEN, last r i = x := by
  rw [← occurrences_pos_iff, ← occurrences_pos_iff, h r x]

theorem HoldsLast.missing_iff (h : HoldsLast buf last) (r : ℕ) (x : Int64) :
    (∀ i < SEQ_LEN, x ≠ buf r i) ↔ ∀ i < SEQ_LEN, x ≠ last r i := by
  have hiff := not_congr (h.mem_iff r x)
  push Not at hiff
  constructor
  · intro hx i hi heq
    exact hiff.mp (fun k hk hkx => hx k hk hkx.symm) i hi heq.symm
  · intro hx i hi heq
    exact hiff.mpr (fun k hk hkx => hx k hk hkx.symm) i hi heq.symm

/-- The step lemma: a completed call leaves in each row what the row was last
    asked for, in some order. -/
theorem holdsLast_step (hrows : c.numReqs * SEQ_LEN ≤ 2 ^ 32) (hdist : c.DistinctTokens)
    (hbuf : ∀ r, DistinctOffPad (-1) SEQ_LEN (buf r)) (hlast : HoldsLast buf last) (o : Outcome)
    (h : c.run plat N buf = .ok o) : HoldsLast o.buffer (c.lastCodes last) := by
  intro r x
  unfold Call.lastCodes
  by_cases hr : r < c.numReqs
  · rw [if_pos hr]
    exact Call.run_stores hrows hdist (fun q _ => hbuf q) o h r hr x
  · rw [if_neg hr, ← hlast r x]
    exact countTrue_congr _ _ SEQ_LEN
      (fun i hi => by rw [run_frame o h r (Nat.le_of_not_lt hr) i hi])

/-- A call answers with the tokens whose codes its row was not last asked
    for, each of them once. -/
structure LoadsNew (last : ℕ → ℕ → Int64) (c : Call) (o : Outcome) : Prop where
  reported_iff : ∀ r < c.numReqs, ∀ j < SEQ_LEN, 0 ≤ c.topkIndices r j →
    ((∃ i < SEQ_LEN, o.topkIndices r i = c.topkIndices r j) ↔
      ∀ k < SEQ_LEN, c.codes r j ≠ last r k)
  count : ∀ r < c.numReqs, countTrue (fun i => decide (o.topkIndices r i ≠ -1)) SEQ_LEN
    = countTrue (fun j => diffMask SEQ_LEN (c.codes r) (last r) j &&
        decide (0 ≤ c.topkIndices r j)) SEQ_LEN

/-- A completed call on what its rows were last asked for loads what is new. -/
theorem loadsNew_of_run (hwf : c.WellFormed) (hrows : c.numReqs * SEQ_LEN ≤ 2 ^ 32)
    (hbuf : ∀ r, DistinctOffPad (-1) SEQ_LEN (buf r)) (hlast : HoldsLast buf last) (o : Outcome)
    (h : c.run plat N buf = .ok o) : LoadsNew last c o := by
  have hpad : c.PaddedRows buf := fun q _ => hbuf q
  have hbal := Call.balanced_of_run hrows hwf.distinct hpad o h
  have hans : ∀ r < c.numReqs, ∀ i < SEQ_LEN, o.topkIndices r i
      = recovered c.reqIds r (reported (-1) SEQ_LEN (c.codes r) (buf r) i) :=
    fun r hr i hi => (Call.run_rowLocal hrows hbal o h r i hr hi).2
  constructor
  · intro r hr j hj ht
    rw [← hlast.missing_iff r]
    constructor
    · rintro ⟨i, hi, hval⟩ k hk heq
      exact not_answered_of_held hrows hwf.distinct hpad o h r j k hr ht hk heq.symm i hi hval
    · intro hmiss
      exact answered_of_missing hrows hwf.distinct hpad o h r j hr hj
        (hwf.code_nonneg r hr j hj ht) (fun k hk heq => hmiss k hk heq.symm)
  · intro r hr
    have hserve := serves_of_run hrows hwf.distinct hpad o h r hr
    -- An answer is -1 exactly where nothing is reported.
    have hsome : ∀ i < SEQ_LEN, decide (o.topkIndices r i ≠ -1)
        = decide (reported (-1) SEQ_LEN (c.codes r) (buf r) i ≠ -1) := by
      intro i hi
      rw [decide_eq_decide, hans r hr i hi]
      constructor
      · intro hne hnone
        rw [hnone] at hne
        exact hne (recovered_empty c.reqIds r)
      · intro hne
        rcases (hserve.loaded i hi hne).2.1 with ⟨j, hj, hval⟩
        have ht := Call.nonneg_of_code r j (by rw [hval]; exact hne)
        rw [← hval, Call.recovered_codes r j ht (hwf.code_nonneg r hr j hj ht)]
        intro hneg
        rw [hneg] at ht
        exact absurd ht (by decide)
    -- So the answers are counted by the reports, and these by the new codes.
    rw [countTrue_congr _ _ SEQ_LEN hsome]
    refine (hserve.reports_eq (Call.distinctOffPad_codes hwf.distinct r hr)).trans ?_
    refine countTrue_congr _ _ SEQ_LEN (fun j hj => ?_)
    have hdiff : diffMask SEQ_LEN (c.codes r) (buf r) j
        = diffMask SEQ_LEN (c.codes r) (last r) j := by
      rw [Bool.eq_iff_iff, diffMask_iff, diffMask_iff]
      exact hlast.missing_iff r _
    have hsign : decide (c.codes r j ≠ -1) = decide (0 ≤ c.topkIndices r j) := by
      rw [decide_eq_decide]
      exact ⟨Call.nonneg_of_code r j,
        fun ht => ne_neg_one_of_nonneg _ (hwf.code_nonneg r hr j hj ht)⟩
    rw [hdiff, hsign]

/-- The run lemma, from any padded buffer. -/
theorem loadsNew_along (calls : List Call)
    (hcalls : ∀ c ∈ calls, c.WellFormed ∧ c.numReqs * SEQ_LEN ≤ 2 ^ 32) (os : List Outcome)
    (final : ℕ → ℕ → Int64) (hbuf : ∀ r, DistinctOffPad (-1) SEQ_LEN (buf r))
    (hlast : HoldsLast buf last) (h : session plat N calls buf = .ok (os, final)) :
    Along LoadsNew calls os last := by
  induction calls generalizing buf last os with
  | nil =>
      unfold session at h
      rw [Except.ok.injEq, Prod.mk.injEq] at h
      rw [← h.1]
      exact trivial
  | cons c cs ih =>
      have hc := hcalls c List.mem_cons_self
      rcases (session_cons c cs buf os final).mp h with ⟨o, os', hrun, hrest, rfl⟩
      refine ⟨loadsNew_of_run hc.1 hc.2 hbuf hlast o hrun, ?_⟩
      exact ih (fun d hd => hcalls d (List.mem_cons_of_mem c hd)) os'
        (distinctOffPad_step hc.2 hc.1.distinct hbuf o hrun)
        (holdsLast_step hc.2 hc.1.distinct hbuf hlast o hrun) hrest

end Loads

/-- Every call of a session answers with the tokens whose codes, request and
    token together, the last call on their row did not ask for, and with
    nothing else. -/
theorem session_loadsNew (plat : Platform) (N : ℕ) (calls : List Call)
    (hcalls : ∀ c ∈ calls, c.WellFormed ∧ c.numReqs * SEQ_LEN ≤ 2 ^ 32) (os : List Outcome)
    (final : ℕ → ℕ → Int64) (h : session plat N calls (fun _ _ => -1) = .ok (os, final)) :
    Along LoadsNew calls os fun _ _ => -1 :=
  loadsNew_along calls hcalls os final (fun _ => distinctOffPad_empty) (fun _ _ => rfl) h

/-- The two steps: the second loads only the token it does not share. -/
theorem session_loadsNew_two_steps :
    ∃ os last, session Platform.singleCore 4 twoSteps (fun _ _ => -1) = .ok (os, last) ∧
      Along LoadsNew twoSteps os fun _ _ => -1 := by
  rcases twoSteps_completes with ⟨os, last, h⟩
  refine ⟨os, last, h, session_loadsNew Platform.singleCore 4 twoSteps (fun c hc => ?_) os last h⟩
  have hc := twoSteps_mem c hc
  exact ⟨hc.1, hc.2.1.fits.1⟩

section Residency

variable {plat : Platform} {N : ℕ} {c : Call} {buf : ℕ → ℕ → Int64}

/-- A call on row `r` leaves the code `x` in slot `i`, reports nothing there,
    and does not answer with the token of `x` anywhere else. -/
structure Resident (r i : ℕ) (x : Int64) (c : Call) (o : Outcome) : Prop where
  stays : o.buffer r i = x
  silent : o.topkIndices r i = -1
  not_loaded : ∀ j < SEQ_LEN, 0 ≤ c.topkIndices r j → c.codes r j = x →
    ∀ k < SEQ_LEN, o.topkIndices r k ≠ c.topkIndices r j

/-- The step lemma: a code that is held and asked for again stays. -/
theorem resident_of_run (hrows : c.numReqs * SEQ_LEN ≤ 2 ^ 32) (hdist : c.DistinctTokens)
    (hbuf : ∀ r, DistinctOffPad (-1) SEQ_LEN (buf r)) (o : Outcome)
    (h : c.run plat N buf = .ok o) (r i : ℕ) (hr : r < c.numReqs) (hi : i < SEQ_LEN) (x : Int64)
    (hheld : buf r i = x) (hx : x ≠ -1) (hwant : ∃ j < SEQ_LEN, c.codes r j = x) :
    Resident r i x c o := by
  have hpad : c.PaddedRows buf := fun q _ => hbuf q
  have hserve := serves_of_run hrows hdist hpad o h r hr
  have hbal := Call.balanced_of_run hrows hdist hpad o h
  rcases hserve.kept i hi (by rw [hheld]; exact hx) (by rw [hheld]; exact hwant) with
    ⟨hnew, hnone⟩
  refine ⟨hnew.trans hheld, ?_, fun j _ ht hcode => ?_⟩
  · rw [(Call.run_rowLocal hrows hbal o h r i hr hi).2, hnone]
    exact recovered_empty c.reqIds r
  · exact not_answered_of_held hrows hdist hpad o h r j i hr ht hi (hheld.trans hcode.symm)

/-- The run lemma, from any padded buffer. -/
theorem resident_along (calls : List Call)
    (hcalls : ∀ c ∈ calls, c.numReqs * SEQ_LEN ≤ 2 ^ 32 ∧ c.DistinctTokens) (os : List Outcome)
    (final : ℕ → ℕ → Int64) (hbuf : ∀ r, DistinctOffPad (-1) SEQ_LEN (buf r))
    (h : session plat N calls buf = .ok (os, final)) (r i : ℕ) (hi : i < SEQ_LEN) (x : Int64)
    (hheld : buf r i = x) (hx : x ≠ -1)
    (hwant : ∀ c ∈ calls, r < c.numReqs → ∃ j < SEQ_LEN, c.codes r j = x) :
    final r i = x ∧ List.Forall₂ (fun c o => r < c.numReqs → Resident r i x c o) calls os := by
  induction calls generalizing buf os with
  | nil =>
      unfold session at h
      rw [Except.ok.injEq, Prod.mk.injEq] at h
      rw [← h.1, ← h.2]
      exact ⟨hheld, List.Forall₂.nil⟩
  | cons c cs ih =>
      have hc := hcalls c List.mem_cons_self
      rcases (session_cons c cs buf os final).mp h with ⟨o, os', hrun, hrest, rfl⟩
      have hres : r < c.numReqs → Resident r i x c o := fun hr =>
        resident_of_run hc.1 hc.2 hbuf o hrun r i hr hi x hheld hx
          (hwant c List.mem_cons_self hr)
      have hheld' : o.buffer r i = x := by
        by_cases hr : r < c.numReqs
        · exact (hres hr).stays
        · -- The call does not use the row.
          rw [run_frame o hrun r (Nat.le_of_not_lt hr) i hi, hheld]
      rcases ih (fun d hd => hcalls d (List.mem_cons_of_mem c hd)) os'
        (distinctOffPad_step hc.1 hc.2 hbuf o hrun) hrest hheld'
        (fun d hd => hwant d (List.mem_cons_of_mem c hd)) with ⟨hfinal, hall⟩
      exact ⟨hfinal, List.Forall₂.cons hres hall⟩

end Residency

/-- A code that a run has brought into a slot stays in that slot, and is not
    loaded again, for as long as every call on the row asks for it. -/
theorem session_resident (plat : Platform) (N : ℕ) (buf : ℕ → ℕ → Int64)
    (hbuf : Run plat N (fun c => c.numReqs * SEQ_LEN ≤ 2 ^ 32 ∧ c.DistinctTokens) buf)
    (calls : List Call)
    (hcalls : ∀ c ∈ calls, c.numReqs * SEQ_LEN ≤ 2 ^ 32 ∧ c.DistinctTokens) (os : List Outcome)
    (final : ℕ → ℕ → Int64) (h : session plat N calls buf = .ok (os, final)) (r i : ℕ)
    (hi : i < SEQ_LEN) (hx : buf r i ≠ -1)
    (hwant : ∀ c ∈ calls, r < c.numReqs → ∃ j < SEQ_LEN, c.codes r j = buf r i) :
    final r i = buf r i ∧
      List.Forall₂ (fun c o => r < c.numReqs → Resident r i (buf r i) c o) calls os :=
  resident_along calls hcalls os final
    (fun q => distinctOffPad_of_run plat N _ (fun _ hc => hc) buf hbuf q) h r i hi _ rfl hx hwant

/-- The two steps: the shared token stays in the slot the first brought it
    into. -/
theorem session_resident_two_steps :
    ∃ o os last, (Call.ofRows [(3, [5, 7])]).run Platform.singleCore 4 (fun _ _ => -1) = .ok o ∧
      session Platform.singleCore 4 [Call.ofRows [(3, [5, 9])]] o.buffer = .ok (os, last) ∧
      ∃ i < SEQ_LEN, o.buffer 0 i ≠ -1 ∧ last 0 i = o.buffer 0 i := by
  have hfirst := twoSteps_mem (Call.ofRows [(3, [5, 7])]) List.mem_cons_self
  have hsecond := twoSteps_mem (Call.ofRows [(3, [5, 9])])
    (List.mem_cons_of_mem _ List.mem_cons_self)
  rcases twoSteps_completes with ⟨os, last, h⟩
  rcases (session_cons _ _ _ _ _).mp h with ⟨o, os', ho, hrest, rfl⟩
  refine ⟨o, os', last, ho, hrest, ?_⟩
  -- Some slot holds the code of token 5, and the second call asks for it.
  have hserve := serves_of_run hfirst.2.1.fits.1 hfirst.2.1.distinct (Call.paddedRows_start _) o ho
    0 (by decide)
  rcases (hserve.holds_iff ((Call.ofRows [(3, [5, 7])]).codes 0 0)).mpr ⟨0, SEQ_LEN_pos, rfl⟩ with
    ⟨i, hi, hval⟩
  have hcode : (Call.ofRows [(3, [5, 7])]).codes 0 0 ≠ -1 :=
    ne_neg_one_of_nonneg _ (hfirst.1.code_nonneg 0 (by decide) 0 SEQ_LEN_pos (by decide))
  have hne : o.buffer 0 i ≠ -1 := by
    rw [hval]
    exact hcode
  have hrun : Run Platform.singleCore 4 (fun c => c.numReqs * SEQ_LEN ≤ 2 ^ 32 ∧ c.DistinctTokens)
      o.buffer := Run.step _ _ o Run.start ⟨hfirst.2.1.fits.1, hfirst.2.1.distinct⟩ ho
  refine ⟨i, hi, hne, (session_resident Platform.singleCore 4 o.buffer hrun _ (fun c hc => ?_) os'
    last hrest 0 i hi hne (fun c hc _ => ?_)).1⟩
  · rw [List.mem_singleton.mp hc]
    exact ⟨hsecond.2.1.fits.1, hsecond.2.1.distinct⟩
  · rw [List.mem_singleton.mp hc]
    exact ⟨0, SEQ_LEN_pos, hval.symm⟩

end AscendKernel
