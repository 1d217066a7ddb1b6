import AscendKernel.Theory.NpuObjects

/-!
# What Commands Leave Behind

The objects of a run of commands, and the memory pool of the thread.

The two libraries and everything they answer are arbitrary here, so this is about
what `EXEC_NPU_CMD` does in all circumstances. Part of it is safety: an object is
used and destroyed only while it is there, and never destroyed twice,
`commands_in_order`. That holds at every point of the run, because a ledger in
order has been in order all along.

The rest is what failures cost. Objects are destroyed by the last step of a
command, so a command that fails on the way keeps what it has made. Which objects
those are is `Command.leaves`, in terms of the parameters alone: the conversions
stop at the first parameter that is not supported, `made`. The pool is set up
before the conversions and taken down after the objects are destroyed, so a
failing command leaves that as it is, too. That the pool is taken down last is
for an `OpCommand::Run` that has run its handler by the time it returns.

## Main definitions

* `ledger`, `hugeMem`: The events on objects, and those on the pool.
* `Param.supported`, `Param.asks`: What a conversion needs, and what it makes.
* `made`: The objects a command makes.
* `Command.completes`: A command that goes through.
* `Command.leaves`: What a command leaves behind.
* `Command.Pooled`: The pool around everything else a command does.

## Theorems

* `convertType_spec`, `convertTypes_spec`: One conversion, and all of them.
* `release_spec`: Objects are destroyed as far as there are functions for it.
* `execConverted_events`, `execNpuCmd_events`: What a command does.
* `execNpuCmd_ledger`, `execNpuCmd_audit`: What that does to objects.
* `execNpuCmd_pooled`, `execNpuCmd_isOk`: What it does to the pool, and when it
  returns.
* `commands_in_order`: Commands one after the other.
* `commands_hugeMem`: The pool in the course of them.
* `execNpuCmd_creates`: The objects of a command are made of its parameters.
-/

namespace AscendKernel

/-- What an event means for the objects. -/
def NpuEvent.entry : NpuEvent → Option (LedgerEntry Handle)
  | create h _ => some (.make h)
  | getWorkspaceSize args => some (.use (objects args))
  | opApi args _ => some (.use (objects args))
  | destroy h => some (.destroy h)
  | _ => none

/-- The ledger of the objects. -/
def ledger (es : List NpuEvent) : List (LedgerEntry Handle) := es.filterMap NpuEvent.entry

theorem ledger_append (es es' : List NpuEvent) : ledger (es ++ es') = ledger es ++ ledger es' :=
  List.filterMap_append

/-- A parameter whose conversion does not throw. -/
def Param.supported (libs : Libraries) : Param → Bool
  | .tensor (some t) =>
    !(getOpApiFuncAddr libs AclKind.tensor.createName).isSome ||
      (kATenScalarTypeToAclDataTypeTable t.scalarType != .undefined && t.itemsize != 0)
  | _ => true

/-- The object a parameter asks for, when the library can be asked. -/
def Param.asks (libs : Libraries) (p : Param) : Option AclKind :=
  let kind : Option AclKind :=
    match p with
    | .tensor t => t.map fun _ => .tensor
    | .scalar s => s.map fun _ => .scalar
    | .intArray xs => xs.map fun _ => .intArray
    | .boolArray _ => some .boolArray
    | .value => none
  kind.filter fun kind => (getOpApiFuncAddr libs kind.createName).isSome

section Made

variable (libs : Libraries) (reply : Reply) (c : ℕ)

/-- The object made for parameter `i`. -/
def madeFor (i : ℕ) (p : Param) : List Handle :=
  match p.asks libs with
  | some kind => if reply.makes i = true then [{ command := c, index := i, kind := kind }] else []
  | none => []

/-- The objects a command makes, from parameter `i` up to one that is not
    supported. -/
def made (i : ℕ) : List Param → List Handle
  | [] => []
  | p :: ps => if p.supported libs = true then madeFor libs reply c i p ++ made (i + 1) ps else []

/-- A conversion that goes through and makes the objects `hs`. -/
def Converts (r : NpuRun Arg) (hs : List Handle) : Prop :=
  ∃ a, r.result = .ok a ∧ ledger r.events = hs.map LedgerEntry.make ∧ objects [a] = hs

/-- A conversion that throws, having made nothing. -/
def Throws (r : NpuRun Arg) : Prop := (∃ e, r.result = .error e) ∧ ledger r.events = []

theorem create_spec (i : ℕ) (kind : AclKind) (source : AclSource) :
    Converts (create reply c i kind source)
      (if reply.makes i = true then [{ command := c, index := i, kind := kind }] else []) := by
  unfold create
  by_cases h : reply.makes i = true
  · rw [if_pos h, if_pos h]
    exact ⟨_, rfl, rfl, rfl⟩
  · rw [if_neg h, if_neg h]
    exact ⟨_, rfl, rfl, rfl⟩

/-- A tensor is converted unless its element type has no counterpart or its
    elements have no size. -/
theorem convertTensor_spec (i : ℕ) (t : AtTensor) :
    (kATenScalarTypeToAclDataTypeTable t.scalarType ≠ .undefined ∧ t.itemsize ≠ 0 →
      Converts (convertTensor reply c i t)
        (if reply.makes i = true then [{ command := c, index := i, kind := .tensor }] else [])) ∧
    (¬ (kATenScalarTypeToAclDataTypeTable t.scalarType ≠ .undefined ∧ t.itemsize ≠ 0) →
      Throws (convertTensor reply c i t)) := by
  unfold convertTensor
  simp only [NpuRun.torchCheck_bind, bne_iff_ne]
  by_cases htype : kATenScalarTypeToAclDataTypeTable t.scalarType ≠ .undefined
  · rw [if_pos htype]
    by_cases hsize : t.itemsize = 0
    · rw [if_pos hsize]
      exact ⟨fun h => absurd hsize h.2, fun _ => ⟨⟨_, rfl⟩, rfl⟩⟩
    · rw [if_neg hsize]
      exact ⟨fun _ => create_spec reply c i _ _, fun h => absurd ⟨htype, hsize⟩ h⟩
  · rw [if_neg htype]
    exact ⟨fun h => absurd h.1 htype, fun _ => ⟨⟨_, rfl⟩, rfl⟩⟩

/-- A scalar is always converted: every type it can have has a counterpart. -/
theorem convertScalar_spec (i : ℕ) (s : AtScalar) :
    Converts (convertScalar reply c i s)
      (if reply.makes i = true then [{ command := c, index := i, kind := .scalar }] else []) := by
  have htype : (kATenScalarTypeToAclDataTypeTable s.type != .undefined) = true := by
    cases s <;> rfl
  unfold convertScalar
  simp only [NpuRun.torchCheck_bind]
  rw [if_pos htype]
  exact create_spec reply c i _ _

/-- Without the function, or with nothing to convert, nothing is made. -/
theorem whenFound_spec {α : Type} (kind : AclKind) (x : Option α) (convert : α → NpuRun Arg)
    (hs : List Handle)
    (h : ∀ v, x = some v → (getOpApiFuncAddr libs kind.createName).isSome = true →
      Converts (convert v) hs) :
    Converts (whenFound libs kind x convert)
      (if (getOpApiFuncAddr libs kind.createName).isSome = true ∧ x.isSome = true
        then hs else []) := by
  unfold whenFound
  by_cases hfound : (getOpApiFuncAddr libs kind.createName).isSome = true
  · rw [if_pos hfound]
    cases x with
    | none =>
        rw [if_neg (fun hand => Bool.false_ne_true hand.2)]
        exact ⟨_, rfl, rfl, rfl⟩
    | some v =>
        rw [if_pos ⟨hfound, rfl⟩]
        exact h v rfl hfound
  · rw [if_neg hfound, if_neg (fun hand => hfound hand.1)]
    exact ⟨_, rfl, rfl, rfl⟩

/-- The object for a parameter of a kind, if there is something to convert and
    the function is found. -/
theorem madeFor_of_kind {α : Type} (i : ℕ) (kind : AclKind) (p : Param) (x : Option α)
    (h : p.asks libs = (x.map fun _ => kind).filter
      fun kind => (getOpApiFuncAddr libs kind.createName).isSome) :
    madeFor libs reply c i p =
      if (getOpApiFuncAddr libs kind.createName).isSome = true ∧ x.isSome = true then
        if reply.makes i = true then [{ command := c, index := i, kind := kind }] else []
      else [] := by
  unfold madeFor
  rw [h]
  cases x with
  | none =>
      rw [if_neg (fun hand => Bool.false_ne_true hand.2)]
      rfl
  | some v =>
      rw [Option.map_some, Option.filter_some]
      by_cases hfound : (getOpApiFuncAddr libs kind.createName).isSome = true
      · rw [if_pos hfound, if_pos ⟨hfound, rfl⟩]
      · rw [if_neg hfound, if_neg (fun hand => hfound hand.1)]

/-- One conversion: it makes the object that was asked for, or it throws and
    makes nothing. -/
theorem convertType_spec (i : ℕ) (p : Param) :
    (p.supported libs = true →
      Converts (convertType libs reply c i p) (madeFor libs reply c i p)) ∧
    (p.supported libs = false → Throws (convertType libs reply c i p)) := by
  cases p with
  | tensor t =>
      rw [madeFor_of_kind libs reply c i .tensor (.tensor t) t rfl]
      refine ⟨fun h => whenFound_spec libs .tensor t _ _ (fun v hv hfound => ?_), fun h => ?_⟩
      · rw [hv] at h
        unfold Param.supported at h
        rw [hfound] at h
        simp only [Bool.not_true, Bool.false_or, Bool.and_eq_true, bne_iff_ne] at h
        exact (convertTensor_spec reply c i v).1 h
      · cases t with
        | none => exact absurd h Bool.noConfusion
        | some v =>
            unfold Param.supported at h
            simp only [Bool.or_eq_false_iff, Bool.not_eq_false', Bool.and_eq_false_iff,
              bne_eq_false_iff_eq] at h
            change Throws (whenFound libs .tensor (some v) _)
            unfold whenFound
            rw [if_pos h.1]
            refine (convertTensor_spec reply c i v).2 (fun hand => ?_)
            rcases h.2 with htype | hsize
            · exact hand.1 htype
            · exact hand.2 hsize
  | scalar s =>
      rw [madeFor_of_kind libs reply c i .scalar (.scalar s) s rfl]
      exact ⟨fun _ => whenFound_spec libs .scalar s _ _
        (fun v _ _ => convertScalar_spec reply c i v), fun h => absurd h Bool.noConfusion⟩
  | intArray xs =>
      rw [madeFor_of_kind libs reply c i .intArray (.intArray xs) xs rfl]
      exact ⟨fun _ => whenFound_spec libs .intArray xs _ _ (fun _ _ _ => create_spec reply c i _ _),
        fun h => absurd h Bool.noConfusion⟩
  | boolArray bs =>
      rw [madeFor_of_kind libs reply c i .boolArray (.boolArray bs) (some bs) rfl]
      exact ⟨fun _ => whenFound_spec libs .boolArray (some bs) _ _
        (fun _ _ _ => create_spec reply c i _ _), fun h => absurd h Bool.noConfusion⟩
  | value => exact ⟨fun _ => ⟨_, rfl, rfl, rfl⟩, fun h => absurd h Bool.noConfusion⟩

/-- All conversions: the objects made are those up to a parameter that is not
    supported, and without one the conversions go through with these objects. -/
theorem convertTypes_spec (i : ℕ) (ps : List Param) :
    ledger (convertTypes libs reply c i ps).events =
        (made libs reply c i ps).map LedgerEntry.make ∧
      (ps.all (Param.supported libs) = true → ∃ args,
        (convertTypes libs reply c i ps).result = .ok args ∧
          objects args = made libs reply c i ps) ∧
      (ps.all (Param.supported libs) = false → ∃ e,
        (convertTypes libs reply c i ps).result = .error e) := by
  induction ps generalizing i with
  | nil => exact ⟨rfl, fun _ => ⟨[], rfl, rfl⟩, fun h => absurd h Bool.noConfusion⟩
  | cons p ps ih =>
      rcases ih (i + 1) with ⟨hledger, hok, herror⟩
      unfold convertTypes made
      cases hp : p.supported libs with
      | false =>
          -- The conversion of `p` throws, and nothing after it happens.
          rcases (convertType_spec libs reply c i p).2 hp with ⟨⟨e, he⟩, hnone⟩
          rcases NpuRun.bind_of_error he (fun a => do
            let rest ← convertTypes libs reply c (i + 1) ps
            NpuRun.done (a :: rest)) with ⟨hevents, hresult⟩
          refine ⟨?_, fun h => ?_, fun _ => ⟨e, hresult⟩⟩
          · rw [hevents, hnone]
            rfl
          · rw [List.all_cons, hp] at h
            exact absurd h Bool.noConfusion
      | true =>
          rcases (convertType_spec libs reply c i p).1 hp with ⟨a, ha, hmake, hobj⟩
          rcases NpuRun.bind_of_ok ha (fun a => do
            let rest ← convertTypes libs reply c (i + 1) ps
            NpuRun.done (a :: rest)) with ⟨hevents, hresult⟩
          have hsplit : ledger (convertType libs reply c i p).events ++
              ledger (convertTypes libs reply c (i + 1) ps).events =
                (madeFor libs reply c i p ++ made libs reply c (i + 1) ps).map
                  LedgerEntry.make := by
            rw [hmake, hledger, List.map_append]
          rw [hevents, ledger_append, hresult, List.all_cons, hp, Bool.true_and, if_pos rfl]
          cases hps : ps.all (Param.supported libs) with
          | true =>
              rcases hok hps with ⟨args, hargs, hobjs⟩
              rcases NpuRun.bind_of_ok hargs (fun rest => NpuRun.done (a :: rest)) with
                ⟨hevents', hresult'⟩
              refine ⟨?_, fun _ => ⟨a :: args, hresult', ?_⟩, fun h => absurd h Bool.noConfusion⟩
              · rw [hevents', ledger_append]
                exact (congrArg _ (List.append_nil _)).trans hsplit
              · rw [← hobj, ← hobjs]
                exact List.filterMap_append (l := [a])
          | false =>
              rcases herror hps with ⟨e, he⟩
              rcases NpuRun.bind_of_error he (fun rest => NpuRun.done (a :: rest)) with
                ⟨hevents', hresult'⟩
              refine ⟨?_, fun h => absurd h Bool.noConfusion, fun _ => ⟨e, hresult'⟩⟩
              rw [hevents']
              exact hsplit

/-- The objects of a command are its own, one for a parameter at most. -/
theorem made_index (i : ℕ) (ps : List Param) :
    (∀ h ∈ made libs reply c i ps, h.command = c ∧ i ≤ h.index) ∧
      (made libs reply c i ps).Nodup := by
  induction ps generalizing i with
  | nil => exact ⟨fun h hh => absurd hh List.not_mem_nil, List.nodup_nil⟩
  | cons p ps ih =>
      rcases ih (i + 1) with ⟨hmem, hnodup⟩
      have hfor : madeFor libs reply c i p = [] ∨
          ∃ kind, madeFor libs reply c i p = [{ command := c, index := i, kind := kind }] := by
        unfold madeFor
        split
        · split
          · exact Or.inr ⟨_, rfl⟩
          · exact Or.inl rfl
        · exact Or.inl rfl
      unfold made
      by_cases hp : p.supported libs = true
      · rw [if_pos hp]
        rcases hfor with hnil | ⟨kind, hone⟩
        · rw [hnil, List.nil_append]
          exact ⟨fun h hh => ⟨(hmem h hh).1, by have := (hmem h hh).2; omega⟩, hnodup⟩
        · rw [hone, List.singleton_append]
          refine ⟨fun h hh => ?_, List.nodup_cons.mpr ⟨fun hh => ?_, hnodup⟩⟩
          · rcases List.mem_cons.mp hh with rfl | hh
            · exact ⟨rfl, le_refl i⟩
            · exact ⟨(hmem h hh).1, by have := (hmem h hh).2; omega⟩
          · -- Later parameters have larger indices.
            have hle := (hmem _ hh).2
            dsimp only at hle
            omega
      · rw [if_neg hp]
        exact ⟨fun h hh => absurd hh List.not_mem_nil, List.nodup_nil⟩

end Made

section Commands

variable (libs : Libraries)

/-- Nobody reports a failure once the parameters are converted. -/
def Reply.succeeds (reply : Reply) : Bool :=
  reply.workspaceStatus == 0 && (reply.workspaceSize == 0 || reply.workspaceError.isNone) &&
    reply.apiRet == 0

/-- A command goes through: its functions are found, its parameters supported,
    and nobody reports a failure. -/
def Command.completes (cmd : Command) (reply : Reply) : Bool :=
  cmd.found libs && cmd.params.all (Param.supported libs) && reply.succeeds

/-- An object whose destroy function is found. -/
def Handle.destroyable (h : Handle) : Bool :=
  (getOpApiFuncAddr libs h.kind.destroyName).isSome

/-- What a command leaves behind. -/
def Command.leaves (c : ℕ) (cmd : Command) (reply : Reply) : List Handle :=
  if cmd.found libs = true then
    if cmd.completes libs reply = true then
      (made libs reply c 0 cmd.params).filter fun h => !h.destroyable libs
    else made libs reply c 0 cmd.params
  else []

/-- What commands leave behind, from the `c`-th on. -/
def leaves (c : ℕ) : List (Command × Reply) → List Handle
  | [] => []
  | p :: ps => p.1.leaves libs c p.2 ++ leaves (c + 1) ps

/-- Releasing converted parameters destroys their objects, as far as there are
    functions to do so. -/
theorem release_spec (args : List Arg) :
    ledger (args.flatMap (release libs)) =
      ((objects args).filter fun h => h.destroyable libs).map LedgerEntry.destroy := by
  induction args with
  | nil => rfl
  | cons a args ih =>
      rw [List.flatMap_cons, ledger_append, ih]
      cases a with
      | object h =>
          change ledger (release libs (.object h)) ++ _ =
            ((h :: objects args).filter fun h => h.destroyable libs).map LedgerEntry.destroy
          rw [List.filter_cons, release]
          by_cases hd : h.destroyable libs = true
          · rw [if_pos hd, if_pos (show (getOpApiFuncAddr libs _).isSome = true from hd)]
            rfl
          · rw [if_neg hd, if_neg (show ¬ (getOpApiFuncAddr libs _).isSome = true from hd)]
            rfl
      | null kind =>
          rw [release]
          split
          · rfl
          · rfl
      | value => rfl

/-- An event, if its function is found. -/
def called (apiName : String) (e : NpuEvent) : List NpuEvent :=
  if (getOpApiFuncAddr libs apiName).isSome = true then [e] else []

theorem callIfFound_events (apiName : String) (e : NpuEvent) :
    (callIfFound libs apiName e).events = called libs apiName e := by
  unfold callIfFound called
  split
  · rfl
  · rfl

theorem callIfFound_isOk (apiName : String) (e : NpuEvent) :
    (callIfFound libs apiName e).result.isOk = true := by
  unfold callIfFound
  split
  · rfl
  · rfl

theorem callIfFound_bind {β : Type} (apiName : String) (e : NpuEvent) (f : Unit → NpuRun β) :
    (callIfFound libs apiName e >>= f) =
      { events := called libs apiName e ++ (f ()).events, result := (f ()).result } := by
  unfold callIfFound called
  split
  · rfl
  · rfl

theorem called_ledger (apiName : String) (e : NpuEvent) (he : e.entry = none) :
    ledger (called libs apiName e) = [] := by
  unfold called
  split
  · exact List.filterMap_cons_none he
  · rfl

/-- A call on the memory pool of the thread. -/
def NpuEvent.isHugeMem : NpuEvent → Bool
  | initHugeMemThreadLocal => true
  | releaseHugeMem => true
  | unInitHugeMemThreadLocal => true
  | _ => false

theorem allocWorkspace_spec (reply : Reply) :
    (ledger (allocWorkspace reply).events = [] ∧
        ∀ e ∈ (allocWorkspace reply).events, e.isHugeMem = false) ∧
      ((reply.workspaceSize == 0 || reply.workspaceError.isNone) = true →
        (allocWorkspace reply).result = .ok ()) ∧
      ((reply.workspaceSize == 0 || reply.workspaceError.isNone) = false →
        ∃ e, (allocWorkspace reply).result = .error e) := by
  have hnone : ledger [] = [] ∧ ∀ e ∈ ([] : List NpuEvent), e.isHugeMem = false :=
    ⟨rfl, fun e he => absurd he List.not_mem_nil⟩
  unfold allocWorkspace
  by_cases hsize : reply.workspaceSize = 0
  · rw [if_pos hsize, hsize]
    exact ⟨hnone, fun _ => rfl, fun h => absurd h Bool.noConfusion⟩
  · rw [if_neg hsize, beq_false_of_ne hsize, Bool.false_or]
    cases reply.workspaceError with
    | none =>
        refine ⟨⟨rfl, ?_⟩, fun _ => rfl, fun h => absurd h Bool.noConfusion⟩
        intro e he
        rcases List.mem_cons.mp he with rfl | he
        · rfl
        · rw [List.mem_singleton.mp he]
          rfl
    | some msg => exact ⟨hnone, fun h => absurd h Bool.noConfusion, fun _ => ⟨_, rfl⟩⟩

/-- What a command does once its parameters are converted. Up to the answer of
    the operator it only has their objects in use; after that, if nobody has
    reported a failure, it releases everything. -/
theorem execConverted_events (cmd : Command) (reply : Reply) (args : List Arg) :
    ∃ early uses, ledger early = List.replicate uses (LedgerEntry.use (objects args)) ∧
      (∀ e ∈ early, e.isHugeMem = false) ∧
      (execConverted libs cmd reply args).events = early ++
        if reply.succeeds = true then
          args.flatMap (release libs) ++ (called libs "ReleaseHugeMem" .releaseHugeMem ++
            called libs "UnInitHugeMemThreadLocal" .unInitHugeMemThreadLocal)
        else [] := by
  rcases allocWorkspace_spec reply with ⟨⟨hledger, hpool⟩, hok, herror⟩
  have hsized : ∀ e ∈ .getWorkspaceSize args :: (allocWorkspace reply).events,
      e.isHugeMem = false := by
    intro e he
    rcases List.mem_cons.mp he with rfl | he
    · rfl
    · exact hpool e he
  unfold execConverted Reply.succeeds
  rw [NpuRun.emit_bind, NpuRun.torchCheck_bind]
  cases hstatus : reply.workspaceStatus == 0 with
  | false =>
      -- The library refuses the parameters.
      refine ⟨[.getWorkspaceSize args], 1, rfl, fun e he => ?_, rfl⟩
      rw [List.mem_singleton.mp he]
      rfl
  | true =>
      rw [if_pos rfl]
      cases hworkspace : reply.workspaceSize == 0 || reply.workspaceError.isNone with
      | false =>
          -- There is no memory for the workspace.
          rcases herror hworkspace with ⟨e, he⟩
          refine ⟨.getWorkspaceSize args :: (allocWorkspace reply).events, 1, ?_, hsized, ?_⟩
          · exact congrArg (LedgerEntry.use (objects args) :: ·) hledger
          · dsimp only
            rw [(NpuRun.bind_of_error he _).1]
            exact (List.append_nil _).symm
      | true =>
          -- The operator runs, and has the last word.
          refine ⟨.getWorkspaceSize args :: (allocWorkspace reply).events ++
            [.opApi args reply.workspaceSize], 2, ?_, fun e he => ?_, ?_⟩
          · rw [ledger_append]
            exact congrArg (LedgerEntry.use (objects args) :: · ++ _) hledger
          · rcases List.mem_append.mp he with he | he
            · exact hsized e he
            · rw [List.mem_singleton.mp he]
              rfl
          · dsimp only
            rw [(NpuRun.bind_of_ok (hok hworkspace) _).1, NpuRun.emit_bind,
              NpuRun.torchCheck_bind]
            cases hret : reply.apiRet == 0 with
            | false => exact (List.append_nil _).symm
            | true =>
                rw [if_pos rfl, NpuRun.emit_bind, callIfFound_bind, callIfFound_events]
                exact congrArg (NpuEvent.getWorkspaceSize args :: ·)
                  (List.append_assoc _ [_] _).symm

/-- What is done with converted parameters goes through when nobody reports a
    failure. -/
theorem execConverted_isOk (cmd : Command) (reply : Reply) (args : List Arg) :
    (execConverted libs cmd reply args).result.isOk = reply.succeeds := by
  rcases allocWorkspace_spec reply with ⟨-, hok, herror⟩
  unfold execConverted Reply.succeeds
  rw [NpuRun.emit_bind, NpuRun.torchCheck_bind]
  cases reply.workspaceStatus == 0 with
  | false => rfl
  | true =>
      rw [if_pos rfl]
      dsimp only
      cases hworkspace : reply.workspaceSize == 0 || reply.workspaceError.isNone with
      | false =>
          rcases herror hworkspace with ⟨e, he⟩
          rw [(NpuRun.bind_of_error he _).2]
          rfl
      | true =>
          rw [(NpuRun.bind_of_ok (hok hworkspace) _).2, NpuRun.emit_bind, NpuRun.torchCheck_bind]
          cases reply.apiRet == 0 with
          | false => rfl
          | true =>
              rw [if_pos rfl, NpuRun.emit_bind, callIfFound_bind]
              exact callIfFound_isOk libs _ _

/-- What a command does: nothing, when its functions are not found. Otherwise it
    sets the pool up and converts the parameters, and goes on if it could. -/
theorem execNpuCmd_events (c : ℕ) (cmd : Command) (reply : Reply) :
    (cmd.found libs = false → (execNpuCmd libs c cmd reply).events = []) ∧
    (cmd.found libs = true → (execNpuCmd libs c cmd reply).events =
      called libs "InitHugeMemThreadLocal" .initHugeMemThreadLocal ++
        (convertTypes libs reply c 0 cmd.params >>= execConverted libs cmd reply).events) := by
  unfold execNpuCmd
  rw [NpuRun.torchCheck_bind, callIfFound_bind]
  exact ⟨fun hfound => by rw [hfound]; rfl, fun hfound => by rw [if_pos hfound]⟩

/-- A command whose functions are not found does nothing. Otherwise it makes its
    objects and has them in use, and if it completes it destroys them. -/
theorem execNpuCmd_ledger (c : ℕ) (cmd : Command) (reply : Reply) :
    (cmd.found libs = false → ledger (execNpuCmd libs c cmd reply).events = []) ∧
    (cmd.found libs = true → ∃ uses,
      ledger (execNpuCmd libs c cmd reply).events =
        (made libs reply c 0 cmd.params).map LedgerEntry.make ++
          (List.replicate uses (LedgerEntry.use (made libs reply c 0 cmd.params)) ++
          (if cmd.completes libs reply = true then
            ((made libs reply c 0 cmd.params).filter fun h => h.destroyable libs).map
              LedgerEntry.destroy
          else []))) := by
  rcases execNpuCmd_events libs c cmd reply with ⟨hnone, hsome⟩
  refine ⟨fun hfound => by rw [hnone hfound]; rfl, fun hfound => ?_⟩
  unfold Command.completes
  rw [hsome hfound, hfound, Bool.true_and, ledger_append, called_ledger libs _ _ rfl,
    List.nil_append]
  rcases convertTypes_spec libs reply c 0 cmd.params with ⟨hledger, hok, herror⟩
  cases hall : cmd.params.all (Param.supported libs) with
  | false =>
      rcases herror hall with ⟨e, he⟩
      refine ⟨0, ?_⟩
      rw [(NpuRun.bind_of_error he _).1, hledger]
      exact (List.append_nil _).symm
  | true =>
      rcases hok hall with ⟨args, hargs, hobjs⟩
      -- Everything is converted, and the library has the objects in use.
      rcases execConverted_events libs cmd reply args with ⟨early, uses, huses, -, hevents⟩
      refine ⟨uses, ?_⟩
      rw [(NpuRun.bind_of_ok hargs _).1, hevents, ledger_append, ledger_append, hledger, huses,
        hobjs, Bool.true_and]
      cases reply.succeeds with
      | false => rfl
      | true =>
          rw [if_pos rfl, if_pos rfl, ledger_append, ledger_append, release_spec, hobjs,
            called_ledger libs _ _ rfl, called_ledger libs _ _ rfl, List.append_nil,
            List.append_nil]

/-- The audit of one command, with the objects of earlier ones out of its
    way. -/
theorem execNpuCmd_audit (c : ℕ) (cmd : Command) (reply : Reply) (live : Finset Handle)
    (hlive : ∀ h ∈ live, h.command < c) :
    audit live (ledger (execNpuCmd libs c cmd reply).events) =
      some (live ∪ (cmd.leaves libs c reply).toFinset) := by
  rcases execNpuCmd_ledger libs c cmd reply with ⟨hnone, hsome⟩
  unfold Command.leaves
  cases hfound : cmd.found libs with
  | false =>
      rw [hnone hfound, if_neg Bool.false_ne_true, List.toFinset_nil, Finset.union_empty]
      rfl
  | true =>
      rcases hsome hfound with ⟨uses, hledger⟩
      rcases made_index libs reply c 0 cmd.params with ⟨hcommand, hnodup⟩
      -- The objects of earlier commands have other names.
      have hfresh : ∀ h ∈ made libs reply c 0 cmd.params, h ∉ live := by
        intro h hmem hin
        have hlt := hlive h hin
        rw [(hcommand h hmem).1] at hlt
        exact Nat.lt_irrefl c hlt
      have hthere : ∀ h ∈ made libs reply c 0 cmd.params,
          h ∈ live ∪ (made libs reply c 0 cmd.params).toFinset := fun h hmem =>
        Finset.mem_union_right _ (List.mem_toFinset.mpr hmem)
      rw [hledger, audit_append, audit_makes live _ hnodup hfresh, Option.bind_some, audit_append,
        audit_uses _ _ uses hthere, Option.bind_some, if_pos rfl]
      by_cases hcompletes : cmd.completes libs reply = true
      · rw [if_pos hcompletes, if_pos hcompletes, audit_destroys _ _ (hnodup.filter _)
          (fun h hmem => hthere h (List.mem_of_mem_filter hmem))]
        refine congrArg some (Finset.ext fun h => ?_)
        simp only [Finset.mem_sdiff, Finset.mem_union, List.mem_toFinset, List.mem_filter,
          Bool.not_eq_true']
        constructor
        · rintro ⟨hlive | hmade, hkept⟩
          · exact Or.inl hlive
          · refine Or.inr ⟨hmade, ?_⟩
            by_contra hdestroyable
            exact hkept ⟨hmade, Bool.eq_true_of_not_eq_false hdestroyable⟩
        · rintro (hlive | ⟨hmade, hkept⟩)
          · exact ⟨Or.inl hlive, fun hand => hfresh h hand.1 hlive⟩
          · exact ⟨Or.inr hmade, fun hand => Bool.false_ne_true (hkept.symm.trans hand.2)⟩
      · rw [if_neg hcompletes, if_neg hcompletes]
        rfl

/-- What a command leaves behind was made for it. -/
theorem Command.leaves_command (c : ℕ) (cmd : Command) (reply : Reply) (h : Handle)
    (hmem : h ∈ cmd.leaves libs c reply) : h.command = c := by
  have hmade : h ∈ made libs reply c 0 cmd.params := by
    unfold Command.leaves at hmem
    split at hmem
    · split at hmem
      · exact List.mem_of_mem_filter hmem
      · exact hmem
    · exact absurd hmem List.not_mem_nil
  exact ((made_index libs reply c 0 cmd.params).1 h hmade).1

/-- The audit of commands, by induction over them. -/
theorem execNpuCmds_audit (c : ℕ) (cmds : List (Command × Reply)) (live : Finset Handle)
    (hlive : ∀ h ∈ live, h.command < c) :
    audit live (ledger (execNpuCmds libs c cmds)) =
      some (live ∪ (leaves libs c cmds).toFinset) := by
  induction cmds generalizing c live with
  | nil =>
      rw [leaves, List.toFinset_nil, Finset.union_empty]
      rfl
  | cons p ps ih =>
      have hlive' : ∀ h ∈ live ∪ (p.1.leaves libs c p.2).toFinset, h.command < c + 1 := by
        intro h hmem
        rcases Finset.mem_union.mp hmem with hin | hin
        · exact Nat.lt_succ_of_lt (hlive h hin)
        · have hown := p.1.leaves_command libs c p.2 h (List.mem_toFinset.mp hin)
          omega
      rw [execNpuCmds, ledger_append, audit_append, execNpuCmd_audit libs c p.1 p.2 live hlive,
        Option.bind_some, ih (c + 1) _ hlive', leaves, List.toFinset_append, Finset.union_assoc]

end Commands

/-- Events that are in order have been so all along. -/
theorem audit_prefix {es all : List NpuEvent} {live : Finset Handle} (hpre : es <+: all)
    (h : audit ∅ (ledger all) = some live) : (audit ∅ (ledger es)).isSome = true := by
  rcases hpre with ⟨es', rfl⟩
  rw [ledger_append] at h
  exact audit_of_append (Option.isSome_of_mem h)

/-- Whatever commands are given, whatever the libraries have, and whatever they
    answer: at every point no object is made twice, used when it is not there or
    destroyed twice, and at the end those are left that a command made before it
    failed, or that there is no function to destroy. -/
theorem commands_in_order (libs : Libraries) (cmds : List (Command × Reply)) :
    (∀ es, es <+: execNpuCmds libs 0 cmds → (audit ∅ (ledger es)).isSome = true) ∧
      audit ∅ (ledger (execNpuCmds libs 0 cmds)) = some (leaves libs 0 cmds).toFinset := by
  have haudit := execNpuCmds_audit libs 0 cmds ∅ (fun h hmem => absurd hmem (Finset.notMem_empty h))
  rw [Finset.empty_union] at haudit
  exact ⟨fun es hpre => audit_prefix hpre haudit, haudit⟩

section HugeMem

variable (libs : Libraries)

/-- Converting parameters leaves the pool alone. -/
theorem convertTypes_not_hugeMem (reply : Reply) (c i : ℕ) (ps : List Param) :
    ∀ e ∈ (convertTypes libs reply c i ps).events, e.isHugeMem = false := by
  intro e he
  rcases convertTypes_mem libs reply c i ps e he with ⟨n, p, kind, source, -, rfl, -⟩
  rfl

/-- The calls on the pool. -/
def hugeMem (es : List NpuEvent) : List NpuEvent := es.filter NpuEvent.isHugeMem

theorem hugeMem_append (es es' : List NpuEvent) :
    hugeMem (es ++ es') = hugeMem es ++ hugeMem es' := List.filter_append es es'

theorem hugeMem_eq_nil {es : List NpuEvent} (h : ∀ e ∈ es, e.isHugeMem = false) :
    hugeMem es = [] :=
  List.filter_eq_nil_iff.mpr fun e he => Bool.eq_false_iff.mp (h e he)

theorem hugeMem_called (apiName : String) (e : NpuEvent) (he : e.isHugeMem = true) :
    hugeMem (called libs apiName e) = called libs apiName e := by
  unfold called
  split
  · exact List.filter_cons_of_pos he
  · rfl

/-- What a command does to the pool: it sets it up, and releases and takes it
    down if it completes. Each is done if its function is found. -/
def Command.hugeMem (cmd : Command) (reply : Reply) : List NpuEvent :=
  if cmd.found libs = true then
    called libs "InitHugeMemThreadLocal" .initHugeMemThreadLocal ++
      if cmd.completes libs reply = true then
        called libs "ReleaseHugeMem" .releaseHugeMem ++
          called libs "UnInitHugeMemThreadLocal" .unInitHugeMemThreadLocal
      else []
  else []

theorem release_not_hugeMem (args : List Arg) :
    ∀ e ∈ args.flatMap (release libs), e.isHugeMem = false := by
  intro e he
  rcases List.mem_flatMap.mp he with ⟨a, -, ha⟩
  cases a with
  | object h =>
      rw [release] at ha
      split at ha
      · rw [List.mem_singleton.mp ha]
        rfl
      · exact absurd ha List.not_mem_nil
  | null kind =>
      rw [release] at ha
      split at ha
      · rw [List.mem_singleton.mp ha]
        rfl
      · exact absurd ha List.not_mem_nil
  | value => exact absurd ha List.not_mem_nil

/-- The events of a command that uses the pool as it should: it is set up before
    anything else happens, and when the command completes it is released and
    then taken down, after everything else has happened. -/
def Command.Pooled (cmd : Command) (reply : Reply) (es : List NpuEvent) : Prop :=
  if cmd.found libs = true then
    ∃ work, (∀ e ∈ work, e.isHugeMem = false) ∧
      es = called libs "InitHugeMemThreadLocal" .initHugeMemThreadLocal ++ (work ++
        if cmd.completes libs reply = true then
          called libs "ReleaseHugeMem" .releaseHugeMem ++
            called libs "UnInitHugeMemThreadLocal" .unInitHugeMemThreadLocal
        else [])
  else es = []

theorem execNpuCmd_pooled (c : ℕ) (cmd : Command) (reply : Reply) :
    cmd.Pooled libs reply (execNpuCmd libs c cmd reply).events := by
  rcases execNpuCmd_events libs c cmd reply with ⟨hnone, hsome⟩
  unfold Command.Pooled Command.completes
  cases hfound : cmd.found libs with
  | false => exact hnone hfound
  | true =>
      rw [if_pos rfl, Bool.true_and, hsome hfound]
      have hconvert := convertTypes_not_hugeMem libs reply c 0 cmd.params
      rcases convertTypes_spec libs reply c 0 cmd.params with ⟨-, hok, herror⟩
      cases hall : cmd.params.all (Param.supported libs) with
      | false =>
          -- The conversions are all there is.
          rcases herror hall with ⟨e, he⟩
          refine ⟨(convertTypes libs reply c 0 cmd.params).events, hconvert, ?_⟩
          rw [(NpuRun.bind_of_error he _).1, Bool.false_and, if_neg Bool.false_ne_true,
            List.append_nil]
      | true =>
          rcases hok hall with ⟨args, hargs, -⟩
          rcases execConverted_events libs cmd reply args with ⟨early, -, -, hpool, hevents⟩
          rw [(NpuRun.bind_of_ok hargs _).1, hevents, Bool.true_and]
          cases reply.succeeds with
          | false =>
              refine ⟨(convertTypes libs reply c 0 cmd.params).events ++ early, fun e he => ?_, ?_⟩
              · exact (List.mem_append.mp he).elim (hconvert e) (hpool e)
              · rw [if_neg Bool.false_ne_true, if_neg Bool.false_ne_true, List.append_nil,
                  List.append_nil]
          | true =>
              -- The objects are destroyed before the pool is.
              refine ⟨(convertTypes libs reply c 0 cmd.params).events ++
                (early ++ args.flatMap (release libs)), fun e he => ?_, ?_⟩
              · rcases List.mem_append.mp he with he | he
                · exact hconvert e he
                · exact (List.mem_append.mp he).elim (hpool e) (release_not_hugeMem libs args e)
              · rw [if_pos rfl, if_pos rfl]
                simp only [List.append_assoc]

/-- Of the events of such a command, its calls on the pool. -/
theorem Command.Pooled.hugeMem {cmd : Command} {reply : Reply} {es : List NpuEvent}
    (h : cmd.Pooled libs reply es) : AscendKernel.hugeMem es = cmd.hugeMem libs reply := by
  unfold Command.Pooled at h
  unfold Command.hugeMem
  split at h
  · rename_i hfound
    rcases h with ⟨work, hwork, rfl⟩
    rw [if_pos hfound, hugeMem_append, hugeMem_append, hugeMem_called libs _ _ rfl,
      hugeMem_eq_nil hwork, List.nil_append]
    split
    · rw [hugeMem_append, hugeMem_called libs _ _ rfl, hugeMem_called libs _ _ rfl]
    · rfl
  · rename_i hfound
    rw [if_neg hfound, h]
    rfl

/-- A command returns exactly when it completes. -/
theorem execNpuCmd_isOk (c : ℕ) (cmd : Command) (reply : Reply) :
    (execNpuCmd libs c cmd reply).result.isOk = cmd.completes libs reply := by
  unfold execNpuCmd Command.completes
  rw [NpuRun.torchCheck_bind, callIfFound_bind]
  cases cmd.found libs with
  | false => rfl
  | true =>
      rw [if_pos rfl, Bool.true_and]
      dsimp only
      rcases convertTypes_spec libs reply c 0 cmd.params with ⟨-, hok, herror⟩
      cases hall : cmd.params.all (Param.supported libs) with
      | false =>
          rcases herror hall with ⟨e, he⟩
          rw [(NpuRun.bind_of_error he _).2]
          rfl
      | true =>
          rcases hok hall with ⟨args, hargs, -⟩
          rw [(NpuRun.bind_of_ok hargs _).2, Bool.true_and]
          exact execConverted_isOk libs cmd reply args

end HugeMem

/-- Commands one after the other, and what they do to the pool. Every command
    whose functions are found sets it up before it converts anything. Those that
    return, and no others, release it and take it down, once their objects are
    destroyed: a command that fails later leaves it set up. `OpCommand::Run` is
    taken to run its handler before it returns. -/
theorem commands_hugeMem (libs : Libraries) (c : ℕ) (cmds : List (Command × Reply)) :
    (∃ runs, execNpuCmds libs c cmds = runs.flatten ∧
      List.Forall₂ (fun p es => p.1.Pooled libs p.2 es) cmds runs) ∧
    (∀ i, ∀ p ∈ cmds, (execNpuCmd libs i p.1 p.2).result.isOk = p.1.completes libs p.2) ∧
    hugeMem (execNpuCmds libs c cmds) = cmds.flatMap fun p => p.1.hugeMem libs p.2 := by
  refine ⟨?_, fun i p _ => execNpuCmd_isOk libs i p.1 p.2, ?_⟩
  · induction cmds generalizing c with
    | nil => exact ⟨[], rfl, List.Forall₂.nil⟩
    | cons p ps ih =>
        rcases ih (c + 1) with ⟨runs, hruns, hall⟩
        refine ⟨(execNpuCmd libs c p.1 p.2).events :: runs, ?_,
          List.Forall₂.cons (execNpuCmd_pooled libs c p.1 p.2) hall⟩
        rw [execNpuCmds, hruns, List.flatten_cons]
  · induction cmds generalizing c with
    | nil => rfl
    | cons p ps ih =>
        rw [execNpuCmds, hugeMem_append, (execNpuCmd_pooled libs c p.1 p.2).hugeMem, ih,
          List.flatMap_cons]

section Created

variable (libs : Libraries)

/-- An object that is made is in the ledger. -/
theorem make_mem_ledger {h : Handle} {source : AclSource} {es : List NpuEvent}
    (he : .create h source ∈ es) : LedgerEntry.make h ∈ ledger es :=
  List.mem_filterMap.mpr ⟨_, he, rfl⟩

/-- Nothing is made once the parameters are converted. -/
theorem execConverted_not_create (cmd : Command) (reply : Reply) (args : List Arg) (h : Handle)
    (source : AclSource) : .create h source ∉ (execConverted libs cmd reply args).events := by
  intro he
  rcases execConverted_events libs cmd reply args with ⟨early, uses, huses, -, hevents⟩
  have hmake := make_mem_ledger he
  rw [hevents, ledger_append, huses] at hmake
  rcases List.mem_append.mp hmake with hmem | hmem
  · -- Objects are only used up to the answer of the operator.
    exact absurd (List.eq_of_mem_replicate hmem) (by simp only [reduceCtorEq, not_false_eq_true])
  · split at hmem
    · rw [ledger_append, ledger_append, release_spec, called_ledger libs _ _ rfl,
        called_ledger libs _ _ rfl, List.append_nil, List.append_nil] at hmem
      -- After that they are only destroyed.
      rcases List.mem_map.mp hmem with ⟨g, -, hg⟩
      exact absurd hg (by simp only [reduceCtorEq, not_false_eq_true])
    · exact absurd hmem List.not_mem_nil

/-- The objects of a command are made of its parameters. -/
theorem execNpuCmd_creates (c : ℕ) (cmd : Command) (reply : Reply) (h : Handle)
    (source : AclSource) (he : .create h source ∈ (execNpuCmd libs c cmd reply).events) :
    h.command = c ∧ ∃ p, cmd.params[h.index]? = some p ∧ p.Makes h.kind source := by
  rcases execNpuCmd_events libs c cmd reply with ⟨hnone, hsome⟩
  cases hfound : cmd.found libs with
  | false =>
      rw [hnone hfound] at he
      exact absurd he List.not_mem_nil
  | true =>
      rw [hsome hfound] at he
      rcases List.mem_append.mp he with hpool | hrun
      · -- Setting the pool up makes nothing.
        have hmake := make_mem_ledger hpool
        rw [called_ledger libs _ _ rfl] at hmake
        exact absurd hmake List.not_mem_nil
      · rcases NpuRun.mem_bind _ _ _ hrun with hconvert | ⟨args, -, hlater⟩
        · rcases convertTypes_mem libs reply c 0 cmd.params _ hconvert with
            ⟨n, p, kind, source', hp, heq, hmakes⟩
          rw [NpuEvent.create.injEq, Nat.zero_add] at heq
          rcases heq with ⟨rfl, rfl⟩
          exact ⟨rfl, p, hp, hmakes⟩
        · exact absurd hlater (execConverted_not_create libs cmd reply args h source)

end Created

end AscendKernel
