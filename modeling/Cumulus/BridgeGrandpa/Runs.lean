import Cumulus.BridgeGrandpa.Imports

/-!
# The GRANDPA light client over runs: authority sets, free headers, state roots

* `dispatch_currentAuthoritySet`, `currentAuthoritySet_runSteps` — after the initialization the
  authority set is the one the last imported scheduled change announced, and the set id has moved
  on once per imported change, modulo `2 ^ 64`;
* `dispatch_freeMandatoryHeadersRemaining`, `freeMandatoryHeaders_runSteps` — a free call is a
  submission that enacted a change and fits the estimates, and takes one of the block's free
  headers: the free calls of a run are at most the free headers left plus
  `MaxFreeMandatoryHeadersPerBlock` for each `on_initialize`;
* `finalizedHeaderStateRoot_runSteps` — the state roots the pallet gives to other pallets are
  exactly those of the last `HeadersToKeep` imported headers.
-/

namespace Cumulus.BridgeGrandpa

open Cumulus.Found
open Cumulus.HeaderChain (GrandpaJustification)

variable {H A S Acc : Type} {M : Nat}

section runs

variable (cfg : GrandpaConfig H A S) [DecidableEq H] [DecidableEq A] [DecidableEq Acc]

/-- Whether a call is the hook that opens a block. -/
def GrandpaCall.isOnInitialize : GrandpaCall H A S Acc → Bool
  | .onInitialize => true
  | _ => false

/-- Whether the relayer paid, for each successful call of a run. -/
def paysLog : GrandpaStorage H A Acc M → List (GrandpaCall H A S Acc) → List Pays
  | _, [] => []
  | s, call :: calls =>
    match dispatch cfg s call with
    | some (.ok (s', pays)) => pays :: paysLog s' calls
    | some (.error _) => paysLog s calls
    | none => []

variable {cfg} {s s' : GrandpaStorage H A Acc M}

/-- A run goes through each call's dispatch: a failed call is rolled back, a panic ends it. -/
theorem runSteps_grandpaStep_cons {call : GrandpaCall H A S Acc} {calls}
    (hrun : runSteps (grandpaStep cfg) s (call :: calls) = some s') :
    (∃ e, dispatch cfg s call = some (.error e) ∧ runSteps (grandpaStep cfg) s calls = some s') ∨
      ∃ s₁ pays, dispatch cfg s call = some (.ok (s₁, pays)) ∧
        runSteps (grandpaStep cfg) s₁ calls = some s' := by
  rw [runSteps_cons] at hrun
  obtain ⟨s₁, hstep, hrest⟩ := Option.bind_eq_some_iff.mp hrun
  unfold grandpaStep at hstep
  obtain ⟨result, hdispatch, hresult⟩ := Option.map_eq_some_iff.mp hstep
  cases result with
  | error e =>
    cases hresult
    exact .inl ⟨e, hdispatch, hrest⟩
  | ok result =>
    obtain ⟨s₂, pays⟩ := result
    cases hresult
    exact .inr ⟨s₂, pays, hdispatch, hrest⟩

/-! ## The authority set -/

/-- **What a call does to the authority set after the initialization**: the pallet stays
initialized; a scheduled change in the header the call imports becomes the set, with the next set
id; otherwise the set stays. -/
theorem dispatch_currentAuthoritySet (hinit : s.bestFinalized.isSome = true)
    {call : GrandpaCall H A S Acc} {pays : Pays}
    (h : dispatch cfg s call = some (.ok (s', pays))) :
    s'.bestFinalized.isSome = true ∧
      (∀ change, (call.importedHeader?.bind fun header => findScheduledChange header.digest) =
        some change → s'.currentAuthoritySet.authorities = change.nextAuthorities ∧
          s'.currentAuthoritySet.setId = s.currentAuthoritySet.setId + 1) ∧
      ((call.importedHeader?.bind fun header => findScheduledChange header.digest) = none →
        s'.currentAuthoritySet = s.currentAuthoritySet) := by
  by_cases hsubmit : ∃ origin header justification,
      call = .submitFinalityProof origin header justification
  · obtain ⟨origin, header, justification, rfl⟩ := hsubmit
    obtain ⟨-, hbest, -, -, hchange, hnochange⟩ := dispatch_submitFinalityProof_eq_ok h
    refine ⟨by rw [hbest]; rfl, fun change hc => ?_, hnochange⟩
    obtain ⟨-, hauthorities, hsetId⟩ := hchange change hc
    exact ⟨hauthorities, hsetId⟩
  · simp only [not_exists] at hsubmit
    obtain ⟨hbest, hset⟩ := dispatch_eq_ok_of_not_submit hinit hsubmit h
    -- only a submission can succeed with a header to import after the initialization
    have hnone : call.importedHeader? = none ∨ ∃ origin initData, call = .init origin initData := by
      cases call with
      | submitFinalityProof origin header justification =>
        exact absurd rfl (hsubmit origin header justification)
      | init origin initData => exact .inr ⟨origin, initData, rfl⟩
      | setOwner => exact .inl rfl
      | setOperatingMode => exact .inl rfl
      | onInitialize => exact .inl rfl
      | onFinalize => exact .inl rfl
    rcases hnone with hnone | ⟨origin, initData, rfl⟩
    · refine ⟨hbest ▸ hinit, fun change hc => ?_, fun _ => hset⟩
      rw [hnone] at hc
      cases hc
    · -- a second initialization is refused, so it cannot have succeeded
      obtain ⟨result, hresult, hok⟩ := Option.map_eq_some_iff.mp h
      obtain ⟨hfresh, -⟩ :=
        palletInitialize_eq_ok cfg (hresult.trans (congrArg some (eq_ok_of_map_pays hok)))
      rw [hfresh] at hinit
      cases hinit

/-- The last element of a cons, mapped with a default, is that of the tail with the head's image as
default. -/
theorem getLast?_cons_map_getD {α β : Type} (f : α → β) (a : α) (l : List α) (b : β) :
    ((a :: l).getLast?.map f).getD b = (l.getLast?.map f).getD (f a) := by
  rw [List.getLast?_cons]
  cases l.getLast? with
  | none => rfl
  | some x => rfl

/-- **The authority set over a run after the initialization.** With `changes` the scheduled
changes of the imported headers, in order: the authority set is that of the last one, or the set
the run started with when there is none, and the set id has advanced once per change, wrapping
modulo `2 ^ 64` as `current_set_id + 1` does in the runtime's release build. -/
theorem currentAuthoritySet_runSteps (hinit : s.bestFinalized.isSome = true)
    {calls : List (GrandpaCall H A S Acc)} (hrun : runSteps (grandpaStep cfg) s calls = some s') :
    let changes := (importLog cfg s calls).filterMap fun header => findScheduledChange header.digest
    s'.currentAuthoritySet.setId.toNat =
        (s.currentAuthoritySet.setId.toNat + changes.length) % 2 ^ 64 ∧
      s'.currentAuthoritySet.authorities =
        (changes.getLast?.map ScheduledChange.nextAuthorities).getD
          s.currentAuthoritySet.authorities := by
  intro changes
  -- the induction is on the calls, from the state each call starts in
  induction calls generalizing s with
  | nil =>
    cases hrun
    simp [changes, importLog, Nat.mod_eq_of_lt (BitVec.isLt _)]
  | cons call calls ih =>
    rcases runSteps_grandpaStep_cons hrun with ⟨e, hdispatch, hrest⟩ | ⟨s₁, pays, hdispatch, hrest⟩
    · have hlog : importLog cfg s (call :: calls) = importLog cfg s calls := by
        simp only [importLog, hdispatch]
      simp only [changes, hlog]
      exact ih hinit hrest
    · obtain ⟨hinit₁, hchange, hnochange⟩ := dispatch_currentAuthoritySet hinit hdispatch
      have hlog : importLog cfg s (call :: calls) =
          call.importedHeader?.toList ++ importLog cfg s₁ calls := by
        simp only [importLog, hdispatch]
      obtain ⟨hsetId, hauthorities⟩ := ih hinit₁ hrest
      simp only [changes, hlog, List.filterMap_append]
      rcases hc : call.importedHeader?.bind fun header => findScheduledChange header.digest with
        _ | change
      · -- the call enacts nothing
        have hnil : (call.importedHeader?.toList.filterMap
            fun header => findScheduledChange header.digest) = [] := by
          cases himported : call.importedHeader? with
          | none => rfl
          | some header =>
            rw [himported, Option.bind_some] at hc
            simp [hc]
        rw [hnil, List.nil_append, ← hnochange hc]
        exact ⟨hsetId, hauthorities⟩
      · -- the call enacts `change`
        have hsingle : (call.importedHeader?.toList.filterMap
            fun header => findScheduledChange header.digest) = [change] := by
          cases himported : call.importedHeader? with
          | none => rw [himported] at hc; cases hc
          | some header =>
            rw [himported, Option.bind_some] at hc
            simp [hc]
        obtain ⟨hnext, hsucc⟩ := hchange change hc
        rw [hsingle, List.singleton_append, List.length_cons, getLast?_cons_map_getD, ← hnext]
        refine ⟨?_, hauthorities⟩
        have hone : (1 : BitVec 64).toNat = 1 := rfl
        rw [hsetId, hsucc, BitVec.toNat_add, hone, Nat.mod_add_mod, Nat.add_assoc, Nat.add_comm 1]

/-- The storage after the initialization with header `0` and set id `0`. -/
def genesisState : GrandpaStorage Nat Nat Nat 4 :=
  (runSteps (grandpaStep twoHeadersConfig) .empty [genesisInit 0]).getD .empty

/-- Header `1` schedules a change, header `2` none, and header `3` another change. -/
def twoChanges : List (GrandpaCall Nat Nat Bool Nat) :=
  [submitHeader 1 [.grandpa (.scheduledChange ⟨[(0, 1)], 0⟩)], .onInitialize, submitHeader 2 [],
    submitHeader 3 [.grandpa (.scheduledChange ⟨[(1, 1)], 0⟩)]]

/-- Two imported headers that each schedule a change leave the set of the last change, with id two.
-/
theorem currentAuthoritySet_runSteps_twoChanges :
    genesisState.bestFinalized.isSome = true ∧
    ∃ s, runSteps (grandpaStep twoHeadersConfig) genesisState twoChanges = some s ∧
      s.currentAuthoritySet.setId = 2 ∧ s.currentAuthoritySet.authorities = [(1, 1)] ∧
      let changes := (importLog twoHeadersConfig genesisState twoChanges).filterMap
        fun header => findScheduledChange header.digest
      s.currentAuthoritySet.setId.toNat =
          (genesisState.currentAuthoritySet.setId.toNat + changes.length) % 2 ^ 64 ∧
        s.currentAuthoritySet.authorities =
          (changes.getLast?.map ScheduledChange.nextAuthorities).getD
            genesisState.currentAuthoritySet.authorities := by
  have hinit : genesisState.bestFinalized.isSome = true := rfl
  have hrun : runSteps (grandpaStep twoHeadersConfig) genesisState twoChanges = some _ := rfl
  exact ⟨hinit, _, hrun, rfl, rfl, currentAuthoritySet_runSteps hinit hrun⟩

/-! ## Free mandatory headers -/

omit [DecidableEq H] [DecidableEq A] [DecidableEq Acc] in
/-- A call that is not a submission is paid for. -/
theorem pays_eq_yes_of_map {ε α : Type} {x : Except ε α} {a : α} {pays : Pays}
    (h : x.map (·, Pays.yes) = .ok (a, pays)) : pays = .yes := by
  cases x with
  | error e => cases h
  | ok a' =>
    cases h
    rfl

/-- **What a call does to the block's free headers**: `on_initialize` refills them and is paid;
any other call keeps or lowers their number, and a free call is a submission whose header
schedules a change and fits the estimates, and takes one free header. -/
theorem dispatch_freeMandatoryHeadersRemaining {call : GrandpaCall H A S Acc} {pays : Pays}
    (h : dispatch cfg s call = some (.ok (s', pays))) :
    (call.isOnInitialize = true ∧ pays = .yes ∧
        s'.freeMandatoryHeadersRemaining = cfg.maxFreeMandatoryHeadersPerBlock) ∨
      (call.isOnInitialize = false ∧
        s'.freeMandatoryHeadersRemaining + (if pays = .no then 1 else 0) ≤
          s.freeMandatoryHeadersRemaining ∧
        (pays = .no → ∃ origin header justification,
          call = .submitFinalityProof origin header justification ∧
            (findScheduledChange header.digest).isSome = true ∧
            fitsLimits cfg header justification = true)) := by
  cases call with
  | submitFinalityProof origin header justification =>
    obtain ⟨-, -, -, -, s₁, maybeNewAuthoritySet, henact, hpays, hinsert⟩ :=
      submitFinalityProof_eq_ok cfg h
    obtain ⟨-, rfl⟩ := insertHeader_eq_some cfg hinsert
    obtain ⟨-, hs₁, hsome, -, -⟩ := tryEnactAuthorityChange_eq_ok henact
    -- the enactment writes the authority set only
    have hcounter : s₁.freeMandatoryHeadersRemaining = s.freeMandatoryHeadersRemaining := by
      rw [hs₁]
    refine .inr ⟨rfl, ?_, fun hno => ?_⟩
    · cases pays with
      | no =>
        have hpos := (hpays.mp rfl).2.1
        show s₁.freeMandatoryHeadersRemaining - 1 + 1 ≤ s.freeMandatoryHeadersRemaining
        omega
      | yes =>
        show s₁.freeMandatoryHeadersRemaining + 0 ≤ s.freeMandatoryHeadersRemaining
        omega
    · obtain ⟨hchange, -, hfits⟩ := hpays.mp hno
      exact ⟨origin, header, justification, rfl, hsome ▸ hchange, hfits⟩
  | init origin initData =>
    obtain ⟨result, hinit, hok⟩ := Option.map_eq_some_iff.mp h
    obtain rfl := pays_eq_yes_of_map hok
    obtain ⟨-, -, s₁, -, hinsert, rfl⟩ :=
      palletInitialize_eq_ok cfg (hinit.trans (congrArg some (eq_ok_of_map_pays hok)))
    obtain ⟨-, rfl⟩ := insertHeader_eq_some cfg hinsert
    exact .inr ⟨rfl, Nat.le_refl _, fun h => nomatch h⟩
  | setOwner origin newOwner =>
    have hok := Option.some.inj h
    obtain rfl := pays_eq_yes_of_map hok
    obtain rfl := setOwner_eq_ok (eq_ok_of_map_pays hok)
    exact .inr ⟨rfl, Nat.le_refl _, fun h => nomatch h⟩
  | setOperatingMode origin operatingMode =>
    have hok := Option.some.inj h
    obtain rfl := pays_eq_yes_of_map hok
    obtain rfl := setOperatingMode_eq_ok (eq_ok_of_map_pays hok)
    exact .inr ⟨rfl, Nat.le_refl _, fun h => nomatch h⟩
  | onInitialize =>
    cases h
    exact .inl ⟨rfl, rfl, rfl⟩
  | onFinalize =>
    cases h
    exact .inr ⟨rfl, Nat.zero_le _, fun h => nomatch h⟩

/-- The two bounds of a run on the free headers, by induction on its calls with the bound on the
counter carried along. -/
theorem freeMandatoryHeaders_bound
    (hs : s.freeMandatoryHeadersRemaining ≤ cfg.maxFreeMandatoryHeadersPerBlock)
    {calls : List (GrandpaCall H A S Acc)} (hrun : runSteps (grandpaStep cfg) s calls = some s') :
    s'.freeMandatoryHeadersRemaining ≤ cfg.maxFreeMandatoryHeadersPerBlock ∧
      (paysLog cfg s calls).count .no + s'.freeMandatoryHeadersRemaining ≤
        s.freeMandatoryHeadersRemaining +
          cfg.maxFreeMandatoryHeadersPerBlock * calls.countP GrandpaCall.isOnInitialize := by
  induction calls generalizing s with
  | nil =>
    cases hrun
    exact ⟨hs, by simp [paysLog]⟩
  | cons call calls ih =>
    rcases runSteps_grandpaStep_cons hrun with ⟨e, hdispatch, hrest⟩ | ⟨s₁, pays, hdispatch, hrest⟩
    · -- a failed call is rolled back and not counted
      have hlog : paysLog cfg s (call :: calls) = paysLog cfg s calls := by
        simp only [paysLog, hdispatch]
      have hk : calls.countP GrandpaCall.isOnInitialize ≤
          (call :: calls).countP GrandpaCall.isOnInitialize :=
        List.countP_cons.symm ▸ Nat.le_add_right _ _
      obtain ⟨hmax, hcount⟩ := ih hs hrest
      have := Nat.mul_le_mul_left cfg.maxFreeMandatoryHeadersPerBlock hk
      rw [hlog]
      exact ⟨hmax, by omega⟩
    · have hlog : paysLog cfg s (call :: calls) = pays :: paysLog cfg s₁ calls := by
        simp only [paysLog, hdispatch]
      rw [hlog]
      rcases dispatch_freeMandatoryHeadersRemaining hdispatch with
        ⟨hon, rfl, hmax⟩ | ⟨hon, hle, -⟩
      · -- `on_initialize` refills the free headers, once for this call
        obtain ⟨hmax', hcount⟩ := ih (Nat.le_of_eq hmax) hrest
        rw [List.countP_cons_of_pos hon, List.count_cons_of_ne (by decide), Nat.mul_add,
          Nat.mul_one]
        exact ⟨hmax', by omega⟩
      · rw [List.countP_cons_of_neg (by rw [hon]; decide)]
        cases pays with
        | no =>
          -- a free call takes one free header
          simp only [if_pos] at hle
          obtain ⟨hmax', hcount⟩ := ih (by omega) hrest
          rw [List.count_cons_self]
          exact ⟨hmax', by omega⟩
        | yes =>
          simp only [reduceCtorEq, if_false] at hle
          obtain ⟨hmax', hcount⟩ := ih (by omega) hrest
          rw [List.count_cons_of_ne (by decide)]
          exact ⟨hmax', by omega⟩

/-- **The free headers of a run.** From a state with at most `MaxFreeMandatoryHeadersPerBlock`
free headers left (the empty storage has none), the run keeps that bound, and its free calls are
at most the free headers it started with plus `MaxFreeMandatoryHeadersPerBlock` for each
`on_initialize`: in one block, at most `MaxFreeMandatoryHeadersPerBlock` headers are free. Each
free call is a submission whose header schedules a change and fits the estimates. -/
theorem freeMandatoryHeaders_runSteps
    (hs : s.freeMandatoryHeadersRemaining ≤ cfg.maxFreeMandatoryHeadersPerBlock)
    {calls : List (GrandpaCall H A S Acc)} (hrun : runSteps (grandpaStep cfg) s calls = some s') :
    s'.freeMandatoryHeadersRemaining ≤ cfg.maxFreeMandatoryHeadersPerBlock ∧
      (paysLog cfg s calls).count .no + s'.freeMandatoryHeadersRemaining ≤
        s.freeMandatoryHeadersRemaining +
          cfg.maxFreeMandatoryHeadersPerBlock * calls.countP GrandpaCall.isOnInitialize ∧
      ∀ (s₀ s₁ : GrandpaStorage H A Acc M) call,
        dispatch cfg s₀ call = some (.ok (s₁, .no)) → ∃ origin header justification,
          call = .submitFinalityProof origin header justification ∧
            (findScheduledChange header.digest).isSome = true ∧
            fitsLimits cfg header justification = true := by
  obtain ⟨hmax, hcount⟩ := freeMandatoryHeaders_bound hs hrun
  refine ⟨hmax, hcount, fun s₀ s₁ call h => ?_⟩
  rcases dispatch_freeMandatoryHeadersRemaining h with ⟨-, hpays, -⟩ | ⟨-, -, hfree⟩
  · cases hpays
  · exact hfree rfl

/-- In one block two headers schedule a change, with one free header a block: the first is free,
the second is paid. -/
def freeCalls : List (GrandpaCall Nat Nat Bool Nat) :=
  [genesisInit 0, .onInitialize, submitHeader 1 [.grandpa (.scheduledChange ⟨[(0, 1)], 0⟩)],
    submitHeader 2 [.grandpa (.scheduledChange ⟨[(1, 1)], 0⟩)]]

/-- With one free header a block, the first header of `freeCalls` that schedules a change is free
and the second pays; the free headers stay within what the blocks allowed. -/
theorem freeMandatoryHeaders_runSteps_freeCalls :
    (GrandpaStorage.empty : GrandpaStorage Nat Nat Nat 4).freeMandatoryHeadersRemaining ≤
      twoHeadersConfig.maxFreeMandatoryHeadersPerBlock ∧
    ∃ s : GrandpaStorage Nat Nat Nat 4,
      runSteps (grandpaStep twoHeadersConfig) .empty freeCalls = some s ∧
      paysLog twoHeadersConfig (.empty : GrandpaStorage Nat Nat Nat 4) freeCalls = [.yes, .yes, .no, .yes] ∧
      s.freeMandatoryHeadersRemaining ≤ twoHeadersConfig.maxFreeMandatoryHeadersPerBlock ∧
      (paysLog twoHeadersConfig (.empty : GrandpaStorage Nat Nat Nat 4) freeCalls).count .no + s.freeMandatoryHeadersRemaining ≤
        (GrandpaStorage.empty : GrandpaStorage Nat Nat Nat 4).freeMandatoryHeadersRemaining +
          twoHeadersConfig.maxFreeMandatoryHeadersPerBlock *
            freeCalls.countP GrandpaCall.isOnInitialize ∧
      ∀ (s₀ s₁ : GrandpaStorage Nat Nat Nat 4) call,
        dispatch twoHeadersConfig s₀ call = some (.ok (s₁, .no)) → ∃ origin header justification,
          call = .submitFinalityProof origin header justification ∧
            (findScheduledChange header.digest).isSome = true ∧
            fitsLimits twoHeadersConfig header justification = true := by
  have hs : (GrandpaStorage.empty : GrandpaStorage Nat Nat Nat 4).freeMandatoryHeadersRemaining ≤
      twoHeadersConfig.maxFreeMandatoryHeadersPerBlock := Nat.zero_le _
  have hrun : runSteps (grandpaStep twoHeadersConfig) (.empty : GrandpaStorage Nat Nat Nat 4)
      freeCalls = some _ := rfl
  exact ⟨hs, _, hrun, rfl, freeMandatoryHeaders_runSteps hs hrun⟩

end runs

/-! ## The state roots -/

section stateRoots

variable {cfg : GrandpaConfig H A S} [DecidableEq H] [DecidableEq A] [DecidableEq Acc]

/-- **The state roots the bridge gives out.** Let the hash of a header bind its number. After any
run from the empty storage, `finalized_header_state_root` answers a hash exactly when it is the
hash of one of the last `HeadersToKeep` imported headers, and answers that header's state root:
no pruned, unjustified or unknown header is ever trusted. -/
theorem finalizedHeaderStateRoot_runSteps (hhash : HashBindsNumber cfg.hash)
    {calls : List (GrandpaCall H A S Acc)} {s : GrandpaStorage H A Acc M}
    (hrun : runSteps (grandpaStep cfg) .empty calls = some s) (headerHash root : H) :
    finalizedHeaderStateRoot s headerHash = some root ↔
      ∃ header ∈ window cfg.headersToKeep (importLog cfg (.empty : GrandpaStorage H A Acc M) calls),
        cfg.hash header = headerHash ∧ header.stateRoot = root := by
  have himp₀ : Imported cfg (.empty : GrandpaStorage H A Acc M) [] := imported_empty
  have himp := himp₀.runSteps hhash hrun
  rw [List.nil_append] at himp
  rw [finalizedHeaderStateRoot, Option.map_eq_some_iff]
  constructor
  · rintro ⟨stored, hstored, rfl⟩
    obtain ⟨header, hheader, hhashes, rfl⟩ := (himp.stored_iff hhash headerHash stored).mp hstored
    exact ⟨header, hheader, hhashes, rfl⟩
  · rintro ⟨header, hheader, hhashes, rfl⟩
    exact ⟨header.build, (himp.stored_iff hhash headerHash _).mpr ⟨header, hheader, hhashes, rfl⟩,
      rfl⟩

/-- After three imports into a ring of two, the state roots answered are those of the last two
headers. -/
theorem finalizedHeaderStateRoot_runSteps_threeImports :
    HashBindsNumber twoHeadersConfig.hash ∧
    ∃ s : GrandpaStorage Nat Nat Nat 4,
      runSteps (grandpaStep twoHeadersConfig) .empty threeImports = some s ∧
      finalizedHeaderStateRoot s 7 = some 2 ∧ finalizedHeaderStateRoot s 5 = none ∧
      ∀ headerHash root, finalizedHeaderStateRoot s headerHash = some root ↔
        ∃ header ∈ window twoHeadersConfig.headersToKeep
          (importLog twoHeadersConfig (.empty : GrandpaStorage Nat Nat Nat 4) threeImports),
          twoHeadersConfig.hash header = headerHash ∧ header.stateRoot = root := by
  have hrun : runSteps (grandpaStep twoHeadersConfig) (.empty : GrandpaStorage Nat Nat Nat 4)
      threeImports = some _ := rfl
  exact ⟨hashBindsNumber_twoHeadersConfig, _, hrun, rfl, rfl,
    finalizedHeaderStateRoot_runSteps hashBindsNumber_twoHeadersConfig hrun⟩

end stateRoots

end Cumulus.BridgeGrandpa
