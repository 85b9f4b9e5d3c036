import Cumulus.HeaderChain.Verifiers
import Cumulus.Primitives.Weight

/-!
# The bridge GRANDPA pallet

The pallet is a light client of a bridged chain that GRANDPA finalizes. It is initialized once
with a header and an authority set (`palletInitialize`), and then imports each finality target whose
justification the current authority set signed (`submitFinalityProof`): the header must be newer
than the best finalized one (`checkObsolete`), the justification must pass the strict verifier
(`verifyJustification`), and a header that schedules an authority set change enacts it at once
(`tryEnactAuthorityChange`). `insertHeader` stores the header's data and keeps the hashes of the
last `HeadersToKeep` headers in a ring buffer, pruning the header whose slot it takes.

Submissions that enact a change are free, up to `MaxFreeMandatoryHeadersPerBlock` a block: the
counter is reset by `onInitialize` and cleared by `onFinalize`.

`dispatch` sends a call to its function; `grandpaStep` is the dispatch as the runtime does it, with
the storage of a failed call rolled back. A panic or an ancestry walk that does not end is `none`.
Arithmetic follows the debug build's overflow checks (`Cumulus.Found.MachineInt`), except the
`u64` `current_set_id + 1` of an enacted change, which wraps as in the runtime's release build.

The digest of a header is kept as far as the pallet reads it (its GRANDPA consensus logs); the
voter set construction, the signature check and the encoded sizes are parameters; events, logs and
the call's actual weight are left out.

Source: `bridges/modules/grandpa/src/lib.rs`, `bridges/modules/grandpa/src/call_ext.rs`,
`bridges/modules/grandpa/src/storage_types.rs`, `bridges/primitives/header-chain/src/lib.rs`,
`bridges/primitives/runtime/src/lib.rs` (`OwnedBridgeModule`)
-/

namespace Cumulus.BridgeGrandpa

open Cumulus.Primitives
open Cumulus.HeaderChain (HeaderId GrandpaJustification VoterSet JustificationVerificationContext
  Precommit)

/-! ## Headers and their digests -/

/-- An authority set change that a header schedules.
Source: `sp_consensus_grandpa::ScheduledChange` -/
structure ScheduledChange (A : Type) where
  nextAuthorities : List (A × BitVec 64)
  delay : Nat

/-- A GRANDPA consensus log.
Source: `sp_consensus_grandpa::ConsensusLog` -/
inductive ConsensusLog (A : Type) where
  | scheduledChange (change : ScheduledChange A)
  | forcedChange (delay : Nat) (change : ScheduledChange A)
  | onDisabled (authorityIndex : Nat)
  | pause (delay : Nat)
  | resume (delay : Nat)

/-- An item of a header's digest, as far as the pallet reads it: a GRANDPA consensus log, or
anything else (an item of another engine, or one that does not decode).
Source: `sp_runtime::DigestItem` -/
inductive DigestItem (A : Type) where
  | grandpa (log : ConsensusLog A)
  | other

/-- `consensus_try_to(&GRANDPA_ENGINE_ID)`: the GRANDPA consensus log of an item, if any. -/
def DigestItem.consensusTryTo {A : Type} : DigestItem A → Option (ConsensusLog A)
  | .grandpa log => some log
  | .other => none

/-- The parts of a bridged header the pallet reads.
Source: `sp_runtime::traits::Header` -/
structure BridgedHeader (H A : Type) where
  number : Nat
  stateRoot : H
  digest : List (DigestItem A)

/-- Relevant fields of an imported header.
Source: `bp_header_chain::StoredHeaderData` -/
structure StoredHeaderData (H : Type) where
  number : Nat
  stateRoot : H
  deriving DecidableEq, Repr

variable {H A S Acc : Type} {M : Nat}

/-- Build header data from the header.
Source: `StoredHeaderDataBuilder::build` -/
def BridgedHeader.build (header : BridgedHeader H A) : StoredHeaderData H :=
  ⟨header.number, header.stateRoot⟩

/-- The first GRANDPA consensus log of a digest.
Source: `Digest::convert_first(|log| log.consensus_try_to(&GRANDPA_ENGINE_ID))` -/
def firstGrandpaLog (digest : List (DigestItem A)) : Option (ConsensusLog A) :=
  digest.findSome? DigestItem.consensusTryTo

/-- The scheduled change of a digest: its first GRANDPA log, if that is a scheduled change.
Source: `GrandpaConsensusLogReader::find_scheduled_change` -/
def findScheduledChange (digest : List (DigestItem A)) : Option (ScheduledChange A) :=
  (firstGrandpaLog digest).bind fun
    | .scheduledChange change => some change
    | _ => none

/-- The forced change of a digest: its first GRANDPA log, if that is a forced change.
Source: `GrandpaConsensusLogReader::find_forced_change` -/
def findForcedChange (digest : List (DigestItem A)) : Option (Nat × ScheduledChange A) :=
  (firstGrandpaLog digest).bind fun
    | .forcedChange delay change => some (delay, change)
    | _ => none

/-! ## The storage -/

/-- A GRANDPA authority set, of at most `M` authorities (`MaxBridgedAuthorities`).
Source: `StoredAuthoritySet` -/
structure StoredAuthoritySet (A : Type) (M : Nat) where
  authorities : List (A × BitVec 64)
  setId : BitVec 64
  bounded : authorities.length ≤ M

/-- The authority set of a list that is not too long.
Source: `StoredAuthoritySet::try_new` -/
def StoredAuthoritySet.tryNew (authorities : List (A × BitVec 64)) (setId : BitVec 64) :
    Option (StoredAuthoritySet A M) :=
  if h : authorities.length ≤ M then some ⟨authorities, setId, h⟩ else none

/-- `StoredAuthoritySet::default()`, the value of an empty `CurrentAuthoritySet`. -/
def StoredAuthoritySet.empty : StoredAuthoritySet A M := ⟨[], 0, Nat.zero_le M⟩

/-- The pallet's operating mode.
Source: `bp_runtime::BasicOperatingMode` -/
inductive BasicOperatingMode where
  | normal
  | halted
  deriving DecidableEq, Repr

/-- The origin of a call.
Source: `frame_system::RawOrigin` -/
inductive Origin (Acc : Type) where
  | root
  | signed (who : Acc)
  | none

/-- Whether the relayer pays the call's fee.
Source: `frame_support::dispatch::Pays` -/
inductive Pays where
  | yes
  | no
  deriving DecidableEq, Repr

/-- The pallet's storage.
Source: `bridges/modules/grandpa/src/lib.rs`, the `#[pallet::storage]` items -/
structure GrandpaStorage (H A Acc : Type) (M : Nat) where
  freeMandatoryHeadersRemaining : Nat
  initialHash : Option H
  bestFinalized : Option (HeaderId H)
  importedHashes : Nat → Option H
  importedHashesPointer : Nat
  importedHeaders : H → Option (StoredHeaderData H)
  currentAuthoritySet : StoredAuthoritySet A M
  palletOwner : Option Acc
  palletOperatingMode : BasicOperatingMode

/-- The storage of a pallet that has never been called: every item at its default. -/
def GrandpaStorage.empty : GrandpaStorage H A Acc M :=
  ⟨0, none, none, fun _ => none, 0, fun _ => none, .empty, none, .normal⟩

/-- The pallet's constants and the runtime's parts it calls. -/
structure GrandpaConfig (H A S : Type) where
  /-- `T::HeadersToKeep`. -/
  headersToKeep : Nat
  /-- `T::MaxFreeMandatoryHeadersPerBlock`. -/
  maxFreeMandatoryHeadersPerBlock : Nat
  /-- `Header::hash`. -/
  hash : BridgedHeader H A → H
  /-- `VoterSet::new`: the voter set of an authority list, `None` for an invalid list. -/
  voterSetNew : List (A × BitVec 64) → Option (VoterSet A)
  /-- The signature check of a precommit by an authority in a round and set. -/
  checkSignature : Precommit H → A → S → Nat → Nat → Bool
  /-- `BridgedChain::REASONABLE_HEADERS_IN_JUSTIFICATON_ANCESTRY`. -/
  reasonableHeadersInJustificationAncestry : Nat
  /-- `WeightInfo::submit_finality_proof(precommits, votes_ancestries)`. -/
  submitFinalityProofWeight : Nat → Nat → Weight
  /-- The encoded size of a header and of a justification. -/
  headerSize : BridgedHeader H A → Nat
  justificationSize : GrandpaJustification H A S → Nat
  /-- `max_expected_call_size(required_precommits)`. -/
  maxExpectedCallSize : Nat → Nat

/-- The errors of the pallet.
Source: `bridges/modules/grandpa/src/lib.rs` `Error` -/
inductive GrandpaError where
  | invalidJustification
  | invalidAuthoritySet
  | oldHeader
  | unsupportedScheduledChange
  | notInitialized
  | alreadyInitialized
  | tooManyAuthoritiesInSet
  /-- `BridgeModule(Halted)`: the pallet is halted. -/
  | bridgeModule
  /-- The origin is not the expected one (`ensure_signed`, `ensure_owner_or_root`). -/
  | badOrigin
  deriving DecidableEq, Repr

variable (cfg : GrandpaConfig H A S)

/-! ## The owner and the operating mode -/

section owned

variable [DecidableEq Acc]

/-- Ensure that the origin is either root, or `PalletOwner`.
Source: `OwnedBridgeModule::ensure_owner_or_root` -/
def ensureOwnerOrRoot (s : GrandpaStorage H A Acc M) : Origin Acc → Bool
  | .root => true
  | .signed signer => s.palletOwner = some signer
  | .none => false

/-- Change the owner of the module.
Source: `OwnedBridgeModule::set_owner` -/
def setOwner (s : GrandpaStorage H A Acc M) (origin : Origin Acc) (maybeOwner : Option Acc) :
    Except GrandpaError (GrandpaStorage H A Acc M) :=
  if !ensureOwnerOrRoot s origin then .error .badOrigin
  else .ok { s with palletOwner := maybeOwner }

/-- Halt or resume all module operations.
Source: `OwnedBridgeModule::set_operating_mode` -/
def setOperatingMode (s : GrandpaStorage H A Acc M) (origin : Origin Acc)
    (operatingMode : BasicOperatingMode) : Except GrandpaError (GrandpaStorage H A Acc M) :=
  if !ensureOwnerOrRoot s origin then .error .badOrigin
  else .ok { s with palletOperatingMode := operatingMode }

end owned

/-! ## Importing a header -/

/-- Check that the header is newer than the best finalized one.
Source: `SubmitFinalityProofHelper::check_obsolete` -/
def checkObsolete (s : GrandpaStorage H A Acc M) (finalityTarget : Nat) :
    Except GrandpaError Unit :=
  match s.bestFinalized with
  | none => .error .notInitialized
  | some bestFinalized =>
    if bestFinalized.number ≥ finalityTarget then .error .oldHeader else .ok ()

/-- Verify a GRANDPA justification for a header with the given authority set: the set must give a
voter set, and the strict verifier must accept the justification. `none` when an ancestry walk
does not end.
Source: `verify_justification` (the pallet's) -/
def verifyJustification [DecidableEq H] [DecidableEq A]
    (justification : GrandpaJustification H A S) (hash : H) (number : Nat)
    (authoritySet : StoredAuthoritySet A M) : Option (Except GrandpaError Unit) :=
  match cfg.voterSetNew authoritySet.authorities with
  | none => some (.error .invalidAuthoritySet)
  | some voterSet =>
    (Cumulus.HeaderChain.verifyJustification cfg.checkSignature (hash, number)
      ⟨voterSet, authoritySet.setId.toNat⟩ justification).map fun
      | .ok () => .ok ()
      | .error _ => .error .invalidJustification

/-- Enact the authority set change a header schedules, if any: forced changes and changes with a
delay are not supported. Returns the new set, if a change was enacted.
Source: `try_enact_authority_change` -/
def tryEnactAuthorityChange (s : GrandpaStorage H A Acc M) (header : BridgedHeader H A)
    (currentSetId : BitVec 64) :
    Except GrandpaError (GrandpaStorage H A Acc M × Option (StoredAuthoritySet A M)) :=
  -- forced changes need governance intervention
  if (findForcedChange header.digest).isSome then .error .unsupportedScheduledChange
  else
    match findScheduledChange header.digest with
    | some change =>
      -- GRANDPA only includes a `delay` for forced changes
      if change.delay ≠ 0 then .error .unsupportedScheduledChange
      else
        -- `current_set_id + 1` wraps in the runtime's release build
        match StoredAuthoritySet.tryNew change.nextAuthorities (currentSetId + 1) with
        | none => .error .tooManyAuthoritiesInSet
        | some nextAuthorities =>
          .ok ({ s with currentAuthoritySet := nextAuthorities }, some nextAuthorities)
    | none => .ok (s, none)

/-- Import a verified header: it becomes the best finalized one, its data is stored, its hash goes
into the ring buffer at the pointer, and the header whose hash the slot held is pruned.
`(index + 1) % HeadersToKeep` panics when no header is kept.
Source: `insert_header` -/
def insertHeader [DecidableEq H] (s : GrandpaStorage H A Acc M) (header : BridgedHeader H A)
    (hash : H) : Option (GrandpaStorage H A Acc M) :=
  let index := s.importedHashesPointer
  let pruning := s.importedHashes index
  if cfg.headersToKeep = 0 then none
  else
    let s := { s with
      bestFinalized := some ⟨header.number, hash⟩
      importedHeaders := Function.update s.importedHeaders hash (some header.build)
      importedHashes := Function.update s.importedHashes index (some hash)
      importedHashesPointer := (index + 1) % cfg.headersToKeep }
    match pruning with
    | some hash => some { s with importedHeaders := Function.update s.importedHeaders hash none }
    | none => some s

/-- Whether the call's size and weight are within the estimates for regular calls: no more
ancestry headers than reasonable, and no more bytes than expected for its precommits.
Source: `submit_finality_proof_info_from_args`, `SubmitFinalityProofInfo::fits_limits` -/
def fitsLimits (finalityTarget : BridgedHeader H A) (justification : GrandpaJustification H A S) :
    Bool :=
  let precommitsLen := justification.commit.precommits.length
  let votesAncestriesLen := justification.votesAncestries.length
  let extraWeight :=
    if votesAncestriesLen > cfg.reasonableHeadersInJustificationAncestry then
      cfg.submitFinalityProofWeight precommitsLen votesAncestriesLen
    else Weight.zero
  let actualCallSize :=
    min (cfg.headerSize finalityTarget + cfg.justificationSize justification) (2 ^ 32 - 1)
  let extraSize := actualCallSize - cfg.maxExpectedCallSize precommitsLen
  extraWeight = Weight.zero && extraSize = 0

/-- Verify a target header is finalized according to the given finality proof, and import it.
Returns whether the relayer pays the fee: a header that enacts an authority set change is free
while free headers remain in the block and the call fits the estimates.
Source: `Pallet::submit_finality_proof` -/
def submitFinalityProof [DecidableEq H] [DecidableEq A] (s : GrandpaStorage H A Acc M)
    (origin : Origin Acc) (finalityTarget : BridgedHeader H A)
    (justification : GrandpaJustification H A S) :
    Option (Except GrandpaError (GrandpaStorage H A Acc M × Pays)) :=
  if s.palletOperatingMode = .halted then some (.error .bridgeModule)
  else if origin matches .signed _ then
    let hash := cfg.hash finalityTarget
    let number := finalityTarget.number
    match checkObsolete s number with
    | .error e => some (.error e)
    | .ok () =>
      let authoritySet := s.currentAuthoritySet
      (verifyJustification cfg justification hash number authoritySet).bind fun
        | .error e => some (.error e)
        | .ok () =>
          match tryEnactAuthorityChange s finalityTarget authoritySet.setId with
          | .error e => some (.error e)
          | .ok (s, maybeNewAuthoritySet) =>
            let mayRefundCallFee := maybeNewAuthoritySet.isSome &&
              -- too many mandatory headers in this block are not refunded
              decide (s.freeMandatoryHeadersRemaining > 0) &&
              fitsLimits cfg finalityTarget justification
            let s := if mayRefundCallFee then
                { s with freeMandatoryHeadersRemaining := s.freeMandatoryHeadersRemaining - 1 }
              else s
            (insertHeader cfg s finalityTarget hash).map fun s =>
              .ok (s, if mayRefundCallFee then .no else .yes)
  else some (.error .badOrigin)

/-- Data required for initializing the pallet.
Source: `bp_header_chain::InitializationData` -/
structure InitializationData (H A : Type) where
  header : BridgedHeader H A
  authorityList : List (A × BitVec 64)
  setId : BitVec 64
  operatingMode : BasicOperatingMode

/-- Initialize the pallet with a header and an authority set, with no checks of the data.
Source: `initialize_bridge` -/
def initializeBridge [DecidableEq H] (s : GrandpaStorage H A Acc M)
    (initParams : InitializationData H A) :
    Option (Except GrandpaError (GrandpaStorage H A Acc M)) :=
  match StoredAuthoritySet.tryNew initParams.authorityList initParams.setId with
  | none => some (.error .tooManyAuthoritiesInSet)
  | some authoritySet =>
    let initialHash := cfg.hash initParams.header
    let s := { s with initialHash := some initialHash, importedHashesPointer := 0 }
    (insertHeader cfg s initParams.header initialHash).map fun s =>
      .ok { s with
        currentAuthoritySet := authoritySet
        palletOperatingMode := initParams.operatingMode }

/-- Bootstrap the pallet with an initial header and authority set, once.
Source: `Pallet::initialize` -/
def palletInitialize [DecidableEq H] [DecidableEq Acc] (s : GrandpaStorage H A Acc M)
    (origin : Origin Acc) (initData : InitializationData H A) :
    Option (Except GrandpaError (GrandpaStorage H A Acc M)) :=
  if !ensureOwnerOrRoot s origin then some (.error .badOrigin)
  else if s.bestFinalized.isSome then some (.error .alreadyInitialized)
  else initializeBridge cfg s initData

/-- The free mandatory headers of a new block.
Source: `Hooks::on_initialize` -/
def onInitialize (s : GrandpaStorage H A Acc M) : GrandpaStorage H A Acc M :=
  { s with freeMandatoryHeadersRemaining := cfg.maxFreeMandatoryHeadersPerBlock }

/-- The counter is killed at the end of the block.
Source: `Hooks::on_finalize` -/
def onFinalize (s : GrandpaStorage H A Acc M) : GrandpaStorage H A Acc M :=
  { s with freeMandatoryHeadersRemaining := 0 }

/-- The state root of an imported header, the bridge's answer to the pallets that read the
bridged chain's storage.
Source: `HeaderChain::finalized_header_state_root` for `GrandpaChainHeaders` -/
def finalizedHeaderStateRoot (s : GrandpaStorage H A Acc M) (headerHash : H) : Option H :=
  (s.importedHeaders headerHash).map StoredHeaderData.stateRoot

/-! ## Calls -/

/-- The pallet's calls and hooks. -/
inductive GrandpaCall (H A S Acc : Type) where
  | submitFinalityProof (origin : Origin Acc) (finalityTarget : BridgedHeader H A)
      (justification : GrandpaJustification H A S)
  | init (origin : Origin Acc) (initData : InitializationData H A)
  | setOwner (origin : Origin Acc) (newOwner : Option Acc)
  | setOperatingMode (origin : Origin Acc) (operatingMode : BasicOperatingMode)
  | onInitialize
  | onFinalize

/-- A call sent to its function, with whether its fee is paid: only a submission can be free. -/
def dispatch [DecidableEq H] [DecidableEq A] [DecidableEq Acc] (s : GrandpaStorage H A Acc M) :
    GrandpaCall H A S Acc → Option (Except GrandpaError (GrandpaStorage H A Acc M × Pays))
  | .submitFinalityProof origin finalityTarget justification =>
    submitFinalityProof cfg s origin finalityTarget justification
  | .init origin initData =>
    (palletInitialize cfg s origin initData).map (·.map (·, .yes))
  | .setOwner origin newOwner => some ((setOwner s origin newOwner).map (·, .yes))
  | .setOperatingMode origin operatingMode =>
    some ((setOperatingMode s origin operatingMode).map (·, .yes))
  | .onInitialize => some (.ok (onInitialize cfg s, .yes))
  | .onFinalize => some (.ok (onFinalize s, .yes))

/-- A call as the runtime dispatches it: the storage of a failed call is rolled back. -/
def grandpaStep [DecidableEq H] [DecidableEq A] [DecidableEq Acc] (s : GrandpaStorage H A Acc M)
    (call : GrandpaCall H A S Acc) : Option (GrandpaStorage H A Acc M) :=
  (dispatch cfg s call).map fun
    | .ok (s', _) => s'
    | .error _ => s

end Cumulus.BridgeGrandpa
