import Cumulus.Primitives.Weight
import Cumulus.Found.Storage

/-!
# The bridge parachains pallet

The pallet keeps the heads of the bridged relay chain's parachains, as storage proofs of the
relay chain's `Heads` map show them at relay blocks that the bridge GRANDPA pallet has imported.
For each parachain it stores the best head (`ParasInfo`) and the data of its last `HeadsToKeep`
heads (`ImportedParaHeads`), whose hashes a ring buffer holds (`ImportedParaHashes`, written at
`next_imported_hash_position`).

`submitParachainHeads` is `submit_parachain_heads`: after the mode, origin and relay block checks,
it reads the head of each listed parachain from the proof and imports it through
`updateParachainHead` unless it is missing, has another hash than the relayer says, is of an
untracked parachain, is obsolete or is too large. A failed call changes nothing
(`Except.error`); a panic is `none`.

The storage proof is given as what its checker returns (`ParaHeadsProof`); events and logs are
left out.

Source: `bridges/modules/parachains/src/lib.rs`, `bridges/modules/parachains/src/call_ext.rs`
-/

namespace Cumulus.BridgeParachains

open Cumulus.Primitives Cumulus.Found

/-- Best known parachain head hash, with the relay block where it has been read.
Source: `bp_parachains::BestParaHeadHash` -/
structure BestParaHeadHash (PH : Type) where
  atRelayBlockNumber : Nat
  headHash : PH
  deriving DecidableEq, Repr

/-- Stored parachain info: the best head and the current ring buffer position.
Source: `bp_parachains::ParaInfo` -/
structure ParaInfo (PH : Type) where
  bestHeadHash : BestParaHeadHash PH
  nextImportedHashPosition : Nat
  deriving DecidableEq, Repr

/-- The pallet's constants and the runtime's parts it calls. -/
structure ParachainsConfig (P Head PH D : Type) where
  /-- `T::HeadsToKeep`: the heads kept per parachain. -/
  headsToKeep : Nat
  /-- `T::MaxParaHeadDataSize`. -/
  maxParaHeadDataSize : Nat
  /-- `ParaHead::hash`. -/
  headHash : Head → PH
  /-- `T::ParaStoredHeaderDataBuilder::try_build`: the data stored of a tracked parachain's head,
  `None` for an untracked parachain. -/
  tryBuild : P → Head → Option D
  /-- The encoded size of stored head data, which `try_from_inner` bounds. -/
  encodedSize : D → Nat
  /-- `submit_parachain_heads_weight` of a proof of this size with this many parachains. -/
  submitParachainHeadsWeight : Nat → Nat → Weight
  /-- `parachain_head_storage_write_weight` (`db_weight.writes(2)`). -/
  parachainHeadStorageWriteWeight : Weight
  /-- `parachain_head_pruning_weight` (`db_weight.writes(1)`). -/
  parachainHeadPruningWeight : Weight

/-- The pallet's storage of parachain heads. -/
structure ParachainsStorage (P PH D : Type) where
  parasInfo : P → Option (ParaInfo PH)
  importedParaHeads : P → PH → Option D
  importedParaHashes : P → Nat → Option PH

/-- The storage of a pallet that has imported nothing. -/
def ParachainsStorage.empty {P PH D : Type} : ParachainsStorage P PH D :=
  ⟨fun _ => none, fun _ _ => none, fun _ _ => none⟩

/-- A storage proof of the bridged relay chain's `Heads` entries, as its checker reads it. -/
structure ParaHeadsProof (P Head : Type) where
  /-- The encoded size of the proof, which the call's weight depends on. -/
  size : Nat
  /-- `storage_proof_checker` accepts the proof against the relay header's state root. -/
  valid : Bool
  /-- `read_and_decode_value` of a parachain's `Heads` entry: an error, or the head if any. -/
  readHead : P → Except Unit (Option Head)
  /-- `ensure_no_unused_nodes` passes once the entries of these parachains are read. -/
  noUnusedNodes : List P → Bool

/-- What the call reads besides its arguments. -/
structure SubmitEnv (RH : Type) where
  /-- `ensure_not_halted` fails. -/
  halted : Bool
  /-- `ensure_signed` passes. -/
  signed : Bool
  /-- The bridge GRANDPA pallet's `ImportedHeaders`: the number of each imported relay header. -/
  importedHeaders : RH → Option Nat

/-- The errors of `submit_parachain_heads`.
Source: `bridges/modules/parachains/src/lib.rs` `Error` -/
inductive ParachainsError where
  | unknownRelayChainBlock
  | invalidRelayChainBlockNumber
  | headerChainStorageProof
  /-- `BridgeModule(Halted)`: the pallet is halted. -/
  | bridgeModule
  /-- `ensure_signed` fails. -/
  | badOrigin
  deriving DecidableEq, Repr

/-- The update a call brings for one parachain.
Source: `SubmitParachainHeadsInfo` -/
structure SubmitParachainHeadsInfo (P PH : Type) where
  atRelayBlockNumber : Nat
  paraId : P
  paraHeadHash : PH

/-- What a successful update returns.
Source: `UpdateParachainHeadArtifacts` -/
structure UpdateParachainHeadArtifacts (PH : Type) where
  bestHead : ParaInfo PH
  pruneHappened : Bool

variable {P Head PH D RH : Type} [DecidableEq P] [DecidableEq PH]

/-- Check if the para head provided is no better than the best one known: read at a relay block no
later than the best head's, or with the best head's hash.
Source: `SubmitParachainHeadsHelper::is_obsolete` -/
def isObsolete (s : ParachainsStorage P PH D) (update : SubmitParachainHeadsInfo P PH) : Bool :=
  match s.parasInfo update.paraId with
  | none => false
  | some storedBestHead =>
    storedBestHead.bestHeadHash.atRelayBlockNumber ≥ update.atRelayBlockNumber ||
      storedBestHead.bestHeadHash.headHash = update.paraHeadHash

/-- The ring position of a parachain's next head: `0` before its first head. -/
def nextImportedHashPosition (storedBestHead : Option (ParaInfo PH)) : Nat :=
  (storedBestHead.map (·.nextImportedHashPosition)).getD 0

/-- Try to update the parachain head: the new head goes into the ring at the current position,
and the head that position held is pruned. `(position + 1) % HeadsToKeep` panics when no head is
kept.
Source: `Pallet::update_parachain_head` -/
def updateParachainHead (cfg : ParachainsConfig P Head PH D) (s : ParachainsStorage P PH D)
    (parachain : P) (storedBestHead : Option (ParaInfo PH)) (newAtRelayBlockNumber : Nat)
    (newHeadData : D) (newHeadHash : PH) :
    Option (Except Unit (ParachainsStorage P PH D × UpdateParachainHeadArtifacts PH)) :=
  if isObsolete s ⟨newAtRelayBlockNumber, parachain, newHeadHash⟩ then some (.error ())
  -- the data must fit `MaxParaHeadDataSize`
  else if cfg.encodedSize newHeadData > cfg.maxParaHeadDataSize then some (.error ())
  else if cfg.headsToKeep = 0 then none
  else
    let nextImportedHashPosition := nextImportedHashPosition storedBestHead
    let headHashToPrune := s.importedParaHashes parachain nextImportedHashPosition
    let updatedBestParaHead : ParaInfo PH :=
      ⟨⟨newAtRelayBlockNumber, newHeadHash⟩, (nextImportedHashPosition + 1) % cfg.headsToKeep⟩
    let s := { s with
      importedParaHashes :=
        updateDouble s.importedParaHashes parachain nextImportedHashPosition (some newHeadHash)
      importedParaHeads :=
        updateDouble s.importedParaHeads parachain newHeadHash (some newHeadData) }
    let s := match headHashToPrune with
      | some headHashToPrune =>
        { s with
          importedParaHeads := updateDouble s.importedParaHeads parachain headHashToPrune none }
      | none => s
    some (.ok (s, ⟨updatedBestParaHead, headHashToPrune.isSome⟩))

/-- One turn of the loop of `submit_parachain_heads` over the listed parachains, with the call's
actual weight: a head that is missing, has another hash than the relayer says or is of an
untracked parachain is skipped; otherwise `ParasInfo` is updated through `update_parachain_head`,
and the weight of the writes and of the pruning that did not happen is refunded. -/
def submitParachainHeadsStep (cfg : ParachainsConfig P Head PH D) (relayBlockNumber : Nat)
    (proof : ParaHeadsProof P Head) (acc : ParachainsStorage P PH D × Weight) (entry : P × PH) :
    Option (ParachainsStorage P PH D × Weight) :=
  let (s, actualWeight) := acc
  let (parachain, parachainHeadHash) := entry
  match proof.readHead parachain with
  | .ok (some parachainHead) =>
    if parachainHeadHash ≠ cfg.headHash parachainHead then some acc
    else
      match cfg.tryBuild parachain parachainHead with
      | none => some acc
      | some parachainHeadData =>
        (updateParachainHead cfg s parachain (s.parasInfo parachain) relayBlockNumber
          parachainHeadData parachainHeadHash).map fun
          | .ok (s', artifacts) =>
            ({ s' with
                parasInfo := Function.update s'.parasInfo parachain (some artifacts.bestHead) },
              if artifacts.pruneHappened then actualWeight
              else actualWeight.saturatingSub cfg.parachainHeadPruningWeight)
          | .error () =>
            (s, (actualWeight.saturatingSub cfg.parachainHeadStorageWriteWeight).saturatingSub
              cfg.parachainHeadPruningWeight)
  | _ => some acc

/-- Submit proof of one or several parachain heads, read at an imported relay block. Returns the
call's actual weight.
Source: `Pallet::submit_parachain_heads` -/
def submitParachainHeads (cfg : ParachainsConfig P Head PH D) (env : SubmitEnv RH)
    (s : ParachainsStorage P PH D) (atRelayBlock : Nat × RH) (parachains : List (P × PH))
    (parachainHeadsProof : ParaHeadsProof P Head) :
    Option (Except ParachainsError (ParachainsStorage P PH D × Weight)) :=
  if env.halted then some (.error .bridgeModule)
  else if !env.signed then some (.error .badOrigin)
  else
    let (relayBlockNumber, relayBlockHash) := atRelayBlock
    match env.importedHeaders relayBlockHash with
    | none => some (.error .unknownRelayChainBlock)
    | some number =>
      if number ≠ relayBlockNumber then some (.error .invalidRelayChainBlockNumber)
      else if !parachainHeadsProof.valid then some (.error .headerChainStorageProof)
      else
        let actualWeight :=
          cfg.submitParachainHeadsWeight parachainHeadsProof.size parachains.length
        (parachains.foldlM (submitParachainHeadsStep cfg relayBlockNumber parachainHeadsProof)
          (s, actualWeight)).map fun result =>
          -- a proof with unused trie nodes fails the whole call
          if parachainHeadsProof.noUnusedNodes (parachains.map Prod.fst) then .ok result
          else .error .headerChainStorageProof

/-- One call of `submit_parachain_heads`, with what it reads besides the storage. -/
structure SubmitCall (RH P PH Head : Type) where
  env : SubmitEnv RH
  atRelayBlock : Nat × RH
  parachains : List (P × PH)
  proof : ParaHeadsProof P Head

/-- A call as the runtime dispatches it: the storage of a failed call is rolled back. -/
def submitStep (cfg : ParachainsConfig P Head PH D) (s : ParachainsStorage P PH D)
    (call : SubmitCall RH P PH Head) : Option (ParachainsStorage P PH D) :=
  (submitParachainHeads cfg call.env s call.atRelayBlock call.parachains call.proof).map fun
    | .ok (s', _) => s'
    | .error _ => s

/-- Get best finalized head data of the given parachain.
Source: `Pallet::best_parachain_head` -/
def bestParachainHead (s : ParachainsStorage P PH D) (parachain : P) : Option D :=
  (s.parasInfo parachain).bind fun info => s.importedParaHeads parachain info.bestHeadHash.headHash

end Cumulus.BridgeParachains
