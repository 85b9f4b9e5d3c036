import Mathlib.Data.Finset.Card
import Cumulus.Found.MachineInt

/-!
# Verification of GRANDPA justifications

A justification proves that a header is finalized: it carries a commit, with precommits signed by
authorities of the voter set, and the headers (`votes_ancestries`) that link each precommit's
target to the commit's. `JustificationVerifier::verify_justification` is one loop over the
precommits shared by three verifiers, which differ only in what they do with a redundant,
duplicate, unknown, unrelated or badly signed vote (`JustificationVerifier`, one function per
callback over the verifier's state `σ`): the strict verifier rejects, the optimizer records and
skips, the equivocation collector lets the vote through.

`AncestryChain.ancestry` walks up the parent links of the ancestry headers from a precommit's
target to the commit's target, and trusts a header that an earlier counted vote has visited. The
source loop has no bound: on a cycle of parent links it never ends. The walk here stops with
`none` when it comes back to a header of its own route, after which the source walks the cycle
forever, and its fuel never runs out first (`ancestryLoop_fuel` in the next module).

Signature checking is a parameter (`checkSignature`, for `check_message_signature_with_buffer`);
the voter set is given by its lookup and threshold, and an ancestry header by its hash and its
parent's hash.

Source: `bridges/primitives/header-chain/src/justification/verification/mod.rs`,
`bridges/primitives/header-chain/src/justification/mod.rs`
-/

namespace Cumulus.HeaderChain

open Cumulus.Found

/-- A header identifier: its number and hash.
Source: `bp_runtime::HeaderId` -/
structure HeaderId (H : Type) where
  number : Nat
  hash : H
  deriving DecidableEq, Repr

/-- A vote for a block and its ancestors.
Source: `finality_grandpa::Precommit` -/
structure Precommit (H : Type) where
  targetHash : H
  targetNumber : Nat
  deriving DecidableEq, Repr

/-- A precommit with its signature and the authority that signed it.
Source: `finality_grandpa::SignedPrecommit` -/
structure SignedPrecommit (H A S : Type) where
  precommit : Precommit H
  signature : S
  id : A
  deriving DecidableEq, Repr

/-- A commit: the block it finalizes and the precommits for it.
Source: `finality_grandpa::Commit` -/
structure Commit (H A S : Type) where
  targetHash : H
  targetNumber : Nat
  precommits : List (SignedPrecommit H A S)
  deriving DecidableEq, Repr

/-- A header of `votes_ancestries`, as the verification reads it. -/
structure AncestryHeader (H : Type) where
  hash : H
  parentHash : H
  deriving DecidableEq, Repr

/-- A GRANDPA justification of a header.
Source: `GrandpaJustification` -/
structure GrandpaJustification (H A S : Type) where
  /-- The round (voting period) this justification is valid for. -/
  round : Nat
  /-- The set of votes for the chain which is to be finalized. -/
  commit : Commit H A S
  /-- A proof that the chain of blocks in the commit are related to each other. -/
  votesAncestries : List (AncestryHeader H)
  deriving DecidableEq, Repr

/-- Return identifier of header that this justification claims to finalize.
Source: `GrandpaJustification::commit_target_id` -/
def GrandpaJustification.commitTargetId {H A S : Type} (justification : GrandpaJustification H A S) :
    HeaderId H :=
  ⟨justification.commit.targetNumber, justification.commit.targetHash⟩

/-- The voter set, by what the verification reads of it: the weight of each voter
(`get(id).weight()`) and the threshold of a supermajority (`threshold()`).
Source: `finality_grandpa::voter_set::VoterSet` -/
structure VoterSet (A : Type) where
  get : A → Option (BitVec 64)
  threshold : BitVec 64

/-- The context needed for validating GRANDPA finality proofs.
Source: `JustificationVerificationContext` -/
structure JustificationVerificationContext (A : Type) where
  /-- The authority set used to verify the justification. -/
  voterSet : VoterSet A
  /-- The ID of the authority set used to verify the justification. -/
  authoritySetId : Nat

/-- Justification verification error of one precommit.
Source: `PrecommitError` -/
inductive PrecommitError where
  | redundantAuthorityVote
  | unknownAuthorityVote
  | duplicateAuthorityVote
  | invalidAuthoritySignature
  | unrelatedAncestryVote
  deriving DecidableEq, Repr

/-- Justification verification error.
Source: `Error` -/
inductive Error where
  | invalidAuthorityList
  | invalidJustificationTarget
  | precommit (e : PrecommitError)
  | tooLowCumulativeWeight
  | redundantVotesAncestries
  deriving DecidableEq, Repr

/-- Whether the loop goes on with a vote or skips it.
Source: `IterationFlow` -/
inductive IterationFlow where
  | run
  | skip
  deriving DecidableEq, Repr

variable {H A S σ : Type} [DecidableEq H]

/-! ## The ancestry chain -/

/-- Votes ancestries with useful methods.
Source: `AncestryChain` -/
structure AncestryChain (H : Type) where
  /-- We expect all forks in the ancestry chain to be descendants of base. -/
  base : HeaderId H
  /-- Header hash => parent header hash mapping. -/
  parents : H → Option H
  /-- Hashes of headers that were not visited by `ancestry()`. -/
  unvisited : Finset H

/-- `parents.insert(hash, parent_hash)` of one ancestry header. -/
def insertParent (parents : H → Option H) (ancestor : AncestryHeader H) : H → Option H :=
  Function.update parents ancestor.hash (some ancestor.parentHash)

/-- The parent of each ancestry header's hash, a later header of a hash replacing an earlier one
(`BTreeMap::insert`). -/
def ancestryParents (votesAncestries : List (AncestryHeader H)) : H → Option H :=
  votesAncestries.foldl insertParent fun _ => none

/-- Create new ancestry chain.
Source: `AncestryChain::new` -/
def AncestryChain.new (justification : GrandpaJustification H A S) : AncestryChain H :=
  ⟨justification.commitTargetId, ancestryParents justification.votesAncestries,
    (justification.votesAncestries.map (·.hash)).toFinset⟩

/-- The walk of `ancestry` from `currentHash`, with the route so far: it ends at the base, at a
header visited by an earlier route (a descendant of the base, as the source assumes), or at a hash
without a parent (`some none`: the precommit is unrelated). `none` is a walk that comes back to a
header of its route: the source's loop walks that cycle forever. -/
def ancestryLoop (chain : AncestryChain H) : Nat → H → List H → Option (Option (List H))
  | 0, _, _ => none
  | fuel + 1, currentHash, route =>
    if currentHash = chain.base.hash then some (some route)
    else
      match chain.parents currentHash with
      | some parentHash =>
        -- if the current header has been visited in a previous call, it is a descendant of `base`
        if currentHash ∉ chain.unvisited then some (some route)
        else if currentHash ∈ route then none
        else ancestryLoop chain fuel parentHash (route ++ [currentHash])
      | none => some none

/-- Returns a route if the precommit target block is a descendant of the `base` block.
Source: `AncestryChain::ancestry` -/
def AncestryChain.ancestry (chain : AncestryChain H) (precommitTargetHash : H)
    (precommitTargetNumber : Nat) : Option (Option (List H)) :=
  if precommitTargetNumber < chain.base.number then some none
  else ancestryLoop chain (chain.unvisited.card + 1) precommitTargetHash []

/-- Source: `AncestryChain::mark_route_as_visited` -/
def AncestryChain.markRouteAsVisited (chain : AncestryChain H) (route : List H) :
    AncestryChain H :=
  { chain with unvisited := route.foldl (fun unvisited hash => unvisited.erase hash) chain.unvisited }

/-- Source: `AncestryChain::is_fully_visited` -/
def AncestryChain.isFullyVisited (chain : AncestryChain H) : Bool :=
  decide (chain.unvisited = ∅)

/-! ## The verification loop -/

/-- Verification callbacks, over the verifier's state `σ`: each returns the new state and its
result.
Source: `JustificationVerifier` -/
structure JustificationVerifier (σ H A S : Type) where
  processRedundantVote : σ → Nat → σ × Except PrecommitError IterationFlow
  processKnownAuthorityVote :
    σ → Nat → SignedPrecommit H A S → σ × Except PrecommitError IterationFlow
  processUnknownAuthorityVote : σ → Nat → σ × Except PrecommitError Unit
  processUnrelatedAncestryVote : σ → Nat → σ × Except PrecommitError IterationFlow
  processInvalidSignatureVote : σ → Nat → σ × Except PrecommitError Unit
  processValidVote : σ → SignedPrecommit H A S → σ
  /-- Called when there are redundant headers in the votes ancestries. -/
  processRedundantVotesAncestries : σ → Finset H → σ × Except Error Unit

variable (v : JustificationVerifier σ H A S)
  (checkSignature : Precommit H → A → S → Nat → Nat → Bool)

/-- The vote of a known authority once the callbacks let it through: its route to the commit
target, its signature, and its weight when it has a route. -/
def countVote (context : JustificationVerificationContext A) (round : Nat) (precommitIdx : Nat)
    (signed : SignedPrecommit H A S) (authorityWeight : BitVec 64) (self : σ)
    (chain : AncestryChain H) (cumulativeWeight : BitVec 64) :
    Option (σ × Except PrecommitError (AncestryChain H × BitVec 64)) :=
  -- all precommits must be descendants of the target block
  (chain.ancestry signed.precommit.targetHash signed.precommit.targetNumber).map fun maybeRoute =>
    let (self, action) :=
      if maybeRoute.isNone then v.processUnrelatedAncestryVote self precommitIdx
      else (self, .ok .run)
    match action with
    | .error e => (self, .error e)
    | .ok .skip => (self, .ok (chain, cumulativeWeight))
    | .ok .run =>
      if !checkSignature signed.precommit signed.id signed.signature round
          context.authoritySetId then
        let (self, result) := v.processInvalidSignatureVote self precommitIdx
        (self, result.map fun _ => (chain, cumulativeWeight))
      else
        -- now we can count the vote since we know that it is valid
        let self := v.processValidVote self signed
        match maybeRoute with
        | some route =>
          (self, .ok (chain.markRouteAsVisited route,
            saturatingAdd cumulativeWeight authorityWeight))
        | none => (self, .ok (chain, cumulativeWeight))

/-- One turn of the loop over the precommits: the verifier's state, and the ancestry chain and
cumulative weight for the next turn or the error that ends the loop. -/
def precommitStep (context : JustificationVerificationContext A) (round : Nat)
    (precommitIdx : Nat) (signed : SignedPrecommit H A S) (self : σ) (chain : AncestryChain H)
    (cumulativeWeight : BitVec 64) :
    Option (σ × Except PrecommitError (AncestryChain H × BitVec 64)) :=
  let (self, action) :=
    if cumulativeWeight ≥ context.voterSet.threshold then v.processRedundantVote self precommitIdx
    else (self, .ok .run)
  match action with
  | .error e => some (self, .error e)
  | .ok .skip => some (self, .ok (chain, cumulativeWeight))
  | .ok .run =>
    -- authority must be in the set
    match context.voterSet.get signed.id with
    | none =>
      let (self, result) := v.processUnknownAuthorityVote self precommitIdx
      some (self, result.map fun _ => (chain, cumulativeWeight))
    | some authorityWeight =>
      let (self, action) := v.processKnownAuthorityVote self precommitIdx signed
      match action with
      | .error e => some (self, .error e)
      | .ok .skip => some (self, .ok (chain, cumulativeWeight))
      | .ok .run =>
        countVote v checkSignature context round precommitIdx signed authorityWeight self chain
          cumulativeWeight

/-- The loop over the precommits from index `precommitIdx`. -/
def precommitsLoop (context : JustificationVerificationContext A) (round : Nat) :
    Nat → σ → AncestryChain H → BitVec 64 → List (SignedPrecommit H A S) →
      Option (σ × Except PrecommitError (AncestryChain H × BitVec 64))
  | _, self, chain, cumulativeWeight, [] => some (self, .ok (chain, cumulativeWeight))
  | precommitIdx, self, chain, cumulativeWeight, signed :: precommits =>
    (precommitStep v checkSignature context round precommitIdx signed self chain
      cumulativeWeight).bind fun
      | (self, .error e) => some (self, .error e)
      | (self, .ok (chain, cumulativeWeight)) =>
        precommitsLoop context round (precommitIdx + 1) self chain cumulativeWeight precommits

/-- Verify a justification against the expected target with the verifier's callbacks, from the
verifier's state `self`: the new state and the verdict, `none` when an ancestry walk does not end.
Source: `JustificationVerifier::verify_justification` -/
def JustificationVerifier.verifyJustification (self : σ) (finalizedTarget : H × Nat)
    (context : JustificationVerificationContext A)
    (justification : GrandpaJustification H A S) : Option (σ × Except Error Unit) :=
  -- ensure that it is justification for the expected header
  if (justification.commit.targetHash, justification.commit.targetNumber) ≠ finalizedTarget then
    some (self, .error .invalidJustificationTarget)
  else
    let threshold := context.voterSet.threshold
    (precommitsLoop v checkSignature context justification.round 0 self
      (AncestryChain.new justification) 0 justification.commit.precommits).map fun
      | (self, .error e) => (self, .error (.precommit e))
      | (self, .ok (chain, cumulativeWeight)) =>
        if cumulativeWeight < threshold then (self, .error .tooLowCumulativeWeight)
        -- check that there are no extra headers in the justification
        else if !chain.isFullyVisited then
          v.processRedundantVotesAncestries self chain.unvisited
        else (self, .ok ())

end Cumulus.HeaderChain
