import Cumulus.HeaderChain.Justification
import Cumulus.Found.SortedMap
import Cumulus.Found.Storage

/-!
# The three justification verifiers

* the strict verifier (`verifyJustification`), which rejects all unknown, duplicate or redundant
  votes, unrelated or badly signed ones, and ancestry headers no vote needs;
* the optimizer (`verifyAndOptimizeJustification`), which records the index of every such vote and
  the unneeded headers, and then removes them from the justification;
* the equivocation collector (`findEquivocations`), which lets every vote through and keeps, for
  each authority, its first validly signed vote or the first two different ones.

Source: `bridges/primitives/header-chain/src/justification/verification/strict.rs`,
`.../verification/optimizer.rs`, `.../verification/equivocation.rs`
-/

namespace Cumulus.HeaderChain

open Cumulus.Found

variable {H A S : Type} [DecidableEq H]
  (checkSignature : Precommit H → A → S → Nat → Nat → Bool)

/-! ## The strict verifier -/

section strict

variable [DecidableEq A]

/-- Verification callbacks that reject all unknown, duplicate or redundant votes; the state is the
set of authorities that have voted.
Source: `StrictJustificationVerifier` -/
def strictJustificationVerifier : JustificationVerifier (Finset A) H A S where
  processRedundantVote votes _ := (votes, .error .redundantAuthorityVote)
  processKnownAuthorityVote votes _ signed :=
    -- only the first vote from the authority is accepted
    if signed.id ∈ votes then (votes, .error .duplicateAuthorityVote) else (votes, .ok .run)
  processUnknownAuthorityVote votes _ := (votes, .error .unknownAuthorityVote)
  processUnrelatedAncestryVote votes _ := (votes, .error .unrelatedAncestryVote)
  processInvalidSignatureVote votes _ := (votes, .error .invalidAuthoritySignature)
  processValidVote votes signed := insert signed.id votes
  processRedundantVotesAncestries votes _ := (votes, .error .redundantVotesAncestries)

/-- Verify that justification, that is generated by given authority set, finalizes given header.
Source: `strict::verify_justification` -/
def verifyJustification (finalizedTarget : H × Nat) (context : JustificationVerificationContext A)
    (justification : GrandpaJustification H A S) : Option (Except Error Unit) :=
  (strictJustificationVerifier.verifyJustification checkSignature ∅ finalizedTarget context
    justification).map Prod.snd

end strict

/-! ## The optimizer -/

section optimizer

variable [DecidableEq A]

/-- The optimizer's state: the authorities that have voted, the indices of the precommits to
remove, and the ancestry headers to remove.
Source: `JustificationOptimizer` -/
structure JustificationOptimizer (H A : Type) where
  votes : Finset A
  extraPrecommits : List Nat
  redundantVotesAncestries : Finset H

/-- Verification callbacks for justification optimization: every vote the strict verifier rejects
is recorded and skipped.
Source: `impl JustificationVerifier for JustificationOptimizer` -/
def justificationOptimizer : JustificationVerifier (JustificationOptimizer H A) H A S where
  processRedundantVote self precommitIdx :=
    ({ self with extraPrecommits := self.extraPrecommits ++ [precommitIdx] }, .ok .skip)
  processKnownAuthorityVote self precommitIdx signed :=
    -- skip duplicate votes
    if signed.id ∈ self.votes then
      ({ self with extraPrecommits := self.extraPrecommits ++ [precommitIdx] }, .ok .skip)
    else (self, .ok .run)
  processUnknownAuthorityVote self precommitIdx :=
    ({ self with extraPrecommits := self.extraPrecommits ++ [precommitIdx] }, .ok ())
  processUnrelatedAncestryVote self precommitIdx :=
    ({ self with extraPrecommits := self.extraPrecommits ++ [precommitIdx] }, .ok .skip)
  processInvalidSignatureVote self precommitIdx :=
    ({ self with extraPrecommits := self.extraPrecommits ++ [precommitIdx] }, .ok ())
  processValidVote self signed := { self with votes := insert signed.id self.votes }
  processRedundantVotesAncestries self redundantVotesAncestries :=
    ({ self with redundantVotesAncestries }, .ok ())

/-- Remove the recorded precommits, from the last index to the first, and the recorded headers.
`Vec::remove` panics on an index out of bounds.
Source: `JustificationOptimizer::optimize` -/
def JustificationOptimizer.optimize (self : JustificationOptimizer H A)
    (justification : GrandpaJustification H A S) : Option (GrandpaJustification H A S) :=
  (self.extraPrecommits.reverse.foldlM removeAt justification.commit.precommits).map
    fun precommits =>
      { justification with
        commit := { justification.commit with precommits }
        votesAncestries :=
          if self.redundantVotesAncestries ≠ ∅ then
            justification.votesAncestries.filter
              fun header => header.hash ∉ self.redundantVotesAncestries
          else justification.votesAncestries }

/-- Verify and optimize given justification by removing unknown and duplicate votes: the
optimized justification, or the error of the verification.
Source: `verify_and_optimize_justification` -/
def verifyAndOptimizeJustification (finalizedTarget : H × Nat)
    (context : JustificationVerificationContext A) (justification : GrandpaJustification H A S) :
    Option (Except Error (GrandpaJustification H A S)) :=
  match justificationOptimizer.verifyJustification checkSignature ⟨∅, [], ∅⟩ finalizedTarget
      context justification with
  | none => none
  | some (_, .error e) => some (.error e)
  | some (optimizer, .ok ()) => (optimizer.optimize justification).map .ok

end optimizer

/-! ## The equivocation collector -/

section equivocation

variable [LinearOrder A]

/-- Two different precommits of one authority in one round.
Source: `finality_grandpa::Equivocation` -/
structure Equivocation (A H S : Type) where
  roundNumber : Nat
  identity : A
  first : Precommit H × S
  second : Precommit H × S

/-- What is known of an authority's votes: its first one, or an equivocation.
Source: `AuthorityVotes` -/
inductive AuthorityVotes (H A S : Type) where
  | singleVote (signed : SignedPrecommit H A S)
  | equivocation (equivocation : Equivocation A H S)

/-- A proof of a precommit equivocation in an authority set.
Source: `sp_consensus_grandpa::EquivocationProof` -/
structure EquivocationProof (A H S : Type) where
  setId : Nat
  equivocation : Equivocation A H S

/-- Structure that can extract equivocations from multiple GRANDPA justifications.
Source: `EquivocationsCollector` -/
structure EquivocationsCollector (H A S : Type) [LinearOrder A] where
  round : Nat
  context : JustificationVerificationContext A
  votes : SortedMap A (AuthorityVotes H A S)

/-- Record a validly signed vote: the first vote of an authority, or the equivocation of the first
vote and a different one.
Source: `EquivocationsCollector::process_valid_vote` -/
def EquivocationsCollector.processValidVote (self : EquivocationsCollector H A S)
    (signed : SignedPrecommit H A S) : EquivocationsCollector H A S :=
  match self.votes.get? signed.id with
  | some (.singleVote firstVote) =>
    if firstVote.precommit ≠ signed.precommit then
      { self with votes := self.votes.insert signed.id (.equivocation
          ⟨self.round, signed.id, (firstVote.precommit, firstVote.signature),
            (signed.precommit, signed.signature)⟩) }
    else self
  | some (.equivocation _) => self
  | none => { self with votes := self.votes.insert signed.id (.singleVote signed) }

/-- Verification callbacks of the collector: every vote goes through.
Source: `impl JustificationVerifier for EquivocationsCollector` -/
def equivocationsCollector : JustificationVerifier (EquivocationsCollector H A S) H A S where
  processRedundantVote self _ := (self, .ok .run)
  processKnownAuthorityVote self _ _ := (self, .ok .run)
  processUnknownAuthorityVote self _ := (self, .ok ())
  processUnrelatedAncestryVote self _ := (self, .ok .run)
  processInvalidSignatureVote self _ := (self, .ok ())
  processValidVote := EquivocationsCollector.processValidVote
  processRedundantVotesAncestries self _ := (self, .ok ())

/-- Create a new instance of `EquivocationsCollector`, with the votes of the base justification,
which must verify.
Source: `EquivocationsCollector::new` -/
def EquivocationsCollector.new (context : JustificationVerificationContext A)
    (baseJustification : GrandpaJustification H A S) :
    Option (Except Error (EquivocationsCollector H A S)) :=
  let checker : EquivocationsCollector H A S := ⟨baseJustification.round, context, .empty⟩
  (equivocationsCollector.verifyJustification checkSignature checker
    (baseJustification.commit.targetHash, baseJustification.commit.targetNumber) checker.context
    baseJustification).map fun
    | (checker, .ok ()) => .ok checker
    | (_, .error e) => .error e

/-- Parse additional justifications for equivocations: those of the same round, whatever their
verdict.
Source: `EquivocationsCollector::parse_justifications` -/
def EquivocationsCollector.parseJustifications (self : EquivocationsCollector H A S)
    (justifications : List (GrandpaJustification H A S)) :
    Option (EquivocationsCollector H A S) :=
  (justifications.filter fun justification => self.round = justification.round).foldlM
    (fun self justification =>
      -- the errors are ignored: only the collected votes matter
      (equivocationsCollector.verifyJustification checkSignature self
        (justification.commit.targetHash, justification.commit.targetNumber) self.context
        justification).map Prod.fst)
    self

/-- Extract the equivocation proofs that have been collected, in the order of the authorities.
Source: `EquivocationsCollector::into_equivocation_proofs` -/
def EquivocationsCollector.intoEquivocationProofs (self : EquivocationsCollector H A S) :
    List (EquivocationProof A H S) :=
  self.votes.entries.filterMap fun
    | (_, .equivocation equivocation) => some ⟨self.context.authoritySetId, equivocation⟩
    | (_, .singleVote _) => none

/-- Find the equivocations of the authorities across a synced justification and source ones.
Source: `GrandpaEquivocationsFinder::find_equivocations` -/
def findEquivocations (verificationContext : JustificationVerificationContext A)
    (syncedProof : GrandpaJustification H A S) (sourceProofs : List (GrandpaJustification H A S)) :
    Option (Except Error (List (EquivocationProof A H S))) :=
  match EquivocationsCollector.new checkSignature verificationContext syncedProof with
  | none => none
  | some (.error e) => some (.error e)
  | some (.ok equivocationsCollector) =>
    (equivocationsCollector.parseJustifications checkSignature sourceProofs).map fun collector =>
      .ok collector.intoEquivocationProofs

end equivocation

end Cumulus.HeaderChain
