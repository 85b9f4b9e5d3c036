import Cumulus.HeaderChain.Ancestry

/-!
# The verification loop, for any callbacks

The facts about `JustificationVerifier::verify_justification` that do not depend on the callbacks:

* `precommitStep_of_valid` — a vote below the threshold, of a known authority that the callbacks
  let through, with a route and a valid signature, is counted: its route is marked and its weight
  added;
* `precommitsLoop_cons_eq_ok`, `precommitsLoop_cons_of_ok` — the loop goes through the precommits
  one turn at a time;
* `verifyJustification_eq_ok` — what an accepted justification went through.

`Counted` names the conditions under which the strict verifier and the optimizer count a vote.
-/

namespace Cumulus.HeaderChain

open Cumulus.Found

variable {H A S σ : Type} [DecidableEq H]
  (v : JustificationVerifier σ H A S) (checkSignature : Precommit H → A → S → Nat → Nat → Bool)
  (context : JustificationVerificationContext A) (round : Nat)

/-- A vote is counted from the set `votes` of authorities that have voted: the threshold is not
reached yet, the authority is in the voter set with weight `weight` and has not voted, the
precommit's target has the route `route` to the commit target, and the signature is valid. -/
structure Counted [DecidableEq A] (votes : Finset A) (chain : AncestryChain H)
    (cumulativeWeight : BitVec 64) (signed : SignedPrecommit H A S) (weight : BitVec 64)
    (route : List H) : Prop where
  below : cumulativeWeight < context.voterSet.threshold
  known : context.voterSet.get signed.id = some weight
  fresh : signed.id ∉ votes
  route : chain.ancestry signed.precommit.targetHash signed.precommit.targetNumber = some (some route)
  signed :
    checkSignature signed.precommit signed.id signed.signature round context.authoritySetId = true

variable {v checkSignature context round}

/-! ## One turn -/

/-- **A valid vote is counted.** -/
theorem precommitStep_of_valid {precommitIdx : Nat} {signed : SignedPrecommit H A S}
    {self self' : σ} {chain : AncestryChain H} {cumulativeWeight weight : BitVec 64}
    {route : List H} (hbelow : cumulativeWeight < context.voterSet.threshold)
    (hknown : context.voterSet.get signed.id = some weight)
    (hrun : v.processKnownAuthorityVote self precommitIdx signed = (self', .ok .run))
    (hroute :
      chain.ancestry signed.precommit.targetHash signed.precommit.targetNumber = some (some route))
    (hsigned :
      checkSignature signed.precommit signed.id signed.signature round context.authoritySetId) :
    precommitStep v checkSignature context round precommitIdx signed self chain cumulativeWeight =
      some (v.processValidVote self' signed,
        .ok (chain.markRouteAsVisited route, saturatingAdd cumulativeWeight weight)) := by
  have hnot : ¬ cumulativeWeight ≥ context.voterSet.threshold := BitVec.not_le.mpr hbelow
  simp only [precommitStep, hnot, if_false, hknown, hrun, countVote, hroute, Option.map_some,
    Option.isNone_some, Bool.false_eq_true, hsigned, Bool.not_true]

/-! ## The loop -/

section loop

variable {precommitIdx : Nat} {signed : SignedPrecommit H A S}
  {precommits : List (SignedPrecommit H A S)} {self self' : σ} {chain chain' : AncestryChain H}
  {cumulativeWeight cumulativeWeight' : BitVec 64}

/-- A loop that ends without an error went through its first turn without one. -/
theorem precommitsLoop_cons_eq_ok
    (h : precommitsLoop v checkSignature context round precommitIdx self chain cumulativeWeight
      (signed :: precommits) = some (self', .ok (chain', cumulativeWeight'))) :
    ∃ self₁ chain₁ cumulativeWeight₁,
      precommitStep v checkSignature context round precommitIdx signed self chain
        cumulativeWeight = some (self₁, .ok (chain₁, cumulativeWeight₁)) ∧
      precommitsLoop v checkSignature context round (precommitIdx + 1) self₁ chain₁
        cumulativeWeight₁ precommits = some (self', .ok (chain', cumulativeWeight')) := by
  simp only [precommitsLoop, Option.bind_eq_some_iff] at h
  obtain ⟨⟨self₁, result⟩, hstep, hrest⟩ := h
  cases result with
  | error e => cases hrest
  | ok result =>
    obtain ⟨chain₁, cumulativeWeight₁⟩ := result
    exact ⟨self₁, chain₁, cumulativeWeight₁, hstep, hrest⟩

/-- After a turn without an error the loop goes on with the next precommit. -/
theorem precommitsLoop_cons_of_ok {self₁ : σ} {chain₁ : AncestryChain H}
    {cumulativeWeight₁ : BitVec 64}
    (hstep : precommitStep v checkSignature context round precommitIdx signed self chain
      cumulativeWeight = some (self₁, .ok (chain₁, cumulativeWeight₁))) :
    precommitsLoop v checkSignature context round precommitIdx self chain cumulativeWeight
        (signed :: precommits) =
      precommitsLoop v checkSignature context round (precommitIdx + 1) self₁ chain₁
        cumulativeWeight₁ precommits := by
  simp only [precommitsLoop, hstep, Option.bind_some]

end loop

/-- **What an accepted justification went through.** It is for the expected target, and the loop
over its precommits ended without an error, at or above the threshold; the ancestry headers left
unvisited, if any, went to the callback that accepted them. -/
theorem verifyJustification_eq_ok {self self' : σ} {finalizedTarget : H × Nat}
    {justification : GrandpaJustification H A S}
    (h : v.verifyJustification checkSignature self finalizedTarget context justification =
      some (self', .ok ())) :
    (justification.commit.targetHash, justification.commit.targetNumber) = finalizedTarget ∧
      ∃ self₁ chain cumulativeWeight,
        precommitsLoop v checkSignature context justification.round 0 self
          (AncestryChain.new justification) 0 justification.commit.precommits =
            some (self₁, .ok (chain, cumulativeWeight)) ∧
        context.voterSet.threshold ≤ cumulativeWeight ∧
        (chain.isFullyVisited = true ∧ self' = self₁ ∨
          chain.isFullyVisited = false ∧
            v.processRedundantVotesAncestries self₁ chain.unvisited = (self', .ok ())) := by
  unfold JustificationVerifier.verifyJustification at h
  split_ifs at h with htarget
  · cases h
  refine ⟨not_not.mp htarget, ?_⟩
  obtain ⟨⟨self₁, result⟩, hloop, hverdict⟩ := Option.map_eq_some_iff.mp h
  cases result with
  | error e => cases hverdict
  | ok result =>
    obtain ⟨chain, cumulativeWeight⟩ := result
    refine ⟨self₁, chain, cumulativeWeight, hloop, ?_⟩
    dsimp only at hverdict
    split_ifs at hverdict with hlow hvisited
    · cases hverdict
    · exact ⟨BitVec.not_lt.mp hlow, .inr ⟨by simpa using hvisited, hverdict⟩⟩
    · cases hverdict
      exact ⟨BitVec.not_lt.mp hlow, .inl ⟨by simpa using hvisited, rfl⟩⟩

end Cumulus.HeaderChain
