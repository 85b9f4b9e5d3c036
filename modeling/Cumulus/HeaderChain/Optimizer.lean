import Cumulus.HeaderChain.Strict

/-!
# The optimizer refines the strict verifier

The optimizer runs the loop of the strict verifier, but where the strict verifier would reject a
vote it records its index and skips it; at the end it records the ancestry headers no counted vote
visited. Each turn either counts the vote, exactly as the strict verifier would, or records it
(`optimizer_precommitStep_eq_some`).

The strict verifier run on the optimized justification goes through the counted votes only, with
the chain of the headers that were visited (`AncestryChain.restrict`): a counted vote's route goes
through headers that are visited from then on, so the same route is found without the others
(`ancestry_restrict`), and the run ends where the optimizer's did (`optimizer_precommitsLoop_sim`).
Conversely, on a justification the strict verifier accepts, every vote is counted and the
optimizer removes nothing (`optimizer_precommitsLoop_of_strict`).
-/

namespace Cumulus.HeaderChain

open Cumulus.Found

variable {H A S : Type} [DecidableEq H] [DecidableEq A]
  {checkSignature : Precommit H → A → S → Nat → Nat → Bool}
  {context : JustificationVerificationContext A} {round : Nat}

/-- Marking a route as visited commutes with restricting the chain. -/
theorem restrict_markRouteAsVisited (chain : AncestryChain H) (U : Finset H) (route : List H) :
    (chain.markRouteAsVisited route).restrict U = (chain.restrict U).markRouteAsVisited route := by
  have hunvisited : ((chain.markRouteAsVisited route).restrict U).unvisited =
      ((chain.restrict U).markRouteAsVisited route).unvisited := by
    ext h
    simp only [AncestryChain.restrict, Finset.mem_sdiff, mem_unvisited_markRouteAsVisited]
    tauto
  exact congrArg (AncestryChain.mk chain.base _) hunvisited

/-! ## One turn -/

section step

variable {precommitIdx : Nat} {signed : SignedPrecommit H A S}
  {self self' : JustificationOptimizer H A} {chain : AncestryChain H}
  {cumulativeWeight weight : BitVec 64} {route : List H}

/-- A precommit that counts is kept by the optimizer, as by the strict verifier. -/
theorem optimizer_precommitStep_of_counted
    (h : Counted checkSignature context round self.votes chain cumulativeWeight signed weight
      route) :
    precommitStep justificationOptimizer checkSignature context round precommitIdx signed self
        chain cumulativeWeight =
      some ({ self with votes := insert signed.id self.votes },
        .ok (chain.markRouteAsVisited route, saturatingAdd cumulativeWeight weight)) :=
  precommitStep_of_valid h.below h.known
    (by simp only [justificationOptimizer, h.fresh, if_false]) h.route h.signed

/-- **One turn of the optimizer** counts the vote as the strict verifier does, or records its
index and leaves the chain and the weight as they were. -/
theorem optimizer_precommitStep_eq_some
    {result : Except PrecommitError (AncestryChain H × BitVec 64)}
    (h : precommitStep justificationOptimizer checkSignature context round precommitIdx signed
      self chain cumulativeWeight = some (self', result)) :
    (∃ weight route,
      Counted checkSignature context round self.votes chain cumulativeWeight signed weight route ∧
        self' = { self with votes := insert signed.id self.votes } ∧
        result = .ok (chain.markRouteAsVisited route, saturatingAdd cumulativeWeight weight)) ∨
      self' = { self with extraPrecommits := self.extraPrecommits ++ [precommitIdx] } ∧
        result = .ok (chain, cumulativeWeight) := by
  unfold precommitStep at h
  by_cases hbelow : cumulativeWeight ≥ context.voterSet.threshold
  · -- a vote after the threshold is reached
    simp only [hbelow, if_true, justificationOptimizer, Option.some.injEq, Prod.mk.injEq] at h
    exact .inr ⟨h.1.symm, h.2.symm⟩
  rcases hknown : context.voterSet.get signed.id with _ | weight
  · simp only [hbelow, if_false, hknown, justificationOptimizer, Except.map, Option.some.injEq,
      Prod.mk.injEq] at h
    exact .inr ⟨h.1.symm, h.2.symm⟩
  by_cases hfresh : signed.id ∈ self.votes
  · -- a duplicate vote
    simp only [hbelow, if_false, hknown, justificationOptimizer, hfresh, if_true,
      Option.some.injEq, Prod.mk.injEq] at h
    exact .inr ⟨h.1.symm, h.2.symm⟩
  simp only [hbelow, if_false, hknown, justificationOptimizer, hfresh, countVote] at h
  rcases hroute : chain.ancestry signed.precommit.targetHash signed.precommit.targetNumber
    with _ | _ | route
  · simp [hroute] at h
  · -- an unrelated vote
    simp only [hroute, Option.map_some, Option.isNone_none, if_true, Option.some.injEq,
      Prod.mk.injEq] at h
    exact .inr ⟨h.1.symm, h.2.symm⟩
  by_cases hsigned :
      checkSignature signed.precommit signed.id signed.signature round context.authoritySetId
  · simp only [hroute, hsigned, Option.map_some, Option.isNone_some, Bool.false_eq_true,
      if_false, Bool.not_true, Option.some.injEq, Prod.mk.injEq] at h
    exact .inl ⟨weight, route, ⟨BitVec.not_le.mp hbelow, hknown, hfresh, hroute, hsigned⟩,
      h.1.symm, h.2.symm⟩
  · -- an invalid signature
    simp only [hroute, hsigned, Option.map_some, Option.isNone_some, Bool.false_eq_true,
      if_false, Bool.not_false, if_true, Except.map, Option.some.injEq, Prod.mk.injEq] at h
    exact .inr ⟨h.1.symm, h.2.symm⟩

end step

/-! ## The loop -/

/-- **The optimizer's loop, seen by the strict verifier.** The optimizer's loop records increasing
indices of its precommits; the strict verifier, run on the other precommits with the chain
without headers left unvisited at the end, ends where the optimizer did. -/
theorem optimizer_precommitsLoop_sim {precommitIdx : Nat}
    {precommits : List (SignedPrecommit H A S)} {self self' : JustificationOptimizer H A}
    {chain : AncestryChain H} {cumulativeWeight : BitVec 64}
    {result : Except PrecommitError (AncestryChain H × BitVec 64)}
    (h : precommitsLoop justificationOptimizer checkSignature context round precommitIdx self
      chain cumulativeWeight precommits = some (self', result)) :
    ∃ chain' cumulativeWeight' extra, result = .ok (chain', cumulativeWeight') ∧
      self'.extraPrecommits = self.extraPrecommits ++ extra ∧
      self'.redundantVotesAncestries = self.redundantVotesAncestries ∧
      extra.Pairwise (· < ·) ∧
      (∀ i ∈ extra, precommitIdx ≤ i ∧ i < precommitIdx + precommits.length) ∧
      chain'.unvisited ⊆ chain.unvisited ∧
      ∀ U, U ⊆ chain'.unvisited → ∀ strictIdx,
        precommitsLoop strictJustificationVerifier checkSignature context round strictIdx
            self.votes (chain.restrict U) cumulativeWeight
            (dropIndices extra precommitIdx precommits) =
          some (self'.votes, .ok (chain'.restrict U, cumulativeWeight')) := by
  induction precommits generalizing precommitIdx self chain cumulativeWeight with
  | nil =>
    cases h
    refine ⟨chain, cumulativeWeight, [], rfl, by simp, rfl, List.Pairwise.nil, by simp,
      subset_rfl, fun U _ strictIdx => rfl⟩
  | cons signed precommits ih =>
    simp only [precommitsLoop, Option.bind_eq_some_iff] at h
    obtain ⟨⟨self₁, result₁⟩, hstep, hrest⟩ := h
    rcases optimizer_precommitStep_eq_some hstep with
      ⟨weight, route, hcounted, rfl, rfl⟩ | ⟨rfl, rfl⟩
    · -- a counted vote: the strict verifier counts it too, with the same route
      obtain ⟨chain', cumulativeWeight', extra, rfl, hextra, hredundant, hsorted, hbounds,
        hsubset, hsim⟩ := ih hrest
      have hidx : precommitIdx ∉ extra := fun hi => by have := (hbounds _ hi).1; omega
      refine ⟨chain', cumulativeWeight', extra, rfl, hextra, hredundant, hsorted,
        fun i hi => ⟨by have := (hbounds i hi).1; omega, by
          have := (hbounds i hi).2; simp only [List.length_cons]; omega⟩,
        fun x hx => (mem_unvisited_markRouteAsVisited.mp (hsubset hx)).1, ?_⟩
      intro U hU strictIdx
      have hU₁ : U ⊆ chain.unvisited := fun x hx =>
        (mem_unvisited_markRouteAsVisited.mp (hsubset (hU hx))).1
      have hroute : ∀ x ∈ route, x ∉ U := fun x hx hxU =>
        (mem_unvisited_markRouteAsVisited.mp (hsubset (hU hxU))).2 hx
      have hcounted' : Counted checkSignature context round self.votes (chain.restrict U)
          cumulativeWeight signed weight route :=
        ⟨hcounted.below, hcounted.known, hcounted.fresh, ancestry_restrict hU₁ hcounted.route hroute,
          hcounted.signed⟩
      rw [dropIndices_cons, if_neg hidx, List.singleton_append,
        precommitsLoop_cons_of_ok (strict_precommitStep_of_counted hcounted'),
        ← restrict_markRouteAsVisited]
      exact hsim U hU (strictIdx + 1)
    · -- a recorded vote: the strict verifier does not see it
      obtain ⟨chain', cumulativeWeight', extra, rfl, hextra, hredundant, hsorted, hbounds,
        hsubset, hsim⟩ := ih hrest
      refine ⟨chain', cumulativeWeight', precommitIdx :: extra, rfl, by simp [hextra],
        hredundant, List.pairwise_cons.mpr ⟨fun i hi => by have := (hbounds i hi).1; omega,
          hsorted⟩, ?_, hsubset, ?_⟩
      · intro i hi
        rcases List.mem_cons.mp hi with rfl | hi
        · simp
        · have := hbounds i hi
          simp only [List.length_cons]
          omega
      · intro U hU strictIdx
        rw [dropIndices_cons, if_pos List.mem_cons_self, List.nil_append,
          dropIndices_cons_of_lt (Nat.lt_succ_self _)]
        exact hsim U hU strictIdx

/-- **On what the strict verifier accepts, the optimizer counts every vote.** -/
theorem optimizer_precommitsLoop_of_strict {precommitIdx strictIdx : Nat}
    {precommits : List (SignedPrecommit H A S)} {self : JustificationOptimizer H A}
    {votes' : Finset A} {chain chain' : AncestryChain H}
    {cumulativeWeight cumulativeWeight' : BitVec 64}
    (h : precommitsLoop strictJustificationVerifier checkSignature context round strictIdx
      self.votes chain cumulativeWeight precommits =
        some (votes', .ok (chain', cumulativeWeight'))) :
    precommitsLoop justificationOptimizer checkSignature context round precommitIdx self chain
        cumulativeWeight precommits =
      some ({ self with votes := votes' }, .ok (chain', cumulativeWeight')) := by
  induction precommits generalizing precommitIdx strictIdx self chain cumulativeWeight with
  | nil =>
    cases h
    rfl
  | cons signed precommits ih =>
    obtain ⟨votes₁, chain₁, cumulativeWeight₁, hstep, hrest⟩ := precommitsLoop_cons_eq_ok h
    obtain ⟨weight, route, hcounted, rfl, rfl, rfl⟩ := strict_precommitStep_eq_ok hstep
    rw [precommitsLoop_cons_of_ok (optimizer_precommitStep_of_counted hcounted)]
    exact @ih _ _ { self with votes := insert signed.id self.votes } _ _ hrest

/-! ## The optimized justification -/

omit [DecidableEq A] in
/-- Removing increasing indices in bounds keeps the other precommits. -/
theorem optimize_eq_some {self : JustificationOptimizer H A}
    {justification : GrandpaJustification H A S} (hsorted : self.extraPrecommits.Pairwise (· < ·))
    (hlt : ∀ i ∈ self.extraPrecommits, i < justification.commit.precommits.length) :
    self.optimize justification = some { justification with
      commit := { justification.commit with
        precommits := dropIndices self.extraPrecommits 0 justification.commit.precommits }
      votesAncestries :=
        if self.redundantVotesAncestries ≠ ∅ then
          justification.votesAncestries.filter
            fun header => header.hash ∉ self.redundantVotesAncestries
        else justification.votesAncestries } := by
  rw [JustificationOptimizer.optimize, foldlM_removeAt_reverse hsorted hlt, Option.map_some]

/-- The headers the optimizer keeps are the visited ones, whether or not it recorded any. -/
theorem filter_redundant_eq {redundant unvisited : Finset H}
    (h : redundant = ∅ ∧ unvisited = ∅ ∨ redundant = unvisited)
    (votesAncestries : List (AncestryHeader H)) :
    (if redundant ≠ ∅ then votesAncestries.filter fun header => header.hash ∉ redundant
      else votesAncestries) = votesAncestries.filter fun header => header.hash ∉ unvisited := by
  rcases h with ⟨rfl, rfl⟩ | rfl
  · simp
  · split_ifs with hempty
    · rfl
    · rw [not_not.mp hempty]
      simp

/-- **What the optimizer returns.** An optimized justification is the justification without the
recorded precommits, at increasing indices in bounds, and without the headers left unvisited at
the end of the loop, which the strict verifier goes through on the other precommits to an
accepted end. -/
theorem verifyAndOptimizeJustification_eq_ok {finalizedTarget : H × Nat}
    {justification optimized : GrandpaJustification H A S}
    (h : verifyAndOptimizeJustification checkSignature finalizedTarget context justification =
      some (.ok optimized)) :
    verifyJustification checkSignature finalizedTarget context optimized = some (.ok ()) ∧
      ∃ (extra : List Nat) (unvisited : Finset H), optimized = { justification with
        commit := { justification.commit with
          precommits := dropIndices extra 0 justification.commit.precommits }
        votesAncestries :=
          justification.votesAncestries.filter fun header => header.hash ∉ unvisited } := by
  unfold verifyAndOptimizeJustification at h
  split at h
  · cases h
  · cases h
  rename_i optimizer hverify
  obtain ⟨htarget, self₁, chain, cumulativeWeight, hloop, habove, hvisited⟩ :=
    verifyJustification_eq_ok hverify
  obtain ⟨chain', cumulativeWeight', extra, hresult, hextra, hredundant, hsorted, hbounds, -,
    hsim⟩ := optimizer_precommitsLoop_sim hloop
  cases hresult
  -- the optimizer's state at the end: the recorded indices, and the unvisited headers if any
  have hfinal : optimizer.extraPrecommits = extra ∧
      (optimizer.redundantVotesAncestries = ∅ ∧ chain.unvisited = ∅ ∨
        optimizer.redundantVotesAncestries = chain.unvisited) := by
    rcases hvisited with ⟨hfull, rfl⟩ | ⟨-, hredundant'⟩
    · exact ⟨hextra, .inl ⟨hredundant, by simpa [AncestryChain.isFullyVisited] using hfull⟩⟩
    · simp only [justificationOptimizer, Prod.mk.injEq] at hredundant'
      rw [← hredundant'.1]
      exact ⟨hextra, .inr rfl⟩
  rw [optimize_eq_some (hfinal.1 ▸ hsorted) (fun i hi => by
      have := hbounds i (hfinal.1 ▸ hi); omega),
    filter_redundant_eq hfinal.2, hfinal.1, Option.map_some] at h
  cases h
  refine ⟨?_, extra, chain.unvisited, rfl⟩
  -- the strict verifier on the optimized justification
  have hnew := new_filter_votesAncestries justification chain.unvisited
  have hstrict := hsim chain.unvisited subset_rfl 0
  simp only [verifyJustification, JustificationVerifier.verifyJustification]
  rw [if_neg (by simpa using htarget)]
  change Option.map _ (Option.map _ (precommitsLoop _ _ _ _ _ _
    (AncestryChain.new { justification with
      votesAncestries := justification.votesAncestries.filter
        fun header => header.hash ∉ chain.unvisited }) _ _)) = _
  rw [hnew, hstrict]
  have hfull : (chain.restrict chain.unvisited).isFullyVisited = true := by
    simp [AncestryChain.isFullyVisited, AncestryChain.restrict]
  simp [BitVec.not_lt.mpr habove, hfull]

/-- **A justification the strict verifier accepts is left as it is.** -/
theorem verifyAndOptimizeJustification_of_strict {finalizedTarget : H × Nat}
    {justification : GrandpaJustification H A S}
    (h : verifyJustification checkSignature finalizedTarget context justification =
      some (.ok ())) :
    verifyAndOptimizeJustification checkSignature finalizedTarget context justification =
      some (.ok justification) := by
  obtain ⟨⟨votes, verdict⟩, hverify, rfl⟩ := Option.map_eq_some_iff.mp h
  obtain ⟨htarget, votes₁, chain, cumulativeWeight, hloop, habove, hvisited⟩ :=
    verifyJustification_eq_ok hverify
  have hfull : chain.isFullyVisited = true := by
    rcases hvisited with ⟨hfull, -⟩ | ⟨-, hredundant⟩
    · exact hfull
    · cases hredundant
  have hoptimizer : precommitsLoop justificationOptimizer checkSignature context
      justification.round 0 (⟨∅, [], ∅⟩ : JustificationOptimizer H A)
      (AncestryChain.new justification) 0 justification.commit.precommits =
        some (⟨votes₁, [], ∅⟩, .ok (chain, cumulativeWeight)) :=
    optimizer_precommitsLoop_of_strict hloop
  simp only [verifyAndOptimizeJustification, JustificationVerifier.verifyJustification]
  rw [if_neg (by simpa using htarget), hoptimizer]
  simp [BitVec.not_lt.mpr habove, hfull, JustificationOptimizer.optimize]

/-- **The optimizer refines the strict verifier.** What the optimizer returns is accepted by the
strict verifier, for the same target and context; it keeps the round and the commit target, and
some of the precommits and ancestry headers, in order. And a justification the strict verifier
accepts is returned unchanged. -/
theorem verifyAndOptimizeJustification_refines {finalizedTarget : H × Nat}
    {justification : GrandpaJustification H A S} :
    (∀ optimized,
      verifyAndOptimizeJustification checkSignature finalizedTarget context justification =
          some (.ok optimized) →
        verifyJustification checkSignature finalizedTarget context optimized = some (.ok ()) ∧
        optimized.commit.precommits.Sublist justification.commit.precommits ∧
        optimized.votesAncestries.Sublist justification.votesAncestries ∧
        optimized.round = justification.round ∧
        optimized.commit.targetHash = justification.commit.targetHash ∧
        optimized.commit.targetNumber = justification.commit.targetNumber) ∧
    (verifyJustification checkSignature finalizedTarget context justification = some (.ok ()) →
      verifyAndOptimizeJustification checkSignature finalizedTarget context justification =
        some (.ok justification)) := by
  refine ⟨fun optimized h => ?_, verifyAndOptimizeJustification_of_strict⟩
  obtain ⟨hstrict, extra, unvisited, rfl⟩ := verifyAndOptimizeJustification_eq_ok h
  exact ⟨hstrict, dropIndices_sublist _ _ _, List.filter_sublist, rfl, rfl, rfl⟩

/-- `twoVotes` with a second vote of authority `1` and an ancestry header that no vote needs. -/
def twoVotesPadded : GrandpaJustification Nat Nat Bool :=
  ⟨1, ⟨10, 5, [⟨⟨11, 6⟩, true, 0⟩, ⟨⟨10, 5⟩, true, 1⟩, ⟨⟨11, 6⟩, true, 1⟩]⟩,
    [⟨11, 10⟩, ⟨12, 10⟩]⟩

/-- The optimizer drops the padding of `twoVotesPadded`, and its output passes the strict verifier.
-/
theorem verifyAndOptimizeJustification_refines_twoVotesPadded :
    verifyAndOptimizeJustification signatureVerdict (10, 5) threeVoters twoVotesPadded =
        some (.ok twoVotes) ∧
      verifyJustification signatureVerdict (10, 5) threeVoters twoVotes = some (.ok ()) ∧
      twoVotes.commit.precommits.Sublist twoVotesPadded.commit.precommits ∧
      twoVotes.votesAncestries.Sublist twoVotesPadded.votesAncestries :=
  have h : verifyAndOptimizeJustification signatureVerdict (10, 5) threeVoters twoVotesPadded =
      some (.ok twoVotes) := rfl
  have hrefines := verifyAndOptimizeJustification_refines.1 twoVotes h
  ⟨h, hrefines.1, hrefines.2.1, hrefines.2.2.1⟩

end Cumulus.HeaderChain
