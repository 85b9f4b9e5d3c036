import Cumulus.HeaderChain.Loop
import Cumulus.HeaderChain.Verifiers

/-!
# Soundness of the strict verifier

The strict verifier counts every precommit or rejects the justification, so an accepted
justification is one whose precommits were all counted, in order. `StrictRun` says what the loop
has checked of the precommits it went through: distinct authorities of the voter set, valid
signatures, targets that lead up to the commit target by the parent links of the ancestry headers,
each counted below the threshold; and that every ancestry header visited is on the way from one of
their targets to the commit target. It holds of the empty run and is kept by every counted vote
(`StrictRun.step`), hence by the whole loop (`strictRun_precommitsLoop`).

`verifyJustification_sound` is what acceptance guarantees, stated as `Justified`.
-/

namespace Cumulus.HeaderChain

open Cumulus.Found Relation

variable {H A S : Type} [DecidableEq H] [DecidableEq A]
  {checkSignature : Precommit H → A → S → Nat → Nat → Bool}
  {context : JustificationVerificationContext A} {round : Nat}

/-- The weight of the votes of `precommits`, each by its authority's weight in the voter set. -/
def votesWeight (context : JustificationVerificationContext A)
    (precommits : List (SignedPrecommit H A S)) : Nat :=
  (precommits.map fun signed => ((context.voterSet.get signed.id).getD 0).toNat).sum

omit [DecidableEq H] [DecidableEq A] in
/-- The weight of the votes grows by the weight of a known voter added. -/
theorem votesWeight_append_singleton {precommits : List (SignedPrecommit H A S)}
    {signed : SignedPrecommit H A S} {weight : BitVec 64}
    (hknown : context.voterSet.get signed.id = some weight) :
    votesWeight context (precommits ++ [signed]) = votesWeight context precommits + weight.toNat := by
  simp [votesWeight, hknown]

/-! ## One turn -/

section step

variable {precommitIdx : Nat} {signed : SignedPrecommit H A S} {votes votes' : Finset A}
  {chain chain' : AncestryChain H} {cumulativeWeight cumulativeWeight' weight : BitVec 64}
  {route : List H}

/-- A precommit that counts is added to the votes by the strict verifier, with its weight and its
route marked. -/
theorem strict_precommitStep_of_counted
    (h : Counted checkSignature context round votes chain cumulativeWeight signed weight route) :
    precommitStep strictJustificationVerifier checkSignature context round precommitIdx signed
        votes chain cumulativeWeight =
      some (insert signed.id votes,
        .ok (chain.markRouteAsVisited route, saturatingAdd cumulativeWeight weight)) :=
  precommitStep_of_valid h.below h.known
    (by simp only [strictJustificationVerifier, h.fresh, if_false]) h.route h.signed

/-- **The strict verifier goes on only with a counted vote.** -/
theorem strict_precommitStep_eq_ok
    (h : precommitStep strictJustificationVerifier checkSignature context round precommitIdx
      signed votes chain cumulativeWeight = some (votes', .ok (chain', cumulativeWeight'))) :
    ∃ weight route,
      Counted checkSignature context round votes chain cumulativeWeight signed weight route ∧
        votes' = insert signed.id votes ∧ chain' = chain.markRouteAsVisited route ∧
        cumulativeWeight' = saturatingAdd cumulativeWeight weight := by
  unfold precommitStep at h
  by_cases hbelow : cumulativeWeight ≥ context.voterSet.threshold
  · simp [hbelow, strictJustificationVerifier] at h
  rcases hknown : context.voterSet.get signed.id with _ | weight
  · simp [hbelow, hknown, strictJustificationVerifier, Except.map] at h
  by_cases hfresh : signed.id ∈ votes
  · simp [hbelow, hknown, strictJustificationVerifier, hfresh] at h
  simp only [hbelow, if_false, hknown, strictJustificationVerifier, hfresh, countVote] at h
  rcases hroute : chain.ancestry signed.precommit.targetHash signed.precommit.targetNumber
    with _ | _ | route
  · simp [hroute] at h
  · simp [hroute] at h
  by_cases hsigned :
      checkSignature signed.precommit signed.id signed.signature round context.authoritySetId
  · simp only [hroute, hsigned, Option.map_some, Option.isNone_some, Bool.false_eq_true,
      if_false, Bool.not_true, Option.some.injEq, Prod.mk.injEq, Except.ok.injEq] at h
    obtain ⟨rfl, rfl, rfl⟩ := h
    exact ⟨weight, route, ⟨BitVec.not_le.mp hbelow, hknown, hfresh, hroute, hsigned⟩, rfl, rfl,
      rfl⟩
  · simp [hroute, hsigned, Except.map] at h

end step

/-! ## The run of the loop -/

/-- What the strict loop has checked of the precommits it went through, from the chain `chain₀`
of the justification, with the authorities that voted, the chain and the cumulative weight it has
reached. -/
structure StrictRun (checkSignature : Precommit H → A → S → Nat → Nat → Bool)
    (context : JustificationVerificationContext A) (round : Nat) (chain₀ : AncestryChain H)
    (precommits : List (SignedPrecommit H A S)) (votes : Finset A) (chain : AncestryChain H)
    (cumulativeWeight : BitVec 64) : Prop where
  votes_eq : votes = (precommits.map (·.id)).toFinset
  nodup : (precommits.map (·.id)).Nodup
  valid : ∀ signed ∈ precommits, (context.voterSet.get signed.id).isSome ∧
    checkSignature signed.precommit signed.id signed.signature round context.authoritySetId ∧
    chain₀.base.number ≤ signed.precommit.targetNumber ∧
    ReflTransGen (ParentOf chain₀.parents) signed.precommit.targetHash chain₀.base.hash
  weight : cumulativeWeight.toNat = min (votesWeight context precommits) (2 ^ 64 - 1)
  below : ∀ i < precommits.length,
    votesWeight context (precommits.take i) < context.voterSet.threshold.toNat
  parents : chain.parents = chain₀.parents
  base : chain.base = chain₀.base
  visited : chain.VisitedReachBase
  subset : chain.unvisited ⊆ chain₀.unvisited
  onRoutes : ∀ h ∈ chain₀.unvisited, h ∉ chain.unvisited → ∃ signed ∈ precommits,
    ReflTransGen (ParentOf chain₀.parents) signed.precommit.targetHash h ∧
      ReflTransGen (ParentOf chain₀.parents) h chain₀.base.hash

omit [DecidableEq H] in
/-- Before any precommit, the strict loop has checked nothing. -/
theorem StrictRun.nil {chain₀ : AncestryChain H} (hvis : chain₀.VisitedReachBase) :
    StrictRun checkSignature context round chain₀
      ([] : List (SignedPrecommit H A S)) ∅ chain₀ 0 where
  votes_eq := rfl
  nodup := List.nodup_nil
  valid _ h := absurd h List.not_mem_nil
  weight := rfl
  below _ h := absurd h (Nat.not_lt_zero _)
  parents := rfl
  base := rfl
  visited := hvis
  subset := subset_rfl
  onRoutes _ hmem hnot := absurd hmem hnot

omit [DecidableEq H] in
/-- Below the threshold, the weight of the votes so far is the cumulative weight, unsaturated. -/
theorem StrictRun.votesWeight_lt {chain₀ chain : AncestryChain H}
    {precommits : List (SignedPrecommit H A S)} {votes : Finset A} {cumulativeWeight : BitVec 64}
    (hrun : StrictRun checkSignature context round chain₀ precommits votes chain cumulativeWeight)
    (hbelow : cumulativeWeight < context.voterSet.threshold) :
    votesWeight context precommits < context.voterSet.threshold.toNat := by
  have hlt := BitVec.lt_def.mp hbelow
  have hthreshold := context.voterSet.threshold.isLt
  have hweight := hrun.weight
  omega

/-- **A counted vote keeps the run.** -/
theorem StrictRun.step {chain₀ chain : AncestryChain H}
    {precommits : List (SignedPrecommit H A S)} {votes : Finset A} {cumulativeWeight : BitVec 64}
    {signed : SignedPrecommit H A S} {weight : BitVec 64} {route : List H}
    (hrun : StrictRun checkSignature context round chain₀ precommits votes chain cumulativeWeight)
    (hcounted : Counted checkSignature context round votes chain cumulativeWeight signed weight
      route) :
    StrictRun checkSignature context round chain₀
      (precommits ++ [signed]) (insert signed.id votes) (chain.markRouteAsVisited route)
      (saturatingAdd cumulativeWeight weight) := by
  obtain ⟨hnumber, hreach, hroute⟩ := ancestry_sound hrun.visited hcounted.route
  rw [hrun.parents, hrun.base] at hreach hroute
  rw [hrun.base] at hnumber
  have hfresh : signed.id ∉ precommits.map (·.id) := by
    rw [← List.mem_toFinset, ← hrun.votes_eq]
    exact hcounted.fresh
  refine ⟨?_, ?_, ?_, ?_, ?_, ?_, ?_, ?_, ?_, ?_⟩
  · rw [hrun.votes_eq]
    ext a
    simp
  · rw [List.map_append, List.map_singleton, List.nodup_append]
    refine ⟨hrun.nodup, List.nodup_singleton _, ?_⟩
    intro a ha b hb hab
    rw [List.mem_singleton] at hb
    rw [hab, hb] at ha
    exact hfresh ha
  · intro s hs
    rcases List.mem_append.mp hs with hs | hs
    · exact hrun.valid s hs
    · rw [List.mem_singleton.mp hs]
      exact ⟨by rw [hcounted.known]; rfl, hcounted.signed, hnumber, hreach⟩
  · rw [toNat_saturatingAdd, hrun.weight, votesWeight_append_singleton hcounted.known]
    omega
  · intro i hi
    rw [List.length_append, List.length_singleton] at hi
    rcases Nat.lt_or_eq_of_le (Nat.le_of_lt_succ hi) with hi | rfl
    · rw [List.take_append_of_le_length hi.le]
      exact hrun.below i hi
    · rw [List.take_left' rfl]
      exact hrun.votesWeight_lt hcounted.below
  · exact hrun.parents
  · exact hrun.base
  · exact hrun.visited.markRouteAsVisited fun x hx => by
      rw [hrun.parents, hrun.base]
      exact (hroute x hx).2.1
  · intro h hh
    rw [mem_unvisited_markRouteAsVisited] at hh
    exact hrun.subset hh.1
  · intro h h₀ hh
    rw [mem_unvisited_markRouteAsVisited, not_and_or, not_not] at hh
    rcases hh with hh | hh
    · obtain ⟨s, hs, hsh, hhb⟩ := hrun.onRoutes h h₀ hh
      exact ⟨s, List.mem_append_left _ hs, hsh, hhb⟩
    · obtain ⟨hsh, hhb, -⟩ := hroute h hh
      exact ⟨signed, List.mem_append_right _ (List.mem_singleton_self _), hsh, hhb⟩

/-- **The loop keeps the run.** -/
theorem strictRun_precommitsLoop {chain₀ : AncestryChain H} {precommitIdx : Nat}
    {precommits rest : List (SignedPrecommit H A S)} {votes votes' : Finset A}
    {chain chain' : AncestryChain H} {cumulativeWeight cumulativeWeight' : BitVec 64}
    (hrun : StrictRun checkSignature context round chain₀ precommits votes chain cumulativeWeight)
    (h : precommitsLoop strictJustificationVerifier checkSignature context round precommitIdx
      votes chain cumulativeWeight rest = some (votes', .ok (chain', cumulativeWeight'))) :
    StrictRun checkSignature context round chain₀
      (precommits ++ rest) votes' chain' cumulativeWeight' := by
  induction rest generalizing precommitIdx precommits votes chain cumulativeWeight with
  | nil =>
    cases h
    rwa [List.append_nil]
  | cons signed rest ih =>
    obtain ⟨votes₁, chain₁, cumulativeWeight₁, hstep, hrest⟩ := precommitsLoop_cons_eq_ok h
    obtain ⟨weight, route, hcounted, rfl, rfl, rfl⟩ := strict_precommitStep_eq_ok hstep
    have := ih (hrun.step hcounted) hrest
    rwa [List.append_assoc, List.singleton_append] at this

/-! ## What acceptance guarantees -/

/-- What a justification accepted by the strict verifier guarantees, by the parent links of its
ancestry headers: the authorities of its precommits are distinct authorities of the voter set with
at least the threshold's weight, each with a validly signed precommit for a descendant of the
commit target; every ancestry header is on the way from one of their targets to the commit
target; and no precommit is of an unknown authority, a duplicate, unrelated, badly signed or
after the threshold was reached. -/
structure Justified (checkSignature : Precommit H → A → S → Nat → Nat → Bool)
    (context : JustificationVerificationContext A) (justification : GrandpaJustification H A S) :
    Prop where
  quorum : ∃ authorities : List A, authorities.Nodup ∧
    (∀ a ∈ authorities, (context.voterSet.get a).isSome) ∧
    context.voterSet.threshold.toNat ≤
      (authorities.map fun a => ((context.voterSet.get a).getD 0).toNat).sum ∧
    ∀ a ∈ authorities, ∃ signed ∈ justification.commit.precommits, signed.id = a ∧
      checkSignature signed.precommit a signed.signature justification.round
        context.authoritySetId ∧
      justification.commit.targetNumber ≤ signed.precommit.targetNumber ∧
      ReflTransGen (ParentOf (ancestryParents justification.votesAncestries))
        signed.precommit.targetHash justification.commit.targetHash
  ancestries : ∀ header ∈ justification.votesAncestries,
    ∃ signed ∈ justification.commit.precommits,
      ReflTransGen (ParentOf (ancestryParents justification.votesAncestries))
        signed.precommit.targetHash header.hash ∧
      ReflTransGen (ParentOf (ancestryParents justification.votesAncestries)) header.hash
        justification.commit.targetHash
  precommits : ∀ i signed, justification.commit.precommits[i]? = some signed →
    (context.voterSet.get signed.id).isSome ∧
    signed.id ∉ (justification.commit.precommits.take i).map (·.id) ∧
    checkSignature signed.precommit signed.id signed.signature justification.round
      context.authoritySetId ∧
    justification.commit.targetNumber ≤ signed.precommit.targetNumber ∧
    ReflTransGen (ParentOf (ancestryParents justification.votesAncestries))
      signed.precommit.targetHash justification.commit.targetHash ∧
    votesWeight context (justification.commit.precommits.take i) <
      context.voterSet.threshold.toNat

/-- A run through all the precommits, at or above the threshold and with every ancestry header
visited, justifies. -/
theorem StrictRun.justified {justification : GrandpaJustification H A S}
    {votes : Finset A} {chain : AncestryChain H} {cumulativeWeight : BitVec 64}
    (hrun : StrictRun checkSignature context justification.round (AncestryChain.new justification) justification.commit.precommits
      votes chain cumulativeWeight)
    (habove : context.voterSet.threshold ≤ cumulativeWeight) (hvisited : chain.unvisited = ∅) :
    Justified checkSignature context justification := by
  refine ⟨⟨justification.commit.precommits.map (·.id), hrun.nodup, ?_, ?_, ?_⟩, ?_, ?_⟩
  · intro a ha
    obtain ⟨signed, hs, rfl⟩ := List.mem_map.mp ha
    exact (hrun.valid signed hs).1
  · have hle := BitVec.le_def.mp habove
    have hweight := hrun.weight
    rw [List.map_map]
    change _ ≤ votesWeight context _
    omega
  · intro a ha
    obtain ⟨signed, hs, rfl⟩ := List.mem_map.mp ha
    obtain ⟨-, hsigned, hnumber, hreach⟩ := hrun.valid signed hs
    exact ⟨signed, hs, rfl, hsigned, hnumber, hreach⟩
  · intro header hheader
    have hmem : header.hash ∈ (AncestryChain.new justification).unvisited :=
      mem_unvisited_new.mpr (List.mem_map_of_mem hheader)
    exact hrun.onRoutes header.hash hmem (by rw [hvisited]; exact Finset.notMem_empty _)
  · intro i signed hi
    have hlt : i < justification.commit.precommits.length := (List.getElem?_eq_some_iff.mp hi).1
    have hmem : signed ∈ justification.commit.precommits := List.mem_of_getElem? hi
    obtain ⟨hknown, hsigned, hnumber, hreach⟩ := hrun.valid signed hmem
    refine ⟨hknown, fun hdup => ?_, hsigned, hnumber, hreach, hrun.below i hlt⟩
    -- the authority is at `i` in the list of authorities, which has no duplicate
    have hnodup := hrun.nodup
    rw [← List.take_append_drop i justification.commit.precommits, List.map_append,
      List.nodup_append] at hnodup
    have hdrop : signed.id ∈ (justification.commit.precommits.drop i).map (·.id) := by
      have hhead : (justification.commit.precommits.drop i)[0]? = some signed := by
        rw [List.getElem?_drop, Nat.add_zero]
        exact hi
      exact List.mem_map_of_mem (List.mem_of_getElem? hhead)
    exact hnodup.2.2 _ hdup _ hdrop rfl

/-- **Soundness of justification verification.** A justification that the strict verifier accepts
is one for the expected target, and it justifies the target. -/
theorem verifyJustification_sound {finalizedTarget : H × Nat}
    {justification : GrandpaJustification H A S}
    (h : verifyJustification checkSignature finalizedTarget context justification =
      some (.ok ())) :
    (justification.commit.targetHash, justification.commit.targetNumber) = finalizedTarget ∧
      Justified checkSignature context justification := by
  obtain ⟨⟨votes, verdict⟩, hverify, rfl⟩ := Option.map_eq_some_iff.mp h
  obtain ⟨htarget, votes₁, chain, cumulativeWeight, hloop, habove, hvisited⟩ :=
    verifyJustification_eq_ok hverify
  refine ⟨htarget, ?_⟩
  have hrun := strictRun_precommitsLoop (StrictRun.nil (visitedReachBase_new justification)) hloop
  rw [List.nil_append] at hrun
  -- the strict verifier rejects unvisited ancestry headers
  rcases hvisited with ⟨hvisited, -⟩ | ⟨-, hredundant⟩
  · exact hrun.justified habove (by simpa [AncestryChain.isFullyVisited] using hvisited)
  · cases hredundant

/-- A signature given as its verdict. -/
def signatureVerdict (_ : Precommit Nat) (_ : Nat) (signature : Bool) (_ _ : Nat) : Bool :=
  signature

/-- Three authorities of weight one, with a threshold of two. -/
def threeVoters : JustificationVerificationContext Nat :=
  ⟨⟨fun a => if a < 3 then some 1 else none, 2⟩, 0⟩

/-- The commit target is block `10` at height `5`; authority `0` votes for its child `11`, linked
by one ancestry header, and authority `1` for the target itself. -/
def twoVotes : GrandpaJustification Nat Nat Bool :=
  ⟨1, ⟨10, 5, [⟨⟨11, 6⟩, true, 0⟩, ⟨⟨10, 5⟩, true, 1⟩]⟩, [⟨11, 10⟩]⟩

/-- `twoVotes` passes the strict verifier and justifies its target. -/
theorem verifyJustification_sound_twoVotes :
    verifyJustification signatureVerdict (10, 5) threeVoters twoVotes = some (.ok ()) ∧
      (twoVotes.commit.targetHash, twoVotes.commit.targetNumber) = (10, 5) ∧
      Justified signatureVerdict threeVoters twoVotes :=
  have h : verifyJustification signatureVerdict (10, 5) threeVoters twoVotes = some (.ok ()) :=
    rfl
  ⟨h, verifyJustification_sound h⟩

end Cumulus.HeaderChain
