import Cumulus.HeaderChain.Strict
import Cumulus.Found.Run

/-!
# Equivocations collected from justifications

The collector lets every vote through the verification loop, so `process_valid_vote` sees exactly
the precommits of known authorities with a valid signature (`validVotes`), in order, unless an
ancestry walk does not end (`collector_precommitStep_of_eq_some`). Over all the justifications it
reads, these are `collectedVotes`. For each authority it keeps what `votesOf` says of that
authority's votes: the first one, or the first one and the first that differs from it
(`VotesOf`, kept by each valid vote). The proofs it returns are those of the authorities with two
different votes, in the order of the authorities (`findEquivocations_spec`).

The ancestry walk of a justification ends when its headers' parent links form no cycle, as they
cannot when the header hash binds the headers' numbers (`HashesBindNumbers`): then
`find_equivocations` returns.
-/

namespace Cumulus.HeaderChain

open Cumulus.Found

variable {H A S : Type} [DecidableEq H]

/-- A vote that reaches `process_valid_vote` in a loop where every vote goes through: that of a
known authority with a valid signature. -/
def validVote (checkSignature : Precommit H → A → S → Nat → Nat → Bool)
    (context : JustificationVerificationContext A) (round : Nat) (signed : SignedPrecommit H A S) :
    Bool :=
  (context.voterSet.get signed.id).isSome &&
    checkSignature signed.precommit signed.id signed.signature round context.authoritySetId

/-- The precommits of a justification that reach `process_valid_vote` in such a loop. -/
def validVotes (checkSignature : Precommit H → A → S → Nat → Nat → Bool)
    (context : JustificationVerificationContext A) (justification : GrandpaJustification H A S) :
    List (SignedPrecommit H A S) :=
  justification.commit.precommits.filter (validVote checkSignature context justification.round)

/-- The valid votes of the base justification and of the further ones of its round, in order. -/
def collectedVotes (checkSignature : Precommit H → A → S → Nat → Nat → Bool)
    (context : JustificationVerificationContext A) (base : GrandpaJustification H A S)
    (further : List (GrandpaJustification H A S)) : List (SignedPrecommit H A S) :=
  validVotes checkSignature context base ++
    (further.filter fun justification => base.round = justification.round).flatMap
      (validVotes checkSignature context)

/-- What is to be known of an authority's votes, in order: nothing, its first vote, or its first
vote and the first one that differs from it. -/
def votesOf (round : Nat) (authority : A) :
    List (SignedPrecommit H A S) → Option (AuthorityVotes H A S)
  | [] => none
  | first :: rest =>
    match rest.find? fun vote => vote.precommit ≠ first.precommit with
    | none => some (.singleVote first)
    | some second => some (.equivocation ⟨round, authority, (first.precommit, first.signature),
        (second.precommit, second.signature)⟩)

/-! ## What is kept of an authority's votes -/

section votesOf

variable {round : Nat} {authority : A}

/-- An authority whose later votes all agree with its first one has a single vote. -/
theorem votesOf_cons_of_find?_eq_none {first : SignedPrecommit H A S}
    {rest : List (SignedPrecommit H A S)}
    (h : rest.find? (fun vote => vote.precommit ≠ first.precommit) = none) :
    votesOf round authority (first :: rest) = some (.singleVote first) := by
  rw [votesOf, h]

/-- An authority with a later vote for another precommit has an equivocation of its first and that
vote. -/
theorem votesOf_cons_of_find?_eq_some {first second : SignedPrecommit H A S}
    {rest : List (SignedPrecommit H A S)}
    (h : rest.find? (fun vote => vote.precommit ≠ first.precommit) = some second) :
    votesOf round authority (first :: rest) = some (.equivocation ⟨round, authority,
      (first.precommit, first.signature), (second.precommit, second.signature)⟩) := by
  rw [votesOf, h]

/-- One more vote: the first vote is kept, or the first one that differs from it is recorded. -/
theorem votesOf_append_singleton (votes : List (SignedPrecommit H A S))
    (vote : SignedPrecommit H A S) :
    votesOf round authority (votes ++ [vote]) =
      match votesOf round authority votes with
      | none => some (.singleVote vote)
      | some (.singleVote first) =>
        if first.precommit ≠ vote.precommit then
          some (.equivocation ⟨round, authority, (first.precommit, first.signature),
            (vote.precommit, vote.signature)⟩)
        else some (.singleVote first)
      | some (.equivocation equivocation) => some (.equivocation equivocation) := by
  cases votes with
  | nil => rfl
  | cons first rest =>
    rw [List.cons_append]
    rcases hfind : rest.find? (fun v => v.precommit ≠ first.precommit) with _ | second
    · -- no vote differed so far: the new one decides
      have happend : (rest ++ [vote]).find? (fun v => v.precommit ≠ first.precommit) =
          if first.precommit ≠ vote.precommit then some vote else none := by
        rw [List.find?_append, hfind, Option.none_or, List.find?_singleton]
        simp only [decide_eq_true_eq, ne_comm]
      rw [votesOf_cons_of_find?_eq_none hfind]
      dsimp only
      split_ifs at happend ⊢
      · exact votesOf_cons_of_find?_eq_some happend
      · exact votesOf_cons_of_find?_eq_none happend
    · have happend : (rest ++ [vote]).find? (fun v => v.precommit ≠ first.precommit) =
          some second := by
        rw [List.find?_append, hfind, Option.some_or]
      rw [votesOf_cons_of_find?_eq_some hfind, votesOf_cons_of_find?_eq_some happend]

/-- An authority's votes give an equivocation exactly when two of them differ. -/
theorem votesOf_eq_equivocation_iff {votes : List (SignedPrecommit H A S)} :
    (∃ equivocation, votesOf round authority votes = some (.equivocation equivocation)) ↔
      ∃ v₁ ∈ votes, ∃ v₂ ∈ votes, v₁.precommit ≠ v₂.precommit := by
  cases votes with
  | nil => simp [votesOf]
  | cons first rest =>
    rcases hfind : rest.find? (fun v => v.precommit ≠ first.precommit) with _ | second
    · -- every vote is the first one
      have hsame : ∀ v ∈ first :: rest, v.precommit = first.precommit := by
        intro v hv
        rcases List.mem_cons.mp hv with rfl | hv
        · rfl
        · simpa using List.find?_eq_none.mp hfind v hv
      rw [votesOf_cons_of_find?_eq_none hfind]
      refine ⟨fun ⟨_, h⟩ => (nomatch h), fun ⟨v₁, hv₁, v₂, hv₂, hne⟩ => ?_⟩
      exact absurd ((hsame v₁ hv₁).trans (hsame v₂ hv₂).symm) hne
    · have hsecond := List.find?_some hfind
      simp only [ne_eq, decide_not, Bool.not_eq_eq_eq_not, Bool.not_true,
        decide_eq_false_iff_not] at hsecond
      rw [votesOf_cons_of_find?_eq_some hfind]
      exact ⟨fun _ => ⟨second, List.mem_cons_of_mem _ (List.mem_of_find?_eq_some hfind), first,
        List.mem_cons_self, hsecond⟩, fun _ => ⟨_, rfl⟩⟩

/-- What `votesOf` records as an equivocation: the first vote and the first one that differs. -/
theorem votesOf_eq_some_equivocation {votes : List (SignedPrecommit H A S)}
    {equivocation : Equivocation A H S} :
    votesOf round authority votes = some (.equivocation equivocation) ↔
      ∃ first rest second, votes = first :: rest ∧
        rest.find? (fun vote => vote.precommit ≠ first.precommit) = some second ∧
        equivocation = ⟨round, authority, (first.precommit, first.signature),
          (second.precommit, second.signature)⟩ := by
  constructor
  · intro h
    cases votes with
    | nil => cases h
    | cons first rest =>
      rcases hfind : rest.find? (fun vote => vote.precommit ≠ first.precommit) with _ | second
      · rw [votesOf_cons_of_find?_eq_none hfind] at h
        cases h
      · rw [votesOf_cons_of_find?_eq_some hfind] at h
        cases h
        exact ⟨first, rest, second, rfl, hfind, rfl⟩
  · rintro ⟨first, rest, second, rfl, hfind, rfl⟩
    exact votesOf_cons_of_find?_eq_some hfind

end votesOf

/-! ## The collector's map -/

section collector

variable [LinearOrder A]

/-- The collector keeps, for each authority, what `votesOf` says of its valid votes so far. -/
def VotesOf (collector : EquivocationsCollector H A S) (votes : List (SignedPrecommit H A S)) :
    Prop :=
  ∀ authority, collector.votes.get? authority =
    votesOf collector.round authority (votes.filter fun vote => vote.id = authority)

@[simp] theorem round_processValidVote (collector : EquivocationsCollector H A S)
    (signed : SignedPrecommit H A S) :
    (collector.processValidVote signed).round = collector.round := by
  unfold EquivocationsCollector.processValidVote
  split <;> (try split_ifs) <;> rfl

@[simp] theorem context_processValidVote (collector : EquivocationsCollector H A S)
    (signed : SignedPrecommit H A S) :
    (collector.processValidVote signed).context = collector.context := by
  unfold EquivocationsCollector.processValidVote
  split <;> (try split_ifs) <;> rfl

/-- A new collector holds no vote. -/
theorem votesOf_empty (round : Nat) (context : JustificationVerificationContext A) :
    VotesOf (⟨round, context, .empty⟩ : EquivocationsCollector H A S) [] := fun _ => rfl

/-- **A valid vote keeps the map.** -/
theorem VotesOf.processValidVote {collector : EquivocationsCollector H A S}
    {votes : List (SignedPrecommit H A S)} (hvotes : VotesOf collector votes)
    (signed : SignedPrecommit H A S) :
    VotesOf (collector.processValidVote signed) (votes ++ [signed]) := by
  intro authority
  rw [round_processValidVote, List.filter_append]
  by_cases hauthority : authority = signed.id
  · subst hauthority
    rw [List.filter_singleton, decide_eq_true rfl, cond_true, votesOf_append_singleton,
      ← hvotes signed.id]
    unfold EquivocationsCollector.processValidVote
    split
    · rename_i firstVote hfirst
      rw [hfirst]
      split_ifs with hne <;> simp [hne, hfirst]
    · rename_i equivocation hequivocation
      rw [hequivocation]
    · rename_i hnone
      rw [hnone]
      simp
  · have hne : signed.id ≠ authority := Ne.symm hauthority
    rw [List.filter_singleton, decide_eq_false hne, cond_false, List.append_nil, ← hvotes]
    unfold EquivocationsCollector.processValidVote
    split
    · split_ifs
      · exact SortedMap.get?_insert_of_ne _ _ hauthority
      · rfl
    · rfl
    · exact SortedMap.get?_insert_of_ne _ _ hauthority

/-- Processing more valid votes keeps the collector in step with all votes so far. -/
theorem VotesOf.foldl {collector : EquivocationsCollector H A S}
    {votes : List (SignedPrecommit H A S)} (hvotes : VotesOf collector votes)
    (more : List (SignedPrecommit H A S)) :
    VotesOf (more.foldl EquivocationsCollector.processValidVote collector) (votes ++ more) := by
  induction more generalizing collector votes with
  | nil => simpa using hvotes
  | cons signed more ih =>
    rw [List.foldl_cons, ← List.singleton_append, ← List.append_assoc]
    exact ih (hvotes.processValidVote signed)

/-- The round and the context stay those the collector was made with. -/
@[simp] theorem round_foldl_processValidVote (collector : EquivocationsCollector H A S)
    (votes : List (SignedPrecommit H A S)) :
    (votes.foldl EquivocationsCollector.processValidVote collector).round = collector.round := by
  induction votes generalizing collector with
  | nil => rfl
  | cons signed votes ih => rw [List.foldl_cons, ih, round_processValidVote]

@[simp] theorem context_foldl_processValidVote (collector : EquivocationsCollector H A S)
    (votes : List (SignedPrecommit H A S)) :
    (votes.foldl EquivocationsCollector.processValidVote collector).context =
      collector.context := by
  induction votes generalizing collector with
  | nil => rfl
  | cons signed votes ih => rw [List.foldl_cons, ih, context_processValidVote]

end collector

/-! ## The verification loop with the collector's callbacks -/

section loop

variable [LinearOrder A] {checkSignature : Precommit H → A → S → Nat → Nat → Bool}
  {context : JustificationVerificationContext A} {round precommitIdx : Nat}
  {signed : SignedPrecommit H A S} {self self' : EquivocationsCollector H A S}
  {chain : AncestryChain H} {cumulativeWeight : BitVec 64}

/-- **A turn lets every vote through**: it ends without an error, the vote recorded if valid and
the ancestry chain's parents unchanged. -/
theorem collector_precommitStep_of_eq_some
    {result : Except PrecommitError (AncestryChain H × BitVec 64)}
    (h : precommitStep equivocationsCollector checkSignature context round precommitIdx signed self
      chain cumulativeWeight = some (self', result)) :
    self' = (if validVote checkSignature context round signed then self.processValidVote signed
      else self) ∧
      ∃ chain' cumulativeWeight', result = .ok (chain', cumulativeWeight') ∧
        chain'.parents = chain.parents := by
  -- the collector's callbacks answer "run" or "ok" whatever the threshold and the route
  simp only [precommitStep, countVote, equivocationsCollector, ite_self] at h
  cases hknown : context.voterSet.get signed.id with
  | none =>
    simp only [hknown, Option.some.injEq, Prod.mk.injEq] at h
    obtain ⟨rfl, rfl⟩ := h
    exact ⟨by simp [validVote, hknown], chain, cumulativeWeight, rfl, rfl⟩
  | some weight =>
    simp only [hknown] at h
    obtain ⟨maybeRoute, -, hmap⟩ := Option.map_eq_some_iff.mp h
    cases hsigned : checkSignature signed.precommit signed.id signed.signature round
        context.authoritySetId with
    | false =>
      simp only [hsigned, Bool.not_false, if_true, Prod.mk.injEq] at hmap
      obtain ⟨rfl, rfl⟩ := hmap
      exact ⟨by simp [validVote, hsigned], chain, cumulativeWeight, rfl, rfl⟩
    | true =>
      have hvalid : validVote checkSignature context round signed = true := by
        simp [validVote, hknown, hsigned]
      simp only [hsigned, Bool.not_true, Bool.false_eq_true, if_false] at hmap
      rw [hvalid, if_pos rfl]
      cases maybeRoute with
      | some route =>
        obtain ⟨rfl, rfl⟩ := Prod.mk.inj hmap
        exact ⟨rfl, _, _, rfl, parents_markRouteAsVisited route⟩
      | none =>
        obtain ⟨rfl, rfl⟩ := Prod.mk.inj hmap
        exact ⟨rfl, _, _, rfl, rfl⟩

/-- A turn returns unless the ancestry walk of its vote does not end. -/
theorem collector_precommitStep_isSome (hacyclic : Acyclic chain.parents) :
    (precommitStep equivocationsCollector checkSignature context round precommitIdx signed self
      chain cumulativeWeight).isSome := by
  simp only [precommitStep, countVote, equivocationsCollector, ite_self]
  cases context.voterSet.get signed.id with
  | none => rfl
  | some weight =>
    rw [Option.isSome_map]
    exact Option.ne_none_iff_isSome.mp (ancestry_ne_none hacyclic _ _)

/-- **The loop records the valid votes**, in order, and ends without an error. -/
theorem collector_precommitsLoop_of_eq_some {precommits : List (SignedPrecommit H A S)}
    {result : Except PrecommitError (AncestryChain H × BitVec 64)}
    (h : precommitsLoop equivocationsCollector checkSignature context round precommitIdx self chain
      cumulativeWeight precommits = some (self', result)) :
    self' = (precommits.filter (validVote checkSignature context round)).foldl
      EquivocationsCollector.processValidVote self ∧
      ∃ chain' cumulativeWeight', result = .ok (chain', cumulativeWeight') := by
  induction precommits generalizing precommitIdx self chain cumulativeWeight with
  | nil =>
    cases h
    exact ⟨rfl, chain, cumulativeWeight, rfl⟩
  | cons signed precommits ih =>
    simp only [precommitsLoop, Option.bind_eq_some_iff] at h
    obtain ⟨⟨self₁, result₁⟩, hstep, hrest⟩ := h
    obtain ⟨hself₁, chain₁, cumulativeWeight₁, rfl, -⟩ := collector_precommitStep_of_eq_some hstep
    obtain ⟨rfl, hresult⟩ := ih hrest
    refine ⟨?_, hresult⟩
    rw [hself₁, List.filter_cons]
    by_cases hvalid : validVote checkSignature context round signed <;> simp [hvalid]

/-- Over a chain without cycles the loop returns: the parents stay those of the chain. -/
theorem collector_precommitsLoop_isSome {precommits : List (SignedPrecommit H A S)}
    (hacyclic : Acyclic chain.parents) :
    (precommitsLoop equivocationsCollector checkSignature context round precommitIdx self chain
      cumulativeWeight precommits).isSome := by
  induction precommits generalizing precommitIdx self chain cumulativeWeight with
  | nil => rfl
  | cons signed precommits ih =>
    have hsome : (precommitStep equivocationsCollector checkSignature context round precommitIdx
        signed self chain cumulativeWeight).isSome := collector_precommitStep_isSome hacyclic
    obtain ⟨⟨self₁, result₁⟩, hstep⟩ := Option.isSome_iff_exists.mp hsome
    obtain ⟨-, chain₁, cumulativeWeight₁, rfl, hparents⟩ := collector_precommitStep_of_eq_some hstep
    rw [precommitsLoop_cons_of_ok hstep]
    exact ih (hparents ▸ hacyclic)

variable {justification : GrandpaJustification H A S}

/-- The collector verifying a justification for its own target records the justification's valid
votes, whatever the verdict. -/
theorem collector_verifyJustification_of_eq_some {result : Except Error Unit}
    (h : equivocationsCollector.verifyJustification checkSignature self
      (justification.commit.targetHash, justification.commit.targetNumber) context justification =
        some (self', result)) :
    self' = (validVotes checkSignature context justification).foldl
      EquivocationsCollector.processValidVote self := by
  unfold JustificationVerifier.verifyJustification at h
  rw [if_neg (not_not_intro rfl)] at h
  obtain ⟨⟨self₁, result₁⟩, hloop, hverdict⟩ := Option.map_eq_some_iff.mp h
  obtain ⟨rfl, chain, cumulativeWeight, rfl⟩ := collector_precommitsLoop_of_eq_some hloop
  -- every verdict keeps the collector's state
  simp only [equivocationsCollector] at hverdict
  split_ifs at hverdict <;> exact (Prod.mk.inj hverdict).1.symm

/-- Without a cycle among its ancestry headers, the verification of a justification returns. -/
theorem collector_verifyJustification_eq_some
    (hacyclic : Acyclic (ancestryParents justification.votesAncestries)) :
    ∃ result, equivocationsCollector.verifyJustification checkSignature self
      (justification.commit.targetHash, justification.commit.targetNumber) context justification =
        some ((validVotes checkSignature context justification).foldl
          EquivocationsCollector.processValidVote self, result) := by
  have hsome : (equivocationsCollector.verifyJustification checkSignature self
      (justification.commit.targetHash, justification.commit.targetNumber) context
      justification).isSome := by
    unfold JustificationVerifier.verifyJustification
    rw [if_neg (not_not_intro rfl), Option.isSome_map]
    exact collector_precommitsLoop_isSome hacyclic
  obtain ⟨⟨self', result⟩, h⟩ := Option.isSome_iff_exists.mp hsome
  exact ⟨result, collector_verifyJustification_of_eq_some h ▸ h⟩

end loop

/-! ## The collector over all the justifications -/

section collect

variable [LinearOrder A] {checkSignature : Precommit H → A → S → Nat → Nat → Bool}
  {context : JustificationVerificationContext A}

/-- **The further justifications are read in turn**: the collector records the valid votes of each,
unless an ancestry walk does not end. -/
theorem foldlM_collector_verifyJustification (justifications : List (GrandpaJustification H A S))
    (hacyclic : ∀ justification ∈ justifications,
      Acyclic (ancestryParents justification.votesAncestries))
    (self : EquivocationsCollector H A S) :
    justifications.foldlM (fun self justification =>
      (equivocationsCollector.verifyJustification checkSignature self
        (justification.commit.targetHash, justification.commit.targetNumber) self.context
        justification).map Prod.fst) self =
      some ((justifications.flatMap (validVotes checkSignature self.context)).foldl
        EquivocationsCollector.processValidVote self) := by
  rw [foldlM_eq_runSteps]
  induction justifications generalizing self with
  | nil => rfl
  | cons justification justifications ih =>
    obtain ⟨result, hverify⟩ := @collector_verifyJustification_eq_some H A S _ _ checkSignature
      self.context self justification (hacyclic justification List.mem_cons_self)
    rw [runSteps_cons, hverify, Option.map_some, Option.bind_some,
      ih (fun j hj => hacyclic j (List.mem_cons_of_mem _ hj)), context_foldl_processValidVote,
      List.flatMap_cons, List.foldl_append]

/-- The further justifications of the collector's round are read. -/
theorem parseJustifications_eq_some {self : EquivocationsCollector H A S}
    {justifications : List (GrandpaJustification H A S)}
    (hacyclic : ∀ justification ∈ justifications, self.round = justification.round →
      Acyclic (ancestryParents justification.votesAncestries)) :
    self.parseJustifications checkSignature justifications =
      some (((justifications.filter fun justification => self.round = justification.round).flatMap
        (validVotes checkSignature self.context)).foldl
          EquivocationsCollector.processValidVote self) :=
  foldlM_collector_verifyJustification _ (fun justification hmem => by
    obtain ⟨hmem, hround⟩ := List.mem_filter.mp hmem
    exact hacyclic justification hmem (of_decide_eq_true hround)) self

/-- An accepted base justification leaves its valid votes in the new collector. -/
theorem EquivocationsCollector.new_eq_ok {base : GrandpaJustification H A S}
    {collector : EquivocationsCollector H A S}
    (h : EquivocationsCollector.new checkSignature context base = some (.ok collector)) :
    collector = (validVotes checkSignature context base).foldl
      EquivocationsCollector.processValidVote ⟨base.round, context, .empty⟩ := by
  obtain ⟨⟨checker, result⟩, hverify, hok⟩ := Option.map_eq_some_iff.mp h
  cases result with
  | error e => cases hok
  | ok u =>
    cases hok
    exact collector_verifyJustification_of_eq_some hverify

/-- **What the finder returns**: the proofs of a collector that went through the collected votes. -/
theorem findEquivocations_eq_ok {base : GrandpaJustification H A S}
    {further : List (GrandpaJustification H A S)} {collector : EquivocationsCollector H A S}
    (hnew : EquivocationsCollector.new checkSignature context base = some (.ok collector))
    (hacyclic : ∀ justification ∈ further, base.round = justification.round →
      Acyclic (ancestryParents justification.votesAncestries)) :
    findEquivocations checkSignature context base further =
      some (.ok ((collectedVotes checkSignature context base further).foldl
        EquivocationsCollector.processValidVote
          ⟨base.round, context, .empty⟩).intoEquivocationProofs) := by
  have hcollector := EquivocationsCollector.new_eq_ok hnew
  have hround : collector.round = base.round := by rw [hcollector, round_foldl_processValidVote]
  have hcontext : collector.context = context := by
    rw [hcollector, context_foldl_processValidVote]
  have hparse := @parseJustifications_eq_some H A S _ _ checkSignature collector further
    fun justification hmem hsame => hacyclic justification hmem (hround ▸ hsame)
  unfold findEquivocations
  rw [hnew]
  dsimp only
  rw [hparse, Option.map_some, hround, hcontext, hcollector, collectedVotes, List.foldl_append]

end collect

/-! ## The proofs returned -/

section proofs

variable [LinearOrder A] {collector : EquivocationsCollector H A S}
  {votes : List (SignedPrecommit H A S)}

omit [DecidableEq H] in
/-- The proofs are the recorded equivocations, with the collector's set id. -/
theorem mem_intoEquivocationProofs {proof : EquivocationProof A H S} :
    proof ∈ collector.intoEquivocationProofs ↔ proof.setId = collector.context.authoritySetId ∧
      ∃ authority, collector.votes.get? authority = some (.equivocation proof.equivocation) := by
  obtain ⟨setId, equivocation⟩ := proof
  unfold EquivocationsCollector.intoEquivocationProofs
  rw [List.mem_filterMap]
  constructor
  · rintro ⟨⟨authority, authorityVotes⟩, hmem, hproof⟩
    cases authorityVotes with
    | singleVote _ => cases hproof
    | equivocation _ =>
      cases hproof
      exact ⟨rfl, authority, SortedMap.mem_entries_iff.mp hmem⟩
  · rintro ⟨hset, authority, hget⟩
    dsimp only at hset
    subst hset
    exact ⟨(authority, .equivocation equivocation), SortedMap.mem_entries_iff.mpr hget, rfl⟩

/-- A recorded equivocation is that of the votes of its key. -/
theorem VotesOf.get?_eq_equivocation (hvotes : VotesOf collector votes) {authority : A}
    {equivocation : Equivocation A H S}
    (h : collector.votes.get? authority = some (.equivocation equivocation)) :
    ∃ first rest second, votes.filter (fun vote => vote.id = authority) = first :: rest ∧
      rest.find? (fun vote => vote.precommit ≠ first.precommit) = some second ∧
      equivocation = ⟨collector.round, authority, (first.precommit, first.signature),
        (second.precommit, second.signature)⟩ :=
  votesOf_eq_some_equivocation.mp ((hvotes authority).symm.trans h)

/-- Each proof names the authority of its key, so the proofs come in the order of the
authorities. -/
theorem VotesOf.pairwise_intoEquivocationProofs (hvotes : VotesOf collector votes) :
    (collector.intoEquivocationProofs.map fun proof => proof.equivocation.identity).Pairwise
      (· < ·) := by
  have hsorted := List.Pairwise.and_mem.mp (List.pairwise_map.mp collector.votes.sorted)
  rw [List.pairwise_map]
  refine hsorted.filterMap _ ?_
  rintro ⟨a, va⟩ ⟨b, vb⟩ ⟨hma, hmb, hab⟩ proof₁ hproof₁ proof₂ hproof₂
  cases va with
  | singleVote _ => cases hproof₁
  | equivocation e₁ =>
    cases vb with
    | singleVote _ => cases hproof₂
    | equivocation e₂ =>
      cases hproof₁
      cases hproof₂
      obtain ⟨_, _, _, -, -, rfl⟩ := hvotes.get?_eq_equivocation (SortedMap.mem_entries_iff.mp hma)
      obtain ⟨_, _, _, -, -, rfl⟩ := hvotes.get?_eq_equivocation (SortedMap.mem_entries_iff.mp hmb)
      exact hab

/-- **Complete and sound**: an authority has a proof exactly when two of its votes differ. -/
theorem VotesOf.exists_mem_intoEquivocationProofs_iff (hvotes : VotesOf collector votes)
    (authority : A) :
    (∃ proof ∈ collector.intoEquivocationProofs, proof.equivocation.identity = authority) ↔
      ∃ v₁ ∈ votes, ∃ v₂ ∈ votes,
        v₁.id = authority ∧ v₂.id = authority ∧ v₁.precommit ≠ v₂.precommit := by
  have hdiffer : (∃ v₁ ∈ votes, ∃ v₂ ∈ votes,
      v₁.id = authority ∧ v₂.id = authority ∧ v₁.precommit ≠ v₂.precommit) ↔
      ∃ equivocation, collector.votes.get? authority = some (.equivocation equivocation) := by
    rw [hvotes authority, votesOf_eq_equivocation_iff]
    simp only [List.mem_filter, decide_eq_true_eq]
    constructor
    · rintro ⟨v₁, hv₁, v₂, hv₂, h₁, h₂, hne⟩
      exact ⟨v₁, ⟨hv₁, h₁⟩, v₂, ⟨hv₂, h₂⟩, hne⟩
    · rintro ⟨v₁, ⟨hv₁, h₁⟩, v₂, ⟨hv₂, h₂⟩, hne⟩
      exact ⟨v₁, hv₁, v₂, hv₂, h₁, h₂, hne⟩
  rw [hdiffer]
  constructor
  · rintro ⟨proof, hproof, rfl⟩
    obtain ⟨-, key, hget⟩ := mem_intoEquivocationProofs.mp hproof
    obtain ⟨_, _, _, -, -, hequivocation⟩ := hvotes.get?_eq_equivocation hget
    have hkey : proof.equivocation.identity = key := by rw [hequivocation]
    exact ⟨_, hkey ▸ hget⟩
  · rintro ⟨equivocation, hget⟩
    obtain ⟨_, _, _, -, -, hequivocation⟩ := hvotes.get?_eq_equivocation hget
    refine ⟨⟨collector.context.authoritySetId, equivocation⟩,
      mem_intoEquivocationProofs.mpr ⟨rfl, authority, hget⟩, ?_⟩
    rw [hequivocation]

/-- Each proof carries the collector's set id and round, and the first vote of its authority with
the first one that differs from it. -/
theorem VotesOf.of_mem_intoEquivocationProofs (hvotes : VotesOf collector votes)
    {proof : EquivocationProof A H S} (hproof : proof ∈ collector.intoEquivocationProofs) :
    proof.setId = collector.context.authoritySetId ∧
      proof.equivocation.roundNumber = collector.round ∧
      ∃ first rest second,
        votes.filter (fun vote => vote.id = proof.equivocation.identity) = first :: rest ∧
        rest.find? (fun vote => vote.precommit ≠ first.precommit) = some second ∧
        first.precommit ≠ second.precommit ∧
        proof.equivocation.first = (first.precommit, first.signature) ∧
        proof.equivocation.second = (second.precommit, second.signature) := by
  obtain ⟨hset, authority, hget⟩ := mem_intoEquivocationProofs.mp hproof
  obtain ⟨first, rest, second, hfilter, hfind, hequivocation⟩ :=
    hvotes.get?_eq_equivocation hget
  have hdiffer : second.precommit ≠ first.precommit := by simpa using List.find?_some hfind
  rw [hequivocation]
  exact ⟨hset, rfl, first, rest, second, hfilter, hfind, Ne.symm hdiffer, rfl, rfl⟩

end proofs

/-! ## The finder -/

section finder

variable [LinearOrder A] {checkSignature : Precommit H → A → S → Nat → Nat → Bool}

/-- **Equivocations found.** For a base justification that the collector accepts and further
justifications whose ancestry headers of the base's round carry hashes that bind their numbers
(so that a header's parent is numbered below it, and no parent link leads back), the finder returns
one proof per authority that signed two different valid precommits across the base and the further
justifications of its round, in the order of the authorities: each with the context's set id and
the base's round, the authority's first valid vote and the first one that differs from it. -/
theorem findEquivocations_spec {context : JustificationVerificationContext A}
    {base : GrandpaJustification H A S} {further : List (GrandpaJustification H A S)}
    (hbase : ∃ collector,
      EquivocationsCollector.new checkSignature context base = some (.ok collector))
    {number : H → ℕ} (hnumbers : ∀ justification ∈ further, base.round = justification.round →
      HashesBindNumbers number justification.votesAncestries) :
    ∃ proofs, findEquivocations checkSignature context base further = some (.ok proofs) ∧
      (proofs.map fun proof => proof.equivocation.identity).Pairwise (· < ·) ∧
      (∀ authority, (∃ proof ∈ proofs, proof.equivocation.identity = authority) ↔
        ∃ v₁ ∈ collectedVotes checkSignature context base further,
          ∃ v₂ ∈ collectedVotes checkSignature context base further,
            v₁.id = authority ∧ v₂.id = authority ∧ v₁.precommit ≠ v₂.precommit) ∧
      ∀ proof ∈ proofs, proof.setId = context.authoritySetId ∧
        proof.equivocation.roundNumber = base.round ∧
        ∃ first rest second,
          (collectedVotes checkSignature context base further).filter
            (fun vote => vote.id = proof.equivocation.identity) = first :: rest ∧
          rest.find? (fun vote => vote.precommit ≠ first.precommit) = some second ∧
          first.precommit ≠ second.precommit ∧
          proof.equivocation.first = (first.precommit, first.signature) ∧
          proof.equivocation.second = (second.precommit, second.signature) := by
  obtain ⟨collector, hnew⟩ := hbase
  have hacyclic : ∀ justification ∈ further, base.round = justification.round →
      Acyclic (ancestryParents justification.votesAncestries) := fun justification hmem hround =>
    acyclic_of_hashesBindNumbers (hnumbers justification hmem hround)
  -- the collector that went through every collected vote, from an empty map
  have hvotes : VotesOf ((collectedVotes checkSignature context base further).foldl
      EquivocationsCollector.processValidVote ⟨base.round, context, .empty⟩)
      (collectedVotes checkSignature context base further) := by
    have hfold := (votesOf_empty base.round context).foldl
      (collectedVotes checkSignature context base further)
    rwa [List.nil_append] at hfold
  refine ⟨_, findEquivocations_eq_ok hnew hacyclic, hvotes.pairwise_intoEquivocationProofs,
    hvotes.exists_mem_intoEquivocationProofs_iff, fun proof hproof => ?_⟩
  obtain ⟨hset, hround, hvotesOf⟩ := hvotes.of_mem_intoEquivocationProofs hproof
  rw [context_foldl_processValidVote] at hset
  rw [round_foldl_processValidVote] at hround
  exact ⟨hset, hround, hvotesOf⟩

/-- A further justification of round `1` in which authority `0` votes for the commit target,
without ancestry headers. -/
def otherVote : GrandpaJustification Nat Nat Bool :=
  ⟨1, ⟨10, 5, [⟨⟨10, 5⟩, true, 0⟩]⟩, []⟩

/-- A second justification in which authority `0` votes for another block: the equivocation of
authority `0` in round `1` is found, with its two votes. -/
theorem findEquivocations_spec_otherVote :
    (∃ collector, EquivocationsCollector.new signatureVerdict threeVoters twoVotes =
      some (.ok collector)) ∧
    (∀ justification ∈ [otherVote], twoVotes.round = justification.round →
      HashesBindNumbers (fun _ => 0) justification.votesAncestries) ∧
    findEquivocations signatureVerdict threeVoters twoVotes [otherVote] =
      some (.ok [⟨0, ⟨1, 0, (⟨11, 6⟩, true), (⟨10, 5⟩, true)⟩⟩]) ∧
    ∃ proofs, findEquivocations signatureVerdict threeVoters twoVotes [otherVote] =
        some (.ok proofs) ∧
      (proofs.map fun proof => proof.equivocation.identity).Pairwise (· < ·) ∧
      (∀ authority, (∃ proof ∈ proofs, proof.equivocation.identity = authority) ↔
        ∃ v₁ ∈ collectedVotes signatureVerdict threeVoters twoVotes [otherVote],
          ∃ v₂ ∈ collectedVotes signatureVerdict threeVoters twoVotes [otherVote],
            v₁.id = authority ∧ v₂.id = authority ∧ v₁.precommit ≠ v₂.precommit) ∧
      ∀ proof ∈ proofs, proof.setId = threeVoters.authoritySetId ∧
        proof.equivocation.roundNumber = twoVotes.round ∧
        ∃ first rest second,
          (collectedVotes signatureVerdict threeVoters twoVotes [otherVote]).filter
            (fun vote => vote.id = proof.equivocation.identity) = first :: rest ∧
          rest.find? (fun vote => vote.precommit ≠ first.precommit) = some second ∧
          first.precommit ≠ second.precommit ∧
          proof.equivocation.first = (first.precommit, first.signature) ∧
          proof.equivocation.second = (second.precommit, second.signature) := by
  have hbase : ∃ collector, EquivocationsCollector.new signatureVerdict threeVoters twoVotes =
      some (.ok collector) := ⟨_, rfl⟩
  -- no ancestry header, so nothing to number
  have hnumbers : ∀ justification ∈ [otherVote], twoVotes.round = justification.round →
      HashesBindNumbers (fun _ => 0) justification.votesAncestries := by
    intro justification hmem _ header hheader
    rw [List.mem_singleton.mp hmem] at hheader
    cases hheader
  exact ⟨hbase, hnumbers, rfl, findEquivocations_spec hbase hnumbers⟩

end finder

end Cumulus.HeaderChain
