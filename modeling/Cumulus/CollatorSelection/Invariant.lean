import Cumulus.CollatorSelection.Pallet
import Cumulus.Found.Run
import Mathlib.Data.Finset.Card

/-!
# collator selection: the collator set stays large enough

The storage docs ask for two things: the invulnerables are sorted, and candidates and
invulnerables are mutually exclusive. With no candidate registered twice, these make the
pallet's count `eligibleCollators`, which counts an account in both lists twice, the number of
distinct collators. `Exclusive` is the three conditions; `WellFormed` adds that at least
`MinEligibleCollators` distinct accounts are eligible.

* `WellFormed.dispatch` — every extrinsic but `set_invulnerables` keeps a well-formed state
  well formed; the guards of `leave_intent` and `remove_invulnerable` suffice once the count is
  exact;
* `wellFormed_setInvulnerables_iff` — `set_invulnerables` keeps it exactly when the accounts of
  `new` that have keys fit (`InvulnerablesFit`), which the code checks only for an empty `new`;
* `KickInv` / `KickInv.foldl` — the loop invariant of `kick_stale_candidates`, which reads the
  storage it is changing; `WellFormed.newSession` and `nodup_newSession`: the session change
  keeps the state well formed and hands over no account twice;
* `wellFormed_of_governedRun` — the three together, over every run from genesis in which
  `UpdateOrigin` sets only fitting invulnerables;
* `setInvulnerables_drops_collators` — from a well-formed state, `set_invulnerables` empties the
  collator set against its comment 'don't wipe out the collator set', and a duplicated account
  reaches the session's collators against 'an Account should not be a collator twice'.
-/

namespace Cumulus.CollatorSelection

open Cumulus.Found

variable {O A V C : Type*} [LinearOrder A]

/-- The number of distinct accounts among the invulnerables and the candidates. -/
def distinctCollators (s : State A C) : Nat :=
  (s.invulnerables ++ s.candidateAccounts).toFinset.card

/-- The storage docs' requirements on the two lists, and no candidate twice. -/
structure Exclusive (s : State A C) : Prop where
  sorted : s.invulnerables.Pairwise (· < ·)
  candidates_nodup : s.candidateAccounts.Nodup
  disjoint : ∀ a ∈ s.candidateAccounts, a ∉ s.invulnerables

/-- An exclusive state with at least `MinEligibleCollators` distinct collators. -/
structure WellFormed (cfg : Config) (s : State A C) : Prop extends Exclusive s where
  enough : cfg.minEligibleCollators ≤ distinctCollators s

/-- What `set_invulnerables new` needs to keep the state well formed: the accounts of `new` that
have keys are distinct, no candidate, and with the candidates at least `MinEligibleCollators`. -/
structure InvulnerablesFit (cfg : Config) (env : Env O A V C) (s : State A C) (new : List A) :
    Prop where
  nodup : (new.filter (hasRegisteredKeys env)).Nodup
  disjoint : ∀ a ∈ s.candidateAccounts, a ∉ new.filter (hasRegisteredKeys env)
  enough : cfg.minEligibleCollators ≤ (new.filter (hasRegisteredKeys env)).length + s.candidates.length

section Sets

variable {cfg : Config} {s s' : State A C}

/-- An exclusive state has no invulnerable twice. -/
theorem Exclusive.nodup_invulnerables (h : Exclusive s) : s.invulnerables.Nodup :=
  h.sorted.imp ne_of_lt

/-- In an exclusive state the pallet's count is exact. -/
theorem Exclusive.distinctCollators_eq (h : Exclusive s) :
    distinctCollators s = eligibleCollators s := by
  have hnd : (s.invulnerables ++ s.candidateAccounts).Nodup := by
    rw [List.nodup_append]
    refine ⟨h.nodup_invulnerables, h.candidates_nodup, ?_⟩
    rintro a ha b hb rfl
    exact h.disjoint a hb ha
  rw [distinctCollators, List.toFinset_card_of_nodup hnd, List.length_append,
    length_candidateAccounts, eligibleCollators, Nat.add_comm]

/-- A well-formed state has at least `MinEligibleCollators` eligible collators. -/
theorem WellFormed.le_eligible (h : WellFormed cfg s) :
    cfg.minEligibleCollators ≤ eligibleCollators s :=
  h.toExclusive.distinctCollators_eq ▸ h.enough

/-- An exclusive state with enough eligible collators is well formed. -/
theorem WellFormed.of_exclusive (h : Exclusive s)
    (hn : cfg.minEligibleCollators ≤ eligibleCollators s) : WellFormed cfg s :=
  ⟨h, h.distinctCollators_eq ▸ hn⟩

/-- Dropping candidates keeps the lists apart. -/
theorem Exclusive.of_sublist (h : Exclusive s) (hi : s'.invulnerables = s.invulnerables)
    (hc : s'.candidateAccounts.Sublist s.candidateAccounts) : Exclusive s' := by
  refine ⟨hi ▸ h.sorted, hc.nodup h.candidates_nodup, ?_⟩
  intro a ha
  rw [hi]
  exact h.disjoint a (hc.subset ha)

/-- A call that touches neither list keeps the state well formed. -/
theorem WellFormed.of_same_sets (h : WellFormed cfg s) (hi : s'.invulnerables = s.invulnerables)
    (hc : s'.candidates = s.candidates) : WellFormed cfg s' := by
  have hx : Exclusive s' := h.toExclusive.of_sublist hi (by rw [State.candidateAccounts, hc]; rfl)
  refine WellFormed.of_exclusive hx ?_
  rw [eligibleCollators, hi, hc]
  exact h.le_eligible

end Sets

/-! ## The extrinsics -/

section Calls

variable {cfg : Config} {env : Env O A V C} {s s' : State A C} {origin : O}

/-- `register_as_candidate` keeps the state well formed. -/
theorem WellFormed.registerAsCandidate (h : WellFormed cfg s) {now : Nat}
    (hr : registerAsCandidate cfg env s origin now = .ok s') : WellFormed cfg s' := by
  obtain ⟨who, hinv, hcand, hi, hc⟩ := registerAsCandidate_eq_ok hr
  have hx : Exclusive s' := by
    refine ⟨hi ▸ h.sorted, ?_, ?_⟩
    · rw [hc, List.nodup_append]
      refine ⟨h.candidates_nodup, List.nodup_singleton who, ?_⟩
      rintro a ha b hb rfl
      exact hcand (List.mem_singleton.mp hb ▸ ha)
    · intro a ha
      rw [hi]
      rcases List.mem_append.mp (hc ▸ ha) with ha | ha
      · exact h.disjoint a ha
      · exact List.mem_singleton.mp ha ▸ hinv
  refine WellFormed.of_exclusive hx ?_
  have hlen : s'.candidates.length = s.candidates.length + 1 := by
    rw [← length_candidateAccounts, hc, List.length_append, length_candidateAccounts]
    rfl
  have := h.le_eligible
  rw [eligibleCollators] at this ⊢
  rw [hlen, hi]
  omega

/-- Removing a candidate under the guard `eligible_collators > MinEligibleCollators`. -/
theorem WellFormed.tryRemoveCandidate (h : WellFormed cfg s) {who : A} {b : Bool} {n : Nat}
    (hgt : cfg.minEligibleCollators < eligibleCollators s)
    (hr : tryRemoveCandidate env s who b = .ok (n, s')) : WellFormed cfg s' := by
  obtain ⟨hi, hc, hlen⟩ := tryRemoveCandidate_eq_ok hr
  refine WellFormed.of_exclusive (h.toExclusive.of_sublist hi (hc ▸ List.erase_sublist)) ?_
  rw [eligibleCollators] at hgt ⊢
  rw [hi]
  omega

/-- `leave_intent` keeps the state well formed. -/
theorem WellFormed.leaveIntent (h : WellFormed cfg s)
    (hr : leaveIntent cfg env s origin = .ok s') : WellFormed cfg s' := by
  obtain ⟨hgt, who, n, hrem⟩ := leaveIntent_eq_ok hr
  exact h.tryRemoveCandidate hgt hrem

/-- An added invulnerable is inserted in order and leaves the candidates, so the count grows or
stays. -/
theorem WellFormed.addInvulnerable (h : WellFormed cfg s) {who : A}
    (hr : addInvulnerable cfg env s origin who = .ok s') : WellFormed cfg s' := by
  obtain ⟨pos, hpos, rfl⟩ := addInvulnerable_eq_ok hr
  have hinv : SearchInv s.invulnerables who id pos pos :=
    binarySearchByKey_error_searchInv (by simpa using h.sorted) hpos
  have hle : pos ≤ s.invulnerables.length := hinv.2.1
  obtain ⟨hi, hc⟩ := removeCandidateIfAny_spec env
    { s with invulnerables := s.invulnerables.insertIdx pos who } who false
  have hc' : (removeCandidateIfAny env { s with invulnerables := s.invulnerables.insertIdx pos who }
      who false).candidateAccounts = s.candidateAccounts.erase who := hc
  have hsorted : (s.invulnerables.insertIdx pos who).Pairwise (· < ·) := by
    simpa using pairwise_map_insertIdx (by simpa using h.sorted) hinv
  have hx : Exclusive (removeCandidateIfAny env
      { s with invulnerables := s.invulnerables.insertIdx pos who } who false) := by
    refine ⟨hi ▸ hsorted, hc' ▸ h.candidates_nodup.erase who, ?_⟩
    intro a ha
    rw [hc', h.candidates_nodup.mem_erase_iff] at ha
    rw [hi, List.mem_insertIdx hle]
    rintro (rfl | ha')
    · exact ha.1 rfl
    · exact h.disjoint a ha.2 ha'
  refine WellFormed.of_exclusive hx ?_
  have hcand : s.candidates.length ≤
      (removeCandidateIfAny env { s with invulnerables := s.invulnerables.insertIdx pos who }
        who false).candidates.length + 1 := by
    rw [← length_candidateAccounts, ← length_candidateAccounts, hc', List.length_erase]
    split <;> omega
  have := h.le_eligible
  rw [eligibleCollators] at this ⊢
  rw [hi, List.length_insertIdx, if_pos hle]
  omega

/-- `remove_invulnerable` keeps the state well formed. -/
theorem WellFormed.removeInvulnerable (h : WellFormed cfg s) {who : A}
    (hr : removeInvulnerable cfg env s origin who = .ok s') : WellFormed cfg s' := by
  obtain ⟨hgt, pos, hpos, rfl⟩ := removeInvulnerable_eq_ok hr
  obtain ⟨x, hx, -⟩ := binarySearchByKey_ok_sound hpos
  have hlt : pos < s.invulnerables.length := (List.getElem?_eq_some_iff.mp hx).1
  have hsub := List.eraseIdx_sublist s.invulnerables pos
  have hex : Exclusive { s with invulnerables := s.invulnerables.eraseIdx pos } :=
    ⟨h.sorted.sublist hsub, h.candidates_nodup,
      fun a ha hmem => h.disjoint a ha (hsub.subset hmem)⟩
  refine WellFormed.of_exclusive hex ?_
  rw [eligibleCollators] at hgt ⊢
  simp only [List.length_eraseIdx, if_pos hlt]
  omega

/-- `set_invulnerables` keeps the state well formed exactly when the new invulnerables fit. -/
theorem wellFormed_setInvulnerables_iff {cfg : Config} (h : Exclusive s) {new : List A}
    (hr : setInvulnerables cfg env s origin new = .ok s') :
    WellFormed cfg s' ↔ InvulnerablesFit cfg env s new := by
  obtain ⟨-, rfl⟩ := setInvulnerables_eq_ok hr
  have hperm := perm_sortAccounts (new.filter (hasRegisteredKeys env))
  have hlen : eligibleCollators
      { s with invulnerables := sortAccounts (new.filter (hasRegisteredKeys env)) } =
      (new.filter (hasRegisteredKeys env)).length + s.candidates.length := by
    rw [eligibleCollators, hperm.length_eq, Nat.add_comm]
  constructor
  · intro hw
    refine ⟨hperm.nodup_iff.mp hw.nodup_invulnerables, ?_, ?_⟩
    · intro a ha hmem
      exact hw.disjoint a ha (hperm.mem_iff.mpr hmem)
    · exact hlen ▸ hw.le_eligible
  · intro hfit
    have hx : Exclusive
        { s with invulnerables := sortAccounts (new.filter (hasRegisteredKeys env)) } :=
      ⟨pairwise_sortAccounts hfit.nodup, h.candidates_nodup,
        fun a ha hmem => hfit.disjoint a ha (hperm.mem_iff.mp hmem)⟩
    exact WellFormed.of_exclusive hx (hlen ▸ hfit.enough)

/-- Every extrinsic but `set_invulnerables` keeps a well-formed state well formed. -/
theorem WellFormed.dispatch (h : WellFormed cfg s) {now : Nat} {c : Call A}
    (hc : c.isSetInvulnerables = false) (hr : dispatch cfg env now s origin c = .ok s') :
    WellFormed cfg s' := by
  cases c with
  | setInvulnerables new => cases hc
  | setDesiredCandidates max =>
    obtain rfl := setDesiredCandidates_eq_ok hr
    exact h.of_same_sets rfl rfl
  | setCandidacyBond bond =>
    obtain rfl := setCandidacyBond_eq_ok hr
    exact h.of_same_sets rfl rfl
  | registerAsCandidate => exact h.registerAsCandidate hr
  | leaveIntent => exact h.leaveIntent hr
  | addInvulnerable who => exact h.addInvulnerable hr
  | removeInvulnerable who => exact h.removeInvulnerable hr

end Calls

/-! ## The session change -/

section Session

variable {cfg : Config} {env : Env O A V C} {now : Nat} {s₀ : State A C}

/-- Where `kick_stale_candidates` stands before the candidates `rest`: the invulnerables are
untouched, the stored candidates are those kept so far followed by `rest`, what is kept and what
is left is a sublist of the candidates it started from, and the count stays at least the minimum
if it started so. -/
structure KickInv (cfg : Config) (s₀ : State A C) (acc : List A × State A C)
    (rest : List (CandidateInfo A)) : Prop where
  invulnerables : acc.2.invulnerables = s₀.invulnerables
  stored : acc.2.candidateAccounts = acc.1 ++ rest.map (·.who)
  sublist : (acc.1 ++ rest.map (·.who)).Sublist s₀.candidateAccounts
  enough : cfg.minEligibleCollators ≤ eligibleCollators s₀ →
    cfg.minEligibleCollators ≤ eligibleCollators acc.2

omit [LinearOrder A] in
/-- Before the first candidate, `kick_stale_candidates` has kicked none. -/
theorem kickInv_init : KickInv cfg s₀ ([], s₀) s₀.candidates :=
  ⟨rfl, rfl, List.Sublist.refl _, id⟩

/-- One candidate: in an exclusive state it is never invulnerable, and it is kicked only while
more than the minimum are eligible. -/
theorem KickInv.step (hs : Exclusive s₀) {acc : List A × State A C} {c : CandidateInfo A}
    {rest : List (CandidateInfo A)} (h : KickInv cfg s₀ acc (c :: rest)) :
    KickInv cfg s₀ (kickStep cfg env now acc c) rest := by
  have hsub : (acc.1 ++ c.who :: rest.map (·.who)).Sublist s₀.candidateAccounts := by
    simpa using h.sublist
  have hnd := hsub.nodup hs.candidates_nodup
  have hnot : c.who ∉ acc.2.invulnerables :=
    h.invulnerables ▸ hs.disjoint c.who (hsub.subset (by simp))
  unfold kickStep
  rw [if_neg hnot]
  split
  · exact ⟨h.invulnerables, by simpa using h.stored, by simpa using h.sublist, h.enough⟩
  · next hkick =>
    obtain ⟨hi, hc⟩ := removeCandidateIfAny_spec env acc.2 c.who true
    have hkept : c.who ∉ acc.1 := fun hm =>
      (List.nodup_append.mp hnd).2.2 c.who hm c.who List.mem_cons_self rfl
    have hstored : (removeCandidateIfAny env acc.2 c.who true).candidateAccounts =
        acc.1 ++ rest.map (·.who) := by
      rw [hc, h.stored, List.map_cons, List.erase_append_right _ hkept, List.erase_cons_head]
    refine ⟨hi.trans h.invulnerables, hstored,
      (List.sublist_cons_self _ _).append_left acc.1 |>.trans hsub, fun h0 => ?_⟩
    have hlen : (removeCandidateIfAny env acc.2 c.who true).candidates.length + 1 =
        acc.2.candidates.length := by
      rw [← length_candidateAccounts, ← length_candidateAccounts, hstored, h.stored]
      simp only [List.length_append, List.length_map, List.length_cons]
      omega
    have hgt : cfg.minEligibleCollators < eligibleCollators acc.2 := by
      rw [not_or] at hkick
      exact Nat.lt_of_not_le hkick.1
    show cfg.minEligibleCollators ≤ eligibleCollators (removeCandidateIfAny env acc.2 c.who true)
    rw [eligibleCollators] at hgt ⊢
    rw [hi]
    omega

/-- The loop of `kick_stale_candidates` keeps its invariant through all candidates. -/
theorem KickInv.foldl (hs : Exclusive s₀) {rest : List (CandidateInfo A)}
    {acc : List A × State A C} (h : KickInv cfg s₀ acc rest) :
    KickInv cfg s₀ (rest.foldl (kickStep cfg env now) acc) [] := by
  induction rest generalizing acc with
  | nil => exact h
  | cons c rest ih =>
    rw [List.foldl_cons]
    exact ih (h.step hs)

/-- The session's collators are the invulnerables followed by the candidates kept, and the
candidates kept are a sublist of the candidates. -/
theorem newSession_spec (cfg : Config) (env : Env O A V C) (now : Nat) (hs : Exclusive s₀) :
    (newSession cfg env now s₀).2.invulnerables = s₀.invulnerables ∧
      (newSession cfg env now s₀).1 =
        s₀.invulnerables ++ (newSession cfg env now s₀).2.candidateAccounts ∧
      (newSession cfg env now s₀).2.candidateAccounts.Sublist s₀.candidateAccounts ∧
      (cfg.minEligibleCollators ≤ eligibleCollators s₀ →
        cfg.minEligibleCollators ≤ eligibleCollators (newSession cfg env now s₀).2) := by
  have h : KickInv cfg s₀ (s₀.candidates.foldl (kickStep cfg env now) ([], s₀)) [] :=
    KickInv.foldl hs kickInv_init
  have hstored := h.stored
  simp only [List.map_nil, List.append_nil] at hstored
  refine ⟨h.invulnerables, ?_, ?_, h.enough⟩
  · simp only [newSession, assembleCollators, kickStaleCandidates, h.invulnerables, hstored]
  · show (s₀.candidates.foldl (kickStep cfg env now) ([], s₀)).2.candidateAccounts.Sublist _
    rw [hstored]
    simpa using h.sublist

/-- A new session keeps the state well formed. -/
theorem WellFormed.newSession (h : WellFormed cfg s₀) :
    WellFormed cfg (newSession cfg env now s₀).2 := by
  obtain ⟨hi, -, hsub, henough⟩ := newSession_spec cfg env now h.toExclusive
  exact WellFormed.of_exclusive (h.toExclusive.of_sublist hi hsub) (henough h.le_eligible)

/-- The session's collators hold no account twice. -/
theorem nodup_newSession (hs : Exclusive s₀) : (newSession cfg env now s₀).1.Nodup := by
  obtain ⟨-, hcol, hsub, -⟩ := newSession_spec cfg env now hs
  rw [hcol, List.nodup_append]
  refine ⟨hs.nodup_invulnerables, hsub.nodup hs.candidates_nodup, ?_⟩
  rintro a ha b hb rfl
  exact hs.disjoint a (hsub.subset hb) ha

end Session

/-! ## Runs -/

section Runs

variable {cfg : Config} {env : Env O A V C} {s : State A C}

/-- One input of a run in which `UpdateOrigin` sets only invulnerables that fit. -/
def GovernedStep (cfg : Config) (env : Env O A V C) (s s' : State A C) : Prop :=
  ∃ i : Input O A, (∀ now origin new, i = .call now origin (.setInvulnerables new) →
    InvulnerablesFit cfg env s new) ∧ step cfg env s i = s'

/-- Every governed step keeps the state well formed. -/
theorem WellFormed.step (hs : WellFormed cfg s) {s' : State A C} (h : GovernedStep cfg env s s') :
    WellFormed cfg s' := by
  obtain ⟨i, hfit, rfl⟩ := h
  cases i with
  | call now origin c =>
    simp only [Cumulus.CollatorSelection.step]
    split
    · next s' hr =>
      cases c with
      | setInvulnerables new =>
        exact (wellFormed_setInvulnerables_iff hs.toExclusive hr).mpr (hfit now origin new rfl)
      | _ => exact hs.dispatch rfl hr
    · exact hs
  | noteAuthor now author => exact hs.of_same_sets rfl rfl
  | newSession now => exact hs.newSession

/-- The genesis storage is exclusive, and well formed when it has enough invulnerables. -/
theorem wellFormed_build {g : GenesisConfig A} {currency : C}
    (h : g.build cfg currency = some s) (hmin : cfg.minEligibleCollators ≤ g.invulnerables.length) :
    WellFormed cfg s := by
  unfold GenesisConfig.build at h
  split at h
  · cases h
  · next hnd =>
    split at h
    · cases h
    · split at h
      · cases h
      · cases h
        have hnd' : g.invulnerables.Nodup := by simpa using hnd
        refine WellFormed.of_exclusive
          ⟨pairwise_sortAccounts hnd', List.nodup_nil, fun _ ha => absurd ha List.not_mem_nil⟩ ?_
        rw [eligibleCollators, (perm_sortAccounts _).length_eq]
        simpa using hmin

/-- **Runs.** Along every run from genesis in which `UpdateOrigin` sets only fitting
invulnerables, the state stays well formed and every session's collators are distinct. -/
theorem wellFormed_of_governedRun {g : GenesisConfig A} {currency : C} {s₀ : State A C}
    (h0 : g.build cfg currency = some s₀) (hmin : cfg.minEligibleCollators ≤ g.invulnerables.length)
    (hrun : Relation.ReflTransGen (GovernedStep cfg env) s₀ s) :
    WellFormed cfg s ∧ ∀ now, (newSession cfg env now s).1.Nodup := by
  have hs : WellFormed cfg s :=
    reflTransGen_invariant (wellFormed_build h0 hmin) (fun _ _ hs hst => hs.step hst) hrun
  exact ⟨hs, fun _ => nodup_newSession hs.toExclusive⟩

end Runs

/-! ## The collator set -/

section Main

variable {cfg : Config} {env : Env O A V C} {s : State A C}

/-- Accounts are numbers; only account `1` has registered keys, and the origin `true` is
`UpdateOrigin`. -/
def keysOfOne : Env Bool Nat Nat Unit where
  isUpdateOrigin o := o
  signer _ := none
  validatorIdOf a := some a
  isRegistered v := v == 1
  reserve _ _ _ := some ()
  unreserve _ _ _ := ()
  freeBalance _ _ := 0
  minimumBalance := 0
  transfer _ _ _ _ := some ()
  potAccount := 0

/-- Room for ten candidates and ten invulnerables, with at least one eligible collator. -/
def oneCollator : Config where
  maxCandidates := 10
  minEligibleCollators := 1
  maxInvulnerables := 10
  kickThreshold := 10

/-- Account `1` as the only collator, an invulnerable. -/
def oneInvulnerable : State Nat Unit where
  invulnerables := [1]
  candidates := []
  lastAuthoredBlock _ := 0
  desiredCandidates := 0
  candidacyBond := 0
  currency := ()

/-- From a genesis with account `1` as the only invulnerable, a session change. -/
theorem wellFormed_of_governedRun_oneSession :
    ∃ s₀ : State Nat Unit, (⟨[1], 0, 0⟩ : GenesisConfig Nat).build oneCollator () = some s₀ ∧
      oneCollator.minEligibleCollators ≤ (⟨[1], 0, 0⟩ : GenesisConfig Nat).invulnerables.length ∧
      Relation.ReflTransGen (GovernedStep oneCollator keysOfOne) s₀
        (step oneCollator keysOfOne s₀ (.newSession 5)) ∧
      WellFormed oneCollator (step oneCollator keysOfOne s₀ (.newSession 5)) ∧
      ∀ now, (newSession oneCollator keysOfOne now
        (step oneCollator keysOfOne s₀ (.newSession 5))).1.Nodup := by
  obtain ⟨s₀, h0⟩ : ∃ s₀ : State Nat Unit,
      (⟨[1], 0, 0⟩ : GenesisConfig Nat).build oneCollator () = some s₀ := ⟨_, rfl⟩
  have hmin : oneCollator.minEligibleCollators ≤
      (⟨[1], 0, 0⟩ : GenesisConfig Nat).invulnerables.length := by decide
  -- a session change sets no invulnerables
  have hgoverned : GovernedStep oneCollator keysOfOne s₀
      (step oneCollator keysOfOne s₀ (.newSession 5)) :=
    ⟨.newSession 5, ⟨fun _ _ _ h => absurd h nofun, rfl⟩⟩
  have hrun := Relation.ReflTransGen.single hgoverned
  exact ⟨s₀, h0, hmin, hrun, wellFormed_of_governedRun h0 hmin hrun⟩

/-- From `oneInvulnerable`, `set_invulnerables [2]` passes the guard, the list not being empty,
and leaves no collator, `2` having no keys; `set_invulnerables [1, 1]` makes the next session's
collators `[1, 1]`. -/
theorem setInvulnerables_drops_collators :
    oneCollator.minEligibleCollators ≤ distinctCollators oneInvulnerable ∧
    (∃ s', setInvulnerables oneCollator keysOfOne oneInvulnerable true [2] = .ok s' ∧
      distinctCollators s' < oneCollator.minEligibleCollators) ∧
    ∃ s', setInvulnerables oneCollator keysOfOne oneInvulnerable true [1, 1] = .ok s' ∧
      (newSession oneCollator keysOfOne 0 s').1 = [1, 1] :=
  ⟨by decide, ⟨_, rfl, by decide⟩, ⟨_, rfl, rfl⟩⟩

end Main

end Cumulus.CollatorSelection
