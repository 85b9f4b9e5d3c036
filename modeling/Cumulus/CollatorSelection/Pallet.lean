import Cumulus.Found.BinarySearch
import Cumulus.Found.Storage
import Mathlib.Data.List.Sort

/-!
# collator selection: the pallet

The pallet keeps two lists of collators: the permissioned `Invulnerables`, kept sorted, and the
`Candidates` who registered with a bond. At each new session it kicks the candidates that did
not author a block recently and hands the session pallet the invulnerables followed by the
candidates it kept. The extrinsics, each a function returning the new storage or the error
(a failed call writes nothing: `Except.error`):

* `setInvulnerables`, `addInvulnerable`, `removeInvulnerable`, `setDesiredCandidates`,
  `setCandidacyBond` — the calls of `UpdateOrigin`;
* `registerAsCandidate`, `leaveIntent` — the signed calls of a candidate;
* `tryRemoveCandidate` — the removal they and the session change share;
* `kickStaleCandidates`, `assembleCollators`, `newSession` — `SessionManager::new_session`;
* `noteAuthor` — `EventHandler::note_author`, paying the author from the pot;
* `step` — the pallet driven by any sequence of calls, authored blocks and session changes.

What the pallet reads outside its own storage is `Env`: the origins, the session keys and the
reservable currency, whose balances are an abstract state `C`. The block number is an argument
of the functions that read it. Balances and block numbers are `Nat`: the one subtraction on
balances is `checked_sub(..).unwrap_or(0)` and the one on block numbers `saturating_sub`, both
truncated subtraction.
-/

namespace Cumulus.CollatorSelection

open Cumulus.Found

/-- The errors of the pallet.
Source: `pallets/collator-selection/src/lib.rs` `Error` -/
inductive Error where
  | tooManyCandidates
  | tooFewEligibleCollators
  | alreadyCandidate
  | notCandidate
  | tooManyInvulnerables
  | alreadyInvulnerable
  | notInvulnerable
  | noAssociatedValidatorId
  | validatorNotRegistered
  deriving DecidableEq, Repr

/-- What a call fails with: a rejected origin, an error of the pallet, or the currency's refusal
to reserve the bond. -/
inductive DispatchError where
  | badOrigin
  | module (e : Error)
  | currency
  deriving DecidableEq, Repr

/-- The pallet's constants.
Source: `pallets/collator-selection/src/lib.rs` `Config` -/
structure Config where
  maxCandidates : Nat
  minEligibleCollators : Nat
  maxInvulnerables : Nat
  kickThreshold : Nat

/-- What the pallet consults outside its storage. -/
structure Env (O A V C : Type*) where
  /-- `T::UpdateOrigin::ensure_origin` accepts the origin. -/
  isUpdateOrigin : O → Bool
  /-- `ensure_signed`: the account of a signed origin. -/
  signer : O → Option A
  /-- `T::ValidatorIdOf::convert`. -/
  validatorIdOf : A → Option V
  /-- `T::ValidatorRegistration::is_registered`. -/
  isRegistered : V → Bool
  /-- `T::Currency::reserve`; `none` when the account cannot reserve the amount. -/
  reserve : C → A → Nat → Option C
  /-- `T::Currency::unreserve`. -/
  unreserve : C → A → Nat → C
  /-- `T::Currency::free_balance`. -/
  freeBalance : C → A → Nat
  /-- `T::Currency::minimum_balance`. -/
  minimumBalance : Nat
  /-- `T::Currency::transfer(.., KeepAlive)`; `none` when it fails. -/
  transfer : C → A → A → Nat → Option C
  /-- `Pallet::account_id`: the pot, `T::PotId` as an account. -/
  potAccount : A

/-- Source: `pallets/collator-selection/src/lib.rs` `CandidateInfo` -/
structure CandidateInfo (A : Type*) where
  who : A
  deposit : Nat
  deriving DecidableEq, Repr

/-- The pallet's storage, with the currency's balances. `LastAuthoredBlock` is a `ValueQuery`
map: a removed entry reads `0`. -/
structure State (A C : Type*) where
  invulnerables : List A
  candidates : List (CandidateInfo A)
  lastAuthoredBlock : A → Nat
  desiredCandidates : Nat
  candidacyBond : Nat
  currency : C

variable {O A V C : Type*} [LinearOrder A]

/-! ## Reading the storage and the keys -/

/-- Candidates and invulnerables counted together; an account in both counts twice.
Source: `pallets/collator-selection/src/lib.rs` `Pallet::eligible_collators` -/
def eligibleCollators (s : State A C) : Nat :=
  s.candidates.length + s.invulnerables.length

/-- The accounts of the candidates, in order. -/
def State.candidateAccounts (s : State A C) : List A :=
  s.candidates.map (·.who)

/-- The account has a validator id and the id is registered: the test `set_invulnerables` skips
an account by. -/
def hasRegisteredKeys (env : Env O A V C) (who : A) : Bool :=
  match env.validatorIdOf who with
  | some key => env.isRegistered key
  | none => false

/-- The key check of `register_as_candidate` and `add_invulnerable`, with its two errors. -/
def checkValidatorKey (env : Env O A V C) (who : A) : Except DispatchError Unit :=
  match env.validatorIdOf who with
  | none => .error (.module .noAssociatedValidatorId)
  | some key => if env.isRegistered key then .ok () else .error (.module .validatorNotRegistered)

/-- Rust's `sort()` of the invulnerables. A stable sort; on a linear order every stable sort
returns the same list (`List.mergeSort_eq_insertionSort`), and this one computes by `decide`. -/
def sortAccounts (l : List A) : List A :=
  l.insertionSort (· ≤ ·)

/-! ## The calls of `UpdateOrigin` -/

/-- Replace the invulnerables by the accounts of `new` that have registered keys, sorted.
Source: `pallets/collator-selection/src/lib.rs` `Pallet::set_invulnerables` -/
def setInvulnerables (cfg : Config) (env : Env O A V C) (s : State A C) (origin : O)
    (new : List A) : Except DispatchError (State A C) :=
  if !env.isUpdateOrigin origin then .error .badOrigin
  -- "don't wipe out the collator set": checked for an empty `new` only
  else if new = [] ∧ s.candidates.length < cfg.minEligibleCollators then
    .error (.module .tooFewEligibleCollators)
  else if cfg.maxInvulnerables < new.length then .error (.module .tooManyInvulnerables)
  else
    let newWithKeys := new.filter (hasRegisteredKeys env)
    if cfg.maxInvulnerables < newWithKeys.length then .error (.module .tooManyInvulnerables)
    else .ok { s with invulnerables := sortAccounts newWithKeys }

/-- Source: `pallets/collator-selection/src/lib.rs` `Pallet::set_desired_candidates` -/
def setDesiredCandidates (env : Env O A V C) (s : State A C) (origin : O) (max : Nat) :
    Except DispatchError (State A C) :=
  if !env.isUpdateOrigin origin then .error .badOrigin
  else .ok { s with desiredCandidates := max }

/-- Source: `pallets/collator-selection/src/lib.rs` `Pallet::set_candidacy_bond` -/
def setCandidacyBond (env : Env O A V C) (s : State A C) (origin : O) (bond : Nat) :
    Except DispatchError (State A C) :=
  if !env.isUpdateOrigin origin then .error .badOrigin
  else .ok { s with candidacyBond := bond }

/-- Remove `who` from the candidates if it is one, unreserving its deposit and, if asked,
dropping its last authored block. Returns the number of candidates left.
Source: `pallets/collator-selection/src/lib.rs` `Pallet::try_remove_candidate` -/
def tryRemoveCandidate (env : Env O A V C) (s : State A C) (who : A) (removeLastAuthored : Bool) :
    Except DispatchError (Nat × State A C) :=
  match removeFirst (fun c => c.who == who) s.candidates with
  | none => .error (.module .notCandidate)
  | some (candidate, candidates) =>
    .ok (candidates.length,
      { s with
        candidates
        currency := env.unreserve s.currency who candidate.deposit
        lastAuthoredBlock :=
          if removeLastAuthored then Function.update s.lastAuthoredBlock who 0
          else s.lastAuthoredBlock })

/-- `let _ = Self::try_remove_candidate(..)`: the removal if `who` is a candidate, else the
storage as it is. -/
def removeCandidateIfAny (env : Env O A V C) (s : State A C) (who : A)
    (removeLastAuthored : Bool) : State A C :=
  match tryRemoveCandidate env s who removeLastAuthored with
  | .ok (_, s') => s'
  | .error _ => s

/-- Insert `who` into the sorted invulnerables at the position the binary search reports, then
drop it from the candidates, keeping its last authored block.
Source: `pallets/collator-selection/src/lib.rs` `Pallet::add_invulnerable` -/
def addInvulnerable (cfg : Config) (env : Env O A V C) (s : State A C) (origin : O) (who : A) :
    Except DispatchError (State A C) :=
  if !env.isUpdateOrigin origin then .error .badOrigin
  else match checkValidatorKey env who with
    | .error e => .error e
    | .ok () =>
      match binarySearchByKey s.invulnerables who id with
      | .ok _ => .error (.module .alreadyInvulnerable)
      | .error pos =>
        -- `BoundedVec::try_insert` refuses a full vector
        if cfg.maxInvulnerables ≤ s.invulnerables.length then .error (.module .tooManyInvulnerables)
        else .ok (removeCandidateIfAny env
          { s with invulnerables := s.invulnerables.insertIdx pos who } who false)

/-- Source: `pallets/collator-selection/src/lib.rs` `Pallet::remove_invulnerable` -/
def removeInvulnerable (cfg : Config) (env : Env O A V C) (s : State A C) (origin : O) (who : A) :
    Except DispatchError (State A C) :=
  if !env.isUpdateOrigin origin then .error .badOrigin
  else if eligibleCollators s ≤ cfg.minEligibleCollators then
    .error (.module .tooFewEligibleCollators)
  else match binarySearchByKey s.invulnerables who id with
    | .error _ => .error (.module .notInvulnerable)
    | .ok pos => .ok { s with invulnerables := s.invulnerables.eraseIdx pos }

/-! ## The calls of a candidate -/

/-- Register the signer as a candidate at block `now`, reserving the bond.
Source: `pallets/collator-selection/src/lib.rs` `Pallet::register_as_candidate` -/
def registerAsCandidate (cfg : Config) (env : Env O A V C) (s : State A C) (origin : O)
    (now : Nat) : Except DispatchError (State A C) :=
  match env.signer origin with
  | none => .error .badOrigin
  | some who =>
    if s.desiredCandidates ≤ s.candidates.length then .error (.module .tooManyCandidates)
    else if who ∈ s.invulnerables then .error (.module .alreadyInvulnerable)
    else match checkValidatorKey env who with
      | .error e => .error e
      | .ok () =>
        let deposit := s.candidacyBond
        if s.candidates.any (·.who == who) then .error (.module .alreadyCandidate)
        else match env.reserve s.currency who deposit with
          | none => .error .currency
          | some currency =>
            -- `BoundedVec::try_push` refuses a full vector
            if cfg.maxCandidates ≤ s.candidates.length then .error (.module .tooManyCandidates)
            else .ok { s with
              candidates := s.candidates ++ [⟨who, deposit⟩]
              currency
              lastAuthoredBlock :=
                Function.update s.lastAuthoredBlock who (now + cfg.kickThreshold) }

/-- Source: `pallets/collator-selection/src/lib.rs` `Pallet::leave_intent` -/
def leaveIntent (cfg : Config) (env : Env O A V C) (s : State A C) (origin : O) :
    Except DispatchError (State A C) :=
  match env.signer origin with
  | none => .error .badOrigin
  | some who =>
    if eligibleCollators s ≤ cfg.minEligibleCollators then
      .error (.module .tooFewEligibleCollators)
    else (tryRemoveCandidate env s who true).map (·.2)

/-! ## The session change -/

/-- One candidate of the `filter_map` of `kick_stale_candidates`, on the storage as the
candidates before it left it: the accounts kept so far, and the storage.
Source: `pallets/collator-selection/src/lib.rs` `Pallet::kick_stale_candidates` -/
def kickStep (cfg : Config) (env : Env O A V C) (now : Nat) (acc : List A × State A C)
    (c : CandidateInfo A) : List A × State A C :=
  let sinceLast := now - acc.2.lastAuthoredBlock c.who
  let isLazy := cfg.kickThreshold ≤ sinceLast
  if c.who ∈ acc.2.invulnerables then (acc.1, removeCandidateIfAny env acc.2 c.who false)
  else if eligibleCollators acc.2 ≤ cfg.minEligibleCollators ∨ ¬isLazy then
    (acc.1 ++ [c.who], acc.2)
  else (acc.1, removeCandidateIfAny env acc.2 c.who true)

/-- Kick the candidates that did not author a block within `KickThreshold`, as long as more than
`MinEligibleCollators` are eligible, and drop the candidates that are invulnerable. Returns the
accounts kept.
Source: `pallets/collator-selection/src/lib.rs` `Pallet::kick_stale_candidates` -/
def kickStaleCandidates (cfg : Config) (env : Env O A V C) (now : Nat) (s : State A C) :
    List A × State A C :=
  s.candidates.foldl (kickStep cfg env now) ([], s)

/-- Source: `pallets/collator-selection/src/lib.rs` `Pallet::assemble_collators` -/
def assembleCollators (s : State A C) (candidates : List A) : List A :=
  s.invulnerables ++ candidates

/-- The collators of the next session, and the storage after the kicks. The Rust function
always returns `Some`.
Source: `pallets/collator-selection/src/lib.rs` `SessionManager::new_session` -/
def newSession (cfg : Config) (env : Env O A V C) (now : Nat) (s : State A C) :
    List A × State A C :=
  let kicked := kickStaleCandidates cfg env now s
  (assembleCollators kicked.2 kicked.1, kicked.2)

/-- Pay the author half of the pot above the existential deposit and record block `now` as its
last. A failed transfer changes no balance.
Source: `pallets/collator-selection/src/lib.rs` `EventHandler::note_author` -/
def noteAuthor (env : Env O A V C) (now : Nat) (s : State A C) (author : A) : State A C :=
  let pot := env.potAccount
  let reward := (env.freeBalance s.currency pot - env.minimumBalance) / 2
  { s with
    currency := (env.transfer s.currency pot author reward).getD s.currency
    lastAuthoredBlock := Function.update s.lastAuthoredBlock author now }

/-! ## Genesis and runs -/

/-- Source: `pallets/collator-selection/src/lib.rs` `GenesisConfig` -/
structure GenesisConfig (A : Type*) where
  invulnerables : List A
  candidacyBond : Nat
  desiredCandidates : Nat

/-- The storage at genesis; `none` where the build panics (duplicate invulnerables, too many of
them, more desired candidates than `MaxCandidates`).
Source: `pallets/collator-selection/src/lib.rs` `BuildGenesisConfig::build` -/
def GenesisConfig.build (cfg : Config) (g : GenesisConfig A) (currency : C) :
    Option (State A C) :=
  if !g.invulnerables.Nodup then none
  else if cfg.maxInvulnerables < g.invulnerables.length then none
  else if cfg.maxCandidates < g.desiredCandidates then none
  else some
    { invulnerables := sortAccounts g.invulnerables
      candidates := []
      lastAuthoredBlock := fun _ => 0
      desiredCandidates := g.desiredCandidates
      candidacyBond := g.candidacyBond
      currency }

/-- The extrinsics of the pallet. -/
inductive Call (A : Type*) where
  | setInvulnerables (new : List A)
  | setDesiredCandidates (max : Nat)
  | setCandidacyBond (bond : Nat)
  | registerAsCandidate
  | leaveIntent
  | addInvulnerable (who : A)
  | removeInvulnerable (who : A)

/-- The calls that may change the invulnerables wholesale. -/
def Call.isSetInvulnerables : Call A → Bool
  | .setInvulnerables _ => true
  | _ => false

/-- Source: `pallets/collator-selection/src/lib.rs` `#[pallet::call]` -/
def dispatch (cfg : Config) (env : Env O A V C) (now : Nat) (s : State A C) (origin : O) :
    Call A → Except DispatchError (State A C)
  | .setInvulnerables new => setInvulnerables cfg env s origin new
  | .setDesiredCandidates max => setDesiredCandidates env s origin max
  | .setCandidacyBond bond => setCandidacyBond env s origin bond
  | .registerAsCandidate => registerAsCandidate cfg env s origin now
  | .leaveIntent => leaveIntent cfg env s origin
  | .addInvulnerable who => addInvulnerable cfg env s origin who
  | .removeInvulnerable who => removeInvulnerable cfg env s origin who

/-- What happens to the pallet in a block: an extrinsic, an authored block, a session change. -/
inductive Input (O A : Type*) where
  | call (now : Nat) (origin : O) (c : Call A)
  | noteAuthor (now : Nat) (author : A)
  | newSession (now : Nat)

/-- The storage after one input; a failed extrinsic leaves it as it was. -/
def step (cfg : Config) (env : Env O A V C) (s : State A C) : Input O A → State A C
  | .call now origin c =>
    match dispatch cfg env now s origin c with
    | .ok s' => s'
    | .error _ => s
  | .noteAuthor now author => noteAuthor env now s author
  | .newSession now => (newSession cfg env now s).2

/-! ## What a successful call does -/

section Spec

variable {cfg : Config} {env : Env O A V C} {s s' : State A C} {origin : O}

omit [LinearOrder A] in
@[simp] theorem length_candidateAccounts (s : State A C) :
    s.candidateAccounts.length = s.candidates.length :=
  List.length_map _

/-- Sorting the accounts keeps them. -/
theorem perm_sortAccounts (l : List A) : (sortAccounts l).Perm l :=
  List.perm_insertionSort _ l

/-- Sorting distinct accounts makes them strictly increasing. -/
theorem pairwise_sortAccounts {l : List A} (h : l.Nodup) : (sortAccounts l).Pairwise (· < ·) := by
  have hle : (sortAccounts l).Pairwise (· ≤ ·) := List.pairwise_insertionSort _ l
  have hne : (sortAccounts l).Nodup := (perm_sortAccounts l).nodup_iff.mpr h
  exact (hle.and hne).imp fun h => lt_of_le_of_ne h.1 h.2

/-- Everything a successful `try_remove_candidate` does: it takes out the first entry of `who`,
unreserves the deposit recorded there, and leaves the invulnerables alone. -/
theorem tryRemoveCandidate_ok_spec {who : A} {b : Bool} {n : Nat}
    (h : tryRemoveCandidate env s who b = .ok (n, s')) :
    ∃ c, removeFirst (fun c => c.who == who) s.candidates = some (c, s'.candidates) ∧
      s'.currency = env.unreserve s.currency who c.deposit ∧
      s'.invulnerables = s.invulnerables := by
  unfold tryRemoveCandidate at h
  split at h
  · cases h
  · next candidate candidates hr =>
    cases h
    exact ⟨candidate, hr, rfl, rfl⟩

/-- Removing a candidate erases it from the candidates and leaves the invulnerables. -/
theorem tryRemoveCandidate_eq_ok {who : A} {b : Bool} {n : Nat}
    (h : tryRemoveCandidate env s who b = .ok (n, s')) :
    s'.invulnerables = s.invulnerables ∧ s'.candidateAccounts = s.candidateAccounts.erase who ∧
      s'.candidates.length + 1 = s.candidates.length := by
  obtain ⟨c, hr, -, hi⟩ := tryRemoveCandidate_ok_spec h
  exact ⟨hi, (map_removeFirst_key CandidateInfo.who hr).2, length_removeFirst hr⟩

/-- Removing fails only for an account that is not a candidate. -/
theorem tryRemoveCandidate_eq_error {who : A} {b : Bool} {e : DispatchError}
    (h : tryRemoveCandidate env s who b = .error e) : who ∉ s.candidateAccounts := by
  unfold tryRemoveCandidate at h
  split at h
  · next hr =>
    rw [State.candidateAccounts, ← removeFirst_key_isSome_iff CandidateInfo.who, hr]
    simp
  · cases h

/-- Ignoring the result of `try_remove_candidate` erases the account from the candidates either
way. -/
theorem removeCandidateIfAny_spec (env : Env O A V C) (s : State A C) (who : A) (b : Bool) :
    (removeCandidateIfAny env s who b).invulnerables = s.invulnerables ∧
      (removeCandidateIfAny env s who b).candidateAccounts = s.candidateAccounts.erase who := by
  unfold removeCandidateIfAny
  split
  · next h => exact ⟨(tryRemoveCandidate_eq_ok h).1, (tryRemoveCandidate_eq_ok h).2.1⟩
  · next h => exact ⟨rfl, (List.erase_of_not_mem (tryRemoveCandidate_eq_error h)).symm⟩

/-- A successful `set_invulnerables` stores the sorted new accounts with keys, and an empty list is
accepted only with enough candidates. -/
theorem setInvulnerables_eq_ok {new : List A} (h : setInvulnerables cfg env s origin new = .ok s') :
    (new = [] → cfg.minEligibleCollators ≤ s.candidates.length) ∧
      s' = { s with invulnerables := sortAccounts (new.filter (hasRegisteredKeys env)) } := by
  unfold setInvulnerables at h
  split at h
  · cases h
  · split at h
    · cases h
    · next hguard =>
      split at h
      · cases h
      · dsimp only at h
        split at h
        · cases h
        · cases h
          refine ⟨fun hnil => ?_, rfl⟩
          exact Nat.le_of_not_lt fun hlt => hguard ⟨hnil, hlt⟩

omit [LinearOrder A] in
/-- A successful `set_desired_candidates` changes only the desired number. -/
theorem setDesiredCandidates_eq_ok {max : Nat} (h : setDesiredCandidates env s origin max = .ok s') :
    s' = { s with desiredCandidates := max } := by
  unfold setDesiredCandidates at h
  split at h
  · cases h
  · cases h
    rfl

omit [LinearOrder A] in
/-- A successful `set_candidacy_bond` changes only the bond. -/
theorem setCandidacyBond_eq_ok {bond : Nat} (h : setCandidacyBond env s origin bond = .ok s') :
    s' = { s with candidacyBond := bond } := by
  unfold setCandidacyBond at h
  split at h
  · cases h
  · cases h
    rfl

/-- Everything a successful `register_as_candidate` does: below `DesiredCandidates` and
`MaxCandidates`, it reserves the current bond of a new account that is no invulnerable and pushes
its entry, with that bond as its deposit. -/
theorem registerAsCandidate_ok_spec {now : Nat}
    (h : registerAsCandidate cfg env s origin now = .ok s') :
    s.candidates.length < s.desiredCandidates ∧ s.candidates.length < cfg.maxCandidates ∧
      ∃ who, who ∉ s.invulnerables ∧ who ∉ s.candidateAccounts ∧
        env.reserve s.currency who s.candidacyBond = some s'.currency ∧
        s'.candidates = s.candidates ++ [⟨who, s.candidacyBond⟩] ∧
        s'.invulnerables = s.invulnerables := by
  unfold registerAsCandidate at h
  split at h
  · cases h
  · next who _ =>
    split at h
    · cases h
    · next hdesired =>
      split at h
      · cases h
      · next hinv =>
        split at h
        · cases h
        · dsimp only at h
          split at h
          · cases h
          · next hany =>
            split at h
            · cases h
            · next currency hreserve =>
              split at h
              · cases h
              · next hmax =>
                cases h
                refine ⟨Nat.lt_of_not_le hdesired, Nat.lt_of_not_le hmax, who, hinv, ?_, hreserve,
                  rfl, rfl⟩
                simpa [State.candidateAccounts] using hany

/-- A registered candidate is a new account, no invulnerable, appended to the candidates. -/
theorem registerAsCandidate_eq_ok {now : Nat}
    (h : registerAsCandidate cfg env s origin now = .ok s') :
    ∃ who, who ∉ s.invulnerables ∧ who ∉ s.candidateAccounts ∧
      s'.invulnerables = s.invulnerables ∧ s'.candidateAccounts = s.candidateAccounts ++ [who] := by
  obtain ⟨-, -, who, hinv, hcand, -, hc, hi⟩ := registerAsCandidate_ok_spec h
  exact ⟨who, hinv, hcand, hi, by simp [State.candidateAccounts, hc]⟩

/-- A successful `leave_intent` had more than the minimum of eligible collators and removed the
caller. -/
theorem leaveIntent_eq_ok (h : leaveIntent cfg env s origin = .ok s') :
    cfg.minEligibleCollators < eligibleCollators s ∧
      ∃ who n, tryRemoveCandidate env s who true = .ok (n, s') := by
  unfold leaveIntent at h
  split at h
  · cases h
  · next who _ =>
    split at h
    · cases h
    · next hgt =>
      refine ⟨Nat.lt_of_not_le hgt, who, ?_⟩
      cases hr : tryRemoveCandidate env s who true with
      | error e =>
        rw [hr] at h
        cases h
      | ok r =>
        rw [hr] at h
        cases h
        exact ⟨r.1, rfl⟩

/-- An added invulnerable was missed by the search, is inserted where the search stopped, and
leaves the candidates. -/
theorem addInvulnerable_eq_ok {who : A} (h : addInvulnerable cfg env s origin who = .ok s') :
    ∃ pos, binarySearchByKey s.invulnerables who id = .error pos ∧
      s' = removeCandidateIfAny env
        { s with invulnerables := s.invulnerables.insertIdx pos who } who false := by
  unfold addInvulnerable at h
  split at h
  · cases h
  · split at h
    · cases h
    · split at h
      · cases h
      · next pos hpos =>
        split at h
        · cases h
        · cases h
          exact ⟨pos, hpos, rfl⟩

/-- A successful `remove_invulnerable` had more than the minimum of eligible collators and erased
the account where the binary search found it. -/
theorem removeInvulnerable_eq_ok {who : A} (h : removeInvulnerable cfg env s origin who = .ok s') :
    cfg.minEligibleCollators < eligibleCollators s ∧
      ∃ pos, binarySearchByKey s.invulnerables who id = .ok pos ∧
        s' = { s with invulnerables := s.invulnerables.eraseIdx pos } := by
  unfold removeInvulnerable at h
  split at h
  · cases h
  · split at h
    · cases h
    · next hgt =>
      split at h
      · cases h
      · next pos hpos =>
        cases h
        exact ⟨Nat.lt_of_not_le hgt, pos, hpos, rfl⟩

end Spec

end Cumulus.CollatorSelection
