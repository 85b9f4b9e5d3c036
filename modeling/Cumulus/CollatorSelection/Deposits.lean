import Cumulus.CollatorSelection.Invariant

/-!
# collator selection: the reserved deposits and the stored lists over every run

A candidate's bond is reserved when it registers and recorded in its `Candidates` entry. Every
removal (`leave_intent`, `add_invulnerable`, the kicks of `new_session`) goes through
`try_remove_candidate`, which unreserves the recorded deposit and not the current
`CandidacyBond`. Over every run from genesis, with a currency whose `reserve` and `unreserve` act
exactly on the reserved balances (`ExactReserves`) and whose transfers, where `note_author` runs,
move free balance only (`Input.keepsReserves`):

* `DepositsInv` — the invulnerables are sorted, no account is a candidate twice, there are at
  most `MaxCandidates` candidates, and the reserved balance of each account is what it had at
  genesis plus the deposit of its `Candidates` entry (`depositOf`); `DepositsInv.step` for one
  input, `depositsInv_of_run` for a run;
* the invulnerables hold no account twice as long as `set_invulnerables` is never given an
  account with keys twice (`Input.setsDistinct`, `strictInvulnerables_of_run`);
* `collatorSelection_deposits` gathers them, with the guard of `register_as_candidate`.
  `setInvulnerables_repeats` is a run from genesis whose `set_invulnerables` stores an account
  twice: the call sorts what it is given but does not drop repeats.
-/

namespace Cumulus.CollatorSelection

open Cumulus.Found

variable {O A V C : Type*} [LinearOrder A]

/-- The deposit recorded for `who` in `Candidates`: that of its entry, zero if it has none. -/
def depositOf (candidates : List (CandidateInfo A)) (who : A) : Nat :=
  ((candidates.find? (·.who == who)).map (·.deposit)).getD 0

/-! ## The recorded deposits -/

section Deposits

/-- An account that is not a candidate has no deposit. -/
theorem depositOf_eq_zero {candidates : List (CandidateInfo A)} {who : A}
    (h : who ∉ candidates.map (·.who)) : depositOf candidates who = 0 := by
  rw [depositOf, (find?_key_eq_none_iff CandidateInfo.who).mpr h]
  rfl

/-- Pushing the entry of a new candidate records its deposit and changes no other. -/
theorem depositOf_append {candidates : List (CandidateInfo A)} {who : A}
    (h : who ∉ candidates.map (·.who)) (deposit : Nat) (b : A) :
    depositOf (candidates ++ [⟨who, deposit⟩]) b =
      if b = who then deposit else depositOf candidates b := by
  have hnone : candidates.find? (fun c => c.who == (⟨who, deposit⟩ : CandidateInfo A).who) =
      none :=
    (find?_key_eq_none_iff CandidateInfo.who).mpr h
  unfold depositOf
  rw [find?_key_append_of_eq_none CandidateInfo.who hnone]
  by_cases hb : b = who <;> simp [hb]

/-- Taking out the entry of `who`, among entries of distinct accounts, finds its recorded deposit
and leaves every other deposit as it was. -/
theorem depositOf_removeFirst {candidates rest : List (CandidateInfo A)} {who : A}
    {c : CandidateInfo A} (hnd : (candidates.map (·.who)).Nodup)
    (h : removeFirst (fun c => c.who == who) candidates = some (c, rest)) :
    depositOf candidates who = c.deposit ∧
      ∀ b, depositOf rest b = if b = who then 0 else depositOf candidates b := by
  have hperm := removeFirst_perm h
  obtain ⟨hkey, -⟩ := map_removeFirst_key CandidateInfo.who h
  have hfind : candidates.find? (fun x => x.who == who) = some c :=
    (find?_key_eq_some_iff CandidateInfo.who hnd).mpr ⟨hperm.subset List.mem_cons_self, hkey⟩
  refine ⟨by rw [depositOf, hfind]; rfl, fun b => ?_⟩
  have hnd' : (c.who :: rest.map (·.who)).Nodup := by
    simpa using (hperm.map CandidateInfo.who).nodup_iff.mpr hnd
  by_cases hb : b = who
  · subst hb
    rw [if_pos rfl, depositOf_eq_zero (hkey ▸ (List.nodup_cons.mp hnd').1)]
  · -- the other lookups see the same entries, reordered
    have hcons : (c :: rest).find? (fun x => x.who == b) = rest.find? (fun x => x.who == b) :=
      List.find?_cons_of_neg (by simpa using fun h => hb (h.symm.trans hkey))
    rw [if_neg hb, depositOf, depositOf, ← hcons, find?_key_perm CandidateInfo.who hnd hperm.symm]

end Deposits

/-! ## The currency and the runs -/

/-- A `ReservableCurrency` whose `reserve` and `unreserve` act exactly on the reserved balances
`reserved`: a successful `reserve` adds the amount to the account's reserved balance, `unreserve`
takes it off, down to zero, and neither touches another account. -/
structure ExactReserves (env : Env O A V C) (reserved : C → A → Nat) : Prop where
  reserve : ∀ c who amount c', env.reserve c who amount = some c' →
    reserved c' = Function.update (reserved c) who (reserved c who + amount)
  unreserve : ∀ c who amount, reserved (env.unreserve c who amount) =
    Function.update (reserved c) who (reserved c who - amount)

/-- What a run asks of the currency at an input: the payment of `note_author` moves free balance
only. The extrinsics and the session changes ask nothing. -/
def Input.keepsReserves (env : Env O A V C) (reserved : C → A → Nat) : Input O A → Prop
  | .noteAuthor _ _ => ∀ c src dst amount c', env.transfer c src dst amount = some c' →
    reserved c' = reserved c
  | _ => True

/-- The inputs after which the invulnerables keep no repeats: a `set_invulnerables` is given no
account with keys twice. -/
def Input.setsDistinct (env : Env O A V C) : Input O A → Prop
  | .call _ _ (.setInvulnerables new) => (new.filter (hasRegisteredKeys env)).Nodup
  | _ => True

/-- What the pallet keeps of its storage and of the currency; `base` is what each account had
reserved at genesis. -/
structure DepositsInv (cfg : Config) (reserved : C → A → Nat) (base : A → Nat) (s : State A C) :
    Prop where
  sorted : s.invulnerables.Pairwise (· ≤ ·)
  candidates_nodup : s.candidateAccounts.Nodup
  candidates_le : s.candidates.length ≤ cfg.maxCandidates
  reserves : ∀ who, reserved s.currency who = base who + depositOf s.candidates who

/-! ## One input -/

section Steps

variable {cfg : Config} {env : Env O A V C} {reserved : C → A → Nat} {base : A → Nat}
  {s s' : State A C} {origin : O}

/-- `try_remove_candidate` unreserves exactly the deposit it recorded, whatever the bond is now. -/
theorem DepositsInv.tryRemoveCandidate (hres : ExactReserves env reserved)
    (h : DepositsInv cfg reserved base s) {who : A} {b : Bool} {n : Nat}
    (hr : tryRemoveCandidate env s who b = .ok (n, s')) : DepositsInv cfg reserved base s' := by
  obtain ⟨c, hrem, hcur, hinv⟩ := tryRemoveCandidate_ok_spec hr
  obtain ⟨hdep, hrest⟩ := depositOf_removeFirst h.candidates_nodup hrem
  have hlen := length_removeFirst hrem
  have hle := h.candidates_le
  refine ⟨hinv ▸ h.sorted, ((removeFirst_sublist hrem).map _).nodup h.candidates_nodup,
    by omega, fun a => ?_⟩
  rw [hcur, hres.unreserve, hrest a]
  by_cases ha : a = who
  · subst ha
    rw [Function.update_self, if_pos rfl, h.reserves a, hdep]
    omega
  · rw [Function.update_of_ne ha, if_neg ha, h.reserves a]

/-- Removing a candidate, with its deposit returned, keeps the deposits invariant. -/
theorem DepositsInv.removeCandidateIfAny (hres : ExactReserves env reserved)
    (h : DepositsInv cfg reserved base s) (who : A) (b : Bool) :
    DepositsInv cfg reserved base (removeCandidateIfAny env s who b) := by
  unfold Cumulus.CollatorSelection.removeCandidateIfAny
  split
  · next hr => exact h.tryRemoveCandidate hres hr
  · exact h

/-- A registration reserves the bond it records, below `MaxCandidates`. -/
theorem DepositsInv.registerAsCandidate (hres : ExactReserves env reserved)
    (h : DepositsInv cfg reserved base s) {now : Nat}
    (hr : registerAsCandidate cfg env s origin now = .ok s') : DepositsInv cfg reserved base s' := by
  obtain ⟨-, hmax, who, -, hcand, hreserve, hc, hi⟩ := registerAsCandidate_ok_spec hr
  refine ⟨hi ▸ h.sorted, ?_, ?_, fun a => ?_⟩
  · simp only [State.candidateAccounts, hc, List.map_append, List.map_cons, List.map_nil]
    rw [List.nodup_append]
    refine ⟨h.candidates_nodup, List.nodup_singleton who, ?_⟩
    rintro x hx y hy rfl
    exact hcand (List.mem_singleton.mp hy ▸ hx)
  · rw [hc, List.length_append, List.length_singleton]
    omega
  · rw [hres.reserve _ _ _ _ hreserve, hc, depositOf_append hcand]
    by_cases ha : a = who
    · subst ha
      rw [Function.update_self, if_pos rfl, h.reserves a, depositOf_eq_zero hcand]
      omega
    · rw [Function.update_of_ne ha, if_neg ha, h.reserves a]

/-- `set_invulnerables` keeps the deposits invariant. -/
theorem DepositsInv.setInvulnerables (h : DepositsInv cfg reserved base s) {new : List A}
    (hr : setInvulnerables cfg env s origin new = .ok s') : DepositsInv cfg reserved base s' := by
  obtain ⟨-, rfl⟩ := setInvulnerables_eq_ok hr
  exact ⟨List.pairwise_insertionSort _ _, h.candidates_nodup, h.candidates_le, h.reserves⟩

/-- An invulnerable is inserted where the binary search stopped, which keeps a sorted list sorted
even with repeats. -/
theorem DepositsInv.addInvulnerable (hres : ExactReserves env reserved)
    (h : DepositsInv cfg reserved base s) {who : A}
    (hr : addInvulnerable cfg env s origin who = .ok s') : DepositsInv cfg reserved base s' := by
  obtain ⟨pos, hpos, rfl⟩ := addInvulnerable_eq_ok hr
  have hinv : SearchInv s.invulnerables who id pos pos :=
    binarySearchByKey_error_searchInv_of_sorted (by simpa using h.sorted) hpos
  have hins : (s.invulnerables.insertIdx pos who).Pairwise (· ≤ ·) := by
    simpa using pairwise_map_insertIdx_of le_of_lt (by simpa using h.sorted) hinv
  have hinserted : DepositsInv cfg reserved base
      { s with invulnerables := s.invulnerables.insertIdx pos who } :=
    ⟨hins, h.candidates_nodup, h.candidates_le, h.reserves⟩
  exact hinserted.removeCandidateIfAny hres who false

/-- `remove_invulnerable` keeps the deposits invariant. -/
theorem DepositsInv.removeInvulnerable (h : DepositsInv cfg reserved base s) {who : A}
    (hr : removeInvulnerable cfg env s origin who = .ok s') : DepositsInv cfg reserved base s' := by
  obtain ⟨-, pos, -, rfl⟩ := removeInvulnerable_eq_ok hr
  exact ⟨h.sorted.sublist (List.eraseIdx_sublist _ _), h.candidates_nodup, h.candidates_le,
    h.reserves⟩

/-- Every call keeps the deposits invariant, when the currency reserves exactly what is asked. -/
theorem DepositsInv.dispatch (hres : ExactReserves env reserved)
    (h : DepositsInv cfg reserved base s) {now : Nat} {c : Call A}
    (hr : dispatch cfg env now s origin c = .ok s') : DepositsInv cfg reserved base s' := by
  cases c with
  | setInvulnerables new => exact h.setInvulnerables hr
  | setDesiredCandidates max =>
    obtain rfl := setDesiredCandidates_eq_ok hr
    exact ⟨h.sorted, h.candidates_nodup, h.candidates_le, h.reserves⟩
  | setCandidacyBond bond =>
    obtain rfl := setCandidacyBond_eq_ok hr
    exact ⟨h.sorted, h.candidates_nodup, h.candidates_le, h.reserves⟩
  | registerAsCandidate => exact h.registerAsCandidate hres hr
  | leaveIntent =>
    obtain ⟨-, who, n, hrem⟩ := leaveIntent_eq_ok hr
    exact h.tryRemoveCandidate hres hrem
  | addInvulnerable who => exact h.addInvulnerable hres hr
  | removeInvulnerable who => exact h.removeInvulnerable hr

/-- What every removal of `try_remove_candidate` keeps, `kick_stale_candidates` keeps: each
candidate is kept, or removed through it. -/
theorem kickStaleCandidates_invariant (P : State A C → Prop)
    (hP : ∀ s who b, P s → P (removeCandidateIfAny env s who b)) (now : Nat) (h : P s) :
    P (kickStaleCandidates cfg env now s).2 := by
  refine @foldl_invariant _ _ (kickStep cfg env now) ([], s) s.candidates (fun _ => True)
    (fun acc => P acc.2) h (fun acc c _ hacc => ?_) (fun _ _ => trivial)
  unfold kickStep
  dsimp only
  split
  · exact hP _ _ _ hacc
  · split
    · exact hacc
    · exact hP _ _ _ hacc

/-- One input of a run keeps the invariant, the payment of `note_author` moving free balance
only. -/
theorem DepositsInv.step (hres : ExactReserves env reserved) (h : DepositsInv cfg reserved base s)
    {i : Input O A} (hi : i.keepsReserves env reserved) :
    DepositsInv cfg reserved base (step cfg env s i) := by
  cases i with
  | call now origin c =>
    simp only [Cumulus.CollatorSelection.step]
    split
    · next s' hr => exact h.dispatch hres hr
    · exact h
  | noteAuthor now author =>
    have hkeep : ∀ o : Option C, (∀ c', o = some c' → reserved c' = reserved s.currency) →
        reserved (o.getD s.currency) = reserved s.currency := by
      intro o ho
      cases o with
      | none => rfl
      | some c' => exact ho c' rfl
    have hcur : reserved (noteAuthor env now s author).currency = reserved s.currency :=
      hkeep _ fun c' ht => hi _ _ _ _ _ ht
    refine ⟨h.sorted, h.candidates_nodup, h.candidates_le, fun who => ?_⟩
    show reserved (noteAuthor env now s author).currency who = base who + depositOf s.candidates who
    rw [hcur]
    exact h.reserves who
  | newSession now =>
    exact kickStaleCandidates_invariant (DepositsInv cfg reserved base)
      (fun _ _ _ hs => hs.removeCandidateIfAny hres _ _) now h

/-- One input of a run keeps the invulnerables strictly sorted, a `set_invulnerables` being given
distinct accounts. -/
theorem strictInvulnerables_step (h : s.invulnerables.Pairwise (· < ·)) {i : Input O A}
    (hi : i.setsDistinct env) : (step cfg env s i).invulnerables.Pairwise (· < ·) := by
  cases i with
  | call now origin c =>
    simp only [Cumulus.CollatorSelection.step]
    split
    · next s' hr =>
      cases c with
      | setInvulnerables new =>
        obtain ⟨-, rfl⟩ := setInvulnerables_eq_ok hr
        exact pairwise_sortAccounts hi
      | setDesiredCandidates max =>
        obtain rfl := setDesiredCandidates_eq_ok hr
        exact h
      | setCandidacyBond bond =>
        obtain rfl := setCandidacyBond_eq_ok hr
        exact h
      | registerAsCandidate =>
        obtain ⟨who, -, -, hinv, -⟩ := registerAsCandidate_eq_ok hr
        exact hinv ▸ h
      | leaveIntent =>
        obtain ⟨-, who, n, hrem⟩ := leaveIntent_eq_ok hr
        exact (tryRemoveCandidate_eq_ok hrem).1 ▸ h
      | addInvulnerable who =>
        obtain ⟨pos, hpos, rfl⟩ := addInvulnerable_eq_ok hr
        have hinv : SearchInv s.invulnerables who id pos pos :=
          binarySearchByKey_error_searchInv (by simpa using h) hpos
        rw [(removeCandidateIfAny_spec env _ who false).1]
        simpa using pairwise_map_insertIdx (by simpa using h) hinv
      | removeInvulnerable who =>
        obtain ⟨-, pos, -, rfl⟩ := removeInvulnerable_eq_ok hr
        exact h.sublist (List.eraseIdx_sublist _ _)
    · exact h
  | noteAuthor now author => exact h
  | newSession now =>
    exact kickStaleCandidates_invariant (fun s' => s'.invulnerables.Pairwise (· < ·))
      (fun s' who b hs => (removeCandidateIfAny_spec env s' who b).1 ▸ hs) now h

end Steps

/-! ## Every run -/

section Runs

variable {cfg : Config} {env : Env O A V C} {reserved : C → A → Nat}

/-- The genesis build satisfies the deposits invariant. -/
theorem depositsInv_build {g : GenesisConfig A} {currency : C} {s₀ : State A C}
    (h : g.build cfg currency = some s₀) : DepositsInv cfg reserved (reserved currency) s₀ := by
  unfold GenesisConfig.build at h
  split at h
  · cases h
  split at h
  · cases h
  split at h
  · cases h
  · cases h
    exact ⟨List.pairwise_insertionSort _ _, List.nodup_nil, Nat.zero_le _, fun _ => rfl⟩

/-- The genesis build sorts the invulnerables strictly. -/
theorem strictInvulnerables_build {g : GenesisConfig A} {currency : C} {s₀ : State A C}
    (h : g.build cfg currency = some s₀) : s₀.invulnerables.Pairwise (· < ·) := by
  unfold GenesisConfig.build at h
  split at h
  · cases h
  · next hnd =>
    split at h
    · cases h
    split at h
    · cases h
    · cases h
      exact pairwise_sortAccounts (by simpa using hnd)

/-- Every run of inputs that keep the reserves keeps the deposits invariant from genesis. -/
theorem depositsInv_of_run (hres : ExactReserves env reserved) {g : GenesisConfig A}
    {currency : C} {s₀ : State A C} (h0 : g.build cfg currency = some s₀)
    {inputs : List (Input O A)} (hinputs : ∀ i ∈ inputs, i.keepsReserves env reserved) :
    DepositsInv cfg reserved (reserved currency) (inputs.foldl (step cfg env) s₀) :=
  @foldl_invariant _ _ (step cfg env) s₀ inputs _ (DepositsInv cfg reserved (reserved currency))
    (depositsInv_build h0) (fun _ _ hi hs => hs.step hres hi) hinputs

/-- Every run of inputs that set distinct invulnerables keeps them strictly sorted. -/
theorem strictInvulnerables_of_run {g : GenesisConfig A} {currency : C} {s₀ : State A C}
    (h0 : g.build cfg currency = some s₀) {inputs : List (Input O A)}
    (hinputs : ∀ i ∈ inputs, i.setsDistinct env) :
    (inputs.foldl (step cfg env) s₀).invulnerables.Pairwise (· < ·) :=
  @foldl_invariant _ _ (step cfg env) s₀ inputs _ (fun s => s.invulnerables.Pairwise (· < ·))
    (strictInvulnerables_build h0) (fun _ _ hi hs => strictInvulnerables_step hs hi) hinputs

/-- What the pallet guarantees of its storage and of the currency in a state reached from
genesis. -/
structure CollatorDeposits (cfg : Config) (env : Env O A V C) (reserved : C → A → Nat)
    (base : A → Nat) (s : State A C) : Prop extends DepositsInv cfg reserved base s where
  /-- `register_as_candidate` succeeds only below `DesiredCandidates`. -/
  register_below_desired : ∀ (origin : O) (now : Nat) (s' : State A C),
    registerAsCandidate cfg env s origin now = .ok s' → s.candidates.length < s.desiredCandidates

/-- **Every run.** From genesis, through any extrinsics, authored blocks and session changes, with
a currency that reserves and unreserves exactly: the invulnerables stay sorted, no account is a
candidate twice, there are at most `MaxCandidates` candidates, a registration succeeds only below
`DesiredCandidates`, and what each account has reserved beyond its genesis reserves is the deposit
of its `Candidates` entry; and the invulnerables hold no account twice when `set_invulnerables` is
never given an account with keys twice. -/
theorem collatorSelection_deposits (hres : ExactReserves env reserved) {g : GenesisConfig A}
    {currency : C} {s₀ : State A C} (h0 : g.build cfg currency = some s₀)
    {inputs : List (Input O A)} (hinputs : ∀ i ∈ inputs, i.keepsReserves env reserved) :
    CollatorDeposits cfg env reserved (reserved currency) (inputs.foldl (step cfg env) s₀) ∧
      ((∀ i ∈ inputs, i.setsDistinct env) →
        (inputs.foldl (step cfg env) s₀).invulnerables.Nodup) := by
  refine ⟨⟨depositsInv_of_run hres h0 hinputs, fun origin now s' hr => ?_⟩, fun hdistinct => ?_⟩
  · exact (registerAsCandidate_ok_spec hr).1
  · exact (strictInvulnerables_of_run h0 hdistinct).imp ne_of_lt

/-- Accounts are numbers, and so are the reserved balances, which the currency reserves and
unreserves exactly; the origin `none` is `UpdateOrigin`, `some a` is signed by `a`, and every
account has registered keys. -/
def ledgerEnv : Env (Option Nat) Nat Nat (Nat → Nat) where
  isUpdateOrigin o := o.isNone
  signer o := o
  validatorIdOf a := some a
  isRegistered _ := true
  reserve c a n := some (Function.update c a (c a + n))
  unreserve c a n := Function.update c a (c a - n)
  freeBalance _ _ := 0
  minimumBalance := 0
  transfer c _ _ _ := some c
  potAccount := 0

/-- The ledger currency reserves exactly what is asked. -/
theorem exactReserves_ledgerEnv : ExactReserves ledgerEnv id :=
  ⟨fun _ _ _ _ h => (Option.some.inj h).symm, fun _ _ _ => rfl⟩

/-- Every input keeps the ledger's reserves. -/
theorem keepsReserves_ledgerEnv (i : Input (Option Nat) Nat) : i.keepsReserves ledgerEnv id := by
  cases i with
  | call now origin c => trivial
  | noteAuthor now author => exact fun _ _ _ _ _ h => (Option.some.inj h).symm
  | newSession now => trivial

/-- Room for five candidates and five invulnerables, with no minimum of eligible collators. -/
def ledgerConfig : Config where
  maxCandidates := 5
  minEligibleCollators := 0
  maxInvulnerables := 5
  kickThreshold := 10

/-- Account `3` invulnerable, a bond of 10, two desired candidates. -/
def ledgerGenesis : GenesisConfig Nat := ⟨[3], 10, 2⟩

/-- `1` registers at a bond of 10, the bond rises to 20, `2` registers, `1` is made invulnerable
and gets its 10 back, `2` authors a block, and the session change kicks it at block 20 with its
20 back. -/
def ledgerInputs : List (Input (Option Nat) Nat) :=
  [.call 0 (some 1) .registerAsCandidate, .call 0 none (.setCandidacyBond 20),
    .call 0 (some 2) .registerAsCandidate, .call 0 none (.addInvulnerable 1), .noteAuthor 1 2,
    .newSession 20]

/-- Along `ledgerInputs` from the ledger's genesis, the pallet keeps its guarantees on the storage
and the currency, and the invulnerables stay distinct when no input sets an account twice. -/
theorem collatorSelection_deposits_of_run :
    ExactReserves ledgerEnv id ∧ (∀ i ∈ ledgerInputs, i.keepsReserves ledgerEnv id) ∧
      ∃ s₀, ledgerGenesis.build ledgerConfig (fun _ => 0 : Nat → Nat) = some s₀ ∧
        CollatorDeposits ledgerConfig ledgerEnv id (id fun _ => 0)
          (ledgerInputs.foldl (step ledgerConfig ledgerEnv) s₀) ∧
        ((∀ i ∈ ledgerInputs, i.setsDistinct ledgerEnv) →
          (ledgerInputs.foldl (step ledgerConfig ledgerEnv) s₀).invulnerables.Nodup) := by
  obtain ⟨s₀, h0⟩ : ∃ s₀, ledgerGenesis.build ledgerConfig (fun _ => 0 : Nat → Nat) = some s₀ :=
    ⟨_, rfl⟩
  exact ⟨exactReserves_ledgerEnv, fun i _ => keepsReserves_ledgerEnv i, s₀, h0,
    collatorSelection_deposits exactReserves_ledgerEnv h0 fun i _ => keepsReserves_ledgerEnv i⟩

/-- From genesis, `set_invulnerables [1, 1]` stores account `1` twice. -/
theorem setInvulnerables_repeats :
    ∃ s₀, ledgerGenesis.build ledgerConfig (fun _ => 0 : Nat → Nat) = some s₀ ∧
      (([.call 0 none (.setInvulnerables [1, 1])] : List (Input (Option Nat) Nat)).foldl
        (step ledgerConfig ledgerEnv) s₀).invulnerables = [1, 1] :=
  ⟨_, rfl, rfl⟩

end Runs

end Cumulus.CollatorSelection
