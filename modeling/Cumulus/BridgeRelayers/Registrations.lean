import Cumulus.BridgeRelayers.Calls
import Cumulus.Found.EventLog

/-!
# The bridge relayers pallet over runs: stakes and leases

* `ReserveLaws` — what the stake and payment schemes do to the pallet's named reserve on each
  account, as `pallet-balances` implements them; `balancesLedger` is a ledger of free and reserved
  balances that satisfies them;
* `stakeReserved_runs` — over every run, each relayer's reserve beyond its registered stake never
  shrinks, and stays what it was as long as the rewards accounts that slashes go to exist; a call
  moves a reserve as it moves the registered stake (`dispatch_reserveFollowsStake`);
* `unreserve_never_fails_runs` — after every run, no call fails with `FailedToUnreserve`, and an
  active relayer has at least the required stake reserved;
* `registration_runs` — a registration lasts until its lease ends: until then only a slash
  removes it, and its lease never shrinks (`dispatch_leaseKept`).
-/

namespace Cumulus.BridgeRelayers

open Cumulus.Found

variable {Acc L : Type} {w : Nat} {cfg : RelayersConfig Acc L w} [DecidableEq Acc]
variable {s s' : RelayersState Acc L w}

/-! ## The named reserve -/

/-- What the stake and payment schemes do to the reserve `reserved balances a` that the pallet
holds on account `a` under its `ReserveId`, as `pallet-balances`' `reserve_named`,
`unreserve_named` and `repatriate_reserved_named` do it; paying a reward moves free balance only.
Source: `bridges/modules/relayers/src/stake_adapter.rs`, `bp_relayers::PayRewardFromAccount` -/
structure ReserveLaws (cfg : RelayersConfig Acc L w) (reserved : L → Acc → ℕ) : Prop where
  /-- A reservation adds the amount to the relayer's reserve. -/
  reserve : ∀ {balances balances' relayer amount},
    cfg.reserve balances relayer amount = some balances' →
    reserved balances' =
      Function.update (reserved balances) relayer (reserved balances relayer + amount.toNat)
  /-- An unreservation takes what the reserve has of the amount, and returns the rest. -/
  unreserve : ∀ {balances balances' relayer amount failed},
    cfg.unreserve balances relayer amount = (balances', failed) →
    failed.toNat = amount.toNat - reserved balances relayer ∧
      reserved balances' =
        Function.update (reserved balances) relayer (reserved balances relayer - amount.toNat)
  /-- A move to a rewards account that does not fail takes what the reserve has of the amount;
  the rewards account gets it as free balance. -/
  repatriateReserved : ∀ {balances balances' relayer beneficiary amount failed},
    cfg.repatriateReserved balances relayer beneficiary amount = some (balances', failed) →
    reserved balances' =
      Function.update (reserved balances) relayer (reserved balances relayer - amount.toNat)
  /-- A reward is paid from the free balance of the rewards account. -/
  payReward : ∀ {balances balances' relayer rewardsAccountParams reward},
    cfg.payReward balances relayer rewardsAccountParams reward = some balances' →
    reserved balances' = reserved balances

/-- A ledger of free and reserved balance per account, the reserved part being the pallet's named
reserve, as `pallet-balances` keeps them: a reservation needs the free balance, an unreservation
or a slash takes what the reserve has, and a reward is credited to the relayer's free balance.
The rewards accounts' own balances are left out. -/
def balancesLedger (requiredStake : BitVec w) (requiredRegistrationLease : ℕ) :
    RelayersConfig ℕ (ℕ → ℕ × ℕ) w where
  requiredStake := requiredStake
  requiredRegistrationLease := requiredRegistrationLease
  reserve balances relayer amount :=
    if amount.toNat ≤ (balances relayer).1 then
      some (Function.update balances relayer
        ((balances relayer).1 - amount.toNat, (balances relayer).2 + amount.toNat))
    else none
  unreserve balances relayer amount :=
    let actual := min (balances relayer).2 amount.toNat
    (Function.update balances relayer
        ((balances relayer).1 + actual, (balances relayer).2 - actual),
      BitVec.ofNat w (amount.toNat - actual))
  repatriateReserved balances relayer _ amount :=
    let actual := min (balances relayer).2 amount.toNat
    some (Function.update balances relayer ((balances relayer).1, (balances relayer).2 - actual),
      BitVec.ofNat w (amount.toNat - actual))
  payReward balances relayer _ reward :=
    some (Function.update balances relayer
      ((balances relayer).1 + reward.toNat, (balances relayer).2))

/-- The second components of an updated map are the updated second components. -/
theorem update_snd_eq {b : ℕ → ℕ × ℕ} {relayer : ℕ} {x : ℕ × ℕ} :
    (fun a => (Function.update b relayer x a).2) =
      Function.update (fun a => (b a).2) relayer x.2 := by
  funext a
  by_cases ha : a = relayer
  · subst ha
    simp
  · simp [Function.update_of_ne ha]

/-- `balancesLedger` keeps the laws, with the reserved part of each account as its reserve. -/
theorem balancesLedger_laws (requiredStake : BitVec w) (requiredRegistrationLease : ℕ) :
    ReserveLaws (balancesLedger requiredStake requiredRegistrationLease) fun balances a =>
      (balances a).2 where
  reserve h := by
    simp only [balancesLedger, Option.ite_none_right_eq_some, Option.some.injEq] at h
    obtain ⟨-, rfl⟩ := h
    exact update_snd_eq
  unreserve h := by
    simp only [balancesLedger, Prod.mk.injEq] at h
    obtain ⟨rfl, rfl⟩ := h
    refine ⟨?_, ?_⟩
    · have hlt := BitVec.isLt ‹BitVec w›
      rw [BitVec.toNat_ofNat, Nat.mod_eq_of_lt (by omega)]
      omega
    · rw [update_snd_eq]
      congr 2
      omega
  repatriateReserved h := by
    simp only [balancesLedger, Option.some.injEq, Prod.mk.injEq] at h
    obtain ⟨rfl, -⟩ := h
    rw [update_snd_eq]
    congr 2
    omega
  payReward h := by
    simp only [balancesLedger, Option.some.injEq] at h
    subst h
    rw [update_snd_eq]
    exact Function.update_eq_self _ _

/-- `balancesLedger` with a required stake of `10` and a required lease of `5` blocks. -/
def tenStakeLedger : RelayersConfig ℕ (ℕ → ℕ × ℕ) 8 := balancesLedger 10 5

/-- A pallet with no registration and no reward over `balancesLedger`, where every account has
`100` free. -/
def ledgerStart : RelayersState ℕ (ℕ → ℕ × ℕ) 8 :=
  ⟨fun _ _ => none, fun _ => none, fun _ => (100, 0)⟩

/-- The rewards account of lane `0` on this chain. -/
def laneZero : RewardsAccountParams := ⟨0, 0, .thisChain⟩

/-- Relayers `1` and `2` register until block `20`, `2` is slashed at block `5`, `1` tries to
deregister at block `10`, during its lease, and again at block `30`. -/
def stakeCalls : List (ℕ × RelayersCall ℕ 8) :=
  [(0, .register (some 1) 20), (0, .register (some 2) 20),
    (5, .slashAndDeregister 2 laneZero), (10, .deregister (some 1)),
    (30, .deregister (some 1))]

/-! ## Stakes -/

/-- The stake a relayer has registered: that of its registration, or zero. -/
def registeredStake (s : RelayersState Acc L w) (relayer : Acc) : ℕ :=
  ((s.registeredRelayers relayer).map fun registration => registration.stake.toNat).getD 0

omit [DecidableEq Acc] in
/-- The registered stakes read only the registrations. -/
theorem registeredStake_of_registeredRelayers
    (h : s'.registeredRelayers = s.registeredRelayers) :
    registeredStake s' = registeredStake s := by
  funext b
  simp only [registeredStake, h]

/-- Updating one registration changes only that relayer's stake. -/
theorem registeredStake_of_update (relayer : Acc) (registration : Option (Registration w))
    (h : s'.registeredRelayers = Function.update s.registeredRelayers relayer registration) :
    registeredStake s' = Function.update (registeredStake s) relayer
      ((registration.map fun registration => registration.stake.toNat).getD 0) := by
  funext b
  by_cases hb : b = relayer
  · subst hb
    simp [registeredStake, h]
  · simp [registeredStake, h, hb]

omit [DecidableEq Acc] in
/-- The stake `register` starts from is the registered stake. -/
theorem toNat_stake_getD (s : RelayersState Acc L w) (relayer : Acc) (validTill : ℕ) :
    ((s.registeredRelayers relayer).getD ⟨validTill, 0⟩).stake.toNat =
      registeredStake s relayer := by
  unfold registeredStake
  cases s.registeredRelayers relayer with
  | none => rfl
  | some registration => rfl

section stakes

variable {reserved : L → Acc → ℕ}

/-- Each account's reserve changed as its registered stake did. -/
def ReserveFollowsStake (reserved : L → Acc → ℕ) (s s' : RelayersState Acc L w) : Prop :=
  ∀ b, reserved s'.balances b + registeredStake s b = reserved s.balances b + registeredStake s' b

omit [DecidableEq Acc] in
/-- Unchanged reserves and stakes follow each other. -/
theorem reserveFollowsStake_of_eq (hreserved : reserved s'.balances = reserved s.balances)
    (hstake : registeredStake s' = registeredStake s) : ReserveFollowsStake reserved s s' := by
  intro b
  rw [hreserved, hstake]

/-- Changing one account's reserve by what its stake changed keeps the reserves following the
stakes. -/
theorem reserveFollowsStake_of_update {relayer : Acc} {reserve stake : ℕ}
    (hreserved : reserved s'.balances = Function.update (reserved s.balances) relayer reserve)
    (hstake : registeredStake s' = Function.update (registeredStake s) relayer stake)
    (hmoved : reserve + registeredStake s relayer = reserved s.balances relayer + stake) :
    ReserveFollowsStake reserved s s' := by
  intro b
  rw [hreserved, hstake]
  by_cases hb : b = relayer
  · subst hb
    simpa using hmoved
  · simp [Function.update_of_ne hb]

variable (hlaws : ReserveLaws cfg reserved)
include hlaws

/-- Claiming rewards touches neither the reserves nor the stakes. -/
theorem claimRewards_reserveFollowsStake {signer : Option Acc}
    {rewardsAccountParams : RewardsAccountParams} {e : RelayersEvent Acc w}
    (h : claimRewards cfg s signer rewardsAccountParams = .ok (s', e)) :
    ReserveFollowsStake reserved s s' := by
  obtain ⟨relayer, reward, balances, -, -, hpay, rfl, -⟩ := claimRewards_eq_ok h
  exact reserveFollowsStake_of_eq (hlaws.payReward hpay) (registeredStake_of_registeredRelayers rfl)

/-- A registration moves the difference between the stake and the required stake in or out of
the reserve: an unreservation that succeeds takes it in full. -/
theorem register_reserveFollowsStake {now : Nat} {signer : Option Acc} {validTill : Nat}
    {e : RelayersEvent Acc w} (h : register cfg s now signer validTill = .ok (s', e)) :
    ReserveFollowsStake reserved s s' := by
  obtain ⟨relayer, balances, -, -, -, hupdate, hs', -⟩ := register_eq_ok h
  have hstake : registeredStake s' =
      Function.update (registeredStake s) relayer cfg.requiredStake.toNat :=
    registeredStake_of_update relayer (some ⟨validTill, cfg.requiredStake⟩) (by rw [hs'])
  have hbalances : s'.balances = balances := by rw [hs']
  obtain ⟨hunreserve, hreserve⟩ := updateStake_eq_ok hupdate
  rw [toNat_stake_getD] at hunreserve hreserve
  by_cases hle : cfg.requiredStake.toNat ≤ registeredStake s relayer
  · obtain ⟨toUnreserve, hcount, hmove⟩ := hunreserve hle
    obtain ⟨hfailed, hreserved⟩ := hlaws.unreserve hmove
    -- nothing failed to unreserve, so the reserve held the whole excess
    rw [BitVec.ofNat_eq_ofNat, BitVec.toNat_ofNat, Nat.zero_mod] at hfailed
    exact reserveFollowsStake_of_update (hbalances ▸ hreserved) hstake (by omega)
  · obtain ⟨toReserve, hcount, hmove⟩ := hreserve (Nat.lt_of_not_le hle)
    exact reserveFollowsStake_of_update (hbalances ▸ hlaws.reserve hmove) hstake (by omega)

/-- A deregistration unreserves the whole stake. -/
theorem deregister_reserveFollowsStake {now : Nat} {signer : Option Acc}
    {e : RelayersEvent Acc w} (h : deregister cfg s now signer = .ok (s', e)) :
    ReserveFollowsStake reserved s s' := by
  obtain ⟨relayer, registration, balances, -, hregistration, -, hunreserve, hkept, hs', -⟩ :=
    deregister_eq_ok h
  have hstake : registeredStake s' = Function.update (registeredStake s) relayer 0 :=
    registeredStake_of_update relayer none (by rw [hs'])
  have hbalances : s'.balances = balances := by rw [hs']
  have hold : registeredStake s relayer = registration.stake.toNat := by
    simp [registeredStake, hregistration]
  by_cases hzero : registration.stake = 0
  · -- nothing was staked: the reserve is left alone
    have hreserved : reserved s'.balances =
        Function.update (reserved s.balances) relayer (reserved s.balances relayer) := by
      rw [hbalances, hkept hzero, Function.update_eq_self]
    rw [hzero, BitVec.ofNat_eq_ofNat, BitVec.toNat_ofNat, Nat.zero_mod] at hold
    exact reserveFollowsStake_of_update hreserved hstake (by omega)
  · obtain ⟨hfailed, hreserved⟩ := hlaws.unreserve (hunreserve hzero)
    rw [BitVec.ofNat_eq_ofNat, BitVec.toNat_ofNat, Nat.zero_mod] at hfailed
    exact reserveFollowsStake_of_update (hbalances ▸ hreserved) hstake (by omega)

/-- A slash moves the whole stake out of a reserve that covers it, unless the move fails; then
the registration is gone and the reserve stays. -/
theorem slashAndDeregister_reserveFollowsStake (relayer : Acc)
    (slashDestination : RewardsAccountParams)
    (hcovered : registeredStake s relayer ≤ reserved s.balances relayer) :
    let s' := slashAndDeregister cfg s relayer slashDestination
    ReserveFollowsStake reserved s s' ∨
      (∃ registration, s.registeredRelayers relayer = some registration ∧
        cfg.repatriateReserved s.balances relayer slashDestination registration.stake = none) ∧
      reserved s'.balances = reserved s.balances ∧
      ∀ b, registeredStake s' b ≤ registeredStake s b := by
  intro s'
  obtain ⟨-, ⟨-, hs'⟩ | ⟨registration, hregistration, hregistered, hmoved⟩⟩ :=
    slashAndDeregister_cases cfg s relayer slashDestination
  · have hkept : s' = s := hs'
    exact .inl (reserveFollowsStake_of_eq (by rw [hkept]) (by rw [hkept]))
  have hstake : registeredStake s' = Function.update (registeredStake s) relayer 0 :=
    registeredStake_of_update relayer none hregistered
  have hold : registeredStake s relayer = registration.stake.toNat := by
    simp [registeredStake, hregistration]
  rcases hmoved with ⟨failed, hmove⟩ | ⟨hfailed, hbalances⟩
  · exact .inl (reserveFollowsStake_of_update (hlaws.repatriateReserved hmove) hstake (by omega))
  · refine .inr ⟨⟨registration, hregistration, hfailed⟩, by rw [hbalances], fun b => ?_⟩
    rw [hstake]
    by_cases hb : b = relayer
    · subst hb
      simp
    · simp [Function.update_of_ne hb]

/-- **What a call does to the reserves**: they follow the registered stakes, unless a slash's
move failed; then the reserves stay and a stake is gone. -/
theorem dispatch_reserveFollowsStake
    (hcovered : ∀ b, registeredStake s b ≤ reserved s.balances b)
    {now : Nat} {call : RelayersCall Acc w} {es : List (RelayersEvent Acc w)}
    (h : dispatch cfg s now call = .ok (s', es)) :
    ReserveFollowsStake reserved s s' ∨
      (∃ balances relayer beneficiary amount,
        cfg.repatriateReserved balances relayer beneficiary amount = none) ∧
      reserved s'.balances = reserved s.balances ∧
      ∀ b, registeredStake s' b ≤ registeredStake s b := by
  rcases dispatch_eq_ok h with ⟨signer, params, e, -, hclaim, -⟩ |
    ⟨signer, validTill, e, -, hregister, -⟩ | ⟨signer, e, -, hderegister, -⟩ |
    ⟨params, relayer, reward, -, rfl, -⟩ | ⟨relayer, slashDestination, -, rfl, -⟩
  · exact .inl (claimRewards_reserveFollowsStake hlaws hclaim)
  · exact .inl (register_reserveFollowsStake hlaws hregister)
  · exact .inl (deregister_reserveFollowsStake hlaws hderegister)
  · -- a reward is only booked
    exact .inl (reserveFollowsStake_of_eq (by rw [registerRelayerReward_balances])
      (registeredStake_of_registeredRelayers (registerRelayerReward_registeredRelayers ..)))
  · rcases slashAndDeregister_reserveFollowsStake hlaws relayer slashDestination
      (hcovered relayer) with hfollow | ⟨⟨registration, -, hfailed⟩, hreserved, hstake⟩
    · exact .inl hfollow
    · exact .inr ⟨⟨_, _, _, _, hfailed⟩, hreserved, hstake⟩

/-- The same for a call as the runtime runs it: a failed call changes nothing. -/
theorem relayersStep_reserveFollowsStake
    (hcovered : ∀ b, registeredStake s b ≤ reserved s.balances b)
    (call : ℕ × RelayersCall Acc w) :
    let s' := (relayersStep cfg s call).1
    ReserveFollowsStake reserved s s' ∨
      (∃ balances relayer beneficiary amount,
        cfg.repatriateReserved balances relayer beneficiary amount = none) ∧
      reserved s'.balances = reserved s.balances ∧
      ∀ b, registeredStake s' b ≤ registeredStake s b := by
  rcases relayersStep_cases cfg s call with hok | ⟨err, -, hstep⟩
  · exact dispatch_reserveFollowsStake hlaws hcovered hok
  · intro s'
    have hkept : s' = s := by simp only [s', hstep]
    exact .inl (reserveFollowsStake_of_eq (by rw [hkept]) (by rw [hkept]))

/-- The reserves cover the registered stakes with `extra` to spare. -/
def StakeCovered (reserved : L → Acc → ℕ) (extra : Acc → ℕ) (s : RelayersState Acc L w) :
    Prop :=
  ∀ b, registeredStake s b + extra b ≤ reserved s.balances b

/-- The reserves are the registered stakes and `extra`. -/
def StakeReserved (reserved : L → Acc → ℕ) (extra : Acc → ℕ) (s : RelayersState Acc L w) :
    Prop :=
  ∀ b, registeredStake s b + extra b = reserved s.balances b

/-- Every call keeps the registered stakes covered by the reserves. -/
theorem relayersStep_stakeCovered {extra : Acc → ℕ} (hcovered : StakeCovered reserved extra s)
    (call : ℕ × RelayersCall Acc w) :
    StakeCovered reserved extra (relayersStep cfg s call).1 := by
  intro b
  have hb := hcovered b
  rcases relayersStep_reserveFollowsStake hlaws
    (fun b => (Nat.le_add_right _ _).trans (hcovered b)) call with
    hfollow | ⟨-, hreserved, hstake⟩
  · have := hfollow b
    omega
  · have := hstake b
    rw [hreserved]
    omega

/-- Where slashes never fail, the reserves stay exactly the stakes and `extra`. -/
theorem relayersStep_stakeReserved
    (hmove : ∀ balances relayer beneficiary amount,
      (cfg.repatriateReserved balances relayer beneficiary amount).isSome)
    {extra : Acc → ℕ} (hreserved : StakeReserved reserved extra s)
    (call : ℕ × RelayersCall Acc w) :
    StakeReserved reserved extra (relayersStep cfg s call).1 := by
  intro b
  have hb := hreserved b
  rcases relayersStep_reserveFollowsStake hlaws
    (fun b => (Nat.le_add_right _ _).trans (hreserved b).le) call with
    hfollow | ⟨⟨balances, relayer, beneficiary, amount, hfailed⟩, -, -⟩
  · have := hfollow b
    omega
  · have hsome := hmove balances relayer beneficiary amount
    rw [hfailed] at hsome
    cases hsome

/-- Every run keeps the registered stakes covered by the reserves. -/
theorem runLog_stakeCovered {extra : Acc → ℕ} (hcovered : StakeCovered reserved extra s)
    (calls : List (ℕ × RelayersCall Acc w)) :
    StakeCovered reserved extra (runLog (relayersStep cfg) s calls).1 :=
  runLog_invariant (P := fun _ => True) (StakeCovered reserved extra)
    (fun _ call _ h => relayersStep_stakeCovered hlaws h call) hcovered fun _ _ => trivial

/-- When the repatriation of reserves cannot fail, every run keeps the reserves equal to the stakes
and the extra. -/
theorem runLog_stakeReserved
    (hmove : ∀ balances relayer beneficiary amount,
      (cfg.repatriateReserved balances relayer beneficiary amount).isSome)
    {extra : Acc → ℕ} (hreserved : StakeReserved reserved extra s)
    (calls : List (ℕ × RelayersCall Acc w)) :
    StakeReserved reserved extra (runLog (relayersStep cfg) s calls).1 :=
  runLog_invariant (P := fun _ => True) (StakeReserved reserved extra)
    (fun _ call _ h => relayersStep_stakeReserved hlaws hmove h call) hreserved fun _ _ => trivial

/-- **The stakes stay reserved over every run.** From a state whose reserves cover the registered
stakes, every run leaves each account at least its registered stake reserved plus what it had
reserved beyond its stake at the start; and exactly that where the rewards accounts that slashes
go to exist, as the source requires before the bridge is deployed. -/
theorem stakeReserved_runs (hcovered : ∀ b, registeredStake s b ≤ reserved s.balances b)
    (calls : List (ℕ × RelayersCall Acc w)) :
    let s' := (runLog (relayersStep cfg) s calls).1
    (∀ b, registeredStake s' b + (reserved s.balances b - registeredStake s b) ≤
      reserved s'.balances b) ∧
    ((∀ balances relayer beneficiary amount,
        (cfg.repatriateReserved balances relayer beneficiary amount).isSome) →
      ∀ b, registeredStake s' b + (reserved s.balances b - registeredStake s b) =
        reserved s'.balances b) := by
  -- the invariants are on the reserve each account had beyond its stake at the start
  have hreserved :
      StakeReserved reserved (fun b => reserved s.balances b - registeredStake s b) s :=
    fun b => Nat.add_sub_cancel' (hcovered b)
  exact ⟨runLog_stakeCovered hlaws (fun b => (hreserved b).le) calls,
    fun hmove => runLog_stakeReserved hlaws hmove hreserved calls⟩

end stakes

/-- After the stake calls, the reserves cover the stakes and what was reserved beyond them before,
and equal them when repatriation cannot fail. -/
theorem stakeReserved_runs_stakeCalls :
    (∀ b, registeredStake ledgerStart b ≤ (ledgerStart.balances b).2) ∧
    (∀ balances relayer beneficiary amount,
      (tenStakeLedger.repatriateReserved balances relayer beneficiary amount).isSome) ∧
    let s' := (runLog (relayersStep tenStakeLedger) ledgerStart stakeCalls).1
    (∀ b, registeredStake s' b + ((ledgerStart.balances b).2 - registeredStake ledgerStart b) ≤
      (s'.balances b).2) ∧
    ((∀ balances relayer beneficiary amount,
        (tenStakeLedger.repatriateReserved balances relayer beneficiary amount).isSome) →
      ∀ b, registeredStake s' b + ((ledgerStart.balances b).2 - registeredStake ledgerStart b) =
        (s'.balances b).2) := by
  have hcovered : ∀ b, registeredStake ledgerStart b ≤ (ledgerStart.balances b).2 :=
    fun _ => Nat.zero_le _
  exact ⟨hcovered, fun _ _ _ _ => rfl,
    stakeReserved_runs (balancesLedger_laws (10 : BitVec 8) 5) hcovered stakeCalls⟩

/-! ## Unreservations that cannot fail -/

/-- Claiming rewards never fails to unreserve. -/
theorem claimRewards_ne_failedToUnreserve (signer : Option Acc)
    (rewardsAccountParams : RewardsAccountParams) :
    claimRewards cfg s signer rewardsAccountParams ≠ .error .failedToUnreserve := by
  unfold claimRewards
  split
  · simp
  · split
    · simp
    · split <;> simp

omit [DecidableEq Acc] in
/-- An active registration has at least the required stake. -/
theorem requiredStake_le_of_isRegistrationActive {now : ℕ} {relayer : Acc}
    (h : isRegistrationActive cfg s now relayer = true) :
    cfg.requiredStake.toNat ≤ registeredStake s relayer := by
  unfold isRegistrationActive at h
  rcases hregistration : s.registeredRelayers relayer with _ | registration
  · simp [hregistration] at h
  simp only [hregistration] at h
  split_ifs at h with hlt
  simp only [registeredStake, hregistration, Option.map_some, Option.getD_some]
  exact Nat.le_of_not_lt fun hlt' => hlt (BitVec.lt_def.mpr hlt')

section unreserve

variable {reserved : L → Acc → ℕ} (hlaws : ReserveLaws cfg reserved)
include hlaws

/-- An unreservation of at most the reserve succeeds. -/
theorem doUnreserve_ok_of_le {balances : L} {relayer : Acc} {amount : BitVec w}
    (h : amount.toNat ≤ reserved balances relayer) :
    ∃ balances', doUnreserve cfg balances relayer amount = .ok balances' := by
  unfold doUnreserve
  rcases hmove : cfg.unreserve balances relayer amount with ⟨balances', failed⟩
  have hfailed : failed = 0 := by
    apply BitVec.eq_of_toNat_eq
    rw [(hlaws.unreserve hmove).1, BitVec.ofNat_eq_ofNat, BitVec.toNat_ofNat, Nat.zero_mod]
    omega
  subst hfailed
  exact ⟨balances', by simp⟩

/-- A stake update from a stake the reserve covers never fails to unreserve: it unreserves the
excess, or reserves what is missing. -/
theorem updateStake_ne_failedToUnreserve {balances : L} {relayer : Acc} {stake : BitVec w}
    (h : stake.toNat ≤ reserved balances relayer) :
    updateStake cfg balances relayer stake ≠ .error .failedToUnreserve := by
  unfold updateStake
  rcases hexcess : checkedSub stake cfg.requiredStake with _ | toUnreserve
  · -- a reservation fails with `FailedToReserve` only
    dsimp only
    rcases checkedSub cfg.requiredStake stake with _ | toReserve
    · simp
    · dsimp only
      rcases cfg.reserve balances relayer toReserve with _ | balances' <;> simp
  · dsimp only
    have hle : toUnreserve.toNat ≤ reserved balances relayer := by
      have := (checkedSub_eq_some.mp hexcess).2
      omega
    obtain ⟨balances', hok⟩ := doUnreserve_ok_of_le hlaws hle
    rw [hok]
    simp

variable (hcovered : ∀ b, registeredStake s b ≤ reserved s.balances b)
include hcovered

/-- With the stakes covered, `register` never fails to unreserve. -/
theorem register_ne_failedToUnreserve (now : ℕ) (signer : Option Acc) (validTill : ℕ) :
    register cfg s now signer validTill ≠ .error .failedToUnreserve := by
  unfold register
  rcases signer with _ | relayer
  · simp
  dsimp only
  intro h
  split_ifs at h with hlease hreduce
  · have hle : ((s.registeredRelayers relayer).getD ⟨validTill, 0⟩).stake.toNat ≤
        reserved s.balances relayer := by
      rw [toNat_stake_getD]
      exact hcovered relayer
    exact updateStake_ne_failedToUnreserve hlaws hle (except_map_eq_error h)
  · cases h
  · cases h

/-- With the stakes covered, `deregister` never fails to unreserve. -/
theorem deregister_ne_failedToUnreserve (now : ℕ) (signer : Option Acc) :
    deregister cfg s now signer ≠ .error .failedToUnreserve := by
  unfold deregister
  rcases signer with _ | relayer
  · simp
  dsimp only
  rcases hregistration : s.registeredRelayers relayer with _ | registration
  · simp
  dsimp only
  intro h
  by_cases hactive : registration.validTill < now
  · rw [if_neg (not_not.mpr hactive)] at h
    by_cases hstake : registration.stake ≠ 0
    · -- the stake the reserve covers is unreserved in full
      have hle : registration.stake.toNat ≤ reserved s.balances relayer := by
        have := hcovered relayer
        simpa [registeredStake, hregistration] using this
      obtain ⟨balances', hok⟩ := doUnreserve_ok_of_le hlaws hle
      rw [if_pos hstake, hok] at h
      cases h
    · rw [if_neg hstake] at h
      cases h
  · rw [if_pos hactive] at h
    cases h

/-- **No call fails to unreserve** from a state whose reserves cover the stakes. -/
theorem dispatch_ne_failedToUnreserve (now : ℕ) (call : RelayersCall Acc w) :
    dispatch cfg s now call ≠ .error .failedToUnreserve := by
  cases call with
  | claimRewards signer rewardsAccountParams =>
    exact fun h => claimRewards_ne_failedToUnreserve signer rewardsAccountParams
      (except_map_eq_error h)
  | register signer validTill =>
    exact fun h => register_ne_failedToUnreserve hlaws hcovered now signer validTill
      (except_map_eq_error h)
  | deregister signer =>
    exact fun h => deregister_ne_failedToUnreserve hlaws hcovered now signer
      (except_map_eq_error h)
  | registerRelayerReward => simp [dispatch]
  | slashAndDeregister => simp [dispatch]

omit hcovered in
/-- **After every run, no unreservation fails and an active relayer's stake is locked.** From a
state whose reserves cover the registered stakes, no call after any run fails with
`FailedToUnreserve`, and a relayer whose registration is active, and so gets the priority boost,
has at least the required stake reserved. -/
theorem unreserve_never_fails_runs (hcovered : ∀ b, registeredStake s b ≤ reserved s.balances b)
    (calls : List (ℕ × RelayersCall Acc w)) :
    let s' := (runLog (relayersStep cfg) s calls).1
    (∀ now call, dispatch cfg s' now call ≠ .error .failedToUnreserve) ∧
      ∀ now relayer, isRegistrationActive cfg s' now relayer = true →
        cfg.requiredStake.toNat ≤ reserved s'.balances relayer := by
  intro s'
  have hcovered' : StakeCovered reserved (fun _ => 0) s' :=
    runLog_stakeCovered hlaws (fun b => hcovered b) calls
  refine ⟨dispatch_ne_failedToUnreserve hlaws hcovered', fun now relayer hactive => ?_⟩
  exact (requiredStake_le_of_isRegistrationActive hactive).trans (hcovered' relayer)

end unreserve

/-- After the stake calls, no call fails to unreserve, and an active registration has its stake of
`10` reserved. -/
theorem unreserve_never_fails_runs_stakeCalls :
    (∀ b, registeredStake ledgerStart b ≤ (ledgerStart.balances b).2) ∧
    let s' := (runLog (relayersStep tenStakeLedger) ledgerStart stakeCalls).1
    (∀ now call, dispatch tenStakeLedger s' now call ≠ .error .failedToUnreserve) ∧
      ∀ now relayer, isRegistrationActive tenStakeLedger s' now relayer = true →
        (10 : BitVec 8).toNat ≤ (s'.balances relayer).2 := by
  have hcovered : ∀ b, registeredStake ledgerStart b ≤ (ledgerStart.balances b).2 :=
    fun _ => Nat.zero_le _
  exact ⟨hcovered,
    unreserve_never_fails_runs (balancesLedger_laws (10 : BitVec 8) 5) hcovered stakeCalls⟩

/-! ## Leases -/

section leases

variable {relayer : Acc} {validTill : ℕ}

/-- The relayer is registered with a lease until at least `validTill`. -/
def LeaseKept (relayer : Acc) (validTill : ℕ) (s : RelayersState Acc L w) : Prop :=
  ∃ registration, s.registeredRelayers relayer = some registration ∧
    validTill ≤ registration.validTill

/-- A call at a block up to `validTill` that does not slash the relayer keeps its lease: a
registration only extends it, a deregistration needs the lease to have ended. -/
theorem dispatch_leaseKept (hkept : LeaseKept relayer validTill s) {now : ℕ}
    {call : RelayersCall Acc w} {es : List (RelayersEvent Acc w)} (hnow : now ≤ validTill)
    (hslash : ∀ slashDestination, call ≠ .slashAndDeregister relayer slashDestination)
    (h : dispatch cfg s now call = .ok (s', es)) : LeaseKept relayer validTill s' := by
  obtain ⟨registration, hregistration, hvalid⟩ := hkept
  rcases dispatch_eq_ok h with ⟨signer, claimed, e, -, hclaim, -⟩ |
    ⟨signer, till, e, -, hregister, -⟩ | ⟨signer, e, -, hderegister, -⟩ |
    ⟨registeredAt, rewarded, reward, -, rfl, -⟩ | ⟨slashed, slashDestination, rfl, rfl, -⟩
  · obtain ⟨claimer, reward, balances, -, -, -, rfl, -⟩ := claimRewards_eq_ok hclaim
    exact ⟨registration, hregistration, hvalid⟩
  · obtain ⟨registrant, balances, -, -, hreduce, -, rfl, -⟩ := register_eq_ok hregister
    by_cases hsame : relayer = registrant
    · -- the relayer extends its own lease
      subst hsame
      exact ⟨_, Function.update_self _ _ _, hvalid.trans (hreduce registration hregistration)⟩
    · exact ⟨registration, (Function.update_of_ne hsame _ _).trans hregistration, hvalid⟩
  · obtain ⟨leaving, left, balances, -, hleft, hended, -, -, rfl, -⟩ :=
      deregister_eq_ok hderegister
    by_cases hsame : relayer = leaving
    · -- its lease has not ended yet
      subst hsame
      rw [hregistration, Option.some.injEq] at hleft
      subst hleft
      omega
    · exact ⟨registration, (Function.update_of_ne hsame _ _).trans hregistration, hvalid⟩
  · exact ⟨registration, by rw [registerRelayerReward_registeredRelayers]; exact hregistration,
      hvalid⟩
  · have hother : relayer ≠ slashed := fun heq => hslash slashDestination (heq ▸ rfl)
    obtain ⟨-, ⟨-, hs'⟩ | ⟨-, -, hremoved, -⟩⟩ :=
      slashAndDeregister_cases cfg s slashed slashDestination
    · exact ⟨registration, by rw [hs']; exact hregistration, hvalid⟩
    · exact ⟨registration, by rw [hremoved, Function.update_of_ne hother]; exact hregistration,
        hvalid⟩

/-- **A lease is kept.** A relayer registered until block `validTill` stays registered, with a
lease that never shrinks, over every run of calls at blocks up to `validTill` that does not slash
it: neither it nor anyone else can deregister it before its lease ends. -/
theorem registration_runs {registration : Registration w}
    (hregistered : s.registeredRelayers relayer = some registration)
    {calls : List (ℕ × RelayersCall Acc w)}
    (hcalls : ∀ call ∈ calls, call.1 ≤ registration.validTill ∧
      ∀ slashDestination, call.2 ≠ .slashAndDeregister relayer slashDestination) :
    ∃ registration', (runLog (relayersStep cfg) s calls).1.registeredRelayers relayer =
      some registration' ∧ registration.validTill ≤ registration'.validTill := by
  refine runLog_invariant (LeaseKept relayer registration.validTill)
    (fun s₁ call hcall hkept => ?_) ⟨registration, hregistered, le_rfl⟩ hcalls
  rcases relayersStep_cases cfg s₁ call with hok | ⟨err, -, hstep⟩
  · exact dispatch_leaseKept hkept hcall.1 hcall.2 hok
  · rw [hstep]
    exact hkept

end leases

/-- Relayer `1` registers until block `20` at block `0`. -/
def leaseStart : RelayersState ℕ (ℕ → ℕ × ℕ) 8 :=
  (runLog (relayersStep tenStakeLedger) ledgerStart [(0, .register (some 1) 20)]).1

/-- Relayer `1` tries to deregister at block `10`, extends its lease to block `30` at block `12`,
and relayer `2` is slashed at block `15`. -/
def leaseCalls : List (ℕ × RelayersCall ℕ 8) :=
  [(10, .deregister (some 1)), (12, .register (some 1) 30),
    (15, .slashAndDeregister 2 laneZero)]

/-- A registration valid till block `20` is still valid after calls up to block `20` that do not
slash it. -/
theorem registration_runs_leaseCalls :
    leaseStart.registeredRelayers 1 = some ⟨20, 10⟩ ∧
    (∀ call ∈ leaseCalls, call.1 ≤ 20 ∧
      ∀ slashDestination, call.2 ≠ .slashAndDeregister 1 slashDestination) ∧
    ∃ registration',
      (runLog (relayersStep tenStakeLedger) leaseStart leaseCalls).1.registeredRelayers 1 =
        some registration' ∧ 20 ≤ registration'.validTill := by
  have hregistered : leaseStart.registeredRelayers 1 = some ⟨20, 10⟩ := by decide
  have hcalls : ∀ call ∈ leaseCalls, call.1 ≤ 20 ∧
      ∀ slashDestination, call.2 ≠ .slashAndDeregister 1 slashDestination := by
    intro call hcall
    simp only [leaseCalls, List.mem_cons, List.not_mem_nil, or_false] at hcall
    rcases hcall with rfl | rfl | rfl <;> simp
  exact ⟨hregistered, hcalls, registration_runs hregistered hcalls⟩

end Cumulus.BridgeRelayers
