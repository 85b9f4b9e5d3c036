import Cumulus.BridgeRelayers.Registrations

/-!
# The bridge relayers pallet over runs: rewards

* `stepBalance_relayersStep` — what a call leaves pending at a rewards account and what its
  `RewardPaid` events pay is what was pending and what it registers, saturated at the largest
  `T::Reward`;
* `relayerRewards_runs` — over every run, the rewards paid to a relayer from a rewards account
  plus the reward still pending are at most the rewards registered for it and what was pending,
  and exactly that while the sums fit in `T::Reward`: no reward is paid twice.
-/

namespace Cumulus.BridgeRelayers

open Cumulus.Found

variable {Acc L : Type} {w : Nat} {cfg : RelayersConfig Acc L w} [DecidableEq Acc]
variable {s s' : RelayersState Acc L w}

/-! ## Rewards -/

/-- The reward pending for a relayer at a rewards account. -/
def pendingReward (s : RelayersState Acc L w) (relayer : Acc)
    (rewardsAccountParams : RewardsAccountParams) : ℕ :=
  ((s.relayerRewards relayer rewardsAccountParams).map BitVec.toNat).getD 0

/-- What an event says was paid to `relayer` from the rewards account. -/
def RelayersEvent.paidTo (relayer : Acc) (rewardsAccountParams : RewardsAccountParams) :
    RelayersEvent Acc w → ℕ
  | .rewardPaid relayer' rewardsAccountParams' reward =>
    if relayer' = relayer ∧ rewardsAccountParams' = rewardsAccountParams then reward.toNat else 0
  | _ => 0

/-- The reward a call registers for `relayer` at the rewards account. -/
def RelayersCall.rewardFor (relayer : Acc) (rewardsAccountParams : RewardsAccountParams) :
    RelayersCall Acc w → ℕ
  | .registerRelayerReward rewardsAccountParams' relayer' reward =>
    if relayer' = relayer ∧ rewardsAccountParams' = rewardsAccountParams then reward.toNat else 0
  | _ => 0

section rewards

variable (relayer : Acc) (rewardsAccountParams : RewardsAccountParams)

omit [DecidableEq Acc] in
/-- A pending reward fits the balance width. -/
theorem pendingReward_lt (s : RelayersState Acc L w) :
    pendingReward s relayer rewardsAccountParams < 2 ^ w := by
  unfold pendingReward
  cases s.relayerRewards relayer rewardsAccountParams with
  | none => exact Nat.two_pow_pos w
  | some reward => exact reward.isLt

omit [DecidableEq Acc] in
/-- Pending rewards read only the rewards map. -/
theorem pendingReward_of_relayerRewards (h : s'.relayerRewards = s.relayerRewards) :
    pendingReward s' relayer rewardsAccountParams =
      pendingReward s relayer rewardsAccountParams := by
  simp only [pendingReward, h]

/-- A claim pays out exactly the reward it removes. -/
theorem claimRewards_pendingReward {signer : Option Acc} {claimed : RewardsAccountParams}
    {e : RelayersEvent Acc w} (h : claimRewards cfg s signer claimed = .ok (s', e)) :
    pendingReward s' relayer rewardsAccountParams + e.paidTo relayer rewardsAccountParams =
      pendingReward s relayer rewardsAccountParams := by
  obtain ⟨claimer, reward, balances, -, hreward, -, rfl, rfl⟩ := claimRewards_eq_ok h
  by_cases hsame : claimer = relayer ∧ claimed = rewardsAccountParams
  · obtain ⟨rfl, rfl⟩ := hsame
    simp [pendingReward, RelayersEvent.paidTo, hreward]
  · have hne : ¬(relayer = claimer ∧ rewardsAccountParams = claimed) := fun h =>
      hsame ⟨h.1.symm, h.2.symm⟩
    simp only [pendingReward, RelayersEvent.paidTo, updateDouble_apply, if_neg hne, if_neg hsame,
      Nat.add_zero]

/-- A reward registration adds the reward to the pending one, saturating. -/
theorem registerRelayerReward_pendingReward (s : RelayersState Acc L w)
    (registeredAt : RewardsAccountParams) (rewarded : Acc) (reward : BitVec w) :
    pendingReward (registerRelayerReward s registeredAt rewarded reward) relayer
        rewardsAccountParams =
      min (pendingReward s relayer rewardsAccountParams +
        (RelayersCall.registerRelayerReward registeredAt rewarded reward).rewardFor relayer
          rewardsAccountParams) (2 ^ w - 1) := by
  have hlt := pendingReward_lt relayer rewardsAccountParams s
  unfold registerRelayerReward
  by_cases hzero : reward = 0
  · -- a zero reward is not booked
    subst hzero
    simp only [if_true, RelayersCall.rewardFor, BitVec.ofNat_eq_ofNat, BitVec.toNat_ofNat,
      Nat.zero_mod, ite_self, Nat.add_zero]
    omega
  rw [if_neg hzero]
  by_cases hsame : rewarded = relayer ∧ registeredAt = rewardsAccountParams
  · obtain ⟨rfl, rfl⟩ := hsame
    have hold : ((s.relayerRewards rewarded registeredAt).getD 0).toNat =
        pendingReward s rewarded registeredAt := by
      unfold pendingReward
      cases s.relayerRewards rewarded registeredAt with
      | none => rfl
      | some old => rfl
    simp only [pendingReward, updateDouble_apply, and_self, if_true, Option.map_some,
      Option.getD_some, toNat_saturatingAdd, RelayersCall.rewardFor]
    rw [hold, pendingReward]
  · have hne : ¬(relayer = rewarded ∧ rewardsAccountParams = registeredAt) := fun h =>
      hsame ⟨h.1.symm, h.2.symm⟩
    simp only [pendingReward, RelayersCall.rewardFor, updateDouble_apply, if_neg hne,
      if_neg hsame, Nat.add_zero]
    exact (Nat.min_eq_left (by have := hlt; unfold pendingReward at this; omega)).symm

/-- A call that fails registers no reward: `registerRelayerReward` never fails. -/
theorem rewardFor_eq_zero_of_error {now : ℕ} {call : RelayersCall Acc w} {err : RelayersError}
    (h : dispatch cfg s now call = .error err) :
    call.rewardFor relayer rewardsAccountParams = 0 := by
  cases call with
  | registerRelayerReward => cases h
  | slashAndDeregister => cases h
  | claimRewards => rfl
  | register => rfl
  | deregister => rfl

/-- **What a call does to a pending reward**: what it leaves pending and what its events pay is
what was pending and what it registers, saturated at the largest reward. -/
theorem stepBalance_relayersStep (cfg : RelayersConfig Acc L w) (s : RelayersState Acc L w)
    (call : ℕ × RelayersCall Acc w) :
    stepBalance (fun s => pendingReward s relayer rewardsAccountParams)
        (RelayersEvent.paidTo relayer rewardsAccountParams) (relayersStep cfg) s call =
      min (pendingReward s relayer rewardsAccountParams +
        call.2.rewardFor relayer rewardsAccountParams) (2 ^ w - 1) := by
  have hlt := pendingReward_lt relayer rewardsAccountParams s
  unfold stepBalance
  rcases relayersStep_cases cfg s call with hok | ⟨err, herr, hstep⟩
  · generalize relayersStep cfg s call = result at hok ⊢
    obtain ⟨s', es⟩ := result
    rcases dispatch_eq_ok hok with ⟨signer, claimed, e, hcall, hclaim, rfl⟩ |
      ⟨signer, validTill, e, hcall, hregister, rfl⟩ | ⟨signer, e, hcall, hderegister, rfl⟩ |
      ⟨registeredAt, rewarded, reward, hcall, rfl, rfl⟩ |
      ⟨slashed, slashDestination, hcall, rfl, rfl⟩
    all_goals dsimp only
    · rw [hcall, List.map_singleton, List.sum_singleton,
        claimRewards_pendingReward relayer rewardsAccountParams hclaim]
      simp only [RelayersCall.rewardFor]
      omega
    · -- a registration books no reward and pays none
      obtain ⟨registrant, balances, -, -, -, -, hs', he⟩ := register_eq_ok hregister
      have hkept : pendingReward s' relayer rewardsAccountParams =
          pendingReward s relayer rewardsAccountParams :=
        pendingReward_of_relayerRewards relayer rewardsAccountParams (by rw [hs'])
      rw [hcall, he, hkept]
      simp only [List.map_singleton, List.sum_singleton, RelayersEvent.paidTo,
        RelayersCall.rewardFor]
      omega
    · obtain ⟨leaving, registration, balances, -, -, -, -, -, hs', he⟩ :=
        deregister_eq_ok hderegister
      have hkept : pendingReward s' relayer rewardsAccountParams =
          pendingReward s relayer rewardsAccountParams :=
        pendingReward_of_relayerRewards relayer rewardsAccountParams (by rw [hs'])
      rw [hcall, he, hkept]
      simp only [List.map_singleton, List.sum_singleton, RelayersEvent.paidTo,
        RelayersCall.rewardFor]
      omega
    · rw [hcall, registerRelayerReward_pendingReward]
      simp
    · rw [hcall, pendingReward_of_relayerRewards relayer rewardsAccountParams
        (slashAndDeregister_cases cfg s slashed slashDestination).1]
      simp only [List.map_nil, List.sum_nil, RelayersCall.rewardFor]
      omega
  · rw [hstep, rewardFor_eq_zero_of_error relayer rewardsAccountParams herr]
    simp only [List.map_nil, List.sum_nil]
    omega

/-- **Rewards are paid at most once.** Over every run, the rewards that the `RewardPaid` events
say were paid to a relayer from a rewards account, plus the reward still pending there, are at
most what was pending at the start plus the rewards registered for it; and exactly that while
this sum fits in `T::Reward`, so that no registration saturates. -/
theorem relayerRewards_runs (calls : List (ℕ × RelayersCall Acc w)) :
    let run := runLog (relayersStep cfg) s calls
    let registered := (calls.map fun call => call.2.rewardFor relayer rewardsAccountParams).sum
    pendingReward run.1 relayer rewardsAccountParams +
        (run.2.map (RelayersEvent.paidTo relayer rewardsAccountParams)).sum ≤
      pendingReward s relayer rewardsAccountParams + registered ∧
    (pendingReward s relayer rewardsAccountParams + registered < 2 ^ w →
      pendingReward run.1 relayer rewardsAccountParams +
          (run.2.map (RelayersEvent.paidTo relayer rewardsAccountParams)).sum =
        pendingReward s relayer rewardsAccountParams + registered) := by
  intro run registered
  have hstep := stepBalance_relayersStep relayer rewardsAccountParams cfg
  refine ⟨runLog_conservation (fun s => pendingReward s relayer rewardsAccountParams)
    (RelayersEvent.paidTo relayer rewardsAccountParams)
    (fun call : ℕ × RelayersCall Acc w => call.2.rewardFor relayer rewardsAccountParams)
    (fun s call => ?_) s calls,
    fun hfits => ?_⟩
  · rw [hstep]
    exact Nat.min_le_left _ _
  · refine runLog_conservation_of_lt (fun s => pendingReward s relayer rewardsAccountParams)
      (RelayersEvent.paidTo relayer rewardsAccountParams)
      (fun call : ℕ × RelayersCall Acc w => call.2.rewardFor relayer rewardsAccountParams)
      (2 ^ w) (fun s call hlt => ?_) hfits
    rw [hstep]
    exact Nat.min_eq_left (by omega)

end rewards

/-- Relayer `1` earns `30` and a zero reward at `laneZero`, claims twice (the second claim finds no
reward and fails), and earns `200` more. -/
def rewardCalls : List (ℕ × RelayersCall ℕ 8) :=
  [(0, .registerRelayerReward laneZero 1 30), (0, .registerRelayerReward laneZero 1 0),
    (1, .claimRewards (some 1) laneZero), (2, .claimRewards (some 1) laneZero),
    (3, .registerRelayerReward laneZero 1 200)]

/-- Along the reward calls, relayer `1` is paid `30` and has `200` pending: together what it had
pending and what the calls rewarded, which does not overflow. -/
theorem relayerRewards_runs_rewardCalls :
    pendingReward ledgerStart 1 laneZero +
        (rewardCalls.map fun call => call.2.rewardFor 1 laneZero).sum < 2 ^ 8 ∧
    let run := runLog (relayersStep tenStakeLedger) ledgerStart rewardCalls
    pendingReward run.1 1 laneZero = 200 ∧
    (run.2.map (RelayersEvent.paidTo 1 laneZero)).sum = 30 ∧
    pendingReward run.1 1 laneZero + (run.2.map (RelayersEvent.paidTo 1 laneZero)).sum =
      pendingReward ledgerStart 1 laneZero +
        (rewardCalls.map fun call => call.2.rewardFor 1 laneZero).sum := by
  have hfits : pendingReward ledgerStart 1 laneZero +
      (rewardCalls.map fun call => call.2.rewardFor 1 laneZero).sum < 2 ^ 8 := by decide
  exact ⟨hfits, by decide, by decide, (relayerRewards_runs 1 laneZero rewardCalls).2 hfits⟩

end Cumulus.BridgeRelayers
