import Cumulus.BridgeRelayers.Pallet
import Cumulus.Found.Run

/-!
# The bridge relayers pallet: what each call does

One inversion lemma per call, guards and events included, so that the invariants over runs
(`Registrations`, `Rewards`) never unfold a call:

* `claimRewards_eq_ok`, `register_eq_ok` (through `updateStake_eq_ok` and `doUnreserve_eq_ok`),
  `deregister_eq_ok` — what a successful dispatchable did;
* `slashAndDeregister_cases` — what a slash did, a failed move of the stake included;
* `dispatch_eq_ok`, `relayersStep_cases` — a call sent to its function, and as the runtime runs
  it, a failure rolled back.
-/

namespace Cumulus.BridgeRelayers

open Cumulus.Found

variable {Acc L : Type} {w : Nat} {cfg : RelayersConfig Acc L w} [DecidableEq Acc]
variable {s s' : RelayersState Acc L w}

/-! ## What each call does -/

/-- **What a successful claim did**: the signer's whole reward from the rewards account was paid
and removed, and the event says so. -/
theorem claimRewards_eq_ok {signer : Option Acc} {rewardsAccountParams : RewardsAccountParams}
    {e : RelayersEvent Acc w} (h : claimRewards cfg s signer rewardsAccountParams = .ok (s', e)) :
    ∃ relayer reward balances, signer = some relayer ∧
      s.relayerRewards relayer rewardsAccountParams = some reward ∧
      cfg.payReward s.balances relayer rewardsAccountParams reward = some balances ∧
      s' = { s with
        relayerRewards := updateDouble s.relayerRewards relayer rewardsAccountParams none
        balances } ∧
      e = .rewardPaid relayer rewardsAccountParams reward := by
  unfold claimRewards at h
  rcases signer with _ | relayer
  · cases h
  rcases hreward : s.relayerRewards relayer rewardsAccountParams with _ | reward
  · simp only [hreward] at h
    cases h
  rcases hpay : cfg.payReward s.balances relayer rewardsAccountParams reward with _ | balances
  · simp only [hreward, hpay] at h
    cases h
  simp only [hreward, hpay, Except.ok.injEq, Prod.mk.injEq] at h
  obtain ⟨rfl, rfl⟩ := h
  exact ⟨relayer, reward, balances, rfl, hreward, hpay, rfl, rfl⟩

omit [DecidableEq Acc] in
/-- A successful unreserve returned the whole amount. -/
theorem doUnreserve_eq_ok {balances balances' : L} {relayer : Acc} {amount : BitVec w}
    (h : doUnreserve cfg balances relayer amount = .ok balances') :
    cfg.unreserve balances relayer amount = (balances', 0) := by
  unfold doUnreserve at h
  rcases hunreserve : cfg.unreserve balances relayer amount with ⟨balances₁, failed⟩
  rw [hunreserve] at h
  dsimp only at h
  split_ifs at h with hfailed
  cases h
  rw [not_not.mp hfailed]

omit [DecidableEq Acc] in
/-- **What a stake update did**: from a stake at least the required one, the excess was
unreserved in full; from a smaller one, the missing part was reserved. -/
theorem updateStake_eq_ok {balances balances' : L} {relayer : Acc} {stake : BitVec w}
    (h : updateStake cfg balances relayer stake = .ok balances') :
    (cfg.requiredStake.toNat ≤ stake.toNat → ∃ toUnreserve : BitVec w,
      toUnreserve.toNat = stake.toNat - cfg.requiredStake.toNat ∧
        cfg.unreserve balances relayer toUnreserve = (balances', 0)) ∧
    (stake.toNat < cfg.requiredStake.toNat → ∃ toReserve : BitVec w,
      toReserve.toNat = cfg.requiredStake.toNat - stake.toNat ∧
        cfg.reserve balances relayer toReserve = some balances') := by
  unfold updateStake at h
  rcases hexcess : checkedSub stake cfg.requiredStake with _ | toUnreserve
  · -- the stake is below the required one
    have hlt : stake.toNat < cfg.requiredStake.toNat := by
      simpa [checkedSub, BitVec.usubOverflow] using hexcess
    obtain ⟨toReserve, hmissing⟩ :=
      Option.isSome_iff_exists.mp (checkedSub_isSome.mpr (Nat.le_of_lt hlt))
    rw [hexcess] at h
    dsimp only at h
    rw [hmissing] at h
    dsimp only at h
    rcases hreserve : cfg.reserve balances relayer toReserve with _ | reserved
    · rw [hreserve] at h
      cases h
    rw [hreserve] at h
    cases h
    exact ⟨fun hle => absurd hle (Nat.not_le.mpr hlt),
      fun _ => ⟨toReserve, (checkedSub_eq_some.mp hmissing).2, hreserve⟩⟩
  · obtain ⟨hle, hcount⟩ := checkedSub_eq_some.mp hexcess
    rw [hexcess] at h
    exact ⟨fun _ => ⟨toUnreserve, hcount, doUnreserve_eq_ok h⟩,
      fun hlt => absurd hle (Nat.not_le.mpr hlt)⟩

/-- **What a successful registration did**: the signer's lease is long enough and does not
shrink, the registration now holds the lease and the required stake, and the stake it had (zero
for a new one) was brought to the required stake. -/
theorem register_eq_ok {now : Nat} {signer : Option Acc} {validTill : Nat}
    {e : RelayersEvent Acc w} (h : register cfg s now signer validTill = .ok (s', e)) :
    ∃ relayer balances, signer = some relayer ∧
      cfg.requiredRegistrationLease < validTill - now ∧
      (∀ registration, s.registeredRelayers relayer = some registration →
        registration.validTill ≤ validTill) ∧
      updateStake cfg s.balances relayer
        ((s.registeredRelayers relayer).getD ⟨validTill, 0⟩).stake = .ok balances ∧
      s' = { s with
        registeredRelayers := Function.update s.registeredRelayers relayer
          (some ⟨validTill, cfg.requiredStake⟩)
        balances } ∧
      e = .registrationUpdated relayer ⟨validTill, cfg.requiredStake⟩ := by
  unfold register at h
  rcases signer with _ | relayer
  · cases h
  dsimp only at h
  split_ifs at h with hlease hreduce
  obtain ⟨balances, hupdate, hresult⟩ := except_map_eq_ok h
  simp only [Prod.mk.injEq] at hresult
  obtain ⟨rfl, rfl⟩ := hresult
  refine ⟨relayer, balances, rfl, hlease, fun r hr => ?_, hupdate, rfl, rfl⟩
  rw [hr, Option.getD_some] at hreduce
  exact hreduce

/-- **What a successful deregistration did**: the lease had ended, the stake was unreserved in
full, and the registration is gone. -/
theorem deregister_eq_ok {now : Nat} {signer : Option Acc} {e : RelayersEvent Acc w}
    (h : deregister cfg s now signer = .ok (s', e)) :
    ∃ relayer registration balances, signer = some relayer ∧
      s.registeredRelayers relayer = some registration ∧ registration.validTill < now ∧
      (registration.stake ≠ 0 →
        cfg.unreserve s.balances relayer registration.stake = (balances, 0)) ∧
      (registration.stake = 0 → balances = s.balances) ∧
      s' = { s with
        registeredRelayers := Function.update s.registeredRelayers relayer none
        balances } ∧
      e = .deregistered relayer := by
  unfold deregister at h
  rcases signer with _ | relayer
  · cases h
  rcases hregistration : s.registeredRelayers relayer with _ | registration
  · simp only [hregistration] at h
    cases h
  simp only [hregistration] at h
  split_ifs at h with hactive hstake
  · obtain ⟨balances, hunreserve, hresult⟩ := except_map_eq_ok h
    simp only [Prod.mk.injEq] at hresult
    obtain ⟨rfl, rfl⟩ := hresult
    exact ⟨relayer, registration, balances, rfl, hregistration, hactive,
      fun _ => doUnreserve_eq_ok hunreserve, fun hzero => absurd hzero hstake, rfl, rfl⟩
  · obtain ⟨balances, hbalances, hresult⟩ := except_map_eq_ok h
    simp only [Prod.mk.injEq] at hresult
    obtain ⟨rfl, rfl⟩ := hresult
    cases hbalances
    exact ⟨relayer, registration, s.balances, rfl, hregistration, hactive,
      fun hne => absurd (not_not.mp hstake) hne, fun _ => rfl, rfl, rfl⟩

/-- **What a successful call did**, by the call: a dispatchable deposits its one event, the two
functions of the other pallets none. -/
theorem dispatch_eq_ok {now : Nat} {call : RelayersCall Acc w} {es : List (RelayersEvent Acc w)}
    (h : dispatch cfg s now call = .ok (s', es)) :
    (∃ signer rewardsAccountParams e, call = .claimRewards signer rewardsAccountParams ∧
      claimRewards cfg s signer rewardsAccountParams = .ok (s', e) ∧ es = [e]) ∨
    (∃ signer validTill e, call = .register signer validTill ∧
      register cfg s now signer validTill = .ok (s', e) ∧ es = [e]) ∨
    (∃ signer e, call = .deregister signer ∧ deregister cfg s now signer = .ok (s', e) ∧
      es = [e]) ∨
    (∃ rewardsAccountParams relayer reward,
      call = .registerRelayerReward rewardsAccountParams relayer reward ∧
      s' = registerRelayerReward s rewardsAccountParams relayer reward ∧ es = []) ∨
    (∃ relayer slashDestination, call = .slashAndDeregister relayer slashDestination ∧
      s' = slashAndDeregister cfg s relayer slashDestination ∧ es = []) := by
  cases call with
  | claimRewards signer rewardsAccountParams =>
    obtain ⟨⟨s₁, e⟩, hclaim, hresult⟩ := except_map_eq_ok h
    simp only [Prod.mk.injEq] at hresult
    obtain ⟨rfl, rfl⟩ := hresult
    exact .inl ⟨signer, rewardsAccountParams, e, rfl, hclaim, rfl⟩
  | register signer validTill =>
    obtain ⟨⟨s₁, e⟩, hregister, hresult⟩ := except_map_eq_ok h
    simp only [Prod.mk.injEq] at hresult
    obtain ⟨rfl, rfl⟩ := hresult
    exact .inr (.inl ⟨signer, validTill, e, rfl, hregister, rfl⟩)
  | deregister signer =>
    obtain ⟨⟨s₁, e⟩, hderegister, hresult⟩ := except_map_eq_ok h
    simp only [Prod.mk.injEq] at hresult
    obtain ⟨rfl, rfl⟩ := hresult
    exact .inr (.inr (.inl ⟨signer, e, rfl, hderegister, rfl⟩))
  | registerRelayerReward rewardsAccountParams relayer reward =>
    simp only [dispatch, Except.ok.injEq, Prod.mk.injEq] at h
    obtain ⟨rfl, rfl⟩ := h
    exact .inr (.inr (.inr (.inl ⟨rewardsAccountParams, relayer, reward, rfl, rfl, rfl⟩)))
  | slashAndDeregister relayer slashDestination =>
    simp only [dispatch, Except.ok.injEq, Prod.mk.injEq] at h
    obtain ⟨rfl, rfl⟩ := h
    exact .inr (.inr (.inr (.inr ⟨relayer, slashDestination, rfl, rfl, rfl⟩)))

/-- A call as the runtime runs it: the dispatch's result, or a failure rolled back. -/
theorem relayersStep_cases (cfg : RelayersConfig Acc L w) (s : RelayersState Acc L w)
    (call : Nat × RelayersCall Acc w) :
    dispatch cfg s call.1 call.2 = .ok (relayersStep cfg s call) ∨
      ∃ err, dispatch cfg s call.1 call.2 = .error err ∧ relayersStep cfg s call = (s, []) := by
  unfold relayersStep
  split
  · next result h => exact .inl h
  · next err h => exact .inr ⟨err, h, rfl⟩

/-- **What a slash did**: an unregistered relayer is left alone; a registered one loses its
registration, and its stake moved to the rewards account unless the move failed. -/
theorem slashAndDeregister_cases (cfg : RelayersConfig Acc L w) (s : RelayersState Acc L w)
    (relayer : Acc)
    (slashDestination : RewardsAccountParams) :
    let s' := slashAndDeregister cfg s relayer slashDestination
    s'.relayerRewards = s.relayerRewards ∧
    (s.registeredRelayers relayer = none ∧ s' = s ∨
      ∃ registration, s.registeredRelayers relayer = some registration ∧
        s'.registeredRelayers = Function.update s.registeredRelayers relayer none ∧
        ((∃ failed, cfg.repatriateReserved s.balances relayer slashDestination
            registration.stake = some (s'.balances, failed)) ∨
          cfg.repatriateReserved s.balances relayer slashDestination registration.stake = none ∧
            s'.balances = s.balances)) := by
  unfold slashAndDeregister
  rcases hregistration : s.registeredRelayers relayer with _ | registration
  · exact ⟨rfl, .inl ⟨rfl, rfl⟩⟩
  dsimp only
  rcases hmove : cfg.repatriateReserved s.balances relayer slashDestination registration.stake
    with _ | ⟨balances, failed⟩
  · exact ⟨rfl, .inr ⟨registration, rfl, rfl, .inr ⟨hmove, rfl⟩⟩⟩
  · exact ⟨rfl, .inr ⟨registration, rfl, rfl, .inl ⟨failed, hmove⟩⟩⟩

end Cumulus.BridgeRelayers
