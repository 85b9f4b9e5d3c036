import Cumulus.BridgeMessages.Pallet
import Cumulus.Found.Storage

/-!
# The bridge relayers pallet

The pallet keeps the rewards that relayers earn for delivering messages, per relayer and rewards
account (`RelayerRewards`), and the registrations of relayers that stake some balance for a lease
to get a priority boost (`RegisteredRelayers`).

* `registerRelayerReward` adds a reward, saturating; the messages pallet calls it when a delivery
  is confirmed. `claimRewards` pays the whole reward of a rewards account and removes it.
* `register` starts or extends a lease, which must outlast the required lease and may not shrink,
  and reserves or unreserves the difference between the stake and the required stake;
  `deregister` ends a lease that has expired and unreserves the stake; `slashAndDeregister`
  ends a registration and moves its stake to a rewards account, swallowing any failure.
* `isRegistrationActive` is what the priority boost checks.

The stake and payment schemes act on the balances of the runtime, a type `L` with the operations
of `RelayersConfig`. `relayersStep` is a call as the runtime runs it, with the events it deposits:
a dispatchable that fails is rolled back with the balances and its events; the two functions other
pallets call never fail. Weights and the log lines are left out.

Source: `bridges/modules/relayers/src/lib.rs`, `bridges/modules/relayers/src/stake_adapter.rs`,
`bridges/primitives/relayers/src/lib.rs`, `bridges/primitives/relayers/src/registration.rs`
-/

namespace Cumulus.BridgeRelayers

open Cumulus.Found
open Cumulus.BridgeMessages (LaneId)

/-- Which side of a lane pays the rewards of a rewards account.
Source: `bp_relayers::RewardsAccountOwner` -/
inductive RewardsAccountOwner where
  | thisChain
  | bridgedChain
  deriving DecidableEq, Repr

/-- The key of a rewards account: a lane, the bridged chain and the side that pays.
Source: `bp_relayers::RewardsAccountParams` -/
structure RewardsAccountParams where
  laneId : LaneId
  /-- `ChainId`: four bytes. -/
  bridgedChainId : Nat
  owner : RewardsAccountOwner
  deriving DecidableEq, Repr

/-- A relayer's registration: the last block of its lease and its stake.
Source: `bp_relayers::Registration` -/
structure Registration (w : Nat) where
  validTill : Nat
  stake : BitVec w
  deriving DecidableEq, Repr

/-- The pallet's constants and the runtime's schemes it calls, acting on the balances `L`.
Rewards and stakes are `T::Reward`, an unsigned integer of `w` bits; block numbers are only
compared and subtracted with `saturating_sub`. -/
structure RelayersConfig (Acc L : Type) (w : Nat) where
  /-- `StakeAndSlash::RequiredStake`. -/
  requiredStake : BitVec w
  /-- `StakeAndSlash::RequiredRegistrationLease`. -/
  requiredRegistrationLease : Nat
  /-- `StakeAndSlash::reserve`: `none` for an error. -/
  reserve : L → Acc → BitVec w → Option L
  /-- `StakeAndSlash::unreserve`: the balances and the amount that could not be unreserved. -/
  unreserve : L → Acc → BitVec w → L × BitVec w
  /-- `StakeAndSlash::repatriate_reserved` to the rewards account: the balances and the amount
  that could not be moved, or `none` for an error. -/
  repatriateReserved : L → Acc → RewardsAccountParams → BitVec w → Option (L × BitVec w)
  /-- `PaymentProcedure::pay_reward` from the rewards account: `none` for an error. -/
  payReward : L → Acc → RewardsAccountParams → BitVec w → Option L

/-- The pallet's storage, with the balances the schemes act on.
Source: `bridges/modules/relayers/src/lib.rs`, the `#[pallet::storage]` items -/
structure RelayersState (Acc L : Type) (w : Nat) where
  relayerRewards : Acc → RewardsAccountParams → Option (BitVec w)
  registeredRelayers : Acc → Option (Registration w)
  balances : L

/-- The errors of the pallet.
Source: `bridges/modules/relayers/src/lib.rs` `Error` -/
inductive RelayersError where
  | noRewardForRelayer
  | failedToPayReward
  | invalidRegistrationLease
  | cannotReduceRegistrationLease
  | failedToReserve
  | failedToUnreserve
  | notRegistered
  | registrationIsStillActive
  /-- `ensure_signed` failed. -/
  | badOrigin
  deriving DecidableEq, Repr

/-- The events the pallet deposits. `SlashedAndDeregistered` is declared by the source but never
deposited, and is left out.
Source: `bridges/modules/relayers/src/lib.rs` `Event` -/
inductive RelayersEvent (Acc : Type) (w : Nat) where
  /-- Reward has been paid to the relayer. -/
  | rewardPaid (relayer : Acc) (rewardsAccountParams : RewardsAccountParams) (reward : BitVec w)
  /-- Relayer registration has been added or updated. -/
  | registrationUpdated (relayer : Acc) (registration : Registration w)
  /-- Relayer has been `deregistered`. -/
  | deregistered (relayer : Acc)
  deriving DecidableEq, Repr

variable {Acc L : Type} {w : Nat} (cfg : RelayersConfig Acc L w) [DecidableEq Acc]

/-! ## Rewards -/

/-- Claim accumulated rewards: the whole reward of the rewards account is paid and removed.
`signer` is the account of a signed origin; `ensure_signed` rejects the others.
Source: `Pallet::claim_rewards` -/
def claimRewards (s : RelayersState Acc L w) (signer : Option Acc)
    (rewardsAccountParams : RewardsAccountParams) :
    Except RelayersError (RelayersState Acc L w × RelayersEvent Acc w) :=
  match signer with
  | none => .error .badOrigin
  | some relayer =>
    match s.relayerRewards relayer rewardsAccountParams with
    | none => .error .noRewardForRelayer
    | some reward =>
      match cfg.payReward s.balances relayer rewardsAccountParams reward with
      | none => .error .failedToPayReward
      | some balances =>
        .ok ({ s with
          relayerRewards := updateDouble s.relayerRewards relayer rewardsAccountParams none
          balances }, .rewardPaid relayer rewardsAccountParams reward)

/-- Register reward for given relayer: a zero reward changes nothing, another one is added to the
relayer's reward, saturating.
Source: `Pallet::register_relayer_reward` -/
def registerRelayerReward (s : RelayersState Acc L w) (rewardsAccountParams : RewardsAccountParams)
    (relayer : Acc) (reward : BitVec w) : RelayersState Acc L w :=
  if reward = 0 then s
  else
    let newReward :=
      saturatingAdd ((s.relayerRewards relayer rewardsAccountParams).getD 0) reward
    { s with
      relayerRewards := updateDouble s.relayerRewards relayer rewardsAccountParams
        (some newReward) }

@[simp] theorem registerRelayerReward_registeredRelayers (s : RelayersState Acc L w)
    (rewardsAccountParams : RewardsAccountParams) (relayer : Acc) (reward : BitVec w) :
    (registerRelayerReward s rewardsAccountParams relayer reward).registeredRelayers =
      s.registeredRelayers := by
  unfold registerRelayerReward
  split <;> rfl

@[simp] theorem registerRelayerReward_balances (s : RelayersState Acc L w)
    (rewardsAccountParams : RewardsAccountParams) (relayer : Acc) (reward : BitVec w) :
    (registerRelayerReward s rewardsAccountParams relayer reward).balances = s.balances := by
  unfold registerRelayerReward
  split <;> rfl

/-! ## Registrations -/

/-- `Unreserve` given amount on relayer account: an error when some of it stays reserved.
Source: `Pallet::do_unreserve` -/
def doUnreserve (balances : L) (relayer : Acc) (amount : BitVec w) :
    Except RelayersError L :=
  let (balances, failedToUnreserve) := cfg.unreserve balances relayer amount
  if failedToUnreserve ≠ 0 then .error .failedToUnreserve else .ok balances

/-- Bring a relayer's reserved stake from `stake` to the required stake: unreserve the excess,
which must succeed in full, or reserve what is missing.
Source: `Pallet::register`, the stake update -/
def updateStake (balances : L) (relayer : Acc) (stake : BitVec w) : Except RelayersError L :=
  -- regarding stake, there are three options:
  -- - if relayer stake is larger than required stake, we may do unreserve
  -- - if relayer stake equals to required stake, we do nothing
  -- - if relayer stake is smaller than required stake, we do additional reserve
  match checkedSub stake cfg.requiredStake with
  | some toUnreserve => doUnreserve cfg balances relayer toUnreserve
  | none =>
    match checkedSub cfg.requiredStake stake with
    | some toReserve =>
      match cfg.reserve balances relayer toReserve with
      | some balances => .ok balances
      | none => .error .failedToReserve
    | none => .ok balances

/-- Register relayer or update its registration: the lease must be longer than the required
lease and may not shrink, and the stake becomes the required stake. `now` is the current block
number.
Source: `Pallet::register` -/
def register (s : RelayersState Acc L w) (now : Nat) (signer : Option Acc) (validTill : Nat) :
    Except RelayersError (RelayersState Acc L w × RelayersEvent Acc w) :=
  match signer with
  | none => .error .badOrigin
  | some relayer =>
    -- valid till must be larger than the current block number and the lease must be larger
    -- than the `RequiredRegistrationLease`
    let lease := validTill - now
    if ¬lease > cfg.requiredRegistrationLease then .error .invalidRegistrationLease
    else
      let registration := (s.registeredRelayers relayer).getD ⟨validTill, 0⟩
      -- new `valid_till` must be larger (or equal) than the old one
      if ¬validTill ≥ registration.validTill then .error .cannotReduceRegistrationLease
      else
        (updateStake cfg s.balances relayer registration.stake).map fun balances =>
          ({ s with
            registeredRelayers := Function.update s.registeredRelayers relayer
              (some ⟨validTill, cfg.requiredStake⟩)
            balances }, .registrationUpdated relayer ⟨validTill, cfg.requiredStake⟩)

/-- `Deregister` relayer: only after its lease, unreserving its stake.
Source: `Pallet::deregister` -/
def deregister (s : RelayersState Acc L w) (now : Nat) (signer : Option Acc) :
    Except RelayersError (RelayersState Acc L w × RelayersEvent Acc w) :=
  match signer with
  | none => .error .badOrigin
  | some relayer =>
    match s.registeredRelayers relayer with
    | none => .error .notRegistered
    | some registration =>
      -- we can't deregister until `valid_till + 1`
      if ¬registration.validTill < now then .error .registrationIsStillActive
      else
        -- if stake is non-zero, we should do unreserve
        let balances := if registration.stake ≠ 0 then
            doUnreserve cfg s.balances relayer registration.stake
          else .ok s.balances
        balances.map fun balances =>
          ({ s with
            registeredRelayers := Function.update s.registeredRelayers relayer none
            balances }, .deregistered relayer)

/-- Whether the relayer's registration is active at block `now`: registered, with at least the
required stake, and with more than the required lease left.
Source: `Pallet::is_registration_active` -/
def isRegistrationActive (s : RelayersState Acc L w) (now : Nat) (relayer : Acc) : Bool :=
  match s.registeredRelayers relayer with
  | none => false
  | some registration =>
    -- registration is inactive if relayer stake is less than required
    if registration.stake < cfg.requiredStake then false
    -- registration is inactive if it ends soon
    else if registration.validTill - now ≤ cfg.requiredRegistrationLease then false
    else true

/-- Slash and `deregister` relayer: the registration is removed and its stake moved to the rewards
account; a failure of the move is only logged.
Source: `Pallet::slash_and_deregister` -/
def slashAndDeregister (s : RelayersState Acc L w) (relayer : Acc)
    (slashDestination : RewardsAccountParams) : RelayersState Acc L w :=
  match s.registeredRelayers relayer with
  | none => s
  | some registration =>
    let s := { s with registeredRelayers := Function.update s.registeredRelayers relayer none }
    match cfg.repatriateReserved s.balances relayer slashDestination registration.stake with
    | some (balances, _) => { s with balances }
    | none => s

/-! ## Calls -/

/-- The pallet's calls, and the two functions the other bridge pallets call. -/
inductive RelayersCall (Acc : Type) (w : Nat) where
  | claimRewards (signer : Option Acc) (rewardsAccountParams : RewardsAccountParams)
  | register (signer : Option Acc) (validTill : Nat)
  | deregister (signer : Option Acc)
  /-- From the messages pallet, when a delivery is confirmed. -/
  | registerRelayerReward (rewardsAccountParams : RewardsAccountParams) (relayer : Acc)
      (reward : BitVec w)
  /-- From the refund extension, for a relayer whose transaction misbehaved. -/
  | slashAndDeregister (relayer : Acc) (slashDestination : RewardsAccountParams)

/-- A call at block `now` sent to its function: the new state and the events it deposited. -/
def dispatch (s : RelayersState Acc L w) (now : Nat) :
    RelayersCall Acc w →
      Except RelayersError (RelayersState Acc L w × List (RelayersEvent Acc w))
  | .claimRewards signer rewardsAccountParams =>
    (claimRewards cfg s signer rewardsAccountParams).map fun result => (result.1, [result.2])
  | .register signer validTill =>
    (register cfg s now signer validTill).map fun result => (result.1, [result.2])
  | .deregister signer => (deregister cfg s now signer).map fun result => (result.1, [result.2])
  | .registerRelayerReward rewardsAccountParams relayer reward =>
    .ok (registerRelayerReward s rewardsAccountParams relayer reward, [])
  | .slashAndDeregister relayer slashDestination =>
    .ok (slashAndDeregister cfg s relayer slashDestination, [])

/-- A call at a block as the runtime runs it: a failed dispatchable is rolled back, with its
events. -/
def relayersStep (s : RelayersState Acc L w) (call : Nat × RelayersCall Acc w) :
    RelayersState Acc L w × List (RelayersEvent Acc w) :=
  match dispatch cfg s call.1 call.2 with
  | .ok result => result
  | .error _ => (s, [])

end Cumulus.BridgeRelayers
