import Cumulus.Primitives.FixedU128
import Cumulus.Primitives.Xcm

/-!
# xcm bridge hub router: the dynamic bridge fee

The router sends XCM messages over a bridge through the sibling bridge hub, and charges a bridge
fee that grows while the bridge is congested. Its state is one `BridgeState`: the delivery fee
factor, a `FixedU128` that starts at one, and the congestion flag the bridge hub reports.

* `onInitialize` — `on_initialize`: when neither the channel to the bridge hub nor the bridge is
  congested, divide the factor by 1.05, down to one;
* `reportBridgeStatus` — `report_bridge_status`: the bridge hub sets the congestion flag;
* `onMessageSentToBridge` — `on_message_sent_to_bridge`, called by `deliver` once the message is
  queued: when either is congested, multiply the factor by `1.05 + 0.001 · ⌊size / 1024⌋`;
* `exporterFor` — `ExporterFor::exporter_for`: the bridge hub to send through and the bridge fee,
  the base fee and the byte fee scaled by the factor.

Whether the channel with the bridge hub is congested (`WithBridgeHubChannel::is_congested`) is
asked at each call; it is an argument of the calls that ask it.
-/

namespace Cumulus.BridgeHubRouter

open Cumulus.Primitives Cumulus.Found

/-- `MINIMAL_DELIVERY_FEE_FACTOR`: `FixedU128::from_u32(1)`.
Source: `bridges/primitives/xcm-bridge-hub-router/src/lib.rs` -/
def minimalDeliveryFeeFactor : FixedU128 := FixedU128.fromU32 1

/-- `EXPONENTIAL_FEE_BASE`: `FixedU128::from_rational(105, 100)`, which is 1.05 exactly.
Source: `bridges/modules/xcm-bridge-hub-router/src/lib.rs` -/
def exponentialFeeBase : FixedU128 := ⟨1050000000000000000⟩

/-- `MESSAGE_SIZE_FEE_BASE`: `FixedU128::from_rational(1, 1000)`, which is 0.001 exactly.
Source: `bridges/modules/xcm-bridge-hub-router/src/lib.rs` -/
def messageSizeFeeBase : FixedU128 := ⟨1000000000000000⟩

/-- The router's record of the bridge.
Source: `bridges/primitives/xcm-bridge-hub-router/src/lib.rs` `BridgeState` -/
structure BridgeState where
  /-- Current delivery fee factor. -/
  deliveryFeeFactor : FixedU128
  /-- Bridge congestion flag. -/
  isCongested : Bool
  deriving DecidableEq, Repr

/-- `BridgeState::default()`: the minimal factor, not congested. -/
def BridgeState.default : BridgeState := ⟨minimalDeliveryFeeFactor, false⟩

/-- Lower the fee factor by 1.05, down to one, unless the channel or the bridge is congested.
Source: `bridges/modules/xcm-bridge-hub-router/src/lib.rs` `Hooks::on_initialize` -/
def onInitialize (channelCongested : Bool) (bridge : BridgeState) : Option BridgeState :=
  if channelCongested then some bridge
  else if bridge.isCongested then some bridge
  else if bridge.deliveryFeeFactor = minimalDeliveryFeeFactor then some bridge
  else do
    let deliveryFeeFactor ← bridge.deliveryFeeFactor.div exponentialFeeBase
    pure { bridge with deliveryFeeFactor := minimalDeliveryFeeFactor.max deliveryFeeFactor }

/-- The error of a call from another origin than the bridge hub. -/
inductive RouterError where
  | badOrigin
  deriving DecidableEq, Repr

/-- The bridge hub reports whether the bridge is congested.
Source: `bridges/modules/xcm-bridge-hub-router/src/lib.rs` `Pallet::report_bridge_status` -/
def reportBridgeStatus (fromBridgeHub isCongested : Bool) (bridge : BridgeState) :
    Except RouterError BridgeState :=
  if !fromBridgeHub then .error .badOrigin
  else .ok { bridge with isCongested }

/-- The factor a congested bridge multiplies the fee factor by for a message of `messageSize`
bytes: `EXPONENTIAL_FEE_BASE` plus `MESSAGE_SIZE_FEE_BASE` for each whole kilobyte. -/
def totalFactor (messageSize : BitVec 32) : FixedU128 :=
  let messageSizeFactor :=
    (FixedU128.fromU32 (messageSize / 1024)).saturatingMul messageSizeFeeBase
  exponentialFeeBase.saturatingAdd messageSizeFactor

/-- Raise the fee factor after a message was sent, if the channel or the bridge is congested.
Source: `bridges/modules/xcm-bridge-hub-router/src/lib.rs` `Pallet::on_message_sent_to_bridge` -/
def onMessageSentToBridge (channelCongested : Bool) (messageSize : BitVec 32)
    (bridge : BridgeState) : BridgeState :=
  -- neither congested: `try_mutate` returns `Err` and writes nothing
  if !channelCongested && !bridge.isCongested then bridge
  else { bridge with
    deliveryFeeFactor := bridge.deliveryFeeFactor.saturatingMul (totalFactor messageSize) }

/-! ## The bridge fee -/

/-- What `exporter_for` reads of the router's configuration. -/
structure RouterConfig (N A : Type) where
  /-- `T::BridgedNetworkId`: the one bridged network, if any. -/
  bridgedNetworkId : Option N
  /-- `T::ByteFee`. -/
  byteFee : BitVec 128
  /-- `T::FeeAsset`. -/
  feeAsset : A

/-- The bridge fee of a message of `messageSize` encoded bytes: the base fee and the byte fee,
scaled by the fee factor, each step saturating. -/
def bridgeFee (byteFee baseFee : BitVec 128) (messageSize : BitVec 64)
    (deliveryFeeFactor : FixedU128) : BitVec 128 :=
  let messageFee := saturatingMul (messageSize.setWidth 128) byteFee
  let feeSum := saturatingAdd baseFee messageFee
  deliveryFeeFactor.saturatingMulInt feeSum

/-- The bridge hub to send a message through and the bridge fee for it, if `T::Bridges` bridges
to the destination and asks for a base fee in `T::FeeAsset`; no fee if it comes to zero.
`bridges` is `T::Bridges::exporter_for`.
Source: `bridges/modules/xcm-bridge-hub-router/src/lib.rs` `ExporterFor::exporter_for` -/
def exporterFor {N L B A I : Type} [DecidableEq N] [DecidableEq A] (cfg : RouterConfig N A)
    (bridges : N → L → Option (B × Option (MultiAsset A I))) (bridge : BridgeState)
    (network : N) (remoteLocation : L) (messageSize : BitVec 64) :
    Option (B × Option (MultiAsset A I)) :=
  -- only the configured bridged network, if there is one
  if cfg.bridgedNetworkId.any (· ≠ network) then none
  else match bridges network remoteLocation with
    | none => none
    | some (bridgeHubLocation, maybePayment) =>
      -- the base fee must be paid in `T::FeeAsset`
      let baseFee? : Option (BitVec 128) := match maybePayment with
        | some ⟨id, .fungible amount⟩ => if id = cfg.feeAsset then some amount else none
        | some ⟨_, .nonFungible _⟩ => none
        | none => some 0
      baseFee?.map fun baseFee =>
        let fee := bridgeFee cfg.byteFee baseFee messageSize bridge.deliveryFeeFactor
        (bridgeHubLocation, if 0 < fee then some ⟨cfg.feeAsset, .fungible fee⟩ else none)

/-! ## The router's calls -/

/-- A call that changes the router's state. -/
inductive RouterCall where
  /-- `on_initialize`, with the channel's congestion. -/
  | onInitialize (channelCongested : Bool)
  /-- `report_bridge_status`, from the bridge hub or not. -/
  | reportBridgeStatus (fromBridgeHub isCongested : Bool)
  /-- A message of `messageSize` bytes delivered: `deliver` succeeded and called
  `on_message_sent_to_bridge`. -/
  | messageSent (channelCongested : Bool) (messageSize : BitVec 32)

/-- One call on the router's state; a failed call writes nothing. -/
def routerStep (bridge : BridgeState) : RouterCall → Option BridgeState
  | .onInitialize channelCongested => onInitialize channelCongested bridge
  | .reportBridgeStatus fromBridgeHub isCongested =>
    match reportBridgeStatus fromBridgeHub isCongested bridge with
    | .ok bridge' => some bridge'
    | .error _ => some bridge
  | .messageSent channelCongested messageSize =>
    some (onMessageSentToBridge channelCongested messageSize bridge)

end Cumulus.BridgeHubRouter
