import Cumulus.BridgeMessages.Lanes
import Cumulus.Found.SortedMap

/-!
# bridge messages: the pallet's calls on one lane

The messages pallet runs on both chains; for one lane, the source chain's instance sends and
prunes, the target chain's instance receives. The calls, each on the storage of its own side:

* `sendMessage` — `send_message` (via `MessagesBridge`): check the mode, the lane and both
  verifiers, then `OutboundLane::send_message`;
* `receiveMessagesProof` — `receive_messages_proof` on the target: lane by lane in lane order,
  take in the proved lane state, then receive the proved messages in the order given, failing as
  a whole when the declared dispatch weight runs out; it returns the lanes and the call's actual
  weight, the declared weight less what the lanes and the dispatch did not use;
* `receiveMessagesDeliveryProof` — `receive_messages_delivery_proof` on the source: check the
  declared relayers summary, confirm the delivery and count the relayers' rewards;
* `onIdle` — `on_idle`: prune the lane whose turn it is.

A proof is given as what its verifier returns: `verifyMessagesProof` reads the messages of one
lane of a source state, as `verify_messages_proof` of `bridges/bin/runtime-common` reads them from
a storage proof. The verifier of the source proves a range of nonces; here any list of nonces may
be proved, in any order. `receiveMessagesProof` takes any verified proof, of any lanes. A failed
call changes nothing (`Except.error`); a panic is `none`.
-/

namespace Cumulus.BridgeMessages

open Cumulus.Primitives Cumulus.Found

variable {R : Type} [DecidableEq R]

/-- The errors of the pallet that the modelled calls raise.
Source: `bridges/modules/messages/src/lib.rs` `Error` -/
inductive MessagesError where
  | notOperatingNormally
  | inactiveOutboundLane
  | messageDispatchInactive
  | messageRejectedByChainVerifier
  | messageRejectedByLaneVerifier
  | messageRejectedByPallet (e : VerificationError)
  | tooManyMessagesInTheProof
  | invalidMessagesProof
  | invalidMessagesDeliveryProof
  | invalidUnrewardedRelayersState
  | insufficientDispatchWeight
  | receivalConfirmation (e : ReceivalConfirmationError)
  /-- `BridgeModule(Halted)`: the pallet is halted. -/
  | bridgeModule
  deriving DecidableEq, Repr

/-- The pallet's constants on the lane's two sides. -/
structure MessagesConfig where
  /-- `MaxUnrewardedRelayerEntriesAtInboundLane`. -/
  maxUnrewardedRelayerEntries : MessageNonce
  /-- `MaxUnconfirmedMessagesAtInboundLane`. -/
  maxUnconfirmedMessages : MessageNonce
  /-- `MaximalOutboundPayloadSize`. -/
  maximalOutboundPayloadSize : Nat
  /-- `T::DbWeight`. -/
  dbWeight : RuntimeDbWeight

/-! ## The source side -/

/-- What `send_message` consults outside the lane, at the time of the call. -/
structure SendEnv where
  /-- The operating mode is `Normal`. -/
  normalOperatingMode : Bool
  /-- `T::ActiveOutboundLanes` holds the lane. -/
  laneActive : Bool
  /-- `T::TargetHeaderChain::verify_message` accepts the payload. -/
  chainVerifierAccepts : Bool
  /-- `T::LaneMessageVerifier::verify_message` accepts the payload. -/
  laneVerifierAccepts : Bool

/-- Send the encoded `payload` over the lane. Returns the new nonce.
Source: `bridges/modules/messages/src/lib.rs` `send_message` -/
def sendMessage (cfg : MessagesConfig) (env : SendEnv) (s : OutboundLaneStorage)
    (payload : MessagePayload) : Option (Except MessagesError (MessageNonce × OutboundLaneStorage)) :=
  if !env.normalOperatingMode then some (.error .notOperatingNormally)
  else if !env.laneActive then some (.error .inactiveOutboundLane)
  else if !env.chainVerifierAccepts then some (.error .messageRejectedByChainVerifier)
  else if !env.laneVerifierAccepts then some (.error .messageRejectedByLaneVerifier)
  else (OutboundLane.sendMessage cfg.maximalOutboundPayloadSize s payload).map
    fun r => r.mapError .messageRejectedByPallet

/-- What a confirmed delivery reports: the newly confirmed range and the messages of it that each
relayer delivered, as `DeliveryConfirmationPaymentsAdapter::pay_reward` counts them. -/
structure Confirmed (R : Type) where
  messages : DeliveredMessages
  relayersRewards : R → MessageNonce

/-- Take in the target's lane data from a delivery proof: the declared summary must be the one of
the proved data; then confirm the delivery and count the rewards of the newly confirmed range.
Source: `bridges/modules/messages/src/lib.rs` `Pallet::receive_messages_delivery_proof` -/
def receiveMessagesDeliveryProof (halted : Bool) (s : OutboundLaneStorage)
    (proof : Except VerificationError (InboundLaneData R))
    (relayersState : UnrewardedRelayersState) :
    Option (Except MessagesError (Option (Confirmed R) × OutboundLaneStorage)) :=
  if halted then some (.error .bridgeModule)
  else match proof with
    | .error _ => some (.error .invalidMessagesDeliveryProof)
    | .ok laneData =>
      if !relayersState.isValid laneData then some (.error .invalidUnrewardedRelayersState)
      else
        match OutboundLane.confirmDelivery s.data relayersState.totalMessages
            laneData.lastDeliveredNonce laneData.relayers with
        | .error e => some (.error (.receivalConfirmation e))
        | .ok (none, data) => some (.ok (none, { s with data }))
        | .ok (some confirmedMessages, data) =>
          (calcRelayersRewards laneData.relayers confirmedMessages.begin
              confirmedMessages.«end»).map fun rewards =>
            .ok (some ⟨confirmedMessages, rewards⟩, { s with data })

/-- Prune the lane in a block whose turn it is (`block_number % lanes.len()` picks it), if the
remaining weight covers a read and two writes. Returns the weight used.
Source: `bridges/modules/messages/src/lib.rs` `Hooks::on_idle` -/
def onIdle (dbWeight : RuntimeDbWeight) (s : OutboundLaneStorage) (remainingWeight : Weight) :
    Option (Weight × OutboundLaneStorage) :=
  if !remainingWeight.allGte (dbWeight.readsWrites 1 2) then some (Weight.zero, s)
  else do
    let usedWeight := dbWeight.reads 1
    let rest ← remainingWeight.sub usedWeight
    let pruned ← OutboundLane.pruneMessages dbWeight s rest
    let usedWeight ← usedWeight.add pruned.1
    pure (usedWeight, pruned.2)

/-! ## The target side -/

/-- `LaneId`: four bytes, compared as their big-endian number.
Source: `bridges/primitives/messages/src/lib.rs` `LaneId` -/
abbrev LaneId := Nat

/-- The messages of one lane in a proof.
Source: `bridges/primitives/messages/src/target_chain.rs` `ProvedLaneMessages` -/
structure ProvedLaneMessages where
  laneState : Option OutboundLaneData
  messages : List (MessageNonce × MessagePayload)

/-- The lanes of a proof, in lane order.
Source: `bridges/primitives/messages/src/target_chain.rs` `ProvedMessages` -/
abbrev ProvedMessages := SortedMap LaneId ProvedLaneMessages

/-- Read the messages at `nonces` from the source's storage; a missing one fails the proof. -/
def readMessages (s : OutboundLaneStorage) :
    List MessageNonce → Option (List (MessageNonce × MessagePayload))
  | [] => some []
  | nonce :: rest => do
    let payload ← s.messages nonce
    let messages ← readMessages s rest
    pure ((nonce, payload) :: messages)

/-- The messages proof of `lane` at a source state `s`: the messages at `nonces`, and the lane's
data if the relayer includes it. It declares exactly `messages_count` messages and is not empty;
it proves the one lane.
Source: `bridges/bin/runtime-common/src/messages.rs` `target::verify_messages_proof` -/
def verifyMessagesProof (s : OutboundLaneStorage) (lane : LaneId) (withLaneState : Bool)
    (nonces : List MessageNonce) (messagesCount : BitVec 32) :
    Except VerificationError ProvedMessages :=
  if BitVec.ofNat 64 nonces.length ≠ messagesCount.setWidth 64 then .error .messagesCountMismatch
  else
    match readMessages s nonces with
    | none => .error .messageStorage
    | some messages =>
      let laneState := if withLaneState then some s.data else none
      if laneState.isNone && messages.isEmpty then .error .emptyMessageProof
      else .ok (SortedMap.empty.insert lane ⟨laneState, messages⟩)

/-- What `receive_messages_proof` consults outside the lanes, at the time of the call. -/
structure TargetEnv where
  /-- `ensure_not_halted` fails. -/
  halted : Bool
  /-- `T::MessageDispatch::is_active()`. -/
  dispatchIsActive : Bool
  /-- `T::MessageDispatch::dispatch_weight(message)`. -/
  dispatchWeight : MessageNonce → MessagePayload → Weight
  /-- `T::MessageDispatch::dispatch(message).unspent_weight`. -/
  dispatch : MessageNonce → MessagePayload → Weight
  /-- `T::WeightInfo::receive_messages_proof_weight(proof, messages_count, dispatch_weight)`:
  the weight declared for the call. -/
  declaredWeight : Weight
  /-- `extra_proof_size_bytes()` of a lane with this many unrewarded relayer entries: the bytes
  its data takes below its largest encoding. -/
  extraProofSizeBytes : Nat → BitVec 64

/-- A lane as the loop over its proved messages leaves it, with the declared dispatch weight
left, the call's actual weight and the messages dispatched so far. -/
structure ReceiveState (R : Type) where
  data : InboundLaneData R
  dispatchWeightLeft : Weight
  actualWeight : Weight
  dispatched : List (MessageNonce × MessagePayload)

/-- The weight the dispatch of a message left unspent: all of its dispatch weight if the lane did
not dispatch it. -/
def ReceivalResult.unspentWeight (res : ReceivalResult) (messageDispatchWeight : Weight) : Weight :=
  match res with
  | .dispatched unspentWeight => unspentWeight
  | .invalidNonce | .tooManyUnrewardedRelayers | .tooManyUnconfirmedMessages =>
    messageDispatchWeight

/-- Receive a message whose dispatch weight is within what is left: the lane takes it in, and
what its dispatch left unspent (all of it, if the lane rejected the message) is given back to the
dispatch weight left and taken off the actual weight. -/
def receiveMessageStep (cfg : MessagesConfig) (env : TargetEnv) (relayerIdAtBridgedChain : R)
    (nonce : MessageNonce) (payload : MessagePayload) (st : ReceiveState R) :
    Option (ReceiveState R) := do
  let messageDispatchWeight := env.dispatchWeight nonce payload
  let out ← InboundLane.receiveMessage cfg.maxUnrewardedRelayerEntries
    cfg.maxUnconfirmedMessages env.dispatch st.data relayerIdAtBridgedChain nonce payload
  let unspentWeight := out.1.unspentWeight messageDispatchWeight
  let unspentWeight := unspentWeight.min messageDispatchWeight
  let spent ← messageDispatchWeight.sub unspentWeight
  let dispatchWeightLeft ← st.dispatchWeightLeft.sub spent
  let actualWeight := st.actualWeight.saturatingSub unspentWeight
  let dispatched := match out.1 with
    | .dispatched _ => st.dispatched ++ [(nonce, payload)]
    | _ => st.dispatched
  pure ⟨out.2, dispatchWeightLeft, actualWeight, dispatched⟩

/-- The loop of `receive_messages_proof` over the proved messages of a lane. -/
def receiveLoop (cfg : MessagesConfig) (env : TargetEnv) (relayerIdAtBridgedChain : R) :
    List (MessageNonce × MessagePayload) → ReceiveState R → Option (Except MessagesError (ReceiveState R))
  | [], st => some (.ok st)
  | (nonce, payload) :: rest, st =>
    -- messages are not dispatched out of order: too little declared weight fails the call
    if (env.dispatchWeight nonce payload).anyGt st.dispatchWeightLeft then
      some (.error .insufficientDispatchWeight)
    else (receiveMessageStep cfg env relayerIdAtBridgedChain nonce payload st).bind
      (receiveLoop cfg env relayerIdAtBridgedChain rest)

/-- Enter a lane of the proof: the actual proof size less the bytes the lane's data takes below
its largest encoding, then the lane state the proof carries, if any, taken in. -/
def enterLane (env : TargetEnv) (laneMessages : ProvedLaneMessages) (st : ReceiveState R) :
    Option (ReceiveState R) := do
  let actualWeight : Weight := ⟨st.actualWeight.refTime,
    saturatingSub st.actualWeight.proofSize (env.extraProofSizeBytes st.data.relayers.length)⟩
  let data ← match laneMessages.laneState with
    | some laneState => (InboundLane.receiveStateUpdate st.data laneState).map Prod.snd
    | none => pure st.data
  pure { st with data, actualWeight }

/-- The target's inbound lanes, with what the loop over the lanes of a proof carries from lane to
lane. -/
structure ReceivedLanes (R : Type) where
  lanes : LaneId → InboundLaneData R
  dispatchWeightLeft : Weight
  actualWeight : Weight
  dispatched : List (MessageNonce × MessagePayload)

namespace ReceivedLanes

/-- The lane `laneId`, with what the loop carries. -/
def laneState (st : ReceivedLanes R) (laneId : LaneId) : ReceiveState R :=
  ⟨st.lanes laneId, st.dispatchWeightLeft, st.actualWeight, st.dispatched⟩

/-- Store the lane `laneId` as the loop over its messages left it. -/
def leaveLane (st : ReceivedLanes R) (laneId : LaneId) (lane : ReceiveState R) : ReceivedLanes R :=
  ⟨Function.update st.lanes laneId lane.data, lane.dispatchWeightLeft, lane.actualWeight,
    lane.dispatched⟩

end ReceivedLanes

/-- The loop of `receive_messages_proof` over the lanes of the proof. -/
def receiveLanes (cfg : MessagesConfig) (env : TargetEnv) (relayerIdAtBridgedChain : R) :
    List (LaneId × ProvedLaneMessages) → ReceivedLanes R →
      Option (Except MessagesError (ReceivedLanes R))
  | [], st => some (.ok st)
  | (laneId, laneMessages) :: rest, st => do
    let laneSt ← enterLane env laneMessages (st.laneState laneId)
    match ← receiveLoop cfg env relayerIdAtBridgedChain laneMessages.messages laneSt with
    | .error e => pure (.error e)
    | .ok lane => receiveLanes cfg env relayerIdAtBridgedChain rest (st.leaveLane laneId lane)

/-- Receive a messages proof: lane by lane, the lane state it carries, then its messages. Returns
the lanes and the call's actual weight, starting from the declared weight.
Source: `bridges/modules/messages/src/lib.rs` `Pallet::receive_messages_proof` -/
def receiveMessagesProof (cfg : MessagesConfig) (env : TargetEnv) (lanes : LaneId → InboundLaneData R)
    (relayerIdAtBridgedChain : R) (proof : Except VerificationError ProvedMessages)
    (messagesCount : BitVec 32) (dispatchWeight : Weight) :
    Option (Except MessagesError (ReceivedLanes R)) :=
  if env.halted then some (.error .bridgeModule)
  -- reject transactions that are declaring too many messages
  else if cfg.maxUnconfirmedMessages < messagesCount.setWidth 64 then
    some (.error .tooManyMessagesInTheProof)
  else if !env.dispatchIsActive then some (.error .messageDispatchInactive)
  else match proof with
    | .error _ => some (.error .invalidMessagesProof)
    | .ok messages =>
      receiveLanes cfg env relayerIdAtBridgedChain messages.entries
        ⟨lanes, dispatchWeight, env.declaredWeight, []⟩

end Cumulus.BridgeMessages
