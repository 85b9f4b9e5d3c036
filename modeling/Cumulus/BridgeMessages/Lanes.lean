import Cumulus.Primitives.Weight
import Cumulus.Found.MachineInt
import Mathlib.Logic.Function.Basic

/-!
# bridge messages: the inbound and the outbound lane

A lane carries messages from a source chain to a target chain. The source's `OutboundLane`
numbers the messages it sends (`latest_generated_nonce`), learns from delivery proofs which of
them the target has received (`latest_received_nonce`) and prunes those. The target's
`InboundLane` accepts the next nonce only, records which relayer delivered which run of nonces
(`relayers`, the unrewarded relayer entries), and learns from message proofs up to which nonce
the source has confirmed the delivery (`last_confirmed_nonce`), dropping those entries.

* `receiveStateUpdate`, `receiveMessage` — `InboundLane::receive_state_update`,
  `InboundLane::receive_message`;
* `sendMessage`, `confirmDelivery`, `pruneMessages` — `OutboundLane::send_message`,
  `confirm_delivery`, `prune_messages`, with `ensureUnrewardedRelayersAreCorrect`;
* `calcRelayersRewards` — the count of confirmed messages per relayer.

`MessageNonce` is `u64`. A `VecDeque` is a list with its front at the head. The relayer type of
the bridged chain is a parameter `R`. A step that would overflow panics (`none`).
-/

namespace Cumulus.BridgeMessages

open Cumulus.Primitives Cumulus.Found

/-- `MessageNonce`: `u64`. -/
abbrev MessageNonce := BitVec 64

/-- `MessagePayload`: `Vec<u8>`. -/
abbrev MessagePayload := List UInt8

/-! ## Nonce ranges -/

/-- `(start..=end).saturating_len()`: `0` for an empty range.
Source: `bridges/primitives/runtime/src/lib.rs` `RangeInclusiveExt::saturating_len` -/
def saturatingLen (start «end» : MessageNonce) : MessageNonce :=
  match checkedSub «end» start with
  | none => 0
  | some len => saturatingAdd len 1

/-- A run of delivered nonces, both ends included.
Source: `bridges/primitives/messages/src/lib.rs` `DeliveredMessages` -/
structure DeliveredMessages where
  /-- Nonce of the first message that has been delivered (inclusive). -/
  begin : MessageNonce
  /-- Nonce of the last message that has been delivered (inclusive). -/
  «end» : MessageNonce
  deriving DecidableEq, Repr

namespace DeliveredMessages

/-- `DeliveredMessages::new(nonce)`: the single nonce. -/
def new (nonce : MessageNonce) : DeliveredMessages := ⟨nonce, nonce⟩

/-- `total_messages`. -/
def totalMessages (m : DeliveredMessages) : MessageNonce := saturatingLen m.begin m.«end»

/-- `note_dispatched_message`: `end += 1`. -/
def noteDispatchedMessage (m : DeliveredMessages) : Option DeliveredMessages := do
  let e ← checkedAdd m.«end» 1
  pure { m with «end» := e }

end DeliveredMessages

/-! ## Lane data -/

/-- A run of nonces delivered by one relayer, not yet confirmed to the source.
Source: `bridges/primitives/messages/src/lib.rs` `UnrewardedRelayer` -/
structure UnrewardedRelayer (R : Type) where
  relayer : R
  messages : DeliveredMessages
  deriving DecidableEq, Repr

/-- The target's record of a lane.
Source: `bridges/primitives/messages/src/lib.rs` `InboundLaneData` -/
structure InboundLaneData (R : Type) where
  /-- Relayers and the messages they have delivered, ordered by nonce. -/
  relayers : List (UnrewardedRelayer R)
  /-- Nonce of the last message whose delivery the source has confirmed, as far as the target
  knows. -/
  lastConfirmedNonce : MessageNonce
  deriving DecidableEq, Repr

namespace InboundLaneData

variable {R : Type}

/-- `InboundLaneData::default()`. -/
def default : InboundLaneData R := ⟨[], 0⟩

/-- `last_delivered_nonce`: the end of the last entry, else `last_confirmed_nonce`. -/
def lastDeliveredNonce (d : InboundLaneData R) : MessageNonce :=
  (d.relayers.getLast?.map (·.messages.«end»)).getD d.lastConfirmedNonce

/-- `total_unrewarded_messages`: from the first entry's begin to the last entry's end. -/
def totalUnrewardedMessages (d : InboundLaneData R) : MessageNonce :=
  match d.relayers.head?, d.relayers.getLast? with
  | some front, some back => saturatingLen front.messages.begin back.messages.«end»
  | _, _ => 0

end InboundLaneData

/-- The summary of the unrewarded relayers that a delivery proof's submitter declares.
Source: `bridges/primitives/messages/src/lib.rs` `UnrewardedRelayersState` -/
structure UnrewardedRelayersState where
  unrewardedRelayerEntries : MessageNonce
  messagesInOldestEntry : MessageNonce
  totalMessages : MessageNonce
  lastDeliveredNonce : MessageNonce
  deriving DecidableEq, Repr

/-- `From<&InboundLaneData>` for `UnrewardedRelayersState`. -/
def UnrewardedRelayersState.ofLaneData {R : Type} (lane : InboundLaneData R) :
    UnrewardedRelayersState where
  unrewardedRelayerEntries := BitVec.ofNat 64 lane.relayers.length
  messagesInOldestEntry := (lane.relayers.head?.map (·.messages.totalMessages)).getD 0
  totalMessages := lane.totalUnrewardedMessages
  lastDeliveredNonce := lane.lastDeliveredNonce

/-- `is_valid`: the declared summary is the one of the proved lane data. -/
def UnrewardedRelayersState.isValid {R : Type} (s : UnrewardedRelayersState)
    (lane : InboundLaneData R) : Bool :=
  s = UnrewardedRelayersState.ofLaneData lane

/-- The source's record of a lane.
Source: `bridges/primitives/messages/src/lib.rs` `OutboundLaneData` -/
structure OutboundLaneData where
  /-- Nonce of the oldest message not yet pruned. -/
  oldestUnprunedNonce : MessageNonce
  /-- Nonce of the latest message received by the bridged chain. -/
  latestReceivedNonce : MessageNonce
  /-- Nonce of the latest message generated by us. -/
  latestGeneratedNonce : MessageNonce
  deriving DecidableEq, Repr

/-- `OutboundLaneData::default()`: pruning starts at nonce 1. -/
def OutboundLaneData.default : OutboundLaneData := ⟨1, 0, 0⟩

/-! ## The inbound lane -/

variable {R : Type} [DecidableEq R]

/-- What the inbound lane makes of one message.
Source: `bridges/primitives/messages/src/lib.rs` `ReceivalResult` -/
inductive ReceivalResult where
  /-- Dispatched, with the weight the dispatch left unspent. -/
  | dispatched (unspentWeight : Weight)
  | invalidNonce
  | tooManyUnrewardedRelayers
  | tooManyUnconfirmedMessages
  deriving DecidableEq, Repr

namespace InboundLane

/-- Take in the source's lane data from a message proof: confirm up to its
`latest_received_nonce`, drop the entries that are wholly confirmed and cut the next one. A
state that claims more than was delivered, or nothing new, is ignored (`none`, data kept).
Source: `bridges/modules/messages/src/inbound_lane.rs` `InboundLane::receive_state_update` -/
def receiveStateUpdate (data : InboundLaneData R) (outboundLaneData : OutboundLaneData) :
    Option (Option MessageNonce × InboundLaneData R) :=
  let lastDeliveredNonce := data.lastDeliveredNonce
  if lastDeliveredNonce < outboundLaneData.latestReceivedNonce then some (none, data)
  else if outboundLaneData.latestReceivedNonce ≤ data.lastConfirmedNonce then some (none, data)
  else do
    let newConfirmedNonce := outboundLaneData.latestReceivedNonce
    -- first remove all the entries whose end is confirmed
    let relayers := data.relayers.dropWhile fun entry => entry.messages.«end» ≤ newConfirmedNonce
    -- then move the begin of the next entry past the confirmed nonce
    let relayers ← match relayers with
      | entry :: rest =>
        if entry.messages.begin ≤ newConfirmedNonce then do
          let begin ← checkedAdd newConfirmedNonce 1
          pure ({ entry with messages := { entry.messages with begin } } :: rest)
        else pure (entry :: rest)
      | [] => pure []
    pure (some newConfirmedNonce, { relayers, lastConfirmedNonce := newConfirmedNonce })

/-- Receive the message `nonce`: only the next nonce, and only while the unrewarded relayer
entries and the unconfirmed messages stay within their bounds; then dispatch it and record it
on the last entry if the same relayer delivered that one, else on a new entry.
`dispatch` is `MessageDispatch::dispatch`, returning the weight it left unspent.
Source: `bridges/modules/messages/src/inbound_lane.rs` `InboundLane::receive_message` -/
def receiveMessage (maxUnrewardedRelayerEntries maxUnconfirmedMessages : MessageNonce)
    (dispatch : MessageNonce → MessagePayload → Weight) (data : InboundLaneData R)
    (relayerAtBridgedChain : R) (nonce : MessageNonce) (payload : MessagePayload) :
    Option (ReceivalResult × InboundLaneData R) :=
  if some nonce ≠ checkedAdd data.lastDeliveredNonce 1 then some (.invalidNonce, data)
  else if maxUnrewardedRelayerEntries ≤ BitVec.ofNat 64 data.relayers.length then
    some (.tooManyUnrewardedRelayers, data)
  else if maxUnconfirmedMessages < saturatingSub nonce data.lastConfirmedNonce then
    some (.tooManyUnconfirmedMessages, data)
  else do
    let unspentWeight := dispatch nonce payload
    let relayers ← match data.relayers.getLast? with
      | some entry =>
        if entry.relayer = relayerAtBridgedChain then do
          let messages ← entry.messages.noteDispatchedMessage
          pure (data.relayers.dropLast ++ [{ entry with messages }])
        else pure (data.relayers ++ [⟨relayerAtBridgedChain, .new nonce⟩])
      | none => pure (data.relayers ++ [⟨relayerAtBridgedChain, .new nonce⟩])
    pure (.dispatched unspentWeight, { data with relayers })

end InboundLane

/-! ## The outbound lane -/

/-- The source's storage of the lane: `OutboundLanes[lane]` and `OutboundMessages[(lane, _)]`. -/
structure OutboundLaneStorage where
  data : OutboundLaneData
  messages : MessageNonce → Option MessagePayload

/-- The source's storage at genesis. -/
def OutboundLaneStorage.empty : OutboundLaneStorage := ⟨OutboundLaneData.default, fun _ => none⟩

/-- The errors of message verification that the modelled code raises.
Source: `bridges/primitives/messages/src/lib.rs` `VerificationError` -/
inductive VerificationError where
  | emptyMessageProof
  | messagesCountMismatch
  | messageStorage
  | messageTooLarge
  | other
  deriving DecidableEq, Repr

/-- Source: `bridges/modules/messages/src/outbound_lane.rs` `ReceivalConfirmationError` -/
inductive ReceivalConfirmationError where
  | failedToConfirmFutureMessages
  | emptyUnrewardedRelayerEntry
  | nonConsecutiveUnrewardedRelayerEntries
  | tryingToConfirmMoreMessagesThanExpected
  deriving DecidableEq, Repr

/-- The loop of `ensure_unrewarded_relayers_are_correct`, expecting the next entry to begin at
`expectedEntryBegin`. -/
def ensureRelayersLoop (latestReceivedNonce : MessageNonce) :
    Option MessageNonce → List (UnrewardedRelayer R) → Except ReceivalConfirmationError Unit
  | _, [] => .ok ()
  | expectedEntryBegin, entry :: rest =>
    -- every entry holds at least one message
    if entry.messages.«end» < entry.messages.begin then .error .emptyUnrewardedRelayerEntry
    -- and begins where the one before it ended
    else if expectedEntryBegin ≠ some entry.messages.begin then
      .error .nonConsecutiveUnrewardedRelayerEntries
    else if latestReceivedNonce < entry.messages.«end» then .error .failedToConfirmFutureMessages
    else ensureRelayersLoop latestReceivedNonce (checkedAdd entry.messages.«end» 1) rest

/-- The entries of a delivery proof are non-empty, consecutive and end by
`latest_received_nonce`.
Source: `bridges/modules/messages/src/outbound_lane.rs` `ensure_unrewarded_relayers_are_correct` -/
def ensureUnrewardedRelayersAreCorrect (latestReceivedNonce : MessageNonce)
    (relayers : List (UnrewardedRelayer R)) : Except ReceivalConfirmationError Unit :=
  ensureRelayersLoop latestReceivedNonce (relayers.head?.map (·.messages.begin)) relayers

/-- The weights of database access.
Source: `sp_weights::RuntimeDbWeight` -/
structure RuntimeDbWeight where
  read : BitVec 64
  write : BitVec 64
  deriving DecidableEq, Repr

namespace RuntimeDbWeight

/-- `reads(r)`. -/
def reads (db : RuntimeDbWeight) (r : BitVec 64) : Weight :=
  Weight.fromParts (saturatingMul db.read r) 0

/-- `writes(w)`. -/
def writes (db : RuntimeDbWeight) (w : BitVec 64) : Weight :=
  Weight.fromParts (saturatingMul db.write w) 0

/-- `reads_writes(r, w)`. -/
def readsWrites (db : RuntimeDbWeight) (r w : BitVec 64) : Weight :=
  Weight.fromParts (saturatingAdd (saturatingMul db.read r) (saturatingMul db.write w)) 0

end RuntimeDbWeight

/-- What the pruning loop leaves: the storage, the weight spent and the weight remaining. -/
structure PruneState where
  storage : OutboundLaneStorage
  spentWeight : Weight
  remainingWeight : Weight

namespace OutboundLane

/-- Store `payload` under the next nonce; `MessageTooLarge` if it exceeds the bounded vector of
`MaximalOutboundPayloadSize` bytes.
Source: `bridges/modules/messages/src/outbound_lane.rs` `OutboundLane::send_message` -/
def sendMessage (maximalOutboundPayloadSize : Nat) (s : OutboundLaneStorage)
    (messagePayload : MessagePayload) :
    Option (Except VerificationError (MessageNonce × OutboundLaneStorage)) := do
  let nonce ← checkedAdd s.data.latestGeneratedNonce 1
  -- `save_message`
  if maximalOutboundPayloadSize < messagePayload.length then pure (.error .messageTooLarge)
  else
    pure (.ok (nonce,
      ⟨{ s.data with latestGeneratedNonce := nonce },
        Function.update s.messages nonce (some messagePayload)⟩))

/-- Confirm the delivery up to `latest_delivered_nonce`: the range after
`latest_received_nonce`, if it is non-empty, generated, and no longer than declared.
Source: `bridges/modules/messages/src/outbound_lane.rs` `OutboundLane::confirm_delivery` -/
def confirmDelivery (data : OutboundLaneData)
    (maxAllowedMessages latestDeliveredNonce : MessageNonce) (relayers : List (UnrewardedRelayer R)) :
    Except ReceivalConfirmationError (Option DeliveredMessages × OutboundLaneData) :=
  let confirmedMessages : DeliveredMessages :=
    ⟨saturatingAdd data.latestReceivedNonce 1, latestDeliveredNonce⟩
  if confirmedMessages.totalMessages = 0 then .ok (none, data)
  else if data.latestGeneratedNonce < confirmedMessages.«end» then
    .error .failedToConfirmFutureMessages
  else if maxAllowedMessages < confirmedMessages.totalMessages then
    .error .tryingToConfirmMoreMessagesThanExpected
  else
    match ensureUnrewardedRelayersAreCorrect confirmedMessages.«end» relayers with
    | .error e => .error e
    | .ok () => .ok (some confirmedMessages,
        { data with latestReceivedNonce := confirmedMessages.«end» })

/-- The `while` loop of `prune_messages`: remove the oldest unpruned message while two writes
fit the remaining weight and it has been received. -/
def pruneLoop (writeWeight twoWritesWeight : Weight) : Nat → PruneState → Option PruneState
  -- unreachable with the fuel of `pruneMessages`: each pass advances `oldest_unpruned_nonce`
  | 0, _ => none
  | fuel + 1, st =>
    let data := st.storage.data
    if st.remainingWeight.allGte twoWritesWeight &&
        decide (data.oldestUnprunedNonce ≤ data.latestReceivedNonce) then do
      let messages := Function.update st.storage.messages data.oldestUnprunedNonce none
      let spentWeight ← st.spentWeight.add writeWeight
      let remainingWeight ← st.remainingWeight.sub writeWeight
      let oldestUnprunedNonce ← checkedAdd data.oldestUnprunedNonce 1
      pruneLoop writeWeight twoWritesWeight fuel
        ⟨⟨{ data with oldestUnprunedNonce }, messages⟩, spentWeight, remainingWeight⟩
    else some st

/-- Prune received messages as far as `remaining_weight` allows; the lane data is written only
if some weight was spent. Returns the weight spent and the storage.
Source: `bridges/modules/messages/src/outbound_lane.rs` `OutboundLane::prune_messages` -/
def pruneMessages (dbWeight : RuntimeDbWeight) (s : OutboundLaneStorage)
    (remainingWeight : Weight) : Option (Weight × OutboundLaneStorage) := do
  let writeWeight := dbWeight.writes 1
  let twoWritesWeight ← writeWeight.add writeWeight
  let out ← pruneLoop writeWeight twoWritesWeight
    ((s.data.latestReceivedNonce - s.data.oldestUnprunedNonce).toNat + 2)
    ⟨s, Weight.zero, remainingWeight⟩
  if out.spentWeight = Weight.zero then
    -- messages were removed, but the lane data is not written
    pure (out.spentWeight, ⟨s.data, out.storage.messages⟩)
  else do
    let spentWeight ← out.spentWeight.add writeWeight
    pure (spentWeight, out.storage)

end OutboundLane

/-! ## Rewards -/

/-- The loop of `calc_relayers_rewards`: add to each entry's relayer the messages of the entry
inside `receivedStart..=receivedEnd`. -/
def rewardsLoop (receivedStart receivedEnd : MessageNonce) :
    List (UnrewardedRelayer R) → (R → MessageNonce) → Option (R → MessageNonce)
  | [], relayersRewards => some relayersRewards
  | entry :: rest, relayersRewards =>
    let nonceBegin :=
      if entry.messages.begin < receivedStart then receivedStart else entry.messages.begin
    let nonceEnd := if receivedEnd < entry.messages.«end» then receivedEnd else entry.messages.«end»
    if nonceBegin ≤ nonceEnd then do
      let count ← checkedAdd (nonceEnd - nonceBegin) 1
      let total ← checkedAdd (relayersRewards entry.relayer) count
      rewardsLoop receivedStart receivedEnd rest (Function.update relayersRewards entry.relayer total)
    else rewardsLoop receivedStart receivedEnd rest relayersRewards

/-- Count, per relayer, the messages of `received_range` that its entries delivered (a relayer
without messages counts `0`).
Source: `bridges/primitives/messages/src/lib.rs` `calc_relayers_rewards` -/
def calcRelayersRewards (messagesRelayers : List (UnrewardedRelayer R))
    (receivedStart receivedEnd : MessageNonce) : Option (R → MessageNonce) :=
  rewardsLoop receivedStart receivedEnd messagesRelayers fun _ => 0

end Cumulus.BridgeMessages
