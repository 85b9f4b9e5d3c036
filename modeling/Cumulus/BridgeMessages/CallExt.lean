import Cumulus.Primitives.Core
import Cumulus.BridgeMessages.Protocol

/-!
# bridge messages: the checks of the transaction extensions

`messages_call_ext.rs` gives the runtime's transaction extensions two checks of the calls that
carry messages proofs. Before a call is included, `check_obsolete_call` rejects it as `Stale` when
it brings nothing new: a messages proof whose nonces do not continue the inbound lane's
delivered ones (or an empty one while the lane can still take messages), a delivery proof that
confirms nothing. After the call ran, `was_successful` tells whether it did what it was for; the
relayer refund extension rewards a relayer on that answer.

* `FromBridgedChainMessagesProof`, `MessagesCall` — the calls as the relayer submits them, with
  the proofs' nonce ranges, and the bridge call that each one is;
* `callInfo`, `checkObsoleteCall`, `wasSuccessful` — what the extension reads of a call, and the
  two checks;
* `wasSuccessful_receiveMessagesProof` — for a messages proof that the check admits, once the
  bridge has run it, `was_successful` holds exactly when the call dispatched every message it
  bundled, in nonce order;
* `wasSuccessful_receiveMessagesDeliveryProof` — for an admitted delivery proof, `was_successful`
  holds exactly when the call succeeded, and then the target had delivered every message it
  confirmed.

Nonces are `u64`; `latest_received_nonce + 1` in `receive_messages_delivery_proof_info` is computed
as the release build does (it wraps), while the pallet's own arithmetic follows the debug build's
overflow checks, with a panic as `none` (see `Cumulus.Found.MachineInt`).
-/

namespace Cumulus.BridgeMessages

open Cumulus.Primitives Cumulus.Found

variable {R : Type}

/-! ## Nonce ranges -/

/-- An inclusive range of nonces.
Source: `RangeInclusive<MessageNonce>` -/
structure NonceRange where
  start : MessageNonce
  «end» : MessageNonce
  deriving DecidableEq, Repr

namespace NonceRange

/-- `RangeInclusive::is_empty`. -/
def isEmpty (r : NonceRange) : Bool := r.«end» < r.start

/-- A range whose start is at most its end is not empty. -/
theorem isEmpty_mk_of_le {start «end» : MessageNonce} (h : start ≤ «end») :
    isEmpty ⟨start, «end»⟩ = false := by
  simpa [isEmpty] using h

/-- The nonces of the range, in order, as `for nonce in start..=end` visits them. -/
def toList (r : NonceRange) : List MessageNonce :=
  (List.range' r.start.toNat (r.«end».toNat + 1 - r.start.toNat)).map (BitVec.ofNat 64)

end NonceRange

/-! ## The calls -/

/-- A messages proof as a relayer submits it: of the `atState`-th source state (the bridged
header it is checked against), holding the lane's data if `withLaneState`, and the messages
`nonces_start..=nonces_end` of `lane`.
Source: `bridges/bin/runtime-common/src/messages.rs` `FromBridgedChainMessagesProof` -/
structure FromBridgedChainMessagesProof where
  atState : Nat
  withLaneState : Bool
  lane : LaneId
  noncesStart : MessageNonce
  noncesEnd : MessageNonce

/-- A delivery proof as a relayer submits it: of the `atState`-th target state's `lane`.
Source: `bridges/bin/runtime-common/src/messages.rs` `FromBridgedChainMessagesDeliveryProof` -/
structure FromBridgedChainMessagesDeliveryProof where
  atState : Nat
  lane : LaneId

/-- The calls of the messages pallet that carry proofs, with their arguments.
Source: `pallet_bridge_messages::Call::{receive_messages_proof, receive_messages_delivery_proof}` -/
inductive MessagesCall (R : Type) where
  | receiveMessagesProof (env : TargetEnv) (relayerIdAtBridgedChain : R)
      (proof : FromBridgedChainMessagesProof) (messagesCount : BitVec 32) (dispatchWeight : Weight)
  | receiveMessagesDeliveryProof (halted : Bool) (proof : FromBridgedChainMessagesDeliveryProof)
      (relayersState : UnrewardedRelayersState)

/-- The call of the bridge that a messages call is: a messages proof reads the messages of its
range (`verify_messages_proof` reads `nonces_start..=nonces_end`). -/
def MessagesCall.toBridgeCall : MessagesCall R → BridgeCall R
  | .receiveMessagesProof env relayer proof messagesCount dispatchWeight =>
    .receiveMessagesProof env relayer proof.atState proof.withLaneState
      (NonceRange.toList ⟨proof.noncesStart, proof.noncesEnd⟩) messagesCount dispatchWeight
  | .receiveMessagesDeliveryProof halted proof relayersState =>
    .receiveMessagesDeliveryProof halted proof.atState relayersState

/-! ## What the extension reads of a call -/

/-- Generic info about a messages delivery/confirmation proof.
Source: `bridges/bin/runtime-common/src/messages_call_ext.rs` `BaseMessagesProofInfo` -/
structure BaseMessagesProofInfo where
  /-- Message lane, used by the call. -/
  laneId : LaneId
  /-- Nonces of messages, included in the call: bundled ones for a delivery, to be confirmed ones
  for a confirmation. -/
  bundledRange : NonceRange
  /-- Nonce of the best message, stored by this chain before the call is dispatched. -/
  bestStoredNonce : MessageNonce
  deriving DecidableEq, Repr

/-- Whether `bundled_range` continues the `0..=best_stored_nonce` range.
Source: `BaseMessagesProofInfo::appends_to_stored_nonce` -/
def BaseMessagesProofInfo.appendsToStoredNonce (info : BaseMessagesProofInfo) : Bool :=
  some info.bundledRange.start = checkedAdd info.bestStoredNonce 1

/-- Occupation state of the unrewarded relayers vector.
Source: `UnrewardedRelayerOccupation` -/
structure UnrewardedRelayerOccupation where
  /-- The number of remaining unoccupied entries for new relayers. -/
  freeRelayerSlots : MessageNonce
  /-- The number of messages that we are ready to accept. -/
  freeMessageSlots : MessageNonce
  deriving DecidableEq, Repr

/-- Info about a `receive_messages_proof` call which tries to update a single lane.
Source: `ReceiveMessagesProofInfo` -/
structure ReceiveMessagesProofInfo where
  base : BaseMessagesProofInfo
  unrewardedRelayers : UnrewardedRelayerOccupation
  deriving DecidableEq, Repr

/-- Whether a messages proof is obsolete: with an inactive dispatcher, always; with no bundled
messages, unless the lane is blocked by too many unrewarded relayers or unconfirmed messages (its
lane state may unblock it); otherwise, unless its messages continue the delivered ones.
Source: `ReceiveMessagesProofInfo::is_obsolete` -/
def ReceiveMessagesProofInfo.isObsolete (info : ReceiveMessagesProofInfo)
    (isDispatcherActive : Bool) : Bool :=
  if !isDispatcherActive then true
  else if info.base.bundledRange.isEmpty then
    let emptyTransactionsAllowed :=
      info.unrewardedRelayers.freeRelayerSlots = 0 || info.unrewardedRelayers.freeMessageSlots = 0
    !emptyTransactionsAllowed
  else !info.base.appendsToStoredNonce

/-- Info about a `receive_messages_delivery_proof` call which tries to update a single lane.
Source: `ReceiveMessagesDeliveryProofInfo` -/
structure ReceiveMessagesDeliveryProofInfo where
  base : BaseMessagesProofInfo
  deriving DecidableEq, Repr

/-- Whether a delivery proof confirms nothing new.
Source: `ReceiveMessagesDeliveryProofInfo::is_obsolete` -/
def ReceiveMessagesDeliveryProofInfo.isObsolete (info : ReceiveMessagesDeliveryProofInfo) : Bool :=
  info.base.bundledRange.isEmpty || !info.base.appendsToStoredNonce

/-- Info about a messages call which tries to update a single lane.
Source: `messages_call_ext::CallInfo` -/
inductive CallInfo where
  | receiveMessagesProof (info : ReceiveMessagesProofInfo)
  | receiveMessagesDeliveryProof (info : ReceiveMessagesDeliveryProofInfo)
  deriving DecidableEq, Repr

/-- The range of messages bundled with the call.
Source: `CallInfo::bundled_messages` -/
def CallInfo.bundledMessages : CallInfo → NonceRange
  | .receiveMessagesProof info => info.base.bundledRange
  | .receiveMessagesDeliveryProof info => info.base.bundledRange

/-- The lane of the call. -/
def CallInfo.laneId : CallInfo → LaneId
  | .receiveMessagesProof info => info.base.laneId
  | .receiveMessagesDeliveryProof info => info.base.laneId

/-- The occupation of an inbound lane's unrewarded relayers vector: the entries and the
unconfirmed messages it can still take.
Source: `unrewarded_relayers_occupation` -/
def unrewardedRelayersOccupation (cfg : MessagesConfig) (inboundLaneData : InboundLaneData R) :
    UnrewardedRelayerOccupation where
  freeRelayerSlots :=
    saturatingSub cfg.maxUnrewardedRelayerEntries (BitVec.ofNat 64 inboundLaneData.relayers.length)
  freeMessageSlots :=
    let unconfirmedMessages :=
      saturatingSub inboundLaneData.lastDeliveredNonce inboundLaneData.lastConfirmedNonce
    saturatingSub cfg.maxUnconfirmedMessages unconfirmedMessages

variable (cfg : MessagesConfig) (inboundLanes : LaneId → InboundLaneData R)
  (outboundLanes : LaneId → OutboundLaneData)

/-- The info of a call, read from the lanes before it is dispatched: a messages proof must bring
only new messages; a delivery proof may confirm anything after the confirmed nonce, up to the
delivered nonce it declares. `latest_received_nonce + 1` wraps in the runtime's release build.
Source: `MessagesCallSubType::call_info`, `receive_messages_proof_info`,
`receive_messages_delivery_proof_info` -/
def MessagesCall.callInfo : MessagesCall R → CallInfo
  | .receiveMessagesProof _ _ proof _ _ =>
    let inboundLaneData := inboundLanes proof.lane
    .receiveMessagesProof
      ⟨⟨proof.lane, ⟨proof.noncesStart, proof.noncesEnd⟩, inboundLaneData.lastDeliveredNonce⟩,
        unrewardedRelayersOccupation cfg inboundLaneData⟩
  | .receiveMessagesDeliveryProof _ proof relayersState =>
    let outboundLaneData := outboundLanes proof.lane
    .receiveMessagesDeliveryProof
      ⟨⟨proof.lane, ⟨outboundLaneData.latestReceivedNonce + 1, relayersState.lastDeliveredNonce⟩,
        outboundLaneData.latestReceivedNonce⟩⟩

/-- The info of a call, if the call is for `laneId`.
Source: `MessagesCallSubType::call_info_for` -/
def MessagesCall.callInfoFor (call : MessagesCall R) (laneId : LaneId) : Option CallInfo :=
  (some (call.callInfo cfg inboundLanes outboundLanes)).filter fun info => info.laneId = laneId

/-- Reject a call that brings nothing better than what the lanes store.
Source: `MessagesCallSubType::check_obsolete_call` -/
def MessagesCall.checkObsoleteCall (isDispatcherActive : Bool) (call : MessagesCall R) :
    Except InvalidTransaction Unit :=
  match call.callInfo cfg inboundLanes outboundLanes with
  | .receiveMessagesProof proofInfo =>
    if proofInfo.isObsolete isDispatcherActive then .error .stale else .ok ()
  | .receiveMessagesDeliveryProof proofInfo =>
    if proofInfo.isObsolete then .error .stale else .ok ()

/-- Whether the call did what it was for, read from the lanes after it: a messages proof with
messages delivered all of them; one without freed message slots; a delivery proof confirmed all
it bundled.
Source: `CallHelper::was_successful` -/
def wasSuccessful : CallInfo → Bool
  | .receiveMessagesProof info =>
    let inboundLaneData := inboundLanes info.base.laneId
    if info.base.bundledRange.isEmpty then
      let postOccupation := unrewardedRelayersOccupation cfg inboundLaneData
      info.unrewardedRelayers.freeMessageSlots < postOccupation.freeMessageSlots
    else inboundLaneData.lastDeliveredNonce = info.base.bundledRange.«end»
  | .receiveMessagesDeliveryProof info =>
    let outboundLaneData := outboundLanes info.base.laneId
    outboundLaneData.latestReceivedNonce = info.base.bundledRange.«end»

/-! ## What a call leaves on the bridge -/

section agree

variable [DecidableEq R] {cfg : MessagesConfig} {b b' : Bridge R}

omit [DecidableEq R] in
/-- The nonces of the messages numbered after the first `a`, up to `c`: `a + 1, …, c`. -/
theorem map_fst_drop_numbered_take {l : List MessagePayload} {a c : Nat} (hc : c ≤ l.length) :
    ((numbered (l.take c)).drop a).map Prod.fst =
      (List.range' (a + 1) (c - a)).map (BitVec.ofNat 64) := by
  rw [List.map_drop, numbered_map_fst, List.length_take_of_le hc, ← List.map_drop,
    List.range_eq_range', List.drop_range']
  -- both sides number from `a + 1`
  rw [Nat.zero_add, Nat.mul_one, Nat.add_comm a 1, ← List.map_add_range', List.map_map]
  congr 1
  funext i
  simp only [Function.comp_apply, Nat.add_comm 1 i]

omit [DecidableEq R] in
/-- The messages numbered up to `c` are `c` of them. -/
theorem length_numbered_take {l : List MessagePayload} {c : Nat} (hc : c ≤ l.length) :
    (numbered (l.take c)).length = c := by
  rw [numbered, List.length_mapIdx, List.length_take_of_le hc]

/-- A messages proof sends nothing, and adds to the messages the target dispatched. -/
theorem bridgeStep_receiveMessagesProof {env : TargetEnv} {relayer : R} {atState : Nat}
    {withLaneState : Bool} {nonces : List MessageNonce} {messagesCount : BitVec 32}
    {dispatchWeight : Weight}
    (h : bridgeStep cfg b (.receiveMessagesProof env relayer atState withLaneState nonces
      messagesCount dispatchWeight) = some b') :
    b'.sent = b.sent ∧ ∃ delivered, b'.dispatched = b.dispatched ++ delivered := by
  obtain ⟨result, -, rfl⟩ := Option.map_eq_some_iff.mp h
  cases result with
  | error e => exact ⟨rfl, [], (List.append_nil _).symm⟩
  | ok st => exact ⟨rfl, st.dispatched, rfl⟩

omit [DecidableEq R] in
/-- A messages proof with messages that the check admits starts right after the lane's last
delivered nonce. -/
theorem noncesStart_of_admitted {env : TargetEnv} {relayer : R}
    {proof : FromBridgedChainMessagesProof} {messagesCount : BitVec 32} {dispatchWeight : Weight}
    {inboundLanes : LaneId → InboundLaneData R} {outboundLanes : LaneId → OutboundLaneData}
    {isDispatcherActive : Bool} (hbundled : proof.noncesStart ≤ proof.noncesEnd)
    (hadmitted : (MessagesCall.receiveMessagesProof env relayer proof messagesCount
      dispatchWeight).checkObsoleteCall cfg inboundLanes outboundLanes isDispatcherActive =
        .ok ()) :
    proof.noncesStart.toNat = (inboundLanes proof.lane).lastDeliveredNonce.toNat + 1 := by
  have hnonempty := NonceRange.isEmpty_mk_of_le hbundled
  -- an obsolete proof would have been rejected
  have happends : BaseMessagesProofInfo.appendsToStoredNonce ⟨proof.lane,
      ⟨proof.noncesStart, proof.noncesEnd⟩, (inboundLanes proof.lane).lastDeliveredNonce⟩ = true := by
    by_contra hnot
    rw [Bool.not_eq_true] at hnot
    have hobsolete : ReceiveMessagesProofInfo.isObsolete ⟨⟨proof.lane,
        ⟨proof.noncesStart, proof.noncesEnd⟩, (inboundLanes proof.lane).lastDeliveredNonce⟩,
        unrewardedRelayersOccupation cfg (inboundLanes proof.lane)⟩ isDispatcherActive = true := by
      simp [ReceiveMessagesProofInfo.isObsolete, hnonempty, hnot]
    simp [MessagesCall.checkObsoleteCall, MessagesCall.callInfo, hobsolete] at hadmitted
  simp only [BaseMessagesProofInfo.appendsToStoredNonce, decide_eq_true_eq] at happends
  exact ((checkedAdd_one_eq_some (by decide)).mp happends.symm).2

omit [DecidableEq R] in
/-- After a messages proof with messages, `was_successful` reads whether the lane has delivered up
to the end of the range. -/
theorem wasSuccessful_receive_iff {inboundLanes : LaneId → InboundLaneData R}
    {outboundLanes : LaneId → OutboundLaneData} {info : ReceiveMessagesProofInfo}
    (hnonempty : info.base.bundledRange.isEmpty = false) :
    wasSuccessful cfg inboundLanes outboundLanes (.receiveMessagesProof info) = true ↔
      (inboundLanes info.base.laneId).lastDeliveredNonce = info.base.bundledRange.«end» := by
  simp only [wasSuccessful, hnonempty, Bool.false_eq_true, if_false, decide_eq_true_eq]

/-- **The check after a messages proof agrees with what the bridge did.** For a messages proof
with messages that the check before inclusion admits, once the bridge has run it (a failed call
rolled back), `was_successful` holds exactly when the call dispatched, after the messages the
target had dispatched, every message of its range, in nonce order. -/
theorem wasSuccessful_receiveMessagesProof (hb : b.Safe) {env : TargetEnv} {relayer : R}
    {proof : FromBridgedChainMessagesProof} {messagesCount : BitVec 32} {dispatchWeight : Weight}
    {outboundLanes outboundLanes' : LaneId → OutboundLaneData} {isDispatcherActive : Bool}
    (hbundled : proof.noncesStart ≤ proof.noncesEnd)
    (hadmitted : (MessagesCall.receiveMessagesProof env relayer proof messagesCount
      dispatchWeight).checkObsoleteCall cfg (fun _ => b.target) outboundLanes isDispatcherActive =
        .ok ())
    (hstep : bridgeStep cfg b (MessagesCall.receiveMessagesProof env relayer proof messagesCount
      dispatchWeight).toBridgeCall = some b') :
    wasSuccessful cfg (fun _ => b'.target) outboundLanes'
        ((MessagesCall.receiveMessagesProof env relayer proof messagesCount dispatchWeight).callInfo
          cfg (fun _ => b.target) outboundLanes) = true ↔
      ∃ delivered, b'.dispatched = b.dispatched ++ delivered ∧
        delivered.map Prod.fst = NonceRange.toList ⟨proof.noncesStart, proof.noncesEnd⟩ := by
  have hstart := noncesStart_of_admitted hbundled hadmitted
  have hnonempty := NonceRange.isEmpty_mk_of_le hbundled
  have hend := BitVec.le_def.mp hbundled
  obtain ⟨hsent, new, hnew⟩ := bridgeStep_receiveMessagesProof hstep
  have hb' := bridgeStep_safe cfg hstep hb
  -- the target dispatched the first `last_delivered_nonce` messages sent, before and after
  have hle := BitVec.le_def.mp hb.delivered_le_generated
  have hle' := BitVec.le_def.mp hb'.delivered_le_generated
  rw [hb.generated] at hle
  rw [hb'.generated, hsent] at hle'
  have hdispatched' : b'.dispatched = numbered (b.sent.take b'.target.lastDeliveredNonce.toNat) := by
    rw [hb'.dispatched, hsent]
  rw [hb.dispatched] at hnew
  -- so the call dispatched the messages numbered after the old nonce, up to the new one
  have hnew_eq : new = (numbered (b.sent.take b'.target.lastDeliveredNonce.toNat)).drop
      b.target.lastDeliveredNonce.toNat := by
    rw [← hdispatched', hnew]
    exact (List.drop_left' (length_numbered_take hle)).symm
  have hlength : b'.target.lastDeliveredNonce.toNat =
      b.target.lastDeliveredNonce.toNat + new.length := by
    rw [← length_numbered_take hle', ← hdispatched', hnew, List.length_append,
      length_numbered_take hle]
  have hrange : NonceRange.toList ⟨proof.noncesStart, proof.noncesEnd⟩ =
      (List.range' (b.target.lastDeliveredNonce.toNat + 1)
        (proof.noncesEnd.toNat - b.target.lastDeliveredNonce.toNat)).map (BitVec.ofNat 64) := by
    simp only [NonceRange.toList, hstart]
    congr 2
    omega
  simp only [MessagesCall.callInfo]
  rw [wasSuccessful_receive_iff hnonempty, ← BitVec.toNat_inj]
  dsimp only
  constructor
  · intro hdelivered
    refine ⟨new, hnew.trans (by rw [hb.dispatched]), ?_⟩
    rw [hnew_eq, map_fst_drop_numbered_take hle', hrange, hdelivered]
  · rintro ⟨delivered, hdel, hmap⟩
    have hsame : delivered = new := List.append_cancel_left (hdel.symm.trans (by rw [hnew, hb.dispatched]))
    have hcount : new.length = proof.noncesEnd.toNat - b.target.lastDeliveredNonce.toNat := by
      rw [← hsame, ← List.length_map (f := Prod.fst), hmap, hrange, List.length_map,
        List.length_range']
    omega

/-- The messages call of the lane's run: relayer `7` proves both messages from the last source
state, with its lane data. It is the run's third call. -/
def laneMessagesCall : MessagesCall Nat :=
  .receiveMessagesProof ⟨false, true, fun _ _ => Weight.zero, fun _ _ => Weight.zero,
    Weight.zero, fun _ => 0⟩ 7 ⟨2, true, Bridge.lane, 1, 2⟩ 2 Weight.zero

/-- After the run's two sends, the check admits the messages call, and was_successful answers
for it as the bridge ran it. -/
theorem wasSuccessful_receiveMessagesProof_laneCalls :
    ∃ b b' : Bridge Nat,
      runSteps (bridgeStep laneConfig) Bridge.genesis (laneCalls.take 2) = some b ∧
      laneMessagesCall.checkObsoleteCall laneConfig (fun _ => b.target)
        (fun _ => b.source.data) true = .ok () ∧
      bridgeStep laneConfig b laneMessagesCall.toBridgeCall = some b' ∧
      (wasSuccessful laneConfig (fun _ => b'.target) (fun _ => b'.source.data)
          (laneMessagesCall.callInfo laneConfig (fun _ => b.target) (fun _ => b.source.data)) =
          true ↔
        ∃ delivered, b'.dispatched = b.dispatched ++ delivered ∧
          delivered.map Prod.fst = NonceRange.toList ⟨1, 2⟩) := by
  have hrun : runSteps (bridgeStep laneConfig) Bridge.genesis (laneCalls.take 2) = some _ := rfl
  refine ⟨_, _, hrun, ?admitted, rfl, wasSuccessful_receiveMessagesProof
    (safe_of_reachable laneConfig (Reachable.of_runSteps hrun)) (by decide) ?admitted rfl⟩
  rfl

omit [DecidableEq R] in
/-- A range that is not empty has a length. -/
theorem saturatingLen_ne_zero_of_le {start «end» : MessageNonce} (h : start ≤ «end») :
    saturatingLen start «end» ≠ 0 := by
  have hsub := checkedSub_of_le (BitVec.le_def.mp h)
  simp only [saturatingLen, hsub]
  rw [← BitVec.toNat_inj.ne]
  have hlen := toNat_saturatingAdd_one (by decide) («end» - start)
  have h0 : (0 : MessageNonce).toNat = 0 := rfl
  rw [h0]
  omega

omit [DecidableEq R] in
/-- A confirmation of a delivered nonce above the received one receives up to it. -/
theorem confirmDelivery_latestReceivedNonce {data data' : OutboundLaneData}
    {maxAllowed delivered : MessageNonce} {relayers : List (UnrewardedRelayer R)}
    {res : Option DeliveredMessages}
    (h : OutboundLane.confirmDelivery data maxAllowed delivered relayers = .ok (res, data'))
    (hlt : data.latestReceivedNonce < delivered) : data'.latestReceivedNonce = delivered := by
  have hnext : saturatingAdd data.latestReceivedNonce 1 ≤ delivered := by
    have hsat := toNat_saturatingAdd_one (by decide) data.latestReceivedNonce
    rw [BitVec.lt_def] at hlt
    rw [BitVec.le_def]
    omega
  unfold OutboundLane.confirmDelivery at h
  dsimp only at h
  split at h
  · -- the range after the received nonce is not empty
    next htotal => exact absurd htotal (saturatingLen_ne_zero_of_le hnext)
  split at h
  · cases h
  split at h
  · cases h
  split at h
  · cases h
  · cases h
    rfl

/-- A delivery proof that the pallet takes in, declaring a delivered nonce above the received one,
receives up to that nonce: the declared summary is the proved lane data's. -/
theorem receiveMessagesDeliveryProof_latestReceivedNonce {halted : Bool}
    {s s' : OutboundLaneStorage} {proof : Except VerificationError (InboundLaneData R)}
    {relayersState : UnrewardedRelayersState} {confirmed : Option (Confirmed R)}
    (h : receiveMessagesDeliveryProof halted s proof relayersState = some (.ok (confirmed, s')))
    (hlt : s.data.latestReceivedNonce < relayersState.lastDeliveredNonce) :
    s'.data.latestReceivedNonce = relayersState.lastDeliveredNonce := by
  unfold receiveMessagesDeliveryProof at h
  split at h
  · cases h
  split at h
  · cases h
  next laneData =>
  split at h
  · cases h
  next hvalid =>
  -- the declared summary is the one of the proved lane data
  have hstate : relayersState = UnrewardedRelayersState.ofLaneData laneData := by
    simpa [UnrewardedRelayersState.isValid] using hvalid
  have hdelivered : relayersState.lastDeliveredNonce = laneData.lastDeliveredNonce := by
    rw [hstate]
    rfl
  rw [hdelivered] at hlt ⊢
  split at h
  · cases h
  · next data hc =>
    cases h
    exact confirmDelivery_latestReceivedNonce hc hlt
  · next confirmedMessages data hc =>
    obtain ⟨rewards, -, heq⟩ := Option.map_eq_some_iff.mp h
    obtain ⟨-, rfl⟩ := Prod.mk.inj (Except.ok.inj heq)
    exact confirmDelivery_latestReceivedNonce hc hlt

omit [DecidableEq R] in
/-- A delivery proof that the check admits declares a delivered nonce above the received one. -/
theorem latestReceivedNonce_lt_of_admitted {halted : Bool}
    {proof : FromBridgedChainMessagesDeliveryProof} {relayersState : UnrewardedRelayersState}
    {inboundLanes : LaneId → InboundLaneData R} {outboundLanes : LaneId → OutboundLaneData}
    {isDispatcherActive : Bool}
    (hadmitted : (MessagesCall.receiveMessagesDeliveryProof halted proof relayersState :
      MessagesCall R).checkObsoleteCall cfg inboundLanes outboundLanes isDispatcherActive =
        .ok ()) :
    (outboundLanes proof.lane).latestReceivedNonce < relayersState.lastDeliveredNonce := by
  simp only [MessagesCall.checkObsoleteCall, MessagesCall.callInfo] at hadmitted
  split_ifs at hadmitted with hobsolete
  -- not obsolete: the range is not empty, and its start does not wrap
  simp only [ReceiveMessagesDeliveryProofInfo.isObsolete, Bool.or_eq_true, not_or,
    NonceRange.isEmpty, BaseMessagesProofInfo.appendsToStoredNonce] at hobsolete
  obtain ⟨hnonempty, happends⟩ := hobsolete
  simp only [Bool.not_eq_true', decide_eq_false_iff_not, not_not, decide_eq_true_eq,
    BitVec.not_lt] at hnonempty happends
  obtain ⟨-, hnext⟩ := (checkedAdd_one_eq_some (by decide)).mp happends.symm
  rw [BitVec.le_def] at hnonempty
  rw [BitVec.lt_def]
  omega

/-- **The check after a delivery proof agrees with what the bridge did.** For a delivery proof
that the check before inclusion admits, once the bridge has run it (a failed call rolled back),
`was_successful` holds exactly when the call succeeded; and then the target had delivered every
message that the call confirmed. -/
theorem wasSuccessful_receiveMessagesDeliveryProof (hb : b.Safe) {halted : Bool}
    {proof : FromBridgedChainMessagesDeliveryProof} {relayersState : UnrewardedRelayersState}
    {inboundLanes inboundLanes' : LaneId → InboundLaneData R} {isDispatcherActive : Bool}
    (hadmitted : (MessagesCall.receiveMessagesDeliveryProof halted proof relayersState :
      MessagesCall R).checkObsoleteCall cfg inboundLanes (fun _ => b.source.data)
        isDispatcherActive = .ok ())
    (hstep : bridgeStep cfg b (MessagesCall.receiveMessagesDeliveryProof halted proof
      relayersState).toBridgeCall = some b') :
    (wasSuccessful cfg inboundLanes' (fun _ => b'.source.data)
        ((MessagesCall.receiveMessagesDeliveryProof halted proof relayersState :
          MessagesCall R).callInfo cfg inboundLanes (fun _ => b.source.data)) = true ↔
      ∃ out, receiveMessagesDeliveryProof halted b.source (b.deliveryProof proof.atState)
        relayersState = some (.ok out)) ∧
    (wasSuccessful cfg inboundLanes' (fun _ => b'.source.data)
        ((MessagesCall.receiveMessagesDeliveryProof halted proof relayersState :
          MessagesCall R).callInfo cfg inboundLanes (fun _ => b.source.data)) = true →
      relayersState.lastDeliveredNonce ≤ b.target.lastDeliveredNonce) := by
  have hlt := latestReceivedNonce_lt_of_admitted hadmitted
  have hb' := bridgeStep_safe cfg hstep hb
  simp only [MessagesCall.callInfo, wasSuccessful, decide_eq_true_eq]
  obtain ⟨result, hresult, rfl⟩ := Option.map_eq_some_iff.mp hstep
  cases result with
  | error e =>
    -- rolled back: nothing new is received
    rw [hresult]
    refine ⟨iff_of_false (BitVec.ne_of_lt hlt) ?_, fun hreceived => absurd hreceived
      (BitVec.ne_of_lt hlt)⟩
    rintro ⟨out, hout⟩
    cases hout
  | ok out =>
    obtain ⟨confirmed, s⟩ := out
    have hreceived := receiveMessagesDeliveryProof_latestReceivedNonce hresult hlt
    refine ⟨iff_of_true hreceived ⟨_, hresult⟩, fun _ => ?_⟩
    -- the source receives no more than the target delivered, and the target did not move
    have hle := hb'.received_le_delivered
    rw [hreceived] at hle
    exact hle

/-- The delivery call of the lane's run: a delivery proof of the target's state after it took
both messages. It is the run's fourth call. -/
def laneDeliveryCall : MessagesCall Nat :=
  .receiveMessagesDeliveryProof false ⟨1, Bridge.lane⟩ ⟨1, 2, 2, 2⟩

/-- After the run's delivery of both messages, the check admits the delivery call, and
was_successful answers for it as the bridge ran it. -/
theorem wasSuccessful_receiveMessagesDeliveryProof_laneCalls :
    ∃ b b' : Bridge Nat,
      runSteps (bridgeStep laneConfig) Bridge.genesis (laneCalls.take 3) = some b ∧
      laneDeliveryCall.checkObsoleteCall laneConfig (fun _ => b.target)
        (fun _ => b.source.data) true = .ok () ∧
      bridgeStep laneConfig b laneDeliveryCall.toBridgeCall = some b' ∧
      (wasSuccessful laneConfig (fun _ => b'.target) (fun _ => b'.source.data)
          (laneDeliveryCall.callInfo laneConfig (fun _ => b.target) (fun _ => b.source.data)) =
          true ↔
        ∃ out, receiveMessagesDeliveryProof false b.source (b.deliveryProof 1) ⟨1, 2, 2, 2⟩ =
          some (.ok out)) ∧
      (wasSuccessful laneConfig (fun _ => b'.target) (fun _ => b'.source.data)
          (laneDeliveryCall.callInfo laneConfig (fun _ => b.target) (fun _ => b.source.data)) =
          true → (2 : MessageNonce) ≤ b.target.lastDeliveredNonce) := by
  have hrun : runSteps (bridgeStep laneConfig) Bridge.genesis (laneCalls.take 3) = some _ := rfl
  refine ⟨_, _, hrun, ?admitted, rfl, wasSuccessful_receiveMessagesDeliveryProof
    (safe_of_reachable laneConfig (Reachable.of_runSteps hrun)) ?admitted rfl⟩
  rfl

end agree

end Cumulus.BridgeMessages
