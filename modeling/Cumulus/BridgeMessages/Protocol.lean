import Cumulus.BridgeMessages.LaneInvariant
import Cumulus.BridgeMessages.Receive
import Cumulus.Found.Run

/-!
# bridge messages: the lane between two chains

One lane, its outbound end in the source chain's storage and its inbound end in the target
chain's. Relayers carry proofs between them, each of a state that its chain had at some earlier
point: a messages proof reads messages (and, if the relayer wants, the lane data) out of a past
source state, and a delivery proof shows a past target state's lane data. Any relayer may carry
any proof at any time, so the calls of `BridgeCall` interleave freely and the proofs may be as
stale as any state of the run (`Bridge.sourceStates`, `Bridge.targetStates`).

`Bridge.Safe` is the invariant that every reachable state keeps (`safe_of_reachable`), from which
`bridge_lane_safety` reads the protocol's safety:

* the target dispatches the messages in nonce order, each once, with the payload sent under it:
  the dispatched messages are the first `last_delivered_nonce` messages sent;
* the four nonces are ordered:
  `last_confirmed_nonce ≤ latest_received_nonce ≤ last_delivered_nonce ≤ latest_generated_nonce`;
* a message the source no longer stores has been dispatched.

What carries it: `receive_message` takes only the nonce after `last_delivered_nonce`, so the
dispatched messages stay a prefix of those sent; a messages proof reads from a state whose
messages are the ones sent, and a confirmed nonce read from it is one the source has received;
a delivery proof moves `latest_received_nonce` only up to a nonce that a target state delivered,
which is at most the target's nonce now; and pruning stops at `latest_received_nonce`.
-/

namespace Cumulus.BridgeMessages

open Cumulus.Primitives Cumulus.Found

variable {R : Type} [DecidableEq R]

/-! ## Messages numbered by nonce -/

/-- The payloads `l` with their nonces `1, 2, …`. -/
def numbered (l : List MessagePayload) : List (MessageNonce × MessagePayload) :=
  l.mapIdx fun i p => (BitVec.ofNat 64 (i + 1), p)

/-- A message sent after `l` gets nonce `length l + 1`. -/
theorem numbered_append_singleton (l : List MessagePayload) (p : MessagePayload) :
    numbered (l ++ [p]) = numbered l ++ [(BitVec.ofNat 64 (l.length + 1), p)] :=
  List.mapIdx_concat

/-- The nonces of `l` are `1, …, length l`. -/
theorem numbered_map_fst (l : List MessagePayload) :
    (numbered l).map Prod.fst = (List.range l.length).map fun i => BitVec.ofNat 64 (i + 1) := by
  apply List.ext_getElem
  · simp [numbered]
  · intro i h₁ h₂
    simp [numbered]

/-- The message numbered `n` is the `n`-th one sent. -/
theorem mem_numbered {l : List MessagePayload} {n : MessageNonce} {p : MessagePayload}
    (h : (n, p) ∈ numbered l) (hl : l.length < 2 ^ 64) : l[n.toNat - 1]? = some p := by
  obtain ⟨i, hi, heq⟩ := List.getElem_of_mem h
  simp only [numbered, List.getElem_mapIdx, Prod.mk.injEq] at heq
  obtain ⟨rfl, rfl⟩ := heq
  have hi' : i < l.length := by simpa [numbered] using hi
  rw [BitVec.toNat_ofNat, Nat.mod_eq_of_lt (by omega), Nat.add_sub_cancel]
  exact List.getElem?_eq_getElem hi'

/-- The `i`-th message sent has nonce `i + 1`. -/
theorem numbered_mem {l : List MessagePayload} {i : Nat} (hi : i < l.length) :
    (BitVec.ofNat 64 (i + 1), l[i]) ∈ numbered l :=
  List.mem_iff_getElem.mpr ⟨i, by simpa [numbered] using hi, by simp [numbered]⟩

/-! ## Results of the pallet's calls -/

/-- A `send_message` that succeeds is `OutboundLane::send_message`. -/
theorem sendMessage_ok {cfg : MessagesConfig} {env : SendEnv} {s s' : OutboundLaneStorage}
    {payload : MessagePayload} {nonce : MessageNonce}
    (h : sendMessage cfg env s payload = some (.ok (nonce, s'))) :
    OutboundLane.sendMessage cfg.maximalOutboundPayloadSize s payload = some (.ok (nonce, s')) := by
  unfold sendMessage at h
  split at h
  · cases h
  split at h
  · cases h
  split at h
  · cases h
  split at h
  · cases h
  obtain ⟨r, hr, heq⟩ := Option.map_eq_some_iff.mp h
  cases r with
  | error e => cases heq
  | ok v =>
    cases heq
    exact hr

/-- A delivery proof that is taken in confirms the delivery of its lane data. -/
theorem receiveMessagesDeliveryProof_ok {halted : Bool} {s s' : OutboundLaneStorage}
    {proof : Except VerificationError (InboundLaneData R)} {relayersState : UnrewardedRelayersState}
    {confirmed : Option (Confirmed R)}
    (h : receiveMessagesDeliveryProof halted s proof relayersState = some (.ok (confirmed, s'))) :
    ∃ laneData res data, proof = .ok laneData ∧
      OutboundLane.confirmDelivery s.data relayersState.totalMessages laneData.lastDeliveredNonce
        laneData.relayers = .ok (res, data) ∧ s' = { s with data } := by
  unfold receiveMessagesDeliveryProof at h
  split at h
  · cases h
  split at h
  · cases h
  next laneData =>
  split at h
  · cases h
  split at h
  · cases h
  · next data hc =>
    cases h
    exact ⟨laneData, none, data, rfl, hc, rfl⟩
  · next confirmedMessages data hc =>
    obtain ⟨rewards, -, heq⟩ := Option.map_eq_some_iff.mp h
    obtain ⟨-, rfl⟩ := Prod.mk.inj (Except.ok.inj heq)
    exact ⟨laneData, _, data, rfl, hc, rfl⟩

/-- The messages a proof reads are stored under their nonces. -/
theorem readMessages_mem {s : OutboundLaneStorage} {nonces : List MessageNonce}
    {messages : List (MessageNonce × MessagePayload)} (h : readMessages s nonces = some messages) :
    ∀ m ∈ messages, s.messages m.1 = some m.2 := by
  induction nonces generalizing messages with
  | nil =>
    cases h
    simp
  | cons nonce rest ih =>
    obtain ⟨payload, hp, h⟩ := Option.bind_eq_some_iff.mp h
    obtain ⟨ms, hms, h⟩ := Option.bind_eq_some_iff.mp h
    cases h
    rintro m (_ | ⟨_, hm⟩)
    · exact hp
    · exact ih hms m hm

/-- A proof that verifies is of its one lane, and carries messages stored in the proved state and
that state's lane data or none. -/
theorem verifyMessagesProof_ok {s : OutboundLaneStorage} {lane : LaneId} {withLaneState : Bool}
    {nonces : List MessageNonce} {messagesCount : BitVec 32} {proved : ProvedMessages}
    (h : verifyMessagesProof s lane withLaneState nonces messagesCount = .ok proved) :
    ∃ lm : ProvedLaneMessages, proved.entries = [(lane, lm)] ∧
      (lm.laneState = none ∨ lm.laneState = some s.data) ∧
      ∀ m ∈ lm.messages, s.messages m.1 = some m.2 := by
  unfold verifyMessagesProof at h
  split at h
  · cases h
  split at h
  · cases h
  next messages hread =>
  dsimp only at h
  -- with the lane data the proof is not empty; without it, it must carry messages
  split at h
  · cases h
    exact ⟨_, rfl, .inr rfl, readMessages_mem hread⟩
  · split at h
    · cases h
    · cases h
      exact ⟨_, rfl, .inl rfl, readMessages_mem hread⟩

/-! ## The lane on its two chains -/

/-- The two ends of the lane, every state each chain has had (a proof shows one of them), and
two ghost records: the payloads sent, the one of nonce `n` at index `n - 1`, and the messages
the target dispatched, in order. -/
structure Bridge (R : Type) where
  source : OutboundLaneStorage
  target : InboundLaneData R
  sourceStates : List OutboundLaneStorage
  targetStates : List (InboundLaneData R)
  sent : List MessagePayload
  dispatched : List (MessageNonce × MessagePayload)

/-- Genesis: both ends empty, nothing sent. -/
def Bridge.genesis : Bridge R :=
  ⟨.empty, .default, [.empty], [.default], [], []⟩

/-- The lane's id. A proof of the lane proves it alone, so the target's other lanes take no part. -/
def Bridge.lane : LaneId := 0

/-- A messages proof of the `atState`-th source state: the messages at `nonces`, with the lane
data if `withLaneState`. No proof exists of a state the source has not had. -/
def Bridge.messagesProof (b : Bridge R) (atState : Nat) (withLaneState : Bool)
    (nonces : List MessageNonce) (messagesCount : BitVec 32) :
    Except VerificationError ProvedMessages :=
  match b.sourceStates[atState]? with
  | some s => verifyMessagesProof s Bridge.lane withLaneState nonces messagesCount
  | none => .error .other

/-- A delivery proof of the `atState`-th target state's lane data. -/
def Bridge.deliveryProof (b : Bridge R) (atState : Nat) : Except VerificationError (InboundLaneData R) :=
  match b.targetStates[atState]? with
  | some d => .ok d
  | none => .error .other

/-- The calls on the lane, by any user or relayer, in any order. -/
inductive BridgeCall (R : Type) where
  /-- `send_message` on the source. -/
  | sendMessage (env : SendEnv) (payload : MessagePayload)
  /-- `receive_messages_proof` on the target, by `relayer`, of a proof of the messages `nonces`
  in the `atState`-th source state. -/
  | receiveMessagesProof (env : TargetEnv) (relayer : R) (atState : Nat) (withLaneState : Bool)
      (nonces : List MessageNonce) (messagesCount : BitVec 32) (dispatchWeight : Weight)
  /-- `receive_messages_delivery_proof` on the source, of the `atState`-th target state. -/
  | receiveMessagesDeliveryProof (halted : Bool) (atState : Nat)
      (relayersState : UnrewardedRelayersState)
  /-- `on_idle` on the source. -/
  | onIdle (remainingWeight : Weight)

section Step

variable (cfg : MessagesConfig)

/-- One call. A panic is `none`; a failed call changes nothing; a call that succeeds records the
new state of its chain. -/
def bridgeStep (b : Bridge R) : BridgeCall R → Option (Bridge R)
  | .sendMessage env payload =>
    (sendMessage cfg env b.source payload).map fun
      | .ok (_, s) => { b with
          source := s
          sourceStates := b.sourceStates ++ [s]
          sent := b.sent ++ [payload] }
      | .error _ => b
  | .receiveMessagesProof env relayer atState withLaneState nonces messagesCount dispatchWeight =>
    (receiveMessagesProof cfg env (fun _ => b.target) relayer
        (b.messagesProof atState withLaneState nonces messagesCount) messagesCount
        dispatchWeight).map fun
      | .ok st => { b with
          target := st.lanes Bridge.lane
          targetStates := b.targetStates ++ [st.lanes Bridge.lane]
          dispatched := b.dispatched ++ st.dispatched }
      | .error _ => b
  | .receiveMessagesDeliveryProof halted atState relayersState =>
    (receiveMessagesDeliveryProof halted b.source (b.deliveryProof atState) relayersState).map fun
      | .ok (_, s) => { b with source := s, sourceStates := b.sourceStates ++ [s] }
      | .error _ => b
  | .onIdle remainingWeight =>
    (onIdle cfg.dbWeight b.source remainingWeight).map fun out =>
      { b with source := out.2, sourceStates := b.sourceStates ++ [out.2] }

end Step

omit [DecidableEq R] in
/-- A messages proof that checks is of a recorded source state: it holds that state's lane data, if
any, and stored messages of it. -/
theorem Bridge.messagesProof_ok {b : Bridge R} {atState : Nat} {withLaneState : Bool}
    {nonces : List MessageNonce} {messagesCount : BitVec 32} {proved : ProvedMessages}
    (h : b.messagesProof atState withLaneState nonces messagesCount = .ok proved) :
    ∃ s ∈ b.sourceStates, ∃ lm : ProvedLaneMessages, proved.entries = [(Bridge.lane, lm)] ∧
      (lm.laneState = none ∨ lm.laneState = some s.data) ∧
      ∀ m ∈ lm.messages, s.messages m.1 = some m.2 := by
  unfold Bridge.messagesProof at h
  split at h
  · next s hs => exact ⟨s, List.mem_of_getElem? hs, verifyMessagesProof_ok h⟩
  · cases h

omit [DecidableEq R] in
/-- A delivery proof that checks holds a recorded target state. -/
theorem Bridge.deliveryProof_ok {b : Bridge R} {atState : Nat} {d : InboundLaneData R}
    (h : b.deliveryProof atState = .ok d) : d ∈ b.targetStates := by
  unfold Bridge.deliveryProof at h
  split at h
  · next d' hd =>
    cases h
    exact List.mem_of_getElem? hd
  · cases h

/-! ## The safety invariant -/

/-- The messages a source state stores are the ones sent under their nonces. -/
def StoresSent (sent : List MessagePayload) (s : OutboundLaneStorage) : Prop :=
  ∀ n p, s.messages n = some p → sent[n.toNat - 1]? = some p

/-- A state that stores messages as sent does so for any longer history. -/
theorem StoresSent.append {sent : List MessagePayload} {s : OutboundLaneStorage}
    (h : StoresSent sent s) (more : List MessagePayload) : StoresSent (sent ++ more) s := by
  intro n p hn
  have hs := h n p hn
  rw [List.getElem?_append_left (List.getElem?_eq_some_iff.mp hs).1]
  exact hs

/-- The invariant of the lane on its two chains. The source's messages are the ones sent, and all
of them after `latest_received_nonce` are still stored; the target's runs are consecutive and it
has dispatched the first `last_delivered_nonce` messages sent; the four nonces are ordered; and
every past state a proof may show is one the invariant says enough about: a source state stores
messages sent and has received no more than the source now, a target state is well formed, has
delivered no more than the target now, and has confirmed only what the source has received. -/
structure Bridge.Safe (b : Bridge R) : Prop where
  generated : b.source.data.latestGeneratedNonce.toNat = b.sent.length
  stored : StoresSent b.sent b.source
  unpruned : ∀ n, b.source.data.latestReceivedNonce < n → n ≤ b.source.data.latestGeneratedNonce →
    b.source.messages n = b.sent[n.toNat - 1]?
  targetWf : TargetWf b.target
  dispatched : b.dispatched = numbered (b.sent.take b.target.lastDeliveredNonce.toNat)
  confirmed_le_received : b.target.lastConfirmedNonce ≤ b.source.data.latestReceivedNonce
  received_le_delivered : b.source.data.latestReceivedNonce ≤ b.target.lastDeliveredNonce
  delivered_le_generated : b.target.lastDeliveredNonce ≤ b.source.data.latestGeneratedNonce
  sourceStates : ∀ s ∈ b.sourceStates,
    s.data.latestReceivedNonce ≤ b.source.data.latestReceivedNonce ∧ StoresSent b.sent s
  targetStates : ∀ d ∈ b.targetStates, TargetWf d ∧
    d.lastDeliveredNonce ≤ b.target.lastDeliveredNonce ∧
    d.lastConfirmedNonce ≤ b.source.data.latestReceivedNonce

omit [DecidableEq R] in
/-- Genesis is safe. -/
theorem safe_genesis : (Bridge.genesis : Bridge R).Safe where
  generated := rfl
  stored := fun _ _ h => by cases h
  unpruned := fun n h0 hn => by
    have h0 : 0 < n.toNat := BitVec.lt_def.mp h0
    have hn : n.toNat ≤ 0 := BitVec.le_def.mp hn
    omega
  targetWf := targetWf_default
  dispatched := rfl
  confirmed_le_received := BitVec.le_refl _
  received_le_delivered := BitVec.le_refl _
  delivered_le_generated := BitVec.le_refl _
  sourceStates := by
    rintro s (_ | ⟨_, ⟨⟩⟩)
    exact ⟨BitVec.le_refl _, fun _ _ h => by cases h⟩
  targetStates := by
    rintro d (_ | ⟨_, ⟨⟩⟩)
    exact ⟨targetWf_default, BitVec.le_refl _, BitVec.le_refl _⟩

variable {b : Bridge R}

omit [DecidableEq R] in
/-- `send_message` keeps the invariant: the new message is stored under the next nonce, which is
the number of messages sent. -/
theorem Bridge.Safe.send (hb : b.Safe) {size : Nat} {payload : MessagePayload}
    {nonce : MessageNonce} {s : OutboundLaneStorage}
    (h : OutboundLane.sendMessage size b.source payload = some (.ok (nonce, s))) :
    ({ b with
        source := s
        sourceStates := b.sourceStates ++ [s]
        sent := b.sent ++ [payload] } : Bridge R).Safe := by
  obtain ⟨hnv, rfl⟩ := sendMessage_spec h
  have hgen := hb.generated
  have hnonce : nonce.toNat - 1 = b.sent.length := by omega
  -- the new state stores what was sent, the new message included
  have hstored : StoresSent (b.sent ++ [payload])
      ⟨{ b.source.data with latestGeneratedNonce := nonce },
        Function.update b.source.messages nonce (some payload)⟩ := by
    intro n p hn
    dsimp only at hn
    by_cases hnn : n = nonce
    · subst hnn
      cases (Function.update_self _ _ _).symm.trans hn
      rw [hnonce]
      exact List.getElem?_concat_length
    · rw [Function.update_of_ne hnn] at hn
      exact hb.stored.append _ n p hn
  refine ⟨by simp [hnv, hgen], hstored, ?_, hb.targetWf, ?_, hb.confirmed_le_received,
    hb.received_le_delivered, ?_, ?_, hb.targetStates⟩
  · intro n hlt hle
    dsimp only at hlt hle ⊢
    by_cases hnn : n = nonce
    · subst hnn
      rw [Function.update_self, hnonce, List.getElem?_concat_length]
    · have hlt : b.source.data.latestReceivedNonce.toNat < n.toNat := BitVec.lt_def.mp hlt
      have hle : n.toNat ≤ nonce.toNat := BitVec.le_def.mp hle
      have hne : n.toNat ≠ nonce.toNat := fun he => hnn (BitVec.eq_of_toNat_eq he)
      rw [Function.update_of_ne hnn, hb.unpruned n (BitVec.lt_def.mpr hlt)
        (BitVec.le_def.mpr (by omega)), List.getElem?_append_left (by omega)]
  · show b.dispatched = numbered ((b.sent ++ [payload]).take _)
    rw [List.take_append_of_le_length (hgen ▸ BitVec.le_def.mp hb.delivered_le_generated)]
    exact hb.dispatched
  · show b.target.lastDeliveredNonce ≤ nonce
    have := BitVec.le_def.mp hb.delivered_le_generated
    exact BitVec.le_def.mpr (by omega)
  · intro s hs
    rcases List.mem_append.mp hs with hs | hs
    · obtain ⟨hr, hst⟩ := hb.sourceStates s hs
      exact ⟨hr, hst.append _⟩
    · rw [List.mem_singleton] at hs
      subst hs
      exact ⟨BitVec.le_refl _, hstored⟩

omit [DecidableEq R] in
/-- A new lane data on the source with the nonces generated as before and
`latest_received_nonce` raised, but not past what the target delivered, keeps the invariant. -/
theorem Bridge.Safe.raiseReceived (hb : b.Safe) {data : OutboundLaneData}
    (hgen : data.latestGeneratedNonce = b.source.data.latestGeneratedNonce)
    (hle : b.source.data.latestReceivedNonce ≤ data.latestReceivedNonce)
    (hdel : data.latestReceivedNonce ≤ b.target.lastDeliveredNonce) :
    ({ b with
        source := { b.source with data }
        sourceStates := b.sourceStates ++ [{ b.source with data }] } : Bridge R).Safe := by
  have hle' := BitVec.le_def.mp hle
  refine ⟨hgen ▸ hb.generated, hb.stored, ?_, hb.targetWf, hb.dispatched,
    BitVec.le_trans hb.confirmed_le_received hle, hdel, hgen ▸ hb.delivered_le_generated, ?_, ?_⟩
  · intro n hlt hn
    dsimp only at hlt hn ⊢
    have hlt := BitVec.lt_def.mp hlt
    exact hb.unpruned n (BitVec.lt_def.mpr (by omega)) (hgen ▸ hn)
  · intro s hs
    rcases List.mem_append.mp hs with hs | hs
    · obtain ⟨hr, hst⟩ := hb.sourceStates s hs
      exact ⟨BitVec.le_trans hr hle, hst⟩
    · rw [List.mem_singleton] at hs
      subst hs
      exact ⟨BitVec.le_refl _, hb.stored⟩
  · intro d hd
    obtain ⟨hwf, hld, hlc⟩ := hb.targetStates d hd
    exact ⟨hwf, hld, BitVec.le_trans hlc hle⟩

omit [DecidableEq R] in
/-- Confirming the delivery shown by a past target state keeps the invariant. -/
theorem Bridge.Safe.confirm (hb : b.Safe) {d : InboundLaneData R} (hd : d ∈ b.targetStates)
    {maxAllowed : MessageNonce} {res : Option DeliveredMessages} {data : OutboundLaneData}
    (h : OutboundLane.confirmDelivery b.source.data maxAllowed d.lastDeliveredNonce d.relayers =
      .ok (res, data)) :
    ({ b with
        source := { b.source with data }
        sourceStates := b.sourceStates ++ [{ b.source with data }] } : Bridge R).Safe := by
  rcases confirmDelivery_spec h with rfl | ⟨rfl, hle, -⟩
  · exact hb.raiseReceived rfl (BitVec.le_refl _) hb.received_le_delivered
  · exact hb.raiseReceived rfl hle (hb.targetStates d hd).2.1

omit [DecidableEq R] in
/-- Pruning received messages keeps the invariant. -/
theorem Bridge.Safe.prune (hb : b.Safe) {s : OutboundLaneStorage}
    (hr : s.data.latestReceivedNonce = b.source.data.latestReceivedNonce)
    (hg : s.data.latestGeneratedNonce = b.source.data.latestGeneratedNonce)
    (hp : PrunedUpTo b.source.data.latestReceivedNonce b.source.messages s.messages) :
    ({ b with source := s, sourceStates := b.sourceStates ++ [s] } : Bridge R).Safe := by
  -- what the pruned state stores, the state before stored too
  have hstored : StoresSent b.sent s := by
    intro n p hn
    rcases hp n with he | ⟨hnone, -⟩
    · exact hb.stored n p (he ▸ hn)
    · rw [hnone] at hn
      cases hn
  refine ⟨hg ▸ hb.generated, hstored, ?_, hb.targetWf, hb.dispatched, hr ▸ hb.confirmed_le_received,
    hr ▸ hb.received_le_delivered, hg ▸ hb.delivered_le_generated, ?_, ?_⟩
  · intro n hlt hn
    dsimp only at hlt hn ⊢
    rw [hr] at hlt
    rcases hp n with he | ⟨-, hle⟩
    · rw [he]
      exact hb.unpruned n hlt (hg ▸ hn)
    · have := BitVec.lt_def.mp hlt
      have := BitVec.le_def.mp hle
      omega
  · intro s' hs
    rcases List.mem_append.mp hs with hs | hs
    · obtain ⟨hr', hst⟩ := hb.sourceStates s' hs
      exact ⟨hr ▸ hr', hst⟩
    · rw [List.mem_singleton] at hs
      subst hs
      exact ⟨BitVec.le_refl _, hstored⟩
  · intro d hd
    obtain ⟨hwf, hld, hlc⟩ := hb.targetStates d hd
    exact ⟨hwf, hld, hr ▸ hlc⟩

/-! ## Receiving a messages proof -/

/-- The target's lane in the loop over the messages of a proof, against the bridge `b` before the
call: well formed, its confirmed nonce received by the source, its delivered nonce grown but
generated, and the messages dispatched before and in the loop the first ones sent. -/
structure ReceiveInv (b : Bridge R) (st : ReceiveState R) : Prop where
  targetWf : TargetWf st.data
  confirmed_le : st.data.lastConfirmedNonce ≤ b.source.data.latestReceivedNonce
  delivered_ge : b.target.lastDeliveredNonce ≤ st.data.lastDeliveredNonce
  delivered_le : st.data.lastDeliveredNonce ≤ b.source.data.latestGeneratedNonce
  dispatched : b.dispatched ++ st.dispatched =
    numbered (b.sent.take st.data.lastDeliveredNonce.toNat)

omit [DecidableEq R] in
/-- Dispatching the next nonce with the payload sent under it keeps the loop's invariant. -/
theorem ReceiveInv.dispatch {st : ReceiveState R} (h : ReceiveInv b st)
    (hgen : b.source.data.latestGeneratedNonce.toNat = b.sent.length)
    {nonce : MessageNonce} {payload : MessagePayload} {data : InboundLaneData R}
    (hsent : b.sent[nonce.toNat - 1]? = some payload)
    (hn : nonce.toNat = st.data.lastDeliveredNonce.toNat + 1) (hwf : TargetWf data)
    (hlc : data.lastConfirmedNonce = st.data.lastConfirmedNonce)
    (hld : data.lastDeliveredNonce = nonce) (w a : Weight) :
    ReceiveInv b ⟨data, w, a, st.dispatched ++ [(nonce, payload)]⟩ := by
  have hlt : nonce.toNat - 1 < b.sent.length := (List.getElem?_eq_some_iff.mp hsent).1
  have hge := BitVec.le_def.mp h.delivered_ge
  refine ⟨hwf, hlc ▸ h.confirmed_le, ?_, ?_, ?_⟩
  · show b.target.lastDeliveredNonce ≤ data.lastDeliveredNonce
    rw [hld]
    exact BitVec.le_def.mpr (by omega)
  · show data.lastDeliveredNonce ≤ _
    rw [hld]
    exact BitVec.le_def.mpr (by omega)
  · -- the messages sent up to `nonce` are those up to the nonce before, then this one
    show b.dispatched ++ (st.dispatched ++ [(nonce, payload)]) =
      numbered (b.sent.take data.lastDeliveredNonce.toNat)
    have hlen : (b.sent.take st.data.lastDeliveredNonce.toNat).length =
        st.data.lastDeliveredNonce.toNat := List.length_take_of_le (by omega)
    have hnat : BitVec.ofNat 64 (st.data.lastDeliveredNonce.toNat + 1) = nonce := by
      rw [← hn, BitVec.ofNat_toNat, BitVec.setWidth_eq]
    have hnext : b.sent[st.data.lastDeliveredNonce.toNat]? = some payload := by
      rw [hn, Nat.add_sub_cancel] at hsent
      exact hsent
    rw [hld, hn, List.take_add_one, hnext, Option.toList_some, numbered_append_singleton, hlen,
      hnat, ← h.dispatched, List.append_assoc]

omit [DecidableEq R] in
/-- The invariant reads only the lane and the messages dispatched. -/
theorem ReceiveInv.of_eq {st st₁ : ReceiveState R} (h : ReceiveInv b st) (hdata : st₁.data = st.data)
    (hdispatched : st₁.dispatched = st.dispatched) : ReceiveInv b st₁ := by
  obtain ⟨hwf, hlc, hge, hle, hd⟩ := h
  rw [← hdata] at hwf hlc hge hle hd
  rw [← hdispatched] at hd
  exact ⟨hwf, hlc, hge, hle, hd⟩

/-- The loop over the messages of a proof keeps its invariant, when each message carries the
payload sent under its nonce. -/
theorem receiveLoop_inv {cfg : MessagesConfig} {env : TargetEnv} {relayer : R}
    (hgen : b.source.data.latestGeneratedNonce.toNat = b.sent.length) :
    ∀ {messages : List (MessageNonce × MessagePayload)} {st st' : ReceiveState R},
      (∀ m ∈ messages, b.sent[m.1.toNat - 1]? = some m.2) →
      receiveLoop cfg env relayer messages st = some (.ok st') → ReceiveInv b st →
      ReceiveInv b st'
  | [], st, st', _, h, hst => by
    cases h
    exact hst
  | (nonce, payload) :: rest, st, st', hsent, h, hst => by
    have hrest : ∀ m ∈ rest, b.sent[m.1.toNat - 1]? = some m.2 :=
      fun m hm => hsent m (List.mem_cons_of_mem _ hm)
    cases hguard : (env.dispatchWeight nonce payload).anyGt st.dispatchWeightLeft with
    | true =>
      rw [receiveLoop_cons_of_anyGt hguard] at h
      cases h
    | false =>
      rw [receiveLoop_cons_of_not_anyGt hguard] at h
      obtain ⟨st₁, hstep, h⟩ := Option.bind_eq_some_iff.mp h
      obtain ⟨res, hout, hdispatched, -, -⟩ := receiveMessageStep_eq_some hstep
      apply receiveLoop_inv hgen hrest h
      rcases receiveMessage_cases hout hst.targetWf with ⟨u, rfl, hn, hwf, hlc, hld⟩ |
        ⟨hres, hdata⟩
      · exact (hst.dispatch hgen (hsent _ List.mem_cons_self) hn hwf hlc hld
          st₁.dispatchWeightLeft st₁.actualWeight).of_eq rfl hdispatched
      · -- nothing dispatched: the lane and the record stay as they were
        cases res with
        | dispatched u => exact absurd rfl (hres u)
        | invalidNonce => exact hst.of_eq hdata hdispatched
        | tooManyUnrewardedRelayers => exact hst.of_eq hdata hdispatched
        | tooManyUnconfirmedMessages => exact hst.of_eq hdata hdispatched

/-- Receiving a messages proof of a past source state keeps the invariant. -/
theorem Bridge.Safe.receive (hb : b.Safe) {cfg : MessagesConfig} {env : TargetEnv} {relayer : R}
    {atState : Nat} {withLaneState : Bool} {nonces : List MessageNonce}
    {messagesCount : BitVec 32} {dispatchWeight : Weight} {st : ReceivedLanes R}
    (h : receiveMessagesProof cfg env (fun _ => b.target) relayer
      (b.messagesProof atState withLaneState nonces messagesCount) messagesCount dispatchWeight =
        some (.ok st)) :
    ({ b with
        target := st.lanes Bridge.lane
        targetStates := b.targetStates ++ [st.lanes Bridge.lane]
        dispatched := b.dispatched ++ st.dispatched } : Bridge R).Safe := by
  obtain ⟨proved, hproof, hlanes⟩ := receiveMessagesProof_ok h
  obtain ⟨s, hs, lm, hentries, hlane, hmsgs⟩ := Bridge.messagesProof_ok hproof
  obtain ⟨hsr, hss⟩ := hb.sourceStates s hs
  rw [hentries] at hlanes
  obtain ⟨laneSt, henter, ⟨e, -, hcontra⟩ | ⟨lane, hloop, hst⟩⟩ := receiveLanes_cons_eq_some hlanes
  · cases hcontra
  simp only [receiveLanes, Option.some.injEq, Except.ok.injEq] at hst
  subst hst
  obtain ⟨hupd, -, hdisp, -⟩ := enterLane_eq_some henter
  -- the lane state the proof carries, if any, is taken in first
  have hstart : ReceiveInv b laneSt := by
    rcases hupd with hd | ⟨laneState, r, hls, hupd⟩
    · have hgenesis : ReceiveInv b ⟨b.target, dispatchWeight, env.declaredWeight, []⟩ :=
        ⟨hb.targetWf, hb.confirmed_le_received, BitVec.le_refl _, hb.delivered_le_generated,
          List.append_nil _ ▸ hb.dispatched⟩
      exact hgenesis.of_eq hd hdisp
    · have hls : laneState = s.data := by
        rcases hlane with hl | hl <;> rw [hls] at hl <;> cases hl
        rfl
      subst hls
      obtain ⟨hwf, hld, hlc⟩ := receiveStateUpdate_spec hupd hb.targetWf
      have hupdated : ReceiveInv b ⟨laneSt.data, dispatchWeight, env.declaredWeight, []⟩ := by
        refine ⟨hwf, ?_, hld ▸ BitVec.le_refl _, hld ▸ hb.delivered_le_generated, ?_⟩
        · rcases hlc with hlc | hlc
          · exact hlc ▸ hb.confirmed_le_received
          · exact hlc ▸ hsr
        · show b.dispatched ++ [] = numbered (b.sent.take laneSt.data.lastDeliveredNonce.toNat)
          rw [List.append_nil, hld]
          exact hb.dispatched
      exact hupdated.of_eq rfl hdisp
  have hend := receiveLoop_inv hb.generated (fun m hm => hss _ _ (hmsgs m hm)) hloop hstart
  simp only [ReceivedLanes.leaveLane_lanes_self, ReceivedLanes.leaveLane_dispatched]
  refine ⟨hb.generated, hb.stored, hb.unpruned, hend.targetWf, hend.dispatched, hend.confirmed_le,
    BitVec.le_trans hb.received_le_delivered hend.delivered_ge, hend.delivered_le,
    hb.sourceStates, ?_⟩
  intro d hd
  rcases List.mem_append.mp hd with hd | hd
  · obtain ⟨hwf, hld, hlc⟩ := hb.targetStates d hd
    exact ⟨hwf, BitVec.le_trans hld hend.delivered_ge, hlc⟩
  · rw [List.mem_singleton] at hd
    subst hd
    exact ⟨hend.targetWf, BitVec.le_refl _, hend.confirmed_le⟩

/-! ## Every run -/

section Run

variable (cfg : MessagesConfig)

/-- Every call keeps the invariant. -/
theorem bridgeStep_safe {b' : Bridge R} {call : BridgeCall R} (h : bridgeStep cfg b call = some b')
    (hb : b.Safe) : b'.Safe := by
  cases call with
  | sendMessage env payload =>
    obtain ⟨r, hr, rfl⟩ := Option.map_eq_some_iff.mp h
    cases r with
    | error e => exact hb
    | ok v =>
      obtain ⟨nonce, s⟩ := v
      exact hb.send (sendMessage_ok hr)
  | receiveMessagesProof env relayer atState withLaneState nonces messagesCount dispatchWeight =>
    obtain ⟨r, hr, rfl⟩ := Option.map_eq_some_iff.mp h
    cases r with
    | error e => exact hb
    | ok st => exact hb.receive hr
  | receiveMessagesDeliveryProof halted atState relayersState =>
    obtain ⟨r, hr, rfl⟩ := Option.map_eq_some_iff.mp h
    cases r with
    | error e => exact hb
    | ok v =>
      obtain ⟨confirmed, s⟩ := v
      obtain ⟨laneData, res, data, hproof, hc, rfl⟩ := receiveMessagesDeliveryProof_ok hr
      exact hb.confirm (Bridge.deliveryProof_ok hproof) hc
  | onIdle remainingWeight =>
    obtain ⟨⟨w, s⟩, hr, rfl⟩ := Option.map_eq_some_iff.mp h
    obtain ⟨hr', hg, hp⟩ := onIdle_spec hr
    exact hb.prune hr' hg hp

/-- Every reachable bridge is safe. -/
theorem safe_of_reachable (h : Reachable (bridgeStep cfg) Bridge.genesis b) : b.Safe :=
  h.invariant safe_genesis fun _ _ _ hb hs => bridgeStep_safe cfg hs hb

end Run

/-! ## Safety of the lane -/

omit [DecidableEq R] in
/-- A message sent and no longer stored by the source has been received by the target: pruning
stops at `latest_received_nonce`. -/
theorem Bridge.Safe.le_received_of_pruned (hb : b.Safe) {n : MessageNonce} (hpos : 0 < n)
    (hn : n ≤ b.source.data.latestGeneratedNonce) (hnone : b.source.messages n = none) :
    n ≤ b.source.data.latestReceivedNonce := by
  by_contra hlt
  have hstored := hb.unpruned n (BitVec.not_le.mp hlt) hn
  have hlt : n.toNat - 1 < b.sent.length := by
    have := BitVec.lt_def.mp hpos
    have := BitVec.le_def.mp hn
    have := hb.generated
    omega
  rw [hnone, List.getElem?_eq_getElem hlt] at hstored
  cases hstored

section Safety

variable (cfg : MessagesConfig)

/-- **Safety of the lane.** In every state that any interleaving of `send_message`,
`receive_messages_proof` (by any relayer, of any messages of any past source state, with or
without its lane data), `receive_messages_delivery_proof` (of any past target state) and
`on_idle` reaches: the target has dispatched the nonces `1, 2, …, last_delivered_nonce`, in this
order and each once, each with the payload sent under it; the nonces are ordered
`last_confirmed_nonce ≤ latest_received_nonce ≤ last_delivered_nonce ≤ latest_generated_nonce`;
and every message sent that the source no longer stores was received, and dispatched, by the
target. -/
theorem bridge_lane_safety {b : Bridge R} (h : Reachable (bridgeStep cfg) Bridge.genesis b) :
    b.dispatched.map Prod.fst =
        (List.range b.target.lastDeliveredNonce.toNat).map (fun i => BitVec.ofNat 64 (i + 1)) ∧
      (∀ n p, (n, p) ∈ b.dispatched → b.sent[n.toNat - 1]? = some p) ∧
      b.target.lastConfirmedNonce ≤ b.source.data.latestReceivedNonce ∧
      b.source.data.latestReceivedNonce ≤ b.target.lastDeliveredNonce ∧
      b.target.lastDeliveredNonce ≤ b.source.data.latestGeneratedNonce ∧
      (∀ n, 0 < n → n ≤ b.source.data.latestGeneratedNonce → b.source.messages n = none →
        n ≤ b.source.data.latestReceivedNonce ∧ ∃ p, (n, p) ∈ b.dispatched) := by
  have hb := safe_of_reachable cfg h
  have hld : b.target.lastDeliveredNonce.toNat ≤ b.sent.length :=
    hb.generated ▸ BitVec.le_def.mp hb.delivered_le_generated
  have hlen : (b.sent.take b.target.lastDeliveredNonce.toNat).length < 2 ^ 64 := by
    have := hb.generated ▸ b.source.data.latestGeneratedNonce.isLt
    simp only [List.length_take]
    omega
  refine ⟨?_, ?_, hb.confirmed_le_received, hb.received_le_delivered, hb.delivered_le_generated, ?_⟩
  · rw [hb.dispatched, numbered_map_fst, List.length_take_of_le hld]
  · intro n p hnp
    rw [hb.dispatched] at hnp
    have hp := mem_numbered hnp hlen
    rw [List.getElem?_take] at hp
    split at hp
    · exact hp
    · cases hp
  · intro n hpos hn hnone
    have hrec := hb.le_received_of_pruned hpos hn hnone
    -- the message is among the first `last_delivered_nonce` sent
    have hpos := BitVec.lt_def.mp hpos
    have hdel := BitVec.le_def.mp (BitVec.le_trans hrec hb.received_le_delivered)
    have hi : n.toNat - 1 < (b.sent.take b.target.lastDeliveredNonce.toNat).length := by
      rw [List.length_take_of_le hld]
      omega
    refine ⟨hrec, (b.sent.take b.target.lastDeliveredNonce.toNat)[n.toNat - 1], ?_⟩
    rw [hb.dispatched]
    have hmem := numbered_mem hi
    rwa [Nat.sub_add_cancel (by omega), BitVec.ofNat_toNat, BitVec.setWidth_eq] at hmem

end Safety

/-! ### A run -/

/-- The pallet's constants of the run below: sixteen unconfirmed messages and entries, payloads
of a kilobyte, and a read and a write of one unit each. -/
def laneConfig : MessagesConfig := ⟨16, 16, 1024, ⟨1, 1⟩⟩

/-- A run: two messages sent; relayer `7` delivers both, proving them from the last source state
with its lane data; a delivery proof of the target's new state confirms them; `on_idle` prunes
them. -/
def laneCalls : List (BridgeCall Nat) :=
  [.sendMessage ⟨true, true, true, true⟩ [1], .sendMessage ⟨true, true, true, true⟩ [2],
    .receiveMessagesProof ⟨false, true, fun _ _ => Weight.zero, fun _ _ => Weight.zero,
      Weight.zero, fun _ => 0⟩ 7 2 true
      [1, 2] 2 Weight.zero,
    .receiveMessagesDeliveryProof false 1 ⟨1, 2, 2, 2⟩,
    .onIdle (Weight.fromParts 100 100)]

/-- After `laneCalls`, both messages are dispatched in order, confirmed and pruned, and the bridge
satisfies the lane safety properties. -/
theorem bridge_lane_safety_of_laneCalls :
    ∃ b, runSteps (bridgeStep laneConfig) Bridge.genesis laneCalls = some b ∧
      b.dispatched = [(1, [1]), (2, [2])] ∧ b.source.data.latestReceivedNonce = 2 ∧
      b.source.messages 1 = none ∧ b.source.messages 2 = none ∧
    (b.dispatched.map Prod.fst =
        (List.range b.target.lastDeliveredNonce.toNat).map (fun i => BitVec.ofNat 64 (i + 1)) ∧
      (∀ n p, (n, p) ∈ b.dispatched → b.sent[n.toNat - 1]? = some p) ∧
      b.target.lastConfirmedNonce ≤ b.source.data.latestReceivedNonce ∧
      b.source.data.latestReceivedNonce ≤ b.target.lastDeliveredNonce ∧
      b.target.lastDeliveredNonce ≤ b.source.data.latestGeneratedNonce ∧
      (∀ n, 0 < n → n ≤ b.source.data.latestGeneratedNonce → b.source.messages n = none →
        n ≤ b.source.data.latestReceivedNonce ∧ ∃ p, (n, p) ∈ b.dispatched)) :=
  ⟨_, rfl, rfl, rfl, rfl, rfl, bridge_lane_safety laneConfig
    (Reachable.of_runSteps (show runSteps (bridgeStep laneConfig) Bridge.genesis laneCalls =
      some _ from rfl))⟩

end Cumulus.BridgeMessages
