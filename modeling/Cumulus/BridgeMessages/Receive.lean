import Cumulus.BridgeMessages.Pallet

/-!
# bridge messages: the weights of receiving a messages proof

What `receive_messages_proof` does with the weights of its call, whatever the proof carries and
whatever the dispatcher answers:

* it returns: the inbound lane's operations never panic, and the checked subtractions of the
  dispatch weight never underflow, since a message is received only when its dispatch weight is
  within what is left, and its unspent weight is cut down to its dispatch weight
  (`receiveMessagesProof_isSome`);
* it fails with `InsufficientDispatchWeight` exactly when the loop over the lanes and their
  messages reaches a message whose dispatch weight exceeds what is left
  (`receiveMessagesProof_insufficient_iff`, with `LanesStall`);
* what it returns keeps within what was declared: the dispatch weight left within the declared
  dispatch weight, the actual weight within the declared weight (`receiveMessagesProof_within`).

`receiveMessagesProof_dispatch_weight` gathers the three. The step lemmas of the first section
are also what the protocol's proofs use.
-/

namespace Cumulus.BridgeMessages

open Cumulus.Primitives Cumulus.Found

variable {R : Type} [DecidableEq R] {cfg : MessagesConfig} {env : TargetEnv} {relayer : R}

/-! ## One step of each loop -/

section Steps

omit [DecidableEq R] in
@[simp] theorem ReceivedLanes.leaveLane_lanes_self (st : ReceivedLanes R) (laneId : LaneId)
    (lane : ReceiveState R) : (st.leaveLane laneId lane).lanes laneId = lane.data :=
  Function.update_self ..

omit [DecidableEq R] in
@[simp] theorem ReceivedLanes.leaveLane_dispatched (st : ReceivedLanes R) (laneId : LaneId)
    (lane : ReceiveState R) : (st.leaveLane laneId lane).dispatched = lane.dispatched := rfl

/-- A messages proof that is taken in runs the loop over its lanes from the declared weights. -/
theorem receiveMessagesProof_ok {lanes : LaneId → InboundLaneData R}
    {proof : Except VerificationError ProvedMessages} {messagesCount : BitVec 32}
    {dispatchWeight : Weight} {st : ReceivedLanes R}
    (h : receiveMessagesProof cfg env lanes relayer proof messagesCount dispatchWeight =
      some (.ok st)) :
    ∃ messages, proof = .ok messages ∧ receiveLanes cfg env relayer messages.entries
      ⟨lanes, dispatchWeight, env.declaredWeight, []⟩ = some (.ok st) := by
  unfold receiveMessagesProof at h
  split at h
  · cases h
  split at h
  · cases h
  split at h
  · cases h
  split at h
  · cases h
  · next messages => exact ⟨messages, rfl, h⟩

variable {nonce : MessageNonce} {payload : MessagePayload}
  {rest : List (MessageNonce × MessagePayload)}

/-- The loop fails with `InsufficientDispatchWeight` at a message that needs more than is left. -/
theorem receiveLoop_cons_of_anyGt {st : ReceiveState R}
    (h : (env.dispatchWeight nonce payload).anyGt st.dispatchWeightLeft = true) :
    receiveLoop cfg env relayer ((nonce, payload) :: rest) st =
      some (.error .insufficientDispatchWeight) := by
  rw [receiveLoop, if_pos h]

/-- The loop receives a message whose dispatch weight fits, and goes on. -/
theorem receiveLoop_cons_of_not_anyGt {st : ReceiveState R}
    (h : (env.dispatchWeight nonce payload).anyGt st.dispatchWeightLeft = false) :
    receiveLoop cfg env relayer ((nonce, payload) :: rest) st =
      (receiveMessageStep cfg env relayer nonce payload st).bind
        (receiveLoop cfg env relayer rest) := by
  rw [receiveLoop, if_neg (by simp [h])]

/-- What receiving one message does: the lane's `receive_message`, the message recorded if it
was dispatched, and neither weight grown. -/
theorem receiveMessageStep_eq_some {st st' : ReceiveState R}
    (h : receiveMessageStep cfg env relayer nonce payload st = some st') :
    ∃ res, InboundLane.receiveMessage cfg.maxUnrewardedRelayerEntries cfg.maxUnconfirmedMessages
        env.dispatch st.data relayer nonce payload = some (res, st'.data) ∧
      st'.dispatched = (match res with
        | .dispatched _ => st.dispatched ++ [(nonce, payload)]
        | _ => st.dispatched) ∧
      st'.dispatchWeightLeft.allLte st.dispatchWeightLeft = true ∧
      st'.actualWeight.allLte st.actualWeight = true := by
  unfold receiveMessageStep at h
  obtain ⟨⟨res, data⟩, hout, h⟩ := Option.bind_eq_some_iff.mp h
  obtain ⟨spent, -, h⟩ := Option.bind_eq_some_iff.mp h
  obtain ⟨left, hleft, h⟩ := Option.bind_eq_some_iff.mp h
  cases h
  exact ⟨res, hout, rfl, Weight.allLte_of_sub hleft, Weight.saturatingSub_allLte _ _⟩

omit [DecidableEq R] in
/-- Entering a lane takes in the lane state the proof carries, if any, and lowers the actual
proof size only. -/
theorem enterLane_eq_some {lm : ProvedLaneMessages} {st st' : ReceiveState R}
    (h : enterLane env lm st = some st') :
    (st'.data = st.data ∨ ∃ laneState r, lm.laneState = some laneState ∧
        InboundLane.receiveStateUpdate st.data laneState = some (r, st'.data)) ∧
      st'.dispatchWeightLeft = st.dispatchWeightLeft ∧ st'.dispatched = st.dispatched ∧
      st'.actualWeight.allLte st.actualWeight = true := by
  have hactual : (⟨st.actualWeight.refTime, saturatingSub st.actualWeight.proofSize
      (env.extraProofSizeBytes st.data.relayers.length)⟩ : Weight).allLte st.actualWeight = true := by
    simp only [Weight.allLte_eq_true, toNat_saturatingSub]
    omega
  cases hls : lm.laneState with
  | none =>
    simp only [enterLane, hls, Option.pure_def, Option.bind_eq_bind, Option.bind_some,
      Option.some.injEq] at h
    subst h
    exact ⟨.inl rfl, rfl, rfl, hactual⟩
  | some laneState =>
    simp only [enterLane, hls, Option.pure_def, Option.bind_eq_bind, Option.bind_eq_some_iff,
      Option.map_eq_some_iff, Option.some.injEq] at h
    obtain ⟨data, ⟨⟨r, d⟩, hupd, rfl⟩, rfl⟩ := h
    exact ⟨.inr ⟨laneState, r, rfl, hupd⟩, rfl, rfl, hactual⟩

/-- One lane of the loop over the lanes: enter it, run the loop over its messages, and store it
or fail. -/
theorem receiveLanes_cons_eq_some {laneId : LaneId} {lm : ProvedLaneMessages}
    {lanes : List (LaneId × ProvedLaneMessages)} {st : ReceivedLanes R}
    {r : Except MessagesError (ReceivedLanes R)}
    (h : receiveLanes cfg env relayer ((laneId, lm) :: lanes) st = some r) :
    ∃ laneSt, enterLane env lm (st.laneState laneId) = some laneSt ∧
      ((∃ e, receiveLoop cfg env relayer lm.messages laneSt = some (.error e) ∧ r = .error e) ∨
        ∃ lane, receiveLoop cfg env relayer lm.messages laneSt = some (.ok lane) ∧
          receiveLanes cfg env relayer lanes (st.leaveLane laneId lane) = some r) := by
  simp only [receiveLanes, Option.bind_eq_bind, Option.bind_eq_some_iff] at h
  obtain ⟨laneSt, henter, res, hloop, h⟩ := h
  refine ⟨laneSt, henter, ?_⟩
  cases res with
  | error e =>
    cases h
    exact .inl ⟨e, hloop, rfl⟩
  | ok lane => exact .inr ⟨lane, hloop, h⟩

/-- The lanes loop receives the messages of the first lane and goes on, or fails with the error of
that lane. -/
theorem receiveLanes_cons_of_loop {laneId : LaneId} {lm : ProvedLaneMessages}
    {lanes : List (LaneId × ProvedLaneMessages)} {st : ReceivedLanes R} {laneSt : ReceiveState R}
    {res : Except MessagesError (ReceiveState R)}
    (henter : enterLane env lm (st.laneState laneId) = some laneSt)
    (hloop : receiveLoop cfg env relayer lm.messages laneSt = some res) :
    receiveLanes cfg env relayer ((laneId, lm) :: lanes) st = match res with
      | .error e => some (.error e)
      | .ok lane => receiveLanes cfg env relayer lanes (st.leaveLane laneId lane) := by
  simp only [receiveLanes, Option.bind_eq_bind, henter, hloop, Option.bind_some]
  cases res <;> rfl

end Steps

/-! ## The call returns -/

section Returns

/-- `receive_message` never panics: the nonce it dispatches is the successor of the last
delivered nonce, which is the end of the last entry, so that entry's end can grow by one. -/
theorem receiveMessage_isSome (maxEntries maxUnconfirmed : MessageNonce)
    (dispatch : MessageNonce → MessagePayload → Weight) (data : InboundLaneData R) (relayer : R)
    (nonce : MessageNonce) (payload : MessagePayload) :
    (InboundLane.receiveMessage maxEntries maxUnconfirmed dispatch data relayer nonce payload).isSome := by
  unfold InboundLane.receiveMessage
  split
  · rfl
  next hnonce =>
  split
  · rfl
  split
  · rfl
  have hnext : checkedAdd data.lastDeliveredNonce 1 = some nonce := by
    simpa using (not_not.mp hnonce).symm
  dsimp only
  split
  · next entry hlast =>
    have hend : data.lastDeliveredNonce = entry.messages.«end» := by
      simp [InboundLaneData.lastDeliveredNonce, hlast]
    split
    · rw [hend] at hnext
      unfold DeliveredMessages.noteDispatchedMessage
      rw [hnext]
      rfl
    · rfl
  · rfl

omit [DecidableEq R] in
/-- `receive_state_update` never panics: the entry it cuts ends past the newly confirmed nonce,
so that nonce can grow by one. -/
theorem receiveStateUpdate_isSome (data : InboundLaneData R) (o : OutboundLaneData) :
    (InboundLane.receiveStateUpdate data o).isSome := by
  unfold InboundLane.receiveStateUpdate
  dsimp only
  split
  · rfl
  split
  · rfl
  split
  · next entry rest hrest =>
    split
    · have hhead := List.head?_dropWhile_not
        (fun entry : UnrewardedRelayer R => decide (entry.messages.«end» ≤ o.latestReceivedNonce))
        data.relayers
      rw [hrest] at hhead
      have hlt : o.latestReceivedNonce.toNat < entry.messages.«end».toNat := by
        simpa [BitVec.le_def] using hhead
      have hfit : o.latestReceivedNonce.toNat + (1 : MessageNonce).toNat < 2 ^ 64 := by
        have := entry.messages.«end».isLt
        rw [show (1 : MessageNonce).toNat = 1 from rfl]
        omega
      rw [checkedAdd_of_lt hfit]
      rfl
    · rfl
  · rfl

/-- The arithmetic of a message within what is left fits: the unspent weight is at most the
dispatch weight, which is at most what is left. -/
theorem receiveMessageStep_isSome {nonce : MessageNonce} {payload : MessagePayload}
    {st : ReceiveState R}
    (hguard : (env.dispatchWeight nonce payload).anyGt st.dispatchWeightLeft = false) :
    (receiveMessageStep cfg env relayer nonce payload st).isSome := by
  obtain ⟨⟨res, data⟩, hout⟩ := Option.isSome_iff_exists.mp (receiveMessage_isSome
    cfg.maxUnrewardedRelayerEntries cfg.maxUnconfirmedMessages env.dispatch st.data relayer nonce
    payload)
  have hle : (env.dispatchWeight nonce payload).allLte st.dispatchWeightLeft = true :=
    Weight.allLte_iff_anyGt_eq_false.mpr hguard
  obtain ⟨spent, hspent⟩ := Weight.sub_of_allLte
    (Weight.min_allLte (res.unspentWeight (env.dispatchWeight nonce payload))
      (env.dispatchWeight nonce payload))
  obtain ⟨left, hleft⟩ := Weight.sub_of_allLte (Weight.allLte_trans (Weight.allLte_of_sub hspent) hle)
  simp only [receiveMessageStep, hout, Option.bind_eq_bind, Option.bind_some]
  rw [hspent, Option.bind_some, hleft]
  rfl

omit [DecidableEq R] in
/-- Entering a lane never panics. -/
theorem enterLane_isSome (lm : ProvedLaneMessages) (st : ReceiveState R) :
    (enterLane env lm st).isSome := by
  unfold enterLane
  cases hls : lm.laneState with
  | none => rfl
  | some laneState =>
    obtain ⟨⟨r, d⟩, hupd⟩ := Option.isSome_iff_exists.mp (receiveStateUpdate_isSome st.data laneState)
    simp [hupd]

/-- The messages loop never panics. -/
theorem receiveLoop_isSome :
    ∀ (messages : List (MessageNonce × MessagePayload)) (st : ReceiveState R),
      (receiveLoop cfg env relayer messages st).isSome
  | [], _ => rfl
  | (nonce, payload) :: rest, st => by
    cases hguard : (env.dispatchWeight nonce payload).anyGt st.dispatchWeightLeft with
    | true =>
      rw [receiveLoop_cons_of_anyGt hguard]
      rfl
    | false =>
      obtain ⟨st₁, h₁⟩ := Option.isSome_iff_exists.mp (receiveMessageStep_isSome hguard)
      rw [receiveLoop_cons_of_not_anyGt hguard, h₁, Option.bind_some]
      exact receiveLoop_isSome rest st₁

/-- The lanes loop never panics. -/
theorem receiveLanes_isSome :
    ∀ (lanes : List (LaneId × ProvedLaneMessages)) (st : ReceivedLanes R),
      (receiveLanes cfg env relayer lanes st).isSome
  | [], _ => rfl
  | (laneId, lm) :: rest, st => by
    obtain ⟨laneSt, henter⟩ := Option.isSome_iff_exists.mp (enterLane_isSome lm (st.laneState laneId))
    obtain ⟨res, hloop⟩ := Option.isSome_iff_exists.mp
      (receiveLoop_isSome lm.messages laneSt : (receiveLoop cfg env relayer lm.messages laneSt).isSome)
    rw [receiveLanes_cons_of_loop henter hloop]
    cases res with
    | error e => rfl
    | ok lane => exact receiveLanes_isSome rest _

/-- `receive_messages_proof` never panics, whatever the proof and the dispatcher. -/
theorem receiveMessagesProof_isSome (lanes : LaneId → InboundLaneData R)
    (proof : Except VerificationError ProvedMessages) (messagesCount : BitVec 32)
    (dispatchWeight : Weight) :
    (receiveMessagesProof cfg env lanes relayer proof messagesCount dispatchWeight).isSome := by
  unfold receiveMessagesProof
  split
  · rfl
  split
  · rfl
  split
  · rfl
  split
  · rfl
  · exact receiveLanes_isSome _ _

end Returns

/-! ## When the call fails for its dispatch weight -/

section Stalls

/-- The loop over `messages` from `st` reaches a message whose dispatch weight exceeds what is
left: the messages before it are received, leaving `st'`. -/
def LoopStalls (cfg : MessagesConfig) (env : TargetEnv) (relayer : R)
    (messages : List (MessageNonce × MessagePayload)) (st : ReceiveState R) : Prop :=
  ∃ pre m post st', messages = pre ++ m :: post ∧
    receiveLoop cfg env relayer pre st = some (.ok st') ∧
    (env.dispatchWeight m.1 m.2).anyGt st'.dispatchWeightLeft = true

/-- The loop over `lanes` from `st` reaches, in some lane, a message whose dispatch weight
exceeds what is left: the lanes before it are received, and the loop over its messages stalls. -/
def LanesStall (cfg : MessagesConfig) (env : TargetEnv) (relayer : R)
    (lanes : List (LaneId × ProvedLaneMessages)) (st : ReceivedLanes R) : Prop :=
  ∃ pre lane post st' laneSt, lanes = pre ++ lane :: post ∧
    receiveLanes cfg env relayer pre st = some (.ok st') ∧
    enterLane env lane.2 (st'.laneState lane.1) = some laneSt ∧
    LoopStalls cfg env relayer lane.2.messages laneSt

variable {nonce : MessageNonce} {payload : MessagePayload}
  {rest : List (MessageNonce × MessagePayload)} {st st₁ : ReceiveState R}

/-- A loop over no messages does not stall. -/
theorem loopStalls_nil : ¬LoopStalls cfg env relayer [] st := by
  rintro ⟨pre, m, post, st', hnil, -⟩
  simp at hnil

/-- A loop stalls at a message that needs more dispatch weight than is left. -/
theorem loopStalls_cons_of_anyGt
    (hguard : (env.dispatchWeight nonce payload).anyGt st.dispatchWeightLeft = true) :
    LoopStalls cfg env relayer ((nonce, payload) :: rest) st :=
  ⟨[], (nonce, payload), rest, st, rfl, rfl, hguard⟩

/-- Past a message within what is left, the loop stalls where it stalls from the next state. -/
theorem loopStalls_cons_iff
    (hguard : (env.dispatchWeight nonce payload).anyGt st.dispatchWeightLeft = false)
    (hstep : receiveMessageStep cfg env relayer nonce payload st = some st₁) :
    LoopStalls cfg env relayer ((nonce, payload) :: rest) st ↔
      LoopStalls cfg env relayer rest st₁ := by
  have hcons : ∀ pre, receiveLoop cfg env relayer ((nonce, payload) :: pre) st =
      receiveLoop cfg env relayer pre st₁ := by
    intro pre
    rw [receiveLoop_cons_of_not_anyGt hguard, hstep, Option.bind_some]
  constructor
  · rintro ⟨pre, m, post, st', heq, hpre, hgt⟩
    cases pre with
    | nil =>
      cases hpre
      cases heq
      rw [hguard] at hgt
      cases hgt
    | cons x pre =>
      obtain ⟨rfl, rfl⟩ := List.cons_eq_cons.mp heq
      exact ⟨pre, m, post, st', rfl, (hcons pre) ▸ hpre, hgt⟩
  · rintro ⟨pre, m, post, st', rfl, hpre, hgt⟩
    exact ⟨(nonce, payload) :: pre, m, post, st', rfl, (hcons pre).symm ▸ hpre, hgt⟩

/-- The loop over a lane's messages fails only for too little dispatch weight, and exactly when
it reaches a message heavier than what is left. The induction is on the messages. -/
theorem receiveLoop_error_iff {e : MessagesError} :
    ∀ {messages : List (MessageNonce × MessagePayload)} {st : ReceiveState R},
      receiveLoop cfg env relayer messages st = some (.error e) ↔
        e = .insufficientDispatchWeight ∧ LoopStalls cfg env relayer messages st
  | [], st => by
    constructor
    · intro h
      cases h
    · rintro ⟨-, hstall⟩
      exact absurd hstall loopStalls_nil
  | (nonce, payload) :: rest, st => by
    cases hguard : (env.dispatchWeight nonce payload).anyGt st.dispatchWeightLeft with
    | true =>
      rw [receiveLoop_cons_of_anyGt hguard]
      constructor
      · intro h
        cases h
        exact ⟨rfl, loopStalls_cons_of_anyGt hguard⟩
      · rintro ⟨rfl, -⟩
        rfl
    | false =>
      obtain ⟨st₁, hstep⟩ := Option.isSome_iff_exists.mp (receiveMessageStep_isSome hguard)
      rw [receiveLoop_cons_of_not_anyGt hguard, hstep, Option.bind_some,
        loopStalls_cons_iff hguard hstep]
      exact receiveLoop_error_iff

variable {laneId : LaneId} {lm : ProvedLaneMessages} {lanes : List (LaneId × ProvedLaneMessages)}
  {sts : ReceivedLanes R}

/-- A loop over no lanes does not stall. -/
theorem lanesStall_nil : ¬LanesStall cfg env relayer [] sts := by
  rintro ⟨pre, lane, post, st', laneSt, hnil, -⟩
  simp at hnil

/-- Past a lane received in full, the loop over the lanes stalls where it stalls from the
stored lane. -/
theorem lanesStall_cons_iff {laneSt lane : ReceiveState R}
    (henter : enterLane env lm (sts.laneState laneId) = some laneSt)
    (hloop : receiveLoop cfg env relayer lm.messages laneSt = some (.ok lane)) :
    LanesStall cfg env relayer ((laneId, lm) :: lanes) sts ↔
      LanesStall cfg env relayer lanes (sts.leaveLane laneId lane) := by
  have hcons : ∀ pre, receiveLanes cfg env relayer ((laneId, lm) :: pre) sts =
      receiveLanes cfg env relayer pre (sts.leaveLane laneId lane) :=
    fun _ => receiveLanes_cons_of_loop henter hloop
  constructor
  · rintro ⟨pre, l, post, st', laneSt', heq, hpre, henter', hstall⟩
    cases pre with
    | nil =>
      -- the stalling lane would be this one, whose loop went through
      cases hpre
      cases heq
      rw [henter] at henter'
      cases henter'
      have herr := receiveLoop_error_iff.mpr ⟨rfl, hstall⟩
      rw [hloop] at herr
      cases herr
    | cons x pre =>
      obtain ⟨rfl, rfl⟩ := List.cons_eq_cons.mp heq
      exact ⟨pre, l, post, st', laneSt', rfl, (hcons pre) ▸ hpre, henter', hstall⟩
  · rintro ⟨pre, l, post, st', laneSt', rfl, hpre, henter', hstall⟩
    exact ⟨(laneId, lm) :: pre, l, post, st', laneSt', rfl, (hcons pre).symm ▸ hpre, henter',
      hstall⟩

/-- The loop over the lanes fails only for too little dispatch weight, and exactly when it
reaches, in some lane, a message heavier than what is left. The induction is on the lanes. -/
theorem receiveLanes_error_iff {e : MessagesError} :
    ∀ {lanes : List (LaneId × ProvedLaneMessages)} {sts : ReceivedLanes R},
      receiveLanes cfg env relayer lanes sts = some (.error e) ↔
        e = .insufficientDispatchWeight ∧ LanesStall cfg env relayer lanes sts
  | [], sts => by
    constructor
    · intro h
      cases h
    · rintro ⟨-, hstall⟩
      exact absurd hstall lanesStall_nil
  | (laneId, lm) :: rest, sts => by
    obtain ⟨laneSt, henter⟩ := Option.isSome_iff_exists.mp (enterLane_isSome lm (sts.laneState laneId))
    obtain ⟨res, hloop⟩ := Option.isSome_iff_exists.mp
      (receiveLoop_isSome lm.messages laneSt : (receiveLoop cfg env relayer lm.messages laneSt).isSome)
    rw [receiveLanes_cons_of_loop henter hloop]
    cases res with
    | error e' =>
      obtain ⟨rfl, hstall⟩ := receiveLoop_error_iff.mp hloop
      have hlanes : LanesStall cfg env relayer ((laneId, lm) :: rest) sts :=
        ⟨[], (laneId, lm), rest, sts, laneSt, rfl, rfl, henter, hstall⟩
      constructor
      · intro h
        cases h
        exact ⟨rfl, hlanes⟩
      · rintro ⟨rfl, -⟩
        rfl
    | ok lane =>
      rw [lanesStall_cons_iff henter hloop]
      exact receiveLanes_error_iff

/-- **`InsufficientDispatchWeight`, exactly.** The call fails for too little dispatch weight
exactly when it passes its checks, its proof verifies, and its loop over the lanes reaches a
message whose dispatch weight exceeds what is left. -/
theorem receiveMessagesProof_insufficient_iff {lanes : LaneId → InboundLaneData R}
    {proof : Except VerificationError ProvedMessages} {messagesCount : BitVec 32}
    {dispatchWeight : Weight} :
    receiveMessagesProof cfg env lanes relayer proof messagesCount dispatchWeight =
        some (.error .insufficientDispatchWeight) ↔
      env.halted = false ∧ messagesCount.setWidth 64 ≤ cfg.maxUnconfirmedMessages ∧
        env.dispatchIsActive = true ∧ ∃ messages, proof = .ok messages ∧
          LanesStall cfg env relayer messages.entries
            ⟨lanes, dispatchWeight, env.declaredWeight, []⟩ := by
  unfold receiveMessagesProof
  cases hhalted : env.halted
  · by_cases hcount : cfg.maxUnconfirmedMessages < messagesCount.setWidth 64
    · simp [hcount]
    · cases hactive : env.dispatchIsActive
      · simp [hcount]
      · cases proof with
        | error err => simp [hcount]
        | ok messages =>
          simp only [hcount, Bool.false_eq_true, if_false, Bool.not_true, true_and,
            BitVec.not_lt.mp hcount, Except.ok.injEq, exists_eq_left']
          exact receiveLanes_error_iff.trans (and_iff_right rfl)
  · simp

end Stalls

/-! ## What the call charges -/

section Within

variable {nonce : MessageNonce} {payload : MessagePayload}

/-- The loop over a lane's messages raises neither the dispatch weight left nor the actual
weight. -/
theorem receiveLoop_weights :
    ∀ {messages : List (MessageNonce × MessagePayload)} {st st' : ReceiveState R},
      receiveLoop cfg env relayer messages st = some (.ok st') →
      st'.dispatchWeightLeft.allLte st.dispatchWeightLeft = true ∧
        st'.actualWeight.allLte st.actualWeight = true
  | [], st, st', h => by
    cases h
    exact ⟨Weight.allLte_refl _, Weight.allLte_refl _⟩
  | (nonce, payload) :: rest, st, st', h => by
    cases hguard : (env.dispatchWeight nonce payload).anyGt st.dispatchWeightLeft with
    | true =>
      rw [receiveLoop_cons_of_anyGt hguard] at h
      cases h
    | false =>
      rw [receiveLoop_cons_of_not_anyGt hguard] at h
      obtain ⟨st₁, hstep, h⟩ := Option.bind_eq_some_iff.mp h
      obtain ⟨-, -, -, hleft, hactual⟩ := receiveMessageStep_eq_some hstep
      obtain ⟨hleft', hactual'⟩ := receiveLoop_weights h
      exact ⟨Weight.allLte_trans hleft' hleft, Weight.allLte_trans hactual' hactual⟩

/-- The loop over the lanes raises neither weight either. -/
theorem receiveLanes_weights :
    ∀ {lanes : List (LaneId × ProvedLaneMessages)} {sts sts' : ReceivedLanes R},
      receiveLanes cfg env relayer lanes sts = some (.ok sts') →
      sts'.dispatchWeightLeft.allLte sts.dispatchWeightLeft = true ∧
        sts'.actualWeight.allLte sts.actualWeight = true
  | [], sts, sts', h => by
    cases h
    exact ⟨Weight.allLte_refl _, Weight.allLte_refl _⟩
  | (laneId, lm) :: rest, sts, sts', h => by
    obtain ⟨laneSt, henter, ⟨e, -, hcontra⟩ | ⟨lane, hloop, h⟩⟩ := receiveLanes_cons_eq_some h
    · cases hcontra
    obtain ⟨-, hleft₀, -, hactual₀⟩ := enterLane_eq_some henter
    obtain ⟨hleft₁, hactual₁⟩ := receiveLoop_weights hloop
    obtain ⟨hleft₂, hactual₂⟩ := receiveLanes_weights h
    -- entering the lane keeps what is left, and lowers the proof size only
    rw [hleft₀] at hleft₁
    exact ⟨Weight.allLte_trans hleft₂ hleft₁,
      Weight.allLte_trans hactual₂ (Weight.allLte_trans hactual₁ hactual₀)⟩

/-- **No over-charge.** What a call that succeeds returns keeps within what was declared: its
actual weight within the declared weight, and the dispatch weight left within the declared
dispatch weight. -/
theorem receiveMessagesProof_within {lanes : LaneId → InboundLaneData R}
    {proof : Except VerificationError ProvedMessages} {messagesCount : BitVec 32}
    {dispatchWeight : Weight} {st : ReceivedLanes R}
    (h : receiveMessagesProof cfg env lanes relayer proof messagesCount dispatchWeight =
      some (.ok st)) :
    st.actualWeight.allLte env.declaredWeight = true ∧
      st.dispatchWeightLeft.allLte dispatchWeight = true := by
  obtain ⟨messages, -, hlanes⟩ := receiveMessagesProof_ok h
  obtain ⟨hleft, hactual⟩ := receiveLanes_weights hlanes
  exact ⟨hactual, hleft⟩

end Within

/-! ## The dispatch weight of the call -/

/-- What `receive_messages_proof` guarantees of its weights: it returns, so no checked
subtraction of its weights underflows; it fails for too little dispatch weight exactly when its
loop reaches a message heavier than what is left; and what it returns keeps within what was
declared. -/
structure DispatchWeightAccounting (cfg : MessagesConfig) (env : TargetEnv)
    (lanes : LaneId → InboundLaneData R) (relayer : R)
    (proof : Except VerificationError ProvedMessages) (messagesCount : BitVec 32)
    (dispatchWeight : Weight) : Prop where
  returns : (receiveMessagesProof cfg env lanes relayer proof messagesCount dispatchWeight).isSome
  insufficient_iff :
    receiveMessagesProof cfg env lanes relayer proof messagesCount dispatchWeight =
        some (.error .insufficientDispatchWeight) ↔
      env.halted = false ∧ messagesCount.setWidth 64 ≤ cfg.maxUnconfirmedMessages ∧
        env.dispatchIsActive = true ∧ ∃ messages, proof = .ok messages ∧
          LanesStall cfg env relayer messages.entries
            ⟨lanes, dispatchWeight, env.declaredWeight, []⟩
  within : ∀ st, receiveMessagesProof cfg env lanes relayer proof messagesCount dispatchWeight =
      some (.ok st) →
    st.actualWeight.allLte env.declaredWeight = true ∧
      st.dispatchWeightLeft.allLte dispatchWeight = true

/-- **The dispatch weight of `receive_messages_proof`**, for every proof of any lanes, any
dispatch and unspent weights the dispatcher answers, and any declared weights. -/
theorem receiveMessagesProof_dispatch_weight (cfg : MessagesConfig) (env : TargetEnv)
    (lanes : LaneId → InboundLaneData R) (relayer : R)
    (proof : Except VerificationError ProvedMessages) (messagesCount : BitVec 32)
    (dispatchWeight : Weight) :
    DispatchWeightAccounting cfg env lanes relayer proof messagesCount dispatchWeight where
  returns := receiveMessagesProof_isSome lanes proof messagesCount dispatchWeight
  insufficient_iff := receiveMessagesProof_insufficient_iff
  within _ h := receiveMessagesProof_within h

end Cumulus.BridgeMessages
