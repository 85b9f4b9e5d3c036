import Cumulus.BridgeMessages.LaneInvariant
import Cumulus.Found.Run
import Mathlib.Data.List.Chain

/-!
# bridge messages: the two lanes over whole runs

The lane operations of `LaneInvariant` are each one step; here they run in any order and with any
arguments, from the default lane data.

* `InboundWf` — the target's lane data: the entries split the unconfirmed nonces into runs,
  neighbouring entries have different relayers, there are at most
  `max_unrewarded_relayer_entries` of them and at most `max_unconfirmed_messages` unconfirmed
  nonces; `inboundWf_of_reachable` says every run keeps it, and `inboundLane_runs` reads off it
  what the lane's users rely on, down to the source's check of a delivery proof passing;
* `OutboundWf` — the source's lane data: pruned, received and generated nonces in order, and a
  message stored at exactly the unpruned generated nonces; `outboundWf_of_runSteps` for runs
  whose pruning is charged a positive write weight, `pruneMessages_within_budget` for the weight
  of one pruning and `pruneMessages_isSome` for its fuel, gathered in `outboundLane_runs`. With a
  write weight of zero, pruning removes messages but does not write `oldest_unpruned_nonce`
  (`pruneMessages_zero_write_weight`).
-/

namespace Cumulus.BridgeMessages

open Cumulus.Primitives Cumulus.Found

variable {R : Type}

/-! ## Runs of nonces -/

/-- Runs that split `start, …, stop - 1` start no later than they stop. -/
theorem Covers.le {start stop : Nat} {rels : List (UnrewardedRelayer R)} (h : Covers start stop rels) :
    start ≤ stop := by
  induction rels generalizing start with
  | nil => exact le_of_eq h
  | cons e es ih =>
    obtain ⟨hb, hle, hes⟩ := h
    have := ih hes
    rw [BitVec.le_def] at hle
    omega

/-- Every run of a split is non-empty. -/
theorem Covers.nonempty {start stop : Nat} {rels : List (UnrewardedRelayer R)}
    (h : Covers start stop rels) : ∀ e ∈ rels, e.messages.begin ≤ e.messages.«end» := by
  induction rels generalizing start with
  | nil => intro e he; cases he
  | cons e es ih =>
    obtain ⟨-, hle, hes⟩ := h
    intro e' he'
    rcases List.mem_cons.mp he' with rfl | he'
    · exact hle
    · exact ih hes e' he'

/-- Each run begins just after the one before it. -/
theorem Covers.consecutive {start stop : Nat} {rels : List (UnrewardedRelayer R)}
    (h : Covers start stop rels) :
    rels.IsChain fun a b => b.messages.begin.toNat = a.messages.«end».toNat + 1 := by
  induction rels generalizing start with
  | nil => exact .nil
  | cons e es ih =>
    obtain ⟨-, -, hes⟩ := h
    refine List.isChain_cons.mpr ⟨fun e' he' => ?_, ih hes⟩
    cases es with
    | nil => cases he'
    | cons e'' es =>
      cases he'
      exact hes.1

/-- The source's check of the entries of a delivery proof passes on runs that end by
`latest_received_nonce`; `expected` is the begin the loop expects of the next entry. The
induction is on the runs. -/
theorem ensureRelayersLoop_covers (latest : MessageNonce) :
    ∀ {start stop : Nat} {rels : List (UnrewardedRelayer R)} {expected : Option MessageNonce},
      Covers start stop rels → stop ≤ latest.toNat + 1 →
      (∀ e ∈ rels.head?, expected = some e.messages.begin) →
      ensureRelayersLoop latest expected rels = .ok ()
  | _, _, [], _, _, _, _ => rfl
  | _, stop, e :: es, expected, ⟨_, hle, hes⟩, hstop, hexp => by
    have hend : e.messages.«end».toNat + 1 ≤ stop := hes.le
    have hexp : expected = some e.messages.begin := hexp e rfl
    unfold ensureRelayersLoop
    rw [if_neg (BitVec.not_lt.mpr hle), if_neg (by simp [hexp]),
      if_neg (by rw [BitVec.lt_def]; omega)]
    apply ensureRelayersLoop_covers latest hes hstop
    -- the next run begins at `end + 1`, which is a `u64`
    intro e' he'
    cases es with
    | nil => cases he'
    | cons e'' es =>
      cases he'
      have hb : e'.messages.begin.toNat = e.messages.«end».toNat + 1 := hes.1
      have h1 : (1 : MessageNonce).toNat = 1 := rfl
      have hlt : e.messages.«end».toNat + (1 : MessageNonce).toNat < 2 ^ 64 := by
        have := e'.messages.begin.isLt
        omega
      rw [checkedAdd_of_lt hlt]
      congr 1
      apply BitVec.eq_of_toNat_eq
      rw [BitVec.toNat_add_of_lt hlt, hb]
      rfl

/-! ## The inbound lane -/

section Inbound

variable [DecidableEq R]

/-- A call on the target's inbound lane. -/
inductive InboundLaneCall (R : Type) where
  /-- `receive_message(relayer_at_bridged_chain, nonce, message_data)`. -/
  | receiveMessage (relayer : R) (nonce : MessageNonce) (payload : MessagePayload)
  /-- `receive_state_update(outbound_lane_data)`. -/
  | receiveStateUpdate (outboundLaneData : OutboundLaneData)

/-- One call on the inbound lane's data, under the lane's bounds and a dispatcher. -/
def inboundLaneStep (maxEntries maxUnconfirmed : MessageNonce)
    (dispatch : MessageNonce → MessagePayload → Weight) (data : InboundLaneData R) :
    InboundLaneCall R → Option (InboundLaneData R)
  | .receiveMessage relayer nonce payload =>
    (InboundLane.receiveMessage maxEntries maxUnconfirmed dispatch data relayer nonce payload).map
      Prod.snd
  | .receiveStateUpdate outboundLaneData =>
    (InboundLane.receiveStateUpdate data outboundLaneData).map Prod.snd

/-- The target's lane data as its operations keep it: the entries split the unconfirmed nonces
into runs, neighbouring entries have different relayers, and both bounds hold. -/
structure InboundWf (maxEntries maxUnconfirmed : MessageNonce) (data : InboundLaneData R) :
    Prop where
  runs : TargetWf data
  distinct : (data.relayers.map (·.relayer)).IsChain (· ≠ ·)
  entries_le : data.relayers.length ≤ maxEntries.toNat
  unconfirmed_le :
    data.lastDeliveredNonce.toNat - data.lastConfirmedNonce.toNat ≤ maxUnconfirmed.toNat

variable {maxEntries maxUnconfirmed : MessageNonce} {dispatch : MessageNonce → MessagePayload → Weight}
  {data data' : InboundLaneData R}

omit [DecidableEq R] in
/-- The default lane data satisfies the target's invariant. -/
theorem inboundWf_default : InboundWf maxEntries maxUnconfirmed (InboundLaneData.default : InboundLaneData R) :=
  ⟨targetWf_default, .nil, Nat.zero_le _, by simp [InboundLaneData.default, InboundLaneData.lastDeliveredNonce]⟩

/-- What `receive_message` checked and did to the relayers when it dispatched: the entries and
the unconfirmed nonces were within their bounds, and the relayers of the entries stay, or gain
the delivering relayer at the end, when it did not deliver the last entry. -/
theorem receiveMessage_dispatched {relayer : R} {nonce : MessageNonce} {payload : MessagePayload}
    {u : Weight}
    (h : InboundLane.receiveMessage maxEntries maxUnconfirmed dispatch data relayer nonce payload =
      some (.dispatched u, data')) :
    BitVec.ofNat 64 data.relayers.length < maxEntries ∧
      saturatingSub nonce data.lastConfirmedNonce ≤ maxUnconfirmed ∧
      (data'.relayers.map (·.relayer) = data.relayers.map (·.relayer) ∨
        (∀ r ∈ (data.relayers.map (·.relayer)).getLast?, r ≠ relayer) ∧
          data'.relayers.map (·.relayer) = data.relayers.map (·.relayer) ++ [relayer]) := by
  unfold InboundLane.receiveMessage at h
  split at h
  · cases h
  split at h
  · cases h
  split at h
  · cases h
  next hentries hunconfirmed =>
  refine ⟨BitVec.not_le.mp hentries, BitVec.not_lt.mp hunconfirmed, ?_⟩
  dsimp only at h
  split at h
  · next entry hlast =>
    split at h
    · -- the relayer of the last entry delivered again: the entry grows
      next hsame =>
      obtain ⟨messages, -, h⟩ := Option.bind_eq_some_iff.mp h
      cases h
      left
      conv_rhs => rw [← List.dropLast_append_getLast? _ hlast]
      simp [hsame]
    · next hother =>
      cases h
      right
      refine ⟨fun r hr => ?_, by simp⟩
      rw [List.getLast?_map, hlast] at hr
      cases hr
      exact hother
  · next hlast =>
    cases h
    right
    refine ⟨fun r hr => ?_, by simp⟩
    rw [List.getLast?_map, hlast] at hr
    cases hr

omit [DecidableEq R] in
/-- What `receive_state_update` did: nothing, or confirm more than before, keeping a suffix of
the entries' relayers. -/
theorem receiveStateUpdate_cases {o : OutboundLaneData} {r : Option MessageNonce}
    (h : InboundLane.receiveStateUpdate data o = some (r, data')) :
    (r = none ∧ data' = data) ∨
      (r = some o.latestReceivedNonce ∧ data.lastConfirmedNonce < o.latestReceivedNonce ∧
        data'.relayers.map (·.relayer) <:+ data.relayers.map (·.relayer)) := by
  unfold InboundLane.receiveStateUpdate at h
  dsimp only at h
  split at h
  · cases h
    exact .inl ⟨rfl, rfl⟩
  split at h
  · cases h
    exact .inl ⟨rfl, rfl⟩
  next hnle =>
  have hsuffix : ((data.relayers.dropWhile fun entry =>
      decide (entry.messages.«end» ≤ o.latestReceivedNonce)).map (·.relayer)) <:+
      data.relayers.map (·.relayer) :=
    (List.dropWhile_suffix _).map _
  split at h
  · next entry rest hrest =>
    rw [hrest] at hsuffix
    split at h
    · -- the first entry left keeps its relayer when it is cut
      obtain ⟨b, -, h⟩ := Option.bind_eq_some_iff.mp h
      cases h
      exact .inr ⟨rfl, BitVec.not_le.mp hnle, hsuffix⟩
    · cases h
      exact .inr ⟨rfl, BitVec.not_le.mp hnle, hsuffix⟩
  · next hrest =>
    cases h
    exact .inr ⟨rfl, BitVec.not_le.mp hnle, List.nil_suffix⟩

/-- `receive_message` keeps the invariant. -/
theorem InboundWf.receiveMessage (hwf : InboundWf maxEntries maxUnconfirmed data) {relayer : R}
    {nonce : MessageNonce} {payload : MessagePayload} {res : ReceivalResult}
    (h : InboundLane.receiveMessage maxEntries maxUnconfirmed dispatch data relayer nonce payload =
      some (res, data')) :
    InboundWf maxEntries maxUnconfirmed data' := by
  rcases receiveMessage_cases h hwf.runs with ⟨u, rfl, hnonce, hruns, hconfirmed, hdelivered⟩ |
    ⟨-, rfl⟩
  · obtain ⟨hentries, hunconfirmed, hrelayers⟩ := receiveMessage_dispatched h
    -- the count of entries is a `u64` below the bound
    have hlen : data.relayers.length < maxEntries.toNat := by
      have := hwf.entries_le
      have := maxEntries.isLt
      rw [BitVec.lt_def, BitVec.toNat_ofNat, Nat.mod_eq_of_lt (by omega)] at hentries
      exact hentries
    refine ⟨hruns, ?_, ?_, ?_⟩
    · rcases hrelayers with hsame | ⟨hlast, happend⟩
      · rw [hsame]
        exact hwf.distinct
      · rw [happend]
        exact hwf.distinct.append (.singleton _) (fun x hx y hy => by
          cases hy
          exact hlast x hx)
    · rcases hrelayers with hsame | ⟨-, happend⟩
      · have := congrArg List.length hsame
        simp only [List.length_map] at this
        omega
      · have := congrArg List.length happend
        simp only [List.length_map, List.length_append, List.length_singleton] at this
        omega
    · rw [hconfirmed, hdelivered]
      rw [BitVec.le_def, toNat_saturatingSub] at hunconfirmed
      exact hunconfirmed
  · exact hwf

omit [DecidableEq R] in
/-- `receive_state_update` keeps the invariant. -/
theorem InboundWf.receiveStateUpdate (hwf : InboundWf maxEntries maxUnconfirmed data)
    {o : OutboundLaneData} {r : Option MessageNonce}
    (h : InboundLane.receiveStateUpdate data o = some (r, data')) :
    InboundWf maxEntries maxUnconfirmed data' := by
  obtain ⟨hruns, hdelivered, hconfirmed⟩ := receiveStateUpdate_spec h hwf.runs
  rcases receiveStateUpdate_cases h with ⟨-, rfl⟩ | ⟨-, hlt, hsuffix⟩
  · exact hwf
  · refine ⟨hruns, hwf.distinct.suffix hsuffix, ?_, ?_⟩
    · have := hsuffix.length_le
      simp only [List.length_map] at this
      exact this.trans hwf.entries_le
    · -- more is confirmed, the same is delivered
      have := hwf.unconfirmed_le
      rw [hdelivered]
      rcases hconfirmed with hc | hc <;> rw [hc] <;> rw [BitVec.lt_def] at hlt <;> omega

/-- Every operation of the inbound lane keeps the target's invariant. -/
theorem inboundLaneStep_wf (hwf : InboundWf maxEntries maxUnconfirmed data)
    {call : InboundLaneCall R}
    (h : inboundLaneStep maxEntries maxUnconfirmed dispatch data call = some data') :
    InboundWf maxEntries maxUnconfirmed data' := by
  cases call with
  | receiveMessage relayer nonce payload =>
    obtain ⟨⟨res, _⟩, hr, rfl⟩ := Option.map_eq_some_iff.mp h
    exact hwf.receiveMessage hr
  | receiveStateUpdate o =>
    obtain ⟨⟨r, _⟩, hr, rfl⟩ := Option.map_eq_some_iff.mp h
    exact hwf.receiveStateUpdate hr

/-- Every run of the inbound lane from the default data keeps the invariant. -/
theorem inboundWf_of_reachable
    (h : Reachable (inboundLaneStep maxEntries maxUnconfirmed dispatch)
      InboundLaneData.default data) :
    InboundWf maxEntries maxUnconfirmed data :=
  h.invariant inboundWf_default fun _ _ _ hwf hs => inboundLaneStep_wf hwf hs

/-! ### What the lane's users rely on -/

omit [DecidableEq R] in
/-- The first entry begins just after the confirmed nonce. -/
theorem TargetWf.front (h : TargetWf data) :
    ∀ e ∈ data.relayers.head?, e.messages.begin.toNat = data.lastConfirmedNonce.toNat + 1 := by
  intro e he
  obtain ⟨relayers, lastConfirmedNonce⟩ := data
  cases relayers with
  | nil => cases he
  | cons e' es =>
    cases he
    exact h.1

omit [DecidableEq R] in
/-- `total_unrewarded_messages` counts the nonces delivered and not confirmed. -/
theorem TargetWf.totalUnrewardedMessages (h : TargetWf data) :
    data.totalUnrewardedMessages.toNat = data.lastDeliveredNonce.toNat - data.lastConfirmedNonce.toNat := by
  obtain ⟨relayers, lastConfirmedNonce⟩ := data
  cases relayers with
  | nil =>
    simp [InboundLaneData.totalUnrewardedMessages, InboundLaneData.lastDeliveredNonce]
  | cons e es =>
    obtain ⟨l, hlast⟩ : ∃ l, (e :: es).getLast? = some l :=
      Option.isSome_iff_exists.mp (by simp)
    have hdelivered : (⟨e :: es, lastConfirmedNonce⟩ : InboundLaneData R).lastDeliveredNonce =
        l.messages.«end» := by
      simp [InboundLaneData.lastDeliveredNonce, hlast]
    -- the runs go from `begin` of the first to `end` of the last, past the confirmed nonce
    have hruns : Covers (lastConfirmedNonce.toNat + 1) (l.messages.«end».toNat + 1) (e :: es) := by
      have := h
      unfold TargetWf at this
      rwa [hdelivered] at this
    have hfront : e.messages.begin.toNat = lastConfirmedNonce.toNat + 1 := hruns.1
    have hend : e.messages.«end».toNat + 1 ≤ l.messages.«end».toNat + 1 := hruns.2.2.le
    have hle : e.messages.begin ≤ e.messages.«end» := hruns.2.1
    rw [BitVec.le_def] at hle
    have hsub : checkedSub l.messages.«end» e.messages.begin =
        some (l.messages.«end» - e.messages.begin) := checkedSub_of_le (by omega)
    simp only [InboundLaneData.totalUnrewardedMessages, List.head?_cons, hlast, saturatingLen, hsub,
      hdelivered, toNat_saturatingAdd, BitVec.toNat_sub_of_le (BitVec.le_def.mpr (by omega :
        e.messages.begin.toNat ≤ l.messages.«end».toNat))]
    have h1 : (1 : MessageNonce).toNat = 1 := rfl
    have := l.messages.«end».isLt
    omega

omit [DecidableEq R] in
/-- The source's check of a delivery proof passes on the lane data. -/
theorem TargetWf.ensureRelayers_ok (h : TargetWf data) :
    ensureUnrewardedRelayersAreCorrect data.lastDeliveredNonce data.relayers = .ok () := by
  unfold ensureUnrewardedRelayersAreCorrect
  exact ensureRelayersLoop_covers _ h le_rfl fun e he => by
    rw [Option.mem_def] at he
    rw [he]
    rfl

/-- What the users of the inbound lane rely on: the entries form consecutive, non-empty runs
from `last_confirmed_nonce + 1`, neighbours delivered by different relayers, within both bounds,
counted by `total_unrewarded_messages` and accepted by the source's check; and the next call
moves neither nonce back and, when it does not dispatch or update, changes nothing. -/
structure InboundLaneGuarantees (maxEntries maxUnconfirmed : MessageNonce)
    (dispatch : MessageNonce → MessagePayload → Weight) (data : InboundLaneData R) : Prop where
  front : ∀ e ∈ data.relayers.head?, e.messages.begin.toNat = data.lastConfirmedNonce.toNat + 1
  nonempty : ∀ e ∈ data.relayers, e.messages.begin ≤ e.messages.«end»
  consecutive : data.relayers.IsChain fun a b =>
    b.messages.begin.toNat = a.messages.«end».toNat + 1
  distinct : data.relayers.IsChain fun a b => a.relayer ≠ b.relayer
  entries_le : data.relayers.length ≤ maxEntries.toNat
  unconfirmed_le :
    data.lastDeliveredNonce.toNat - data.lastConfirmedNonce.toNat ≤ maxUnconfirmed.toNat
  total : data.totalUnrewardedMessages.toNat =
    data.lastDeliveredNonce.toNat - data.lastConfirmedNonce.toNat
  sourceCheck : ensureUnrewardedRelayersAreCorrect data.lastDeliveredNonce data.relayers = .ok ()
  receiveMessage : ∀ relayer nonce payload res data',
    InboundLane.receiveMessage maxEntries maxUnconfirmed dispatch data relayer nonce payload =
      some (res, data') →
    ((∀ u, res ≠ .dispatched u) → data' = data) ∧
      data.lastConfirmedNonce ≤ data'.lastConfirmedNonce ∧
      data.lastDeliveredNonce ≤ data'.lastDeliveredNonce
  receiveStateUpdate : ∀ o r data', InboundLane.receiveStateUpdate data o = some (r, data') →
    (r = none → data' = data) ∧ data.lastConfirmedNonce ≤ data'.lastConfirmedNonce ∧
      data'.lastDeliveredNonce = data.lastDeliveredNonce

/-- **The inbound lane over every run.** From the default data, under any calls of
`receive_message` and `receive_state_update`, with any relayers, nonces, payloads and source
states, the lane data keeps its runs, its bounds and the source's check. -/
theorem inboundLane_runs
    (h : Reachable (inboundLaneStep maxEntries maxUnconfirmed dispatch) InboundLaneData.default data) :
    InboundLaneGuarantees maxEntries maxUnconfirmed dispatch data := by
  have hwf := inboundWf_of_reachable h
  refine ⟨hwf.runs.front, hwf.runs.nonempty, hwf.runs.consecutive,
    (List.isChain_map _).mp hwf.distinct, hwf.entries_le, hwf.unconfirmed_le,
    hwf.runs.totalUnrewardedMessages, hwf.runs.ensureRelayers_ok, ?_, ?_⟩
  · intro relayer nonce payload res data' hr
    rcases receiveMessage_cases hr hwf.runs with ⟨u, rfl, hnonce, -, hconfirmed, hdelivered⟩ |
      ⟨hnot, rfl⟩
    · refine ⟨fun hne => absurd rfl (hne u), ?_, ?_⟩
      · rw [hconfirmed]
        exact BitVec.le_refl _
      rw [hdelivered, BitVec.le_def]
      omega
    · exact ⟨fun _ => rfl, BitVec.le_refl _, BitVec.le_refl _⟩
  · intro o r data' hr
    obtain ⟨-, hdelivered, -⟩ := receiveStateUpdate_spec hr hwf.runs
    rcases receiveStateUpdate_cases hr with ⟨-, rfl⟩ | ⟨rfl, hlt, -⟩
    · exact ⟨fun _ => rfl, BitVec.le_refl _, rfl⟩
    · -- the update confirms the source's `latest_received_nonce`
      obtain ⟨-, -, hconfirmed⟩ := receiveStateUpdate_spec hr hwf.runs
      refine ⟨fun hnone => absurd hnone (Option.some_ne_none _), ?_, hdelivered⟩
      rcases hconfirmed with hc | hc <;> rw [hc]
      · exact BitVec.le_refl _
      · exact BitVec.le_of_lt hlt

/-- Relayer 1 delivers nonces 1 and 2, relayer 2 nonce 3, and a messages proof then carries the
source's state with nonce 1 received. -/
def inboundLaneCalls : List (InboundLaneCall Nat) :=
  [.receiveMessage 1 1 [], .receiveMessage 1 2 [], .receiveMessage 2 3 [],
    .receiveStateUpdate ⟨1, 1, 3⟩]

/-- Some reachable lane data has the inbound lane's guarantees. -/
theorem inboundLane_runs_of_calls :
    ∃ data : InboundLaneData Nat,
      Reachable (inboundLaneStep 4 8 fun _ _ => Weight.zero) InboundLaneData.default data ∧
      InboundLaneGuarantees 4 8 (fun _ _ => Weight.zero) data := by
  have hr := Reachable.of_runSteps (rfl : runSteps (inboundLaneStep 4 8 fun _ _ => Weight.zero)
    InboundLaneData.default inboundLaneCalls = some ⟨[⟨1, ⟨2, 2⟩⟩, ⟨2, ⟨3, 3⟩⟩], 1⟩)
  exact ⟨_, hr, inboundLane_runs hr⟩

end Inbound

/-! ## The outbound lane -/

section Outbound

/-- A call on the source's outbound lane. -/
inductive OutboundLaneCall (R : Type) where
  /-- `send_message(message_payload)`. -/
  | sendMessage (payload : MessagePayload)
  /-- `confirm_delivery(max_allowed_messages, latest_delivered_nonce, relayers)`. -/
  | confirmDelivery (maxAllowedMessages latestDeliveredNonce : MessageNonce)
      (relayers : List (UnrewardedRelayer R))
  /-- `prune_messages(db_weight, remaining_weight)`. -/
  | pruneMessages (dbWeight : RuntimeDbWeight) (remainingWeight : Weight)

/-- One call on the outbound lane's storage. A call that returns an error has written nothing:
`send_message` fails in `save_message`, before `set_data`, and `confirm_delivery` before its
`set_data`. -/
def outboundLaneStep (maximalOutboundPayloadSize : Nat) (s : OutboundLaneStorage) :
    OutboundLaneCall R → Option OutboundLaneStorage
  | .sendMessage payload =>
    (OutboundLane.sendMessage maximalOutboundPayloadSize s payload).map fun
      | .ok (_, s') => s'
      | .error _ => s
  | .confirmDelivery maxAllowedMessages latestDeliveredNonce relayers =>
    match OutboundLane.confirmDelivery s.data maxAllowedMessages latestDeliveredNonce relayers with
    | .ok (_, data) => some ⟨data, s.messages⟩
    | .error _ => some s
  | .pruneMessages dbWeight remainingWeight =>
    (OutboundLane.pruneMessages dbWeight s remainingWeight).map Prod.snd

/-- The calls whose pruning is charged a positive write weight. -/
def OutboundLaneCall.writesCost : OutboundLaneCall R → Bool
  | .pruneMessages dbWeight _ => dbWeight.write != 0
  | _ => true

/-- The source's lane storage as its operations keep it: pruned, received and generated nonces in
order, and a message stored at exactly the unpruned generated nonces. -/
structure OutboundWf (s : OutboundLaneStorage) : Prop where
  oldest_le : s.data.oldestUnprunedNonce.toNat ≤ s.data.latestReceivedNonce.toNat + 1
  received_le : s.data.latestReceivedNonce.toNat ≤ s.data.latestGeneratedNonce.toNat
  stored : ∀ n : MessageNonce, (s.messages n).isSome ↔
    s.data.oldestUnprunedNonce.toNat ≤ n.toNat ∧ n.toNat ≤ s.data.latestGeneratedNonce.toNat

/-- The empty lane storage satisfies the source's invariant. -/
theorem outboundWf_empty : OutboundWf OutboundLaneStorage.empty where
  oldest_le := by decide
  received_le := le_rfl
  stored n := by
    simp only [OutboundLaneStorage.empty, OutboundLaneData.default, Option.isSome_none,
      Bool.false_eq_true, false_iff]
    have h1 : (1 : MessageNonce).toNat = 1 := rfl
    have h0 : (0 : MessageNonce).toNat = 0 := rfl
    omega

variable {s s' : OutboundLaneStorage}

/-- `send_message` stores the payload at the next nonce. -/
theorem OutboundWf.sendMessage (hwf : OutboundWf s) {size : Nat} {payload : MessagePayload}
    {nonce : MessageNonce} (h : OutboundLane.sendMessage size s payload = some (.ok (nonce, s'))) :
    OutboundWf s' := by
  obtain ⟨hnonce, rfl⟩ := sendMessage_spec h
  have hold := hwf.oldest_le
  have hrecv := hwf.received_le
  refine ⟨hold, by dsimp only; omega, fun n => ?_⟩
  dsimp only
  by_cases hn : n = nonce
  · subst hn
    simp only [Function.update_self, Option.isSome_some, true_iff]
    omega
  · have hne : n.toNat ≠ nonce.toNat := fun h => hn (BitVec.eq_of_toNat_eq h)
    rw [Function.update_of_ne hn, hwf.stored n]
    omega

/-- `confirm_delivery` moves only `latest_received_nonce`, up to a generated nonce. -/
theorem OutboundWf.confirmDelivery (hwf : OutboundWf s) {maxAllowed delivered : MessageNonce}
    {relayers : List (UnrewardedRelayer R)} {res : Option DeliveredMessages}
    {data : OutboundLaneData}
    (h : OutboundLane.confirmDelivery s.data maxAllowed delivered relayers = .ok (res, data)) :
    OutboundWf ⟨data, s.messages⟩ := by
  rcases confirmDelivery_spec h with rfl | ⟨rfl, hle, hgen⟩
  · exact hwf
  · rw [BitVec.le_def] at hle hgen
    have hold := hwf.oldest_le
    exact ⟨by dsimp only; omega, hgen, hwf.stored⟩

/-- A pass of the pruning loop removes the oldest unpruned message, which has been received. -/
theorem pruneLoop_wf {writeWeight twoWritesWeight : Weight} :
    ∀ {fuel : Nat} {st out : PruneState},
      OutboundLane.pruneLoop writeWeight twoWritesWeight fuel st = some out →
      OutboundWf st.storage → OutboundWf out.storage
  | 0, _, _, h, _ => by cases h
  | fuel + 1, st, out, h, hwf => by
    rcases pruneLoop_succ_eq_some h with rfl | ⟨-, hle, spent, remaining, oldest, -, -, holdest, h⟩
    · exact hwf
    apply pruneLoop_wf h
    obtain ⟨-, hv⟩ := (checkedAdd_one_eq_some (by decide)).mp holdest
    rw [BitVec.le_def] at hle
    refine ⟨by dsimp only; omega, hwf.received_le, fun n => ?_⟩
    dsimp only
    by_cases hn : n = st.storage.data.oldestUnprunedNonce
    · subst hn
      simp only [Function.update_self, Option.isSome_none, Bool.false_eq_true, false_iff]
      omega
    · have hne : n.toNat ≠ st.storage.data.oldestUnprunedNonce.toNat :=
        fun h => hn (BitVec.eq_of_toNat_eq h)
      rw [Function.update_of_ne hn, hwf.stored n]
      omega

/-- Each pass charges `write_weight`: the loop made no pass, or spent at least one write's
reference time. -/
theorem pruneLoop_spent {writeWeight twoWritesWeight : Weight} :
    ∀ {fuel : Nat} {st out : PruneState},
      OutboundLane.pruneLoop writeWeight twoWritesWeight fuel st = some out →
      out = st ∨ st.spentWeight.refTime.toNat + writeWeight.refTime.toNat ≤
        out.spentWeight.refTime.toNat
  | 0, _, _, h => by cases h
  | fuel + 1, st, out, h => by
    rcases pruneLoop_succ_eq_some h with rfl | ⟨-, -, spent, remaining, oldest, hspent, -, -, h⟩
    · exact .inl rfl
    have hspent := (Weight.add_eq_some.mp hspent).2.2.1
    right
    rcases pruneLoop_spent h with rfl | hle
    · exact hspent.ge
    · dsimp only at hle
      omega

/-- The weight account of the pruning loop: what it has spent and what remains make up `budget`,
and once it has spent anything, one more write still fits. -/
structure PruneBudget (writeWeight budget : Weight) (st : PruneState) : Prop where
  refTime_eq :
    st.spentWeight.refTime.toNat + st.remainingWeight.refTime.toNat = budget.refTime.toNat
  proofSize_eq :
    st.spentWeight.proofSize.toNat + st.remainingWeight.proofSize.toNat = budget.proofSize.toNat
  reserve : st.spentWeight = Weight.zero ∨ writeWeight.allLte st.remainingWeight = true

/-- The pruning loop starts with its whole budget and nothing spent. -/
theorem pruneBudget_start (writeWeight budget : Weight) (storage : OutboundLaneStorage) :
    PruneBudget writeWeight budget ⟨storage, Weight.zero, budget⟩ :=
  ⟨by simp [Weight.zero], by simp [Weight.zero], .inl rfl⟩

/-- A pass moves one write from what remains to what is spent, and the guard's two writes of
headroom leave one. -/
theorem PruneBudget.pass {writeWeight twoWritesWeight budget spent remaining : Weight}
    {st : PruneState} (hb : PruneBudget writeWeight budget st)
    (htwo : writeWeight.add writeWeight = some twoWritesWeight)
    (hgas : st.remainingWeight.allGte twoWritesWeight = true)
    (hspent : st.spentWeight.add writeWeight = some spent)
    (hrem : st.remainingWeight.sub writeWeight = some remaining) (storage : OutboundLaneStorage) :
    PruneBudget writeWeight budget ⟨storage, spent, remaining⟩ := by
  have hr := hb.refTime_eq
  have hp := hb.proofSize_eq
  rw [Weight.add_eq_some] at htwo hspent
  rw [Weight.sub_eq_some] at hrem
  rw [Weight.allGte_eq_true] at hgas
  refine ⟨by dsimp only; omega, by dsimp only; omega, .inr ?_⟩
  dsimp only
  rw [Weight.allLte_eq_true]
  omega

/-- The pruning loop keeps its weight account, by induction on the fuel. -/
theorem pruneLoop_budget {writeWeight twoWritesWeight budget : Weight}
    (htwo : writeWeight.add writeWeight = some twoWritesWeight) :
    ∀ {fuel : Nat} {st out : PruneState},
      OutboundLane.pruneLoop writeWeight twoWritesWeight fuel st = some out →
      PruneBudget writeWeight budget st → PruneBudget writeWeight budget out
  | 0, _, _, h, _ => by cases h
  | fuel + 1, st, out, h, hb => by
    rcases pruneLoop_succ_eq_some h with rfl | ⟨hgas, -, spent, remaining, oldest, hspent, hrem, -, h⟩
    · exact hb
    · exact pruneLoop_budget htwo h (hb.pass htwo hgas hspent hrem _)

/-- **Pruning keeps within its budget**: the weight `prune_messages` returns, its passes and the
final write of the lane data, is at most the `remaining_weight` it was given. -/
theorem pruneMessages_within_budget {dbWeight : RuntimeDbWeight} {remainingWeight w : Weight}
    (h : OutboundLane.pruneMessages dbWeight s remainingWeight = some (w, s')) :
    w.allLte remainingWeight = true := by
  obtain ⟨two, out, htwo, hout, hres⟩ := pruneMessages_eq_some h
  have hb := pruneLoop_budget htwo hout (pruneBudget_start _ remainingWeight s)
  rcases hres with ⟨-, rfl, -⟩ | ⟨hspent, hadd, -⟩
  · exact Weight.zero_allLte _
  · -- the last pass left the final write's weight
    have hreserve := hb.reserve.resolve_left hspent
    have hr := hb.refTime_eq
    have hp := hb.proofSize_eq
    rw [Weight.add_eq_some] at hadd
    rw [Weight.allLte_eq_true] at hreserve ⊢
    omega

/-- One write costs the write weight in time. -/
theorem writes_one_refTime (dbWeight : RuntimeDbWeight) :
    (dbWeight.writes 1).refTime = dbWeight.write := by
  simp [RuntimeDbWeight.writes, Weight.fromParts, saturatingMul, dbWeight.write.isLt]

/-- With a positive write weight, `prune_messages` writes the lane data whenever it removed a
message, so it keeps the invariant. -/
theorem OutboundWf.pruneMessages (hwf : OutboundWf s) {dbWeight : RuntimeDbWeight}
    (hwrite : dbWeight.write ≠ 0) {remainingWeight w : Weight}
    (h : OutboundLane.pruneMessages dbWeight s remainingWeight = some (w, s')) :
    OutboundWf s' := by
  obtain ⟨two, out, -, hout, hres⟩ := pruneMessages_eq_some h
  rcases hres with ⟨hzero, -, rfl⟩ | ⟨-, -, rfl⟩
  · -- nothing was spent, so no pass was made
    have hpos : 0 < dbWeight.write.toNat := by
      rw [Nat.pos_iff_ne_zero]
      exact fun h0 => hwrite (BitVec.eq_of_toNat_eq h0)
    rcases pruneLoop_spent hout with rfl | hle
    · exact hwf
    · rw [hzero, writes_one_refTime] at hle
      simp [Weight.zero] at hle
      omega
  · exact pruneLoop_wf hout hwf

/-- Every call the invariant allows keeps it: a failed call writes nothing. -/
theorem outboundLaneStep_wf {size : Nat} {call : OutboundLaneCall R}
    (hcost : call.writesCost = true) (hwf : OutboundWf s)
    (h : outboundLaneStep size s call = some s') : OutboundWf s' := by
  cases call with
  | sendMessage payload =>
    obtain ⟨res, hr, hs'⟩ := Option.map_eq_some_iff.mp h
    rcases res with e | ⟨nonce, s''⟩
    · cases hs'
      exact hwf
    · cases hs'
      exact hwf.sendMessage hr
  | confirmDelivery maxAllowed delivered relayers =>
    simp only [outboundLaneStep] at h
    split at h
    · next hc =>
      cases h
      exact hwf.confirmDelivery hc
    · cases h
      exact hwf
  | pruneMessages dbWeight remainingWeight =>
    obtain ⟨⟨w, _⟩, hr, rfl⟩ := Option.map_eq_some_iff.mp h
    have hwrite : dbWeight.write ≠ 0 := by
      simpa [OutboundLaneCall.writesCost] using hcost
    exact hwf.pruneMessages hwrite hr

/-- Every run from the empty lane whose pruning is charged keeps the invariant. -/
theorem outboundWf_of_runSteps {size : Nat} {calls : List (OutboundLaneCall R)}
    (hcost : ∀ call ∈ calls, call.writesCost = true)
    (h : runSteps (outboundLaneStep size) OutboundLaneStorage.empty calls = some s) :
    OutboundWf s :=
  runSteps_invariant_of_forall outboundWf_empty
    (fun _ _ _ hc hwf hs => outboundLaneStep_wf hc hwf hs) hcost h

/-- A pass of the pruning loop, when its guard holds and its arithmetic fits. -/
theorem pruneLoop_pass {writeWeight twoWritesWeight spent remaining : Weight} {fuel : Nat}
    {st : PruneState} {oldest : MessageNonce}
    (hcond : (st.remainingWeight.allGte twoWritesWeight &&
      decide (st.storage.data.oldestUnprunedNonce ≤ st.storage.data.latestReceivedNonce)) = true)
    (hspent : st.spentWeight.add writeWeight = some spent)
    (hrem : st.remainingWeight.sub writeWeight = some remaining)
    (holdest : checkedAdd st.storage.data.oldestUnprunedNonce 1 = some oldest) :
    OutboundLane.pruneLoop writeWeight twoWritesWeight (fuel + 1) st =
      OutboundLane.pruneLoop writeWeight twoWritesWeight fuel
        ⟨⟨{ st.storage.data with oldestUnprunedNonce := oldest },
          Function.update st.storage.messages st.storage.data.oldestUnprunedNonce none⟩,
          spent, remaining⟩ := by
  rw [OutboundLane.pruneLoop]
  dsimp only
  rw [if_pos hcond, hspent, hrem, holdest]
  rfl

/-- The pruning loop stops when two writes no longer fit or nothing is left to prune. -/
theorem pruneLoop_stop {writeWeight twoWritesWeight : Weight} {fuel : Nat} {st : PruneState}
    (hcond : ¬(st.remainingWeight.allGte twoWritesWeight &&
      decide (st.storage.data.oldestUnprunedNonce ≤ st.storage.data.latestReceivedNonce)) = true) :
    OutboundLane.pruneLoop writeWeight twoWritesWeight (fuel + 1) st = some st := by
  rw [OutboundLane.pruneLoop]
  dsimp only
  rw [if_neg hcond]

/-- The pruning loop ends within its fuel: a pass moves `oldest_unpruned_nonce` up towards
`latest_received_nonce + 1`, and the budget keeps its sums within a `u64`. -/
theorem pruneLoop_isSome {writeWeight twoWritesWeight budget : Weight}
    (htwo : writeWeight.add writeWeight = some twoWritesWeight) :
    ∀ (fuel : Nat) (st : PruneState), PruneBudget writeWeight budget st →
      st.storage.data.latestReceivedNonce.toNat + 1 < 2 ^ 64 →
      st.storage.data.oldestUnprunedNonce.toNat ≤ st.storage.data.latestReceivedNonce.toNat + 1 →
      st.storage.data.latestReceivedNonce.toNat + 1 <
        fuel + st.storage.data.oldestUnprunedNonce.toNat →
      (OutboundLane.pruneLoop writeWeight twoWritesWeight fuel st).isSome
  | 0, _, _, _, hold, hfuel => by omega
  | fuel + 1, st, hb, hrecv, _, hfuel => by
    by_cases hcond : (st.remainingWeight.allGte twoWritesWeight &&
        decide (st.storage.data.oldestUnprunedNonce ≤ st.storage.data.latestReceivedNonce)) = true
    · obtain ⟨hgas, hle⟩ := Bool.and_eq_true_iff.mp hcond
      have hle := BitVec.le_def.mp (of_decide_eq_true hle)
      have hr := hb.refTime_eq
      have hp := hb.proofSize_eq
      have hbr := budget.refTime.isLt
      have hbp := budget.proofSize.isLt
      have htwo' := Weight.add_eq_some.mp htwo
      have hgas' := Weight.allGte_eq_true.mp hgas
      -- the guard's headroom makes the pass's arithmetic fit
      obtain ⟨spent, hspent⟩ := Weight.add_of_lt
        (by omega : st.spentWeight.refTime.toNat + writeWeight.refTime.toNat < 2 ^ 64)
        (by omega : st.spentWeight.proofSize.toNat + writeWeight.proofSize.toNat < 2 ^ 64)
      obtain ⟨remaining, hrem⟩ := Weight.sub_of_allLte
        (Weight.allLte_eq_true.mpr ⟨by omega, by omega⟩ :
          writeWeight.allLte st.remainingWeight = true)
      have h1 : (1 : MessageNonce).toNat = 1 := rfl
      obtain ⟨oldest, holdest⟩ := Option.isSome_iff_exists.mp
        (checkedAdd_isSome.mpr (by omega :
          st.storage.data.oldestUnprunedNonce.toNat + (1 : MessageNonce).toNat < 2 ^ 64))
      have hv := ((checkedAdd_one_eq_some (by decide)).mp holdest).2
      rw [pruneLoop_pass hcond hspent hrem holdest]
      exact pruneLoop_isSome htwo fuel _ (hb.pass htwo hgas hspent hrem _) hrecv
        (by dsimp only; omega) (by dsimp only; omega)
    · rw [pruneLoop_stop hcond]
      rfl

/-- `prune_messages` returns unless two writes overflow a `u64`, or pruning would move
`oldest_unpruned_nonce` past the largest `u64`. -/
theorem pruneMessages_isSome (hwf : OutboundWf s) {dbWeight : RuntimeDbWeight}
    (remainingWeight : Weight) (htwo : 2 * dbWeight.write.toNat < 2 ^ 64)
    (hrecv : s.data.latestReceivedNonce.toNat + 1 < 2 ^ 64) :
    (OutboundLane.pruneMessages dbWeight s remainingWeight).isSome := by
  have hw := writes_one_refTime dbWeight
  have hp : (dbWeight.writes 1).proofSize = 0 := rfl
  obtain ⟨two, htwo'⟩ := Weight.add_of_lt
    (by rw [hw]; omega : (dbWeight.writes 1).refTime.toNat + (dbWeight.writes 1).refTime.toNat < 2 ^ 64)
    (by rw [hp]; decide)
  -- the fuel covers every nonce from `oldest_unpruned_nonce` to `latest_received_nonce`
  have hfuel : s.data.latestReceivedNonce.toNat + 1 <
      (s.data.latestReceivedNonce - s.data.oldestUnprunedNonce).toNat + 2 +
        s.data.oldestUnprunedNonce.toNat := by
    by_cases hle : s.data.oldestUnprunedNonce.toNat ≤ s.data.latestReceivedNonce.toNat
    · rw [BitVec.toNat_sub_of_le (BitVec.le_def.mpr hle)]
      omega
    · omega
  obtain ⟨out, hout⟩ := Option.isSome_iff_exists.mp (pruneLoop_isSome htwo' _ _
    (pruneBudget_start _ remainingWeight s) hrecv hwf.oldest_le hfuel)
  have hb := pruneLoop_budget htwo' hout (pruneBudget_start _ remainingWeight s)
  unfold OutboundLane.pruneMessages
  simp only [htwo', hout, Option.bind_eq_bind, Option.bind_some]
  split
  · rfl
  · next hspent =>
    -- the last pass left room for the final write
    have hreserve := Weight.allLte_eq_true.mp (hb.reserve.resolve_left hspent)
    have hr := hb.refTime_eq
    have hp := hb.proofSize_eq
    have hbr := remainingWeight.refTime.isLt
    have hbp := remainingWeight.proofSize.isLt
    obtain ⟨spent, hadd⟩ := Weight.add_of_lt (by omega) (by omega :
      out.spentWeight.proofSize.toNat + (dbWeight.writes 1).proofSize.toNat < 2 ^ 64)
    rw [hadd]
    rfl

/-- What the users of the outbound lane rely on: the invariant, a failed call writes nothing,
and pruning returns, within its budget, having removed received messages only. -/
structure OutboundLaneGuarantees (R : Type) (size : Nat) (s : OutboundLaneStorage) : Prop where
  wf : OutboundWf s
  sendError : ∀ payload e, OutboundLane.sendMessage size s payload = some (.error e) →
    outboundLaneStep size s (.sendMessage payload : OutboundLaneCall R) = some s
  confirmError : ∀ maxAllowed delivered (relayers : List (UnrewardedRelayer R)) e,
    OutboundLane.confirmDelivery s.data maxAllowed delivered relayers = .error e →
    outboundLaneStep size s (.confirmDelivery maxAllowed delivered relayers) = some s
  prune : ∀ dbWeight remainingWeight w s',
    OutboundLane.pruneMessages dbWeight s remainingWeight = some (w, s') →
    w.allLte remainingWeight = true ∧ s'.data.latestReceivedNonce = s.data.latestReceivedNonce ∧
      PrunedUpTo s.data.latestReceivedNonce s.messages s'.messages
  pruneReturns : ∀ (dbWeight : RuntimeDbWeight) remainingWeight,
    2 * dbWeight.write.toNat < 2 ^ 64 → s.data.latestReceivedNonce.toNat + 1 < 2 ^ 64 →
    (OutboundLane.pruneMessages dbWeight s remainingWeight).isSome

/-- **The outbound lane over every run.** From the default lane, under any calls of
`send_message`, `confirm_delivery` and `prune_messages` with any arguments, pruning at a positive
write weight, the lane keeps its nonces in order and its messages at exactly the unpruned
generated nonces, and pruning keeps within its budget. -/
theorem outboundLane_runs {size : Nat} {calls : List (OutboundLaneCall R)}
    (hcost : ∀ call ∈ calls, call.writesCost = true)
    (h : runSteps (outboundLaneStep size) OutboundLaneStorage.empty calls = some s) :
    OutboundLaneGuarantees R size s := by
  have hwf := outboundWf_of_runSteps hcost h
  refine ⟨hwf, ?_, ?_, ?_, fun _ remainingWeight htwo hrecv =>
    pruneMessages_isSome hwf remainingWeight htwo hrecv⟩
  · intro payload e he
    simp [outboundLaneStep, he]
  · intro maxAllowed delivered relayers e he
    simp [outboundLaneStep, he]
  · intro dbWeight remainingWeight w s' hp
    obtain ⟨hr, -, hpruned⟩ := pruneMessages_spec hp
    exact ⟨pruneMessages_within_budget hp, hr, hpruned⟩

/-- Two messages sent, the first confirmed and pruned at a write weight of one. -/
def outboundLaneCalls : List (OutboundLaneCall Nat) :=
  [.sendMessage [0], .sendMessage [1], .confirmDelivery 2 1 [⟨0, ⟨1, 1⟩⟩],
    .pruneMessages ⟨1, 1⟩ (Weight.fromParts 10 10)]

/-- The run of `outboundLaneCalls` succeeds, its pruning is charged a positive write weight, and
its state has the outbound lane's guarantees. -/
theorem outboundLane_runs_of_calls :
    ∃ s, (∀ call ∈ outboundLaneCalls, call.writesCost = true) ∧
      runSteps (outboundLaneStep 1) OutboundLaneStorage.empty outboundLaneCalls = some s ∧
      OutboundLaneGuarantees Nat 1 s := by
  obtain ⟨s, hs⟩ : ∃ s, runSteps (outboundLaneStep 1) OutboundLaneStorage.empty
      outboundLaneCalls = some s := ⟨_, rfl⟩
  have hcost : ∀ call ∈ outboundLaneCalls, call.writesCost = true := by decide
  exact ⟨s, hcost, hs, outboundLane_runs hcost hs⟩

/-- Send one message, confirm its delivery, and prune at a write weight of zero. -/
def zeroWriteCalls : List (OutboundLaneCall Nat) :=
  [.sendMessage [0], .confirmDelivery 1 1 [⟨0, ⟨1, 1⟩⟩], .pruneMessages ⟨0, 0⟩ Weight.zero]

/-- At a write weight of zero pruning spends nothing, so it removes the received message but does
not write `oldest_unpruned_nonce`: the lane still starts at the removed nonce. -/
theorem pruneMessages_zero_write_weight :
    ∃ s, runSteps (outboundLaneStep 1) OutboundLaneStorage.empty zeroWriteCalls = some s ∧
      s.data.oldestUnprunedNonce = 1 ∧ s.data.latestGeneratedNonce = 1 ∧ s.messages 1 = none ∧
      ¬OutboundWf s :=
  ⟨_, rfl, rfl, rfl, rfl, fun hwf => absurd ((hwf.stored 1).mpr (by decide)) (by decide)⟩

end Outbound

end Cumulus.BridgeMessages
