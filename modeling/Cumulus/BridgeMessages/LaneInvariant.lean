import Cumulus.BridgeMessages.Pallet

/-!
# bridge messages: what each lane operation does

The target's unrewarded relayer entries are consecutive runs of nonces: they split
`last_confirmed_nonce + 1, …, last_delivered_nonce` into non-empty runs (`Covers`, and
`TargetWf` for a lane's data). `receive_message` adds the next nonce to the last run or as a new
one, and `receive_state_update` cuts a confirmed prefix off; both keep the runs consecutive, and
the second keeps `last_delivered_nonce` (`receiveMessage_cases`, `receiveStateUpdate_spec`).

On the source, one spec lemma per operation says what it may change: `send_message` stores the
next nonce, `confirm_delivery` moves `latest_received_nonce` up to a delivered nonce that was
generated, and pruning removes received messages only (`PrunedUpTo`).
-/

namespace Cumulus.BridgeMessages

open Cumulus.Primitives Cumulus.Found

variable {R : Type}

/-! ## Consecutive runs of nonces -/

/-- `Covers start stop rels`: the entries split the nonces `start, …, stop - 1` into runs, one
after another and each non-empty. -/
def Covers : Nat → Nat → List (UnrewardedRelayer R) → Prop
  | start, stop, [] => start = stop
  | start, stop, e :: es => e.messages.begin.toNat = start ∧ e.messages.begin ≤ e.messages.«end» ∧
      Covers (e.messages.«end».toNat + 1) stop es

/-- The runs end just before `stop`. -/
theorem covers_getLast {start stop : Nat} {rels : List (UnrewardedRelayer R)}
    (h : Covers start stop rels) :
    (rels.getLast?.map fun e => e.messages.«end».toNat + 1).getD start = stop := by
  induction rels generalizing start with
  | nil => exact h
  | cons e es ih =>
    obtain ⟨-, -, hes⟩ := h
    have := ih hes
    rw [List.getLast?_cons]
    cases hl : es.getLast? with
    | none => simpa [hl] using this
    | some l => simpa [hl] using this

/-- A last run added after the others. -/
theorem covers_append_singleton {start stop : Nat} {rels : List (UnrewardedRelayer R)}
    {e : UnrewardedRelayer R} :
    Covers start stop (rels ++ [e]) ↔ Covers start e.messages.begin.toNat rels ∧
      e.messages.begin ≤ e.messages.«end» ∧ stop = e.messages.«end».toNat + 1 := by
  induction rels generalizing start with
  | nil =>
    simp only [List.nil_append, Covers]
    constructor
    · rintro ⟨hb, hle, hstop⟩
      exact ⟨hb.symm, hle, hstop.symm⟩
    · rintro ⟨hb, hle, hstop⟩
      exact ⟨hb.symm, hle, hstop.symm⟩
  | cons a as ih =>
    simp only [List.cons_append, Covers, ih, and_assoc]

/-- Dropping the runs that end by `c` leaves either nothing, when they ended just at `c`, or the
runs from the first one that goes past `c`. -/
theorem covers_dropWhile (c : MessageNonce) {start stop : Nat} {rels : List (UnrewardedRelayer R)}
    (h : Covers start stop rels) (hstart : start ≤ c.toNat + 1) (hstop : c.toNat + 1 ≤ stop) :
    ((rels.dropWhile fun e => decide (e.messages.«end» ≤ c)) = [] ∧ stop = c.toNat + 1) ∨
      ∃ e es, (rels.dropWhile fun e => decide (e.messages.«end» ≤ c)) = e :: es ∧
        e.messages.begin.toNat ≤ c.toNat + 1 ∧ c < e.messages.«end» ∧
        Covers e.messages.begin.toNat stop (e :: es) := by
  induction rels generalizing start with
  | nil =>
    have : start = stop := h
    exact .inl ⟨rfl, by omega⟩
  | cons e es ih =>
    obtain ⟨hb, hle, hes⟩ := h
    by_cases hec : e.messages.«end» ≤ c
    · rw [List.dropWhile_cons_of_pos (by simpa using hec)]
      exact ih hes (by rw [BitVec.le_def] at hec; omega)
    · rw [List.dropWhile_cons_of_neg (by simpa using hec)]
      exact .inr ⟨e, es, rfl, hb ▸ hstart, BitVec.not_le.mp hec, rfl, hle, hes⟩

/-- The lane data's runs split `last_confirmed_nonce + 1, …, last_delivered_nonce`. -/
def TargetWf (d : InboundLaneData R) : Prop :=
  Covers (d.lastConfirmedNonce.toNat + 1) (d.lastDeliveredNonce.toNat + 1) d.relayers

/-- The default lane data has no unconfirmed nonce and no entry. -/
theorem targetWf_default : TargetWf (InboundLaneData.default : InboundLaneData R) := rfl

/-- Runs from `last_confirmed_nonce + 1` to `stop` make the data well formed, and
`last_delivered_nonce` the nonce before `stop`. -/
theorem targetWf_of_covers {relayers : List (UnrewardedRelayer R)} {lc : MessageNonce} {stop : Nat}
    (h : Covers (lc.toNat + 1) stop relayers) :
    TargetWf ⟨relayers, lc⟩ ∧
      (⟨relayers, lc⟩ : InboundLaneData R).lastDeliveredNonce.toNat + 1 = stop := by
  have hld : (⟨relayers, lc⟩ : InboundLaneData R).lastDeliveredNonce.toNat + 1 = stop := by
    rw [← covers_getLast h]
    simp only [InboundLaneData.lastDeliveredNonce]
    cases relayers.getLast? <;> rfl
  refine ⟨?_, hld⟩
  unfold TargetWf
  rw [hld]
  exact h

/-! ## The inbound lane -/

/-- `receive_message` either dispatches the next nonce, adding it to the runs, or changes
nothing. -/
theorem receiveMessage_cases [DecidableEq R] {maxEntries maxUnconfirmed : MessageNonce}
    {dispatch : MessageNonce → MessagePayload → Weight} {data data' : InboundLaneData R}
    {relayer : R} {nonce : MessageNonce} {payload : MessagePayload} {res : ReceivalResult}
    (h : InboundLane.receiveMessage maxEntries maxUnconfirmed dispatch data relayer nonce payload =
      some (res, data'))
    (hwf : TargetWf data) :
    (∃ u, res = .dispatched u ∧ nonce.toNat = data.lastDeliveredNonce.toNat + 1 ∧ TargetWf data' ∧
        data'.lastConfirmedNonce = data.lastConfirmedNonce ∧ data'.lastDeliveredNonce = nonce) ∨
      ((∀ u, res ≠ .dispatched u) ∧ data' = data) := by
  unfold InboundLane.receiveMessage at h
  split at h
  · cases h
    exact .inr ⟨fun _ => by simp, rfl⟩
  split at h
  · cases h
    exact .inr ⟨fun _ => by simp, rfl⟩
  split at h
  · cases h
    exact .inr ⟨fun _ => by simp, rfl⟩
  next hnonce _ _ =>
  have hn : checkedAdd data.lastDeliveredNonce 1 = some nonce := by
    simpa [eq_comm] using hnonce
  obtain ⟨-, hnv⟩ := (checkedAdd_one_eq_some (by decide)).mp hn
  have hwf : Covers (data.lastConfirmedNonce.toNat + 1) nonce.toNat data.relayers := by
    rw [hnv]
    exact hwf
  -- a new run of the one nonce after the others
  have hnew : Covers (data.lastConfirmedNonce.toNat + 1) (nonce.toNat + 1)
      (data.relayers ++ [⟨relayer, .new nonce⟩]) :=
    covers_append_singleton.mpr ⟨hwf, BitVec.le_refl _, rfl⟩
  dsimp only at h
  obtain ⟨relayers, hcov, rfl, rfl⟩ : ∃ relayers,
      Covers (data.lastConfirmedNonce.toNat + 1) (nonce.toNat + 1) relayers ∧
        res = .dispatched (dispatch nonce payload) ∧ data' = ⟨relayers, data.lastConfirmedNonce⟩ := by
    split at h
    · next entry hlast =>
      split at h
      · -- the same relayer delivered the last run: it grows by one
        obtain ⟨messages, hm, h⟩ := Option.bind_eq_some_iff.mp h
        cases h
        unfold DeliveredMessages.noteDispatchedMessage at hm
        obtain ⟨e, he, hm⟩ := Option.bind_eq_some_iff.mp hm
        cases hm
        obtain ⟨-, hev⟩ := (checkedAdd_one_eq_some (by decide)).mp he
        rw [← List.dropLast_append_getLast? _ hlast] at hwf
        obtain ⟨hinit, hle, hend⟩ := covers_append_singleton.mp hwf
        refine ⟨_, ?_, rfl, rfl⟩
        refine covers_append_singleton.mpr ⟨hinit, ?_, ?_⟩
        · show entry.messages.begin ≤ e
          rw [BitVec.le_def] at hle ⊢
          omega
        · show nonce.toNat + 1 = e.toNat + 1
          omega
      · cases h
        exact ⟨_, hnew, rfl, rfl⟩
    · cases h
      exact ⟨_, hnew, rfl, rfl⟩
  obtain ⟨hwf', hld⟩ := targetWf_of_covers hcov
  exact .inl ⟨_, rfl, hnv, hwf', rfl, BitVec.eq_of_toNat_eq (by omega)⟩

/-- `receive_state_update` keeps the runs consecutive and `last_delivered_nonce` as it was; the
confirmed nonce stays or becomes the one of the source's state. -/
theorem receiveStateUpdate_spec {data data' : InboundLaneData R} {o : OutboundLaneData}
    {r : Option MessageNonce} (h : InboundLane.receiveStateUpdate data o = some (r, data'))
    (hwf : TargetWf data) :
    TargetWf data' ∧ data'.lastDeliveredNonce = data.lastDeliveredNonce ∧
      (data'.lastConfirmedNonce = data.lastConfirmedNonce ∨
        data'.lastConfirmedNonce = o.latestReceivedNonce) := by
  unfold InboundLane.receiveStateUpdate at h
  dsimp only at h
  split at h
  · cases h
    exact ⟨hwf, rfl, .inl rfl⟩
  split at h
  · cases h
    exact ⟨hwf, rfl, .inl rfl⟩
  next hnlt hnle =>
  rw [BitVec.not_lt, BitVec.le_def] at hnlt
  rw [BitVec.not_le, BitVec.lt_def] at hnle
  have hdrop := covers_dropWhile o.latestReceivedNonce hwf (by omega) (by omega)
  -- the runs after the update split `c + 1, …, last_delivered_nonce`
  obtain ⟨relayers, hcov, rfl, rfl⟩ : ∃ relayers,
      Covers (o.latestReceivedNonce.toNat + 1) (data.lastDeliveredNonce.toNat + 1) relayers ∧
        r = some o.latestReceivedNonce ∧ data' = ⟨relayers, o.latestReceivedNonce⟩ := by
    split at h
    · next entry rest hrest =>
      obtain ⟨e, es, hes, hbeg, hlt, hcov⟩ : ∃ e es, _ = e :: es ∧ _ := hdrop.resolve_left
        (fun ⟨hnil, _⟩ => by rw [hnil] at hrest; cases hrest)
      obtain ⟨rfl, rfl⟩ := List.cons.inj (hrest.symm.trans hes)
      split at h
      · -- the first run left begins by `c`: it now begins at `c + 1`
        obtain ⟨b, hb, h⟩ := Option.bind_eq_some_iff.mp h
        cases h
        obtain ⟨-, hbv⟩ := (checkedAdd_one_eq_some (by decide)).mp hb
        obtain ⟨-, -, hes⟩ := hcov
        refine ⟨_, ?_, rfl, rfl⟩
        refine ⟨hbv, ?_, hes⟩
        show b ≤ entry.messages.«end»
        rw [BitVec.le_def, hbv]
        rw [BitVec.lt_def] at hlt
        omega
      · next hgt =>
        cases h
        rw [BitVec.not_le, BitVec.lt_def] at hgt
        have hb : entry.messages.begin.toNat = o.latestReceivedNonce.toNat + 1 := by omega
        refine ⟨_, ?_, rfl, rfl⟩
        rw [← hb]
        exact hcov
    · next hrest =>
      cases h
      obtain ⟨-, hstop⟩ := hdrop.resolve_right
        (fun ⟨_, _, hes, _⟩ => by rw [hes] at hrest; cases hrest)
      refine ⟨_, ?_, rfl, rfl⟩
      exact hstop.symm
  obtain ⟨hwf', hld⟩ := targetWf_of_covers hcov
  exact ⟨hwf', BitVec.eq_of_toNat_eq (by omega), .inr rfl⟩

/-! ## The outbound lane -/

/-- `m'` is `m` with some messages up to `latest` removed. -/
def PrunedUpTo (latest : MessageNonce) (m m' : MessageNonce → Option MessagePayload) : Prop :=
  ∀ n, m' n = m n ∨ (m' n = none ∧ n ≤ latest)

/-- Removing nothing is a pruning. -/
theorem prunedUpTo_refl (latest : MessageNonce) (m : MessageNonce → Option MessagePayload) :
    PrunedUpTo latest m m :=
  fun _ => .inl rfl

/-- Two prunings up to one nonce are one pruning. -/
theorem PrunedUpTo.trans {latest : MessageNonce} {m m' m'' : MessageNonce → Option MessagePayload}
    (h : PrunedUpTo latest m m') (h' : PrunedUpTo latest m' m'') : PrunedUpTo latest m m'' := by
  intro n
  rcases h' n with h'n | h'n
  · rw [h'n]
    exact h n
  · exact .inr h'n

/-- A sent message gets the next nonce and is stored under it; nothing else changes. -/
theorem sendMessage_spec {size : Nat} {s s' : OutboundLaneStorage} {payload : MessagePayload}
    {nonce : MessageNonce}
    (h : OutboundLane.sendMessage size s payload = some (.ok (nonce, s'))) :
    nonce.toNat = s.data.latestGeneratedNonce.toNat + 1 ∧
      s' = ⟨{ s.data with latestGeneratedNonce := nonce },
        Function.update s.messages nonce (some payload)⟩ := by
  unfold OutboundLane.sendMessage at h
  obtain ⟨n, hn, h⟩ := Option.bind_eq_some_iff.mp h
  obtain ⟨-, hnv⟩ := (checkedAdd_one_eq_some (by decide)).mp hn
  split at h
  · cases h
  · cases h
    exact ⟨hnv, rfl⟩

/-- A range with a non-zero length is not reversed. -/
theorem saturatingLen_ne_zero {start «end» : MessageNonce} (h : saturatingLen start «end» ≠ 0) :
    start ≤ «end» := by
  unfold saturatingLen at h
  cases hsub : checkedSub «end» start with
  | none =>
    rw [hsub] at h
    exact absurd rfl h
  | some len =>
    rw [BitVec.le_def]
    exact (checkedSub_eq_some.mp hsub).1

/-- `confirm_delivery` moves `latest_received_nonce` up to the delivered nonce, which was
generated, or changes nothing. -/
theorem confirmDelivery_spec {data data' : OutboundLaneData} {maxAllowed delivered : MessageNonce}
    {relayers : List (UnrewardedRelayer R)} {res : Option DeliveredMessages}
    (h : OutboundLane.confirmDelivery data maxAllowed delivered relayers = .ok (res, data')) :
    data' = data ∨ (data' = { data with latestReceivedNonce := delivered } ∧
      data.latestReceivedNonce ≤ delivered ∧ delivered ≤ data.latestGeneratedNonce) := by
  unfold OutboundLane.confirmDelivery at h
  dsimp only at h
  split at h
  · cases h
    exact .inl rfl
  next htotal =>
  split at h
  · cases h
  next hgen =>
  split at h
  · cases h
  split at h
  · cases h
  · cases h
    refine .inr ⟨rfl, ?_, BitVec.not_lt.mp hgen⟩
    have hle : saturatingAdd data.latestReceivedNonce 1 ≤ delivered := saturatingLen_ne_zero htotal
    have hsat := toNat_saturatingAdd data.latestReceivedNonce 1
    rw [BitVec.le_def] at hle ⊢
    omega

/-- One pass of the pruning loop, or its end: a pass removes the oldest unpruned message, which
has been received, charges one write and moves `oldest_unpruned_nonce` up. -/
theorem pruneLoop_succ_eq_some {writeWeight twoWritesWeight : Weight} {fuel : Nat}
    {st out : PruneState}
    (h : OutboundLane.pruneLoop writeWeight twoWritesWeight (fuel + 1) st = some out) :
    out = st ∨
      (st.remainingWeight.allGte twoWritesWeight = true ∧
        st.storage.data.oldestUnprunedNonce ≤ st.storage.data.latestReceivedNonce ∧
        ∃ spent remaining oldest, st.spentWeight.add writeWeight = some spent ∧
          st.remainingWeight.sub writeWeight = some remaining ∧
          checkedAdd st.storage.data.oldestUnprunedNonce 1 = some oldest ∧
          OutboundLane.pruneLoop writeWeight twoWritesWeight fuel
            ⟨⟨{ st.storage.data with oldestUnprunedNonce := oldest },
              Function.update st.storage.messages st.storage.data.oldestUnprunedNonce none⟩,
              spent, remaining⟩ = some out) := by
  rw [OutboundLane.pruneLoop] at h
  dsimp only at h
  split at h
  · next hcond =>
    obtain ⟨hgas, hle⟩ := Bool.and_eq_true_iff.mp hcond
    obtain ⟨spent, hspent, h⟩ := Option.bind_eq_some_iff.mp h
    obtain ⟨remaining, hrem, h⟩ := Option.bind_eq_some_iff.mp h
    obtain ⟨oldest, holdest, h⟩ := Option.bind_eq_some_iff.mp h
    exact .inr ⟨hgas, of_decide_eq_true hle, spent, remaining, oldest, hspent, hrem, holdest, h⟩
  · cases h
    exact .inl rfl

/-- The pruning loop keeps the lane's nonces and removes received messages only. -/
theorem pruneLoop_spec {writeWeight twoWritesWeight : Weight} {fuel : Nat} {st out : PruneState}
    (h : OutboundLane.pruneLoop writeWeight twoWritesWeight fuel st = some out) :
    out.storage.data.latestReceivedNonce = st.storage.data.latestReceivedNonce ∧
      out.storage.data.latestGeneratedNonce = st.storage.data.latestGeneratedNonce ∧
      PrunedUpTo st.storage.data.latestReceivedNonce st.storage.messages out.storage.messages := by
  induction fuel generalizing st with
  | zero => cases h
  | succ fuel ih =>
    rcases pruneLoop_succ_eq_some h with rfl | ⟨-, hle, spent, remaining, oldest, -, -, -, h⟩
    · exact ⟨rfl, rfl, prunedUpTo_refl _ _⟩
    · obtain ⟨hr, hg, hp⟩ := ih h
      refine ⟨hr, hg, PrunedUpTo.trans ?_ hp⟩
      -- the message removed in this pass has been received
      intro n
      by_cases hn : n = st.storage.data.oldestUnprunedNonce
      · subst hn
        exact .inr ⟨Function.update_self .., hle⟩
      · exact .inl (Function.update_of_ne hn _ _)

/-- What `prune_messages` returns: when the loop spent nothing, that and the loop's messages with
the lane data left unwritten; otherwise the loop's storage, charged one more write. -/
theorem pruneMessages_eq_some {dbWeight : RuntimeDbWeight} {s s' : OutboundLaneStorage}
    {remainingWeight w : Weight}
    (h : OutboundLane.pruneMessages dbWeight s remainingWeight = some (w, s')) :
    ∃ twoWritesWeight out, (dbWeight.writes 1).add (dbWeight.writes 1) = some twoWritesWeight ∧
      OutboundLane.pruneLoop (dbWeight.writes 1) twoWritesWeight
        ((s.data.latestReceivedNonce - s.data.oldestUnprunedNonce).toNat + 2)
        ⟨s, Weight.zero, remainingWeight⟩ = some out ∧
      ((out.spentWeight = Weight.zero ∧ w = Weight.zero ∧ s' = ⟨s.data, out.storage.messages⟩) ∨
        (out.spentWeight ≠ Weight.zero ∧ out.spentWeight.add (dbWeight.writes 1) = some w ∧
          s' = out.storage)) := by
  unfold OutboundLane.pruneMessages at h
  obtain ⟨two, htwo, h⟩ := Option.bind_eq_some_iff.mp h
  obtain ⟨out, hout, h⟩ := Option.bind_eq_some_iff.mp h
  refine ⟨two, out, htwo, hout, ?_⟩
  split at h
  · next hzero =>
    cases h
    exact .inl ⟨hzero, hzero, rfl⟩
  · next hspent =>
    obtain ⟨spent, hadd, h⟩ := Option.bind_eq_some_iff.mp h
    cases h
    exact .inr ⟨hspent, hadd, rfl⟩

/-- Pruning keeps the nonces and removes only messages up to the latest received nonce. -/
theorem pruneMessages_spec {dbWeight : RuntimeDbWeight} {s s' : OutboundLaneStorage}
    {remainingWeight w : Weight}
    (h : OutboundLane.pruneMessages dbWeight s remainingWeight = some (w, s')) :
    s'.data.latestReceivedNonce = s.data.latestReceivedNonce ∧
      s'.data.latestGeneratedNonce = s.data.latestGeneratedNonce ∧
      PrunedUpTo s.data.latestReceivedNonce s.messages s'.messages := by
  obtain ⟨two, out, -, hout, hres⟩ := pruneMessages_eq_some h
  obtain ⟨hr, hg, hp⟩ := pruneLoop_spec hout
  rcases hres with ⟨-, -, rfl⟩ | ⟨-, -, rfl⟩
  · exact ⟨rfl, rfl, hp⟩
  · exact ⟨hr, hg, hp⟩

/-- `on_idle` keeps the nonces and removes only messages up to the latest received nonce. -/
theorem onIdle_spec {dbWeight : RuntimeDbWeight} {s s' : OutboundLaneStorage}
    {remainingWeight w : Weight} (h : onIdle dbWeight s remainingWeight = some (w, s')) :
    s'.data.latestReceivedNonce = s.data.latestReceivedNonce ∧
      s'.data.latestGeneratedNonce = s.data.latestGeneratedNonce ∧
      PrunedUpTo s.data.latestReceivedNonce s.messages s'.messages := by
  unfold onIdle at h
  split at h
  · cases h
    exact ⟨rfl, rfl, prunedUpTo_refl _ _⟩
  · obtain ⟨rest, -, h⟩ := Option.bind_eq_some_iff.mp h
    obtain ⟨pruned, hpruned, h⟩ := Option.bind_eq_some_iff.mp h
    obtain ⟨used, -, h⟩ := Option.bind_eq_some_iff.mp h
    cases h
    exact pruneMessages_spec hpruned

end Cumulus.BridgeMessages
