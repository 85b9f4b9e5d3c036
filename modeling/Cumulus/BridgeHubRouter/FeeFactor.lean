import Cumulus.BridgeHubRouter.Pallet
import Cumulus.Found.Run

/-!
# xcm bridge hub router: the fee factor over every run

What the router keeps of its fee factor, from its default state and under any calls of
`on_initialize`, `report_bridge_status` and `deliver`, with any answers about the channel's
congestion and messages of any size:

* the factor never falls below `MINIMAL_DELIVERY_FEE_FACTOR` (`ge_minimal_of_reachable`);
* `on_initialize` never raises it, and lowers it, to `max(1, f / 1.05)`, exactly when neither the
  channel nor the bridge is congested and it is above one (`onInitialize_spec`);
* `on_message_sent_to_bridge` never lowers it, and multiplies it, saturating, by
  `1.05 + 0.001 · ⌊size / 1024⌋` exactly when some congestion is reported
  (`onMessageSentToBridge_spec`, `toNat_totalFactor`);
* the fee `exporter_for` computes grows with the message size and with the factor
  (`exporterFor_mono`).

`routerFeeFactor_runs` gathers them for every reachable state. No call panics, from any state
(`routerRun_isSome`): the division of `on_initialize` is by `1.05`. All of it rests on the readings
of the fixed-point operations in `Cumulus.Primitives.FixedU128`.
-/

namespace Cumulus.BridgeHubRouter

open Cumulus.Primitives Cumulus.Found

/-! ## The constants -/

/-- The minimal fee factor is one. -/
theorem toNat_minimalDeliveryFeeFactor :
    minimalDeliveryFeeFactor.inner.toNat = FixedU128.DIV.toNat := by
  rw [minimalDeliveryFeeFactor, FixedU128.toNat_fromU32, show (1 : BitVec 32).toNat = 1 from rfl,
    Nat.one_mul]

/-- The exponential fee base is `1.05`. -/
theorem toNat_exponentialFeeBase : exponentialFeeBase.inner.toNat = 1050000000000000000 := by
  unfold exponentialFeeBase
  rfl

/-- The message-size fee base is `0.001`. -/
theorem toNat_messageSizeFeeBase : messageSizeFeeBase.inner.toNat = 1000000000000000 := by
  unfold messageSizeFeeBase
  rfl

/-- The factor of a message is `1.05 + 0.001 · ⌊size / 1024⌋` exactly: neither the product nor
the sum saturates, and the product by `0.001` of a whole number is not rounded. -/
theorem toNat_totalFactor (messageSize : BitVec 32) :
    (totalFactor messageSize).inner.toNat =
      1050000000000000000 + messageSize.toNat / 1024 * 1000000000000000 := by
  have hk : (messageSize / 1024).toNat = messageSize.toNat / 1024 := by
    rw [BitVec.toNat_udiv]
    rfl
  have hsize := messageSize.isLt
  have hmul : messageSize.toNat / 1024 * 1000000000000000000 * 1000000000000000 /
      1000000000000000000 = messageSize.toNat / 1024 * 1000000000000000 := by
    rw [Nat.mul_right_comm, Nat.mul_div_cancel _ (by decide)]
  simp only [totalFactor, FixedU128.toNat_saturatingAdd, FixedU128.toNat_saturatingMul,
    FixedU128.toNat_fromU32, hk, toNat_exponentialFeeBase, toNat_messageSizeFeeBase,
    FixedU128.toNat_DIV, hmul]
  omega

/-- The factor of a congested bridge is more than one. -/
theorem DIV_lt_totalFactor (messageSize : BitVec 32) :
    FixedU128.DIV.toNat < (totalFactor messageSize).inner.toNat := by
  rw [toNat_totalFactor, FixedU128.toNat_DIV]
  omega

/-! ## One call -/

section Calls

variable {bridge : BridgeState}

/-- Multiplying by a factor of at least one does not lower a fee factor. -/
theorem le_saturatingMul {f g : FixedU128} (hg : FixedU128.DIV.toNat ≤ g.inner.toNat) :
    f ≤ f.saturatingMul g := by
  rw [FixedU128.le_def, FixedU128.toNat_saturatingMul]
  have hpos : 0 < FixedU128.DIV.toNat := by
    rw [FixedU128.toNat_DIV]
    decide
  have hle : f.inner.toNat ≤ f.inner.toNat * g.inner.toNat / FixedU128.DIV.toNat :=
    (Nat.le_div_iff_mul_le hpos).mpr (Nat.mul_le_mul_left _ hg)
  have hf := f.inner.isLt
  omega

/-- Multiplying a fee factor of at least one by a factor above one raises it, unless it is
already `u128::MAX`. -/
theorem lt_saturatingMul {f g : FixedU128} (hf : FixedU128.DIV.toNat ≤ f.inner.toNat)
    (hg : FixedU128.DIV.toNat < g.inner.toNat) (hmax : f.inner ≠ BitVec.allOnes 128) :
    f < f.saturatingMul g := by
  rw [FixedU128.lt_def, FixedU128.toNat_saturatingMul]
  have hpos : 0 < FixedU128.DIV.toNat := by
    rw [FixedU128.toNat_DIV]
    decide
  -- `f · g ≥ f · (DIV + 1) ≥ f · DIV + DIV`, so `f · g / DIV ≥ f + 1`
  have hstep : (f.inner.toNat + 1) * FixedU128.DIV.toNat ≤ f.inner.toNat * g.inner.toNat :=
    calc (f.inner.toNat + 1) * FixedU128.DIV.toNat
        = f.inner.toNat * FixedU128.DIV.toNat + FixedU128.DIV.toNat := Nat.add_one_mul _ _
      _ ≤ f.inner.toNat * FixedU128.DIV.toNat + f.inner.toNat := Nat.add_le_add_left hf _
      _ = f.inner.toNat * (FixedU128.DIV.toNat + 1) := (Nat.mul_add_one _ _).symm
      _ ≤ f.inner.toNat * g.inner.toNat := Nat.mul_le_mul_left _ hg
  have hlt : f.inner.toNat + 1 ≤ f.inner.toNat * g.inner.toNat / FixedU128.DIV.toNat :=
    (Nat.le_div_iff_mul_le hpos).mpr hstep
  have hne : f.inner.toNat ≠ 2 ^ 128 - 1 := fun h =>
    hmax (BitVec.eq_of_toNat_eq (by rw [h, BitVec.toNat_allOnes]))
  have hf' := f.inner.isLt
  omega

/-- What `on_initialize` does to a fee factor of at least one: it divides it by 1.05, down to
one, which lowers it, when neither the channel nor the bridge is congested and it is above one;
otherwise it changes nothing. -/
theorem onInitialize_spec (hmin : minimalDeliveryFeeFactor ≤ bridge.deliveryFeeFactor)
    (channelCongested : Bool) :
    (channelCongested = false ∧ bridge.isCongested = false ∧
        minimalDeliveryFeeFactor < bridge.deliveryFeeFactor ∧
        ∃ q, bridge.deliveryFeeFactor.div exponentialFeeBase = some q ∧
          onInitialize channelCongested bridge =
            some { bridge with deliveryFeeFactor := minimalDeliveryFeeFactor.max q } ∧
          minimalDeliveryFeeFactor.max q < bridge.deliveryFeeFactor) ∨
      (¬(channelCongested = false ∧ bridge.isCongested = false ∧
          minimalDeliveryFeeFactor < bridge.deliveryFeeFactor) ∧
        onInitialize channelCongested bridge = some bridge) := by
  rw [FixedU128.le_def, toNat_minimalDeliveryFeeFactor] at hmin
  unfold onInitialize
  cases channelCongested
  · cases hcongested : bridge.isCongested
    · by_cases hone : bridge.deliveryFeeFactor = minimalDeliveryFeeFactor
      · right
        refine ⟨fun ⟨_, _, hlt⟩ => ?_, by simp [hone]⟩
        rw [hone] at hlt
        exact absurd hlt (BitVec.lt_irrefl _)
      · -- the factor is above one: divide it by 1.05
        have habove : minimalDeliveryFeeFactor < bridge.deliveryFeeFactor := by
          rw [FixedU128.lt_def, toNat_minimalDeliveryFeeFactor]
          have hne : bridge.deliveryFeeFactor.inner.toNat ≠ FixedU128.DIV.toNat := fun h =>
            hone (FixedU128.eq_of_toNat_eq (h.trans toNat_minimalDeliveryFeeFactor.symm))
          omega
        have hbase : FixedU128.DIV.toNat ≤ exponentialFeeBase.inner.toNat := by
          rw [toNat_exponentialFeeBase, FixedU128.toNat_DIV]
          decide
        obtain ⟨q, hq, hqv⟩ : ∃ q, bridge.deliveryFeeFactor.div exponentialFeeBase = some q ∧
            q.inner.toNat = bridge.deliveryFeeFactor.inner.toNat * FixedU128.DIV.toNat /
              exponentialFeeBase.inner.toNat :=
          FixedU128.div_eq_some_of_ge hbase
        have hqlt : q < bridge.deliveryFeeFactor := by
          rw [FixedU128.lt_def, hqv, toNat_exponentialFeeBase, FixedU128.toNat_DIV]
          have hpos : 0 < bridge.deliveryFeeFactor.inner.toNat := by
            rw [FixedU128.toNat_DIV] at hmin
            omega
          omega
        left
        refine ⟨rfl, rfl, habove, q, hq, ?_, FixedU128.max_lt habove hqlt⟩
        simp [hone, hq]
    · right
      exact ⟨fun ⟨_, h, _⟩ => absurd h (by decide), by simp⟩
  · right
    exact ⟨fun ⟨h, _⟩ => absurd h (by decide), rfl⟩

/-- What a message sent over the bridge does to a fee factor of at least one: when the channel or
the bridge is congested it multiplies the factor by the message's factor, saturating, which never
lowers it and raises it unless it is already `u128::MAX`; otherwise it changes nothing. -/
theorem onMessageSentToBridge_spec (hmin : minimalDeliveryFeeFactor ≤ bridge.deliveryFeeFactor)
    (channelCongested : Bool) (messageSize : BitVec 32) :
    ((channelCongested = true ∨ bridge.isCongested = true) ∧
        onMessageSentToBridge channelCongested messageSize bridge =
          { bridge with
            deliveryFeeFactor := bridge.deliveryFeeFactor.saturatingMul (totalFactor messageSize) } ∧
        bridge.deliveryFeeFactor ≤ bridge.deliveryFeeFactor.saturatingMul (totalFactor messageSize) ∧
        (bridge.deliveryFeeFactor.inner ≠ BitVec.allOnes 128 →
          bridge.deliveryFeeFactor < bridge.deliveryFeeFactor.saturatingMul (totalFactor messageSize))) ∨
      (channelCongested = false ∧ bridge.isCongested = false ∧
        onMessageSentToBridge channelCongested messageSize bridge = bridge) := by
  rw [FixedU128.le_def, toNat_minimalDeliveryFeeFactor] at hmin
  have hup : bridge.deliveryFeeFactor ≤
      bridge.deliveryFeeFactor.saturatingMul (totalFactor messageSize) :=
    le_saturatingMul (DIV_lt_totalFactor messageSize).le
  have hstrict := lt_saturatingMul hmin (DIV_lt_totalFactor messageSize)
  unfold onMessageSentToBridge
  cases channelCongested <;> cases hc : bridge.isCongested
  · exact .inr ⟨rfl, rfl, by simp⟩
  · exact .inl ⟨.inr rfl, by simp, hup, hstrict⟩
  · exact .inl ⟨.inl rfl, by simp, hup, hstrict⟩
  · exact .inl ⟨.inl rfl, by simp, hup, hstrict⟩

/-- One call of the router keeps the fee factor at least one. -/
theorem routerStep_ge_minimal {bridge' : BridgeState} {call : RouterCall}
    (hmin : minimalDeliveryFeeFactor ≤ bridge.deliveryFeeFactor)
    (h : routerStep bridge call = some bridge') :
    minimalDeliveryFeeFactor ≤ bridge'.deliveryFeeFactor := by
  cases call with
  | onInitialize channelCongested =>
    rw [routerStep] at h
    rcases onInitialize_spec hmin channelCongested with ⟨-, -, -, q, -, hinit, -⟩ | ⟨-, hinit⟩
    · rw [hinit, Option.some.injEq] at h
      subst h
      exact FixedU128.le_max_left _ _
    · rw [hinit, Option.some.injEq] at h
      exact h ▸ hmin
  | reportBridgeStatus fromBridgeHub isCongested =>
    unfold routerStep reportBridgeStatus at h
    cases fromBridgeHub
    · cases h
      exact hmin
    · cases h
      exact hmin
  | messageSent channelCongested messageSize =>
    rw [routerStep, Option.some.injEq] at h
    subst h
    rcases onMessageSentToBridge_spec hmin channelCongested messageSize with
      ⟨-, hsent, hup, -⟩ | ⟨-, -, hsent⟩
    · rw [hsent]
      exact FixedU128.le_trans hmin hup
    · rw [hsent]
      exact hmin

/-- In every reachable state the fee factor is at least the minimal one. -/
theorem ge_minimal_of_reachable (h : Reachable routerStep BridgeState.default bridge) :
    minimalDeliveryFeeFactor ≤ bridge.deliveryFeeFactor :=
  @Reachable.invariant _ _ routerStep _ _ (fun b => minimalDeliveryFeeFactor ≤ b.deliveryFeeFactor)
    (FixedU128.le_refl _) (fun _ _ _ hmin hstep => routerStep_ge_minimal hmin hstep) h

end Calls

/-! ## The bridge fee -/

section Fee

/-- The bridge fee grows with the message size and with the fee factor: each of its steps, a
saturating product, a saturating sum and a product by the factor rounded down, is monotone. -/
theorem bridgeFee_mono (byteFee baseFee : BitVec 128) {size₁ size₂ : BitVec 64}
    {f₁ f₂ : FixedU128} (hsize : size₁ ≤ size₂) (hf : f₁ ≤ f₂) :
    (bridgeFee byteFee baseFee size₁ f₁).toNat ≤ (bridgeFee byteFee baseFee size₂ f₂).toNat := by
  rw [BitVec.le_def] at hsize
  rw [FixedU128.le_def] at hf
  have hwide : ∀ size : BitVec 64, (size.setWidth 128).toNat = size.toNat := fun size => by
    rw [BitVec.toNat_setWidth, Nat.mod_eq_of_lt (lt_of_lt_of_le size.isLt (by decide))]
  have hsum : min (baseFee.toNat + min (size₁.toNat * byteFee.toNat) (2 ^ 128 - 1)) (2 ^ 128 - 1) ≤
      min (baseFee.toNat + min (size₂.toNat * byteFee.toNat) (2 ^ 128 - 1)) (2 ^ 128 - 1) :=
    min_le_min (Nat.add_le_add_left (min_le_min (Nat.mul_le_mul_right _ hsize) le_rfl) _) le_rfl
  simp only [bridgeFee, FixedU128.toNat_saturatingMulInt, toNat_saturatingAdd, toNat_saturatingMul,
    hwide]
  exact min_le_min (Nat.div_le_div_right (Nat.mul_le_mul hf hsum)) le_rfl

/-- The amount `exporter_for` asks: the fee in `T::FeeAsset`, or nothing for a zero fee. -/
theorem amount_feePayment {A I : Type} (feeAsset : A) (fee : BitVec 128) :
    (((if 0 < fee then some ⟨feeAsset, .fungible fee⟩ else none : Option (MultiAsset A I)).map
      MultiAsset.amount).getD 0) = fee.toNat := by
  split
  · rfl
  · next hzero =>
    have h0 : fee.toNat = 0 := by
      rw [BitVec.lt_def] at hzero
      simpa using hzero
    rw [h0]
    rfl

/-- Where `exporter_for` bridges a message, it bridges a message at least as large, at a fee factor
at least as large, through the same bridge hub and for at least the same fee. -/
theorem exporterFor_mono {N L B A I : Type} [DecidableEq N] [DecidableEq A] (cfg : RouterConfig N A)
    (bridges : N → L → Option (B × Option (MultiAsset A I))) {bridge₁ bridge₂ : BridgeState}
    (network : N) (remoteLocation : L) {size₁ size₂ : BitVec 64} {hub : B}
    {fee₁ : Option (MultiAsset A I)} (hsize : size₁ ≤ size₂)
    (hf : bridge₁.deliveryFeeFactor ≤ bridge₂.deliveryFeeFactor)
    (h : exporterFor cfg bridges bridge₁ network remoteLocation size₁ = some (hub, fee₁)) :
    ∃ fee₂, exporterFor cfg bridges bridge₂ network remoteLocation size₂ = some (hub, fee₂) ∧
      (fee₁.map MultiAsset.amount).getD 0 ≤ (fee₂.map MultiAsset.amount).getD 0 := by
  unfold exporterFor at h ⊢
  split at h
  · cases h
  · next hnet =>
    rw [if_neg hnet]
    split at h
    · cases h
    · next hubLocation maybePayment hroute =>
      obtain ⟨baseFee, hbase, heq⟩ := Option.map_eq_some_iff.mp h
      obtain ⟨rfl, rfl⟩ := Prod.mk.inj heq
      refine ⟨_, by rw [hbase, Option.map_some], ?_⟩
      rw [amount_feePayment, amount_feePayment]
      exact bridgeFee_mono _ _ hsize hf

end Fee

/-! ## Every run -/

/-- What the router guarantees in a state: the fee factor is at least one, each hook and call moves
it as documented, and the fee it charges grows with the size and with the factor. -/
structure RouterGuarantees (bridge : BridgeState) : Prop where
  ge_minimal : minimalDeliveryFeeFactor ≤ bridge.deliveryFeeFactor
  onInitialize : ∀ channelCongested : Bool,
    (channelCongested = false ∧ bridge.isCongested = false ∧
        minimalDeliveryFeeFactor < bridge.deliveryFeeFactor ∧
        ∃ q, bridge.deliveryFeeFactor.div exponentialFeeBase = some q ∧
          onInitialize channelCongested bridge =
            some { bridge with deliveryFeeFactor := minimalDeliveryFeeFactor.max q } ∧
          minimalDeliveryFeeFactor.max q < bridge.deliveryFeeFactor) ∨
      (¬(channelCongested = false ∧ bridge.isCongested = false ∧
          minimalDeliveryFeeFactor < bridge.deliveryFeeFactor) ∧
        onInitialize channelCongested bridge = some bridge)
  messageSent : ∀ (channelCongested : Bool) (messageSize : BitVec 32),
    ((channelCongested = true ∨ bridge.isCongested = true) ∧
        onMessageSentToBridge channelCongested messageSize bridge =
          { bridge with
            deliveryFeeFactor := bridge.deliveryFeeFactor.saturatingMul (totalFactor messageSize) } ∧
        bridge.deliveryFeeFactor ≤ bridge.deliveryFeeFactor.saturatingMul (totalFactor messageSize) ∧
        (bridge.deliveryFeeFactor.inner ≠ BitVec.allOnes 128 →
          bridge.deliveryFeeFactor < bridge.deliveryFeeFactor.saturatingMul (totalFactor messageSize))) ∨
      (channelCongested = false ∧ bridge.isCongested = false ∧
        onMessageSentToBridge channelCongested messageSize bridge = bridge)
  totalFactor_eq : ∀ messageSize : BitVec 32,
    (totalFactor messageSize).inner.toNat =
      1050000000000000000 + messageSize.toNat / 1024 * 1000000000000000
  exporterFor_mono : ∀ {N L B A I : Type} [DecidableEq N] [DecidableEq A] (cfg : RouterConfig N A)
    (bridges : N → L → Option (B × Option (MultiAsset A I))) (bridge' : BridgeState) (network : N)
    (remoteLocation : L) (size₁ size₂ : BitVec 64) (hub : B) (fee₁ : Option (MultiAsset A I)),
    size₁ ≤ size₂ → bridge.deliveryFeeFactor ≤ bridge'.deliveryFeeFactor →
    exporterFor cfg bridges bridge network remoteLocation size₁ = some (hub, fee₁) →
    ∃ fee₂, exporterFor cfg bridges bridge' network remoteLocation size₂ = some (hub, fee₂) ∧
      (fee₁.map MultiAsset.amount).getD 0 ≤ (fee₂.map MultiAsset.amount).getD 0

/-- **Every run.** In every state the router reaches from its default state, whatever the calls and
the congestion they see, the fee factor is at least one, `on_initialize` lowers it to
`max(1, f / 1.05)` exactly when nothing is congested and it is above one, a sent message raises it
by the factor `1.05 + 0.001 · ⌊size / 1024⌋`, saturating, exactly when something is congested, and
the fee grows with the message size and the factor. -/
theorem routerFeeFactor_runs {bridge : BridgeState}
    (h : Reachable routerStep BridgeState.default bridge) : RouterGuarantees bridge := by
  have hmin := ge_minimal_of_reachable h
  refine ⟨hmin, onInitialize_spec hmin, onMessageSentToBridge_spec hmin, toNat_totalFactor, ?_⟩
  intro N L B A I _ _ cfg bridges bridge' network remoteLocation size₁ size₂ hub fee₁ hsize hf hexp
  exact exporterFor_mono cfg bridges network remoteLocation hsize hf hexp

/-- The calls of a congestion and its end: the bridge reports congestion, a 2 KiB message raises
the factor to 1.052, the congestion ends and the next block lowers it to `1.052 / 1.05`. -/
def congestionCalls : List RouterCall :=
  [.reportBridgeStatus true true, .messageSent false 2048, .reportBridgeStatus true false,
    .onInitialize false]

/-- Some reachable state has the router's guarantees. -/
theorem routerFeeFactor_runs_of_calls :
    ∃ bridge, Reachable routerStep BridgeState.default bridge ∧ RouterGuarantees bridge := by
  have hr := Reachable.of_runSteps (rfl : runSteps routerStep BridgeState.default congestionCalls =
    some ⟨⟨1001904761904761904⟩, false⟩)
  exact ⟨_, hr, routerFeeFactor_runs hr⟩

end Cumulus.BridgeHubRouter
