import Cumulus.Primitives.Xcm

/-!
# The fee trader `TakeFirstAssetTrader`

`TakeFirstAssetTrader` buys execution weight with the first asset of the payment. It keeps what
it charged, refunds part of it when less weight is used, and hands what is left to
`HandleRefund::take_revenue` when it is dropped. The runtime around it is a parameter:

* the matcher, `Matcher::matches_fungibles`, is `localId`: a fungible asset `(id, n)` whose id
  has a local asset matches `(localId id, n)`, its amount unchanged;
* the fee charger and the minimum balance answer every call anew (`FeeOracle`), so that a run
  may see them change.

Results:

* `buyWeight_eq_ok` — a purchase charges the larger of the fee and the minimum balance, of the
  first asset of the payment, and returns the payment less that (`Assets.checkedSub_fungible`);
* `refundWeight_of_ok` and `refundSplit_add` — a refund of a balance `o` with minimum balance
  `m` hands back `r` and keeps `o'` with `r + o' = max o m` and `m ≤ o'`; `refundAll_spec` sums
  this over a run of refunds;
* `takeFirstAssetTrader_refunds` — over any run of refunds, what was refunded and the revenue
  add up to at least what was charged, and exactly to it when the minimum balance stays the
  same; `takeFirstAssetTrader_revenue_exceeds_charge`: when it grows, the revenue exceeds what
  was charged.
-/

namespace Cumulus.Primitives.Assets

open Cumulus.Found

variable {A I : Type} [LinearOrder A]

/-- The amount of the fungible asset `id` in the holding, `0` without an entry. -/
def amountOf (a : Assets A I) (id : A) : Nat := ((a.fungible.get? id).map BitVec.toNat).getD 0

/-- Taking a fungible amount out leaves the holding less that amount of its asset, the rest
as it was. -/
theorem checkedSub_fungible [DecidableEq I] {a unused : Assets A I} {id : A} {k : BitVec 128}
    (h : a.checkedSub ⟨id, .fungible k⟩ = some unused) :
    (∀ id', a.amountOf id' = unused.amountOf id' + if id' = id then k.toNat else 0) ∧
      unused.nonFungible = a.nonFungible := by
  unfold checkedSub at h
  dsimp only at h
  split at h
  · rename_i balance hb
    have hle : k ≤ balance := by
      by_contra hk
      rw [if_neg hk] at h
      cases h
    rw [if_pos hle] at h
    cases h
    have hsub := BitVec.toNat_sub_of_le hle
    rw [BitVec.le_def] at hle
    refine ⟨fun id' => ?_, rfl⟩
    by_cases hid : id' = id
    · subst hid
      rw [if_pos rfl]
      by_cases hz : balance - k = 0
      · -- the whole balance is taken: the entry goes
        rw [if_pos hz]
        have hz' : balance.toNat - k.toNat = 0 := by rw [← hsub, hz]; rfl
        simp [amountOf, hb]
        omega
      · rw [if_neg hz]
        simp [amountOf, hb, hsub]
        omega
    · rw [if_neg hid]
      have hne : (id' != id) = true := bne_iff_ne.mpr hid
      split_ifs <;> cases hg : a.fungible.get? id' <;> simp [amountOf, hg, hne, hid, Option.filter_some]
  · cases h

end Cumulus.Primitives.Assets

namespace Cumulus.Utility

open Cumulus.Primitives Cumulus.Found

variable {A I L : Type} [LinearOrder A] [DecidableEq I]

/-- What the trader keeps of a purchase.
Source: `primitives/utility/src/lib.rs` `AssetTraderRefunder` -/
structure AssetTraderRefunder (A I : Type) where
  /-- The weight bought, less the weight refunded. -/
  weightOutstanding : Weight
  /-- The asset charged, less what was refunded. -/
  outstandingConcreteAsset : MultiAsset A I

/-- Source: `primitives/utility/src/lib.rs` `TakeFirstAssetTrader` -/
structure TakeFirstAssetTrader (A I : Type) where
  refunder : Option (AssetTraderRefunder A I)

/-- What the runtime answers at one call of the trader.
Source: `ChargeWeightInFungibles::charge_weight_in_fungibles`,
`fungibles::Inspect::minimum_balance` -/
structure FeeOracle (L : Type) where
  chargeWeightInFungibles : L → Weight → Except XcmError (BitVec 128)
  minimumBalance : L → BitVec 128

/-- `Matcher::matches_fungibles` as the trader relies on it: a fungible asset whose id has a
local asset matches it, with its amount. -/
def matchesFungibles (localId : A → Option L) (asset : MultiAsset A I) :
    Option (L × BitVec 128) :=
  match asset.fungibility with
  | .fungible amount => (localId asset.id).map (·, amount)
  | .nonFungible _ => none

/-- The split of a refund: what is handed back and what stays outstanding, from the balance
outstanding, the fee of the refunded weight and the minimum balance. At least the minimum
balance stays. -/
def refundSplit (outstandingBalance assetBalance minimumBalance : BitVec 128) :
    BitVec 128 × BitVec 128 :=
  if minimumBalance < saturatingSub outstandingBalance assetBalance then
    (assetBalance, saturatingSub outstandingBalance assetBalance)
  else (saturatingSub outstandingBalance minimumBalance, minimumBalance)

namespace TakeFirstAssetTrader

/-- `WeightTrader::new`. -/
def new : TakeFirstAssetTrader A I := ⟨none⟩

section Calls

variable (localId : A → Option L)

/-- Charge for `weight` in the first asset of the payment, at least its minimum balance.
Source: `primitives/utility/src/lib.rs` `TakeFirstAssetTrader::buy_weight` -/
def buyWeight (self : TakeFirstAssetTrader A I) (oracle : FeeOracle L) (weight : Weight)
    (payment : Assets A I) : Except XcmError (TakeFirstAssetTrader A I × Assets A I) := do
  if self.refunder.isSome then throw .notWithdrawable
  let some first := payment.first? | throw .assetNotFound
  let some (localAssetId, _) := matchesFungibles localId first | throw .assetNotFound
  let amount ← oracle.chargeWeightInFungibles localAssetId weight
  let minimumBalance := oracle.minimumBalance localAssetId
  let assetBalance := if amount < minimumBalance then minimumBalance else amount
  let required : MultiAsset A I := ⟨first.id, .fungible assetBalance⟩
  let some unused := payment.checkedSub required | throw .tooExpensive
  pure (⟨some ⟨weight, required⟩⟩, unused)

/-- Refund the fee of `weight`, keeping at least the minimum balance outstanding; a refund of
nothing returns no asset. A call that cannot match the asset or price the weight changes
nothing.
Source: `primitives/utility/src/lib.rs` `TakeFirstAssetTrader::refund_weight` -/
def refundWeight (self : TakeFirstAssetTrader A I) (oracle : FeeOracle L) (weight : Weight) :
    TakeFirstAssetTrader A I × Option (MultiAsset A I) :=
  match self.refunder with
  | none => (self, none)
  | some ⟨weightOutstanding, ⟨id, fungibility⟩⟩ =>
    match matchesFungibles localId ⟨id, fungibility⟩ with
    | none => (self, none)
    | some (localAssetId, outstandingBalance) =>
      let minimumBalance := oracle.minimumBalance localAssetId
      match oracle.chargeWeightInFungibles localAssetId weight with
      | .error _ => (self, none)
      | .ok assetBalance =>
        let (assetBalance, outstandingMinusSubstracted) :=
          refundSplit outstandingBalance assetBalance minimumBalance
        (⟨some ⟨weightOutstanding.saturatingSub weight,
            ⟨id, .fungible outstandingMinusSubstracted⟩⟩⟩,
          if 0 < assetBalance then some ⟨id, .fungible assetBalance⟩ else none)

/-- A run of refunds, each call with the runtime's answers and its weight: the trader after
them, and what each call returned. -/
def refundAll : TakeFirstAssetTrader A I → List (FeeOracle L × Weight) →
    TakeFirstAssetTrader A I × List (Option (MultiAsset A I))
  | self, [] => (self, [])
  | self, (oracle, weight) :: calls =>
    let (self', refund) := refundWeight localId self oracle weight
    let (final, refunds) := refundAll self' calls
    (final, refund :: refunds)

end Calls

/-- The asset `drop` hands to `HandleRefund::take_revenue`, if any.
Source: `primitives/utility/src/lib.rs` `Drop for TakeFirstAssetTrader` -/
def drop (self : TakeFirstAssetTrader A I) : Option (MultiAsset A I) :=
  self.refunder.map (·.outstandingConcreteAsset)

/-- The amount `drop` hands to `take_revenue`. -/
def revenue (self : TakeFirstAssetTrader A I) : Nat := (self.drop.map MultiAsset.amount).getD 0

end TakeFirstAssetTrader

/-- The amount a list of refunds handed back. -/
def refunded (refunds : List (Option (MultiAsset A I))) : Nat :=
  (refunds.map fun r => (r.map MultiAsset.amount).getD 0).sum

/-- What a refund hands back and keeps add up to the larger of the balance outstanding and the
minimum balance, and the minimum balance is kept. -/
theorem refundSplit_add (o assetBalance m : BitVec 128) :
    (refundSplit o assetBalance m).1.toNat + (refundSplit o assetBalance m).2.toNat =
        max o.toNat m.toNat ∧
      m.toNat ≤ (refundSplit o assetBalance m).2.toNat := by
  unfold refundSplit
  split_ifs with h
  · rw [BitVec.lt_def, toNat_saturatingSub] at h
    simp only [toNat_saturatingSub]
    omega
  · rw [BitVec.lt_def, toNat_saturatingSub] at h
    simp only [toNat_saturatingSub]
    omega

namespace TakeFirstAssetTrader

section Calls

variable (localId : A → Option L)

/-- **A purchase.** It needs a trader that bought nothing yet; the first asset of the payment
is fungible with a local asset, the weight has a fee, and the trader charges the larger of the
fee and the minimum balance, which the payment must hold. -/
theorem buyWeight_eq_ok {self t : TakeFirstAssetTrader A I} {oracle : FeeOracle L}
    {weight : Weight} {payment unused : Assets A I}
    (h : self.buyWeight localId oracle weight payment = .ok (t, unused)) :
    self.refunder = none ∧ ∃ id n lid amount,
      payment.first? = some ⟨id, .fungible n⟩ ∧ localId id = some lid ∧
      oracle.chargeWeightInFungibles lid weight = .ok amount ∧
      payment.checkedSub ⟨id, .fungible (if amount < oracle.minimumBalance lid then
        oracle.minimumBalance lid else amount)⟩ = some unused ∧
      t = ⟨some ⟨weight, ⟨id, .fungible (if amount < oracle.minimumBalance lid then
        oracle.minimumBalance lid else amount)⟩⟩⟩ := by
  unfold buyWeight at h
  simp only [bind, Except.bind, pure, Except.pure, throw, throwThe, MonadExceptOf.throw] at h
  split_ifs at h with hs
  split at h
  · rename_i first hfirst
    split at h
    · rename_i lid balance hm
      obtain ⟨id, fungibility⟩ := first
      cases fungibility with
      | nonFungible assetInstance => cases hm
      | fungible n =>
        obtain ⟨lid', hlid, hpair⟩ := Option.map_eq_some_iff.mp hm
        obtain ⟨rfl, rfl⟩ := Prod.mk.inj hpair
        split at h
        · cases h
        · rename_i amount hamount
          split at h
          · rename_i unused' hsub
            cases h
            exact ⟨by simpa using hs, id, _, _, amount, hfirst, hlid, hamount, hsub, rfl⟩
          · cases h
    · cases h
  · cases h

/-- **The second purchase fails.** -/
theorem buyWeight_of_isSome {self : TakeFirstAssetTrader A I} (h : self.refunder.isSome)
    (oracle : FeeOracle L) (weight : Weight) (payment : Assets A I) :
    self.buyWeight localId oracle weight payment = .error .notWithdrawable := by
  unfold buyWeight
  simp only [h, if_true]
  rfl

section Refund

variable {localId} {t : TakeFirstAssetTrader A I} {wo : Weight} {id : A} {n : BitVec 128} {lid : L}

omit [LinearOrder A] [DecidableEq I] in
/-- A refund whose weight the fee charger cannot price changes nothing. -/
theorem refundWeight_of_error (ht : t.refunder = some ⟨wo, ⟨id, .fungible n⟩⟩)
    (hlid : localId id = some lid) {oracle : FeeOracle L} {weight : Weight} {e : XcmError}
    (hc : oracle.chargeWeightInFungibles lid weight = .error e) :
    t.refundWeight localId oracle weight = (t, none) := by
  unfold refundWeight
  simp [ht, matchesFungibles, hlid, hc]

omit [LinearOrder A] [DecidableEq I] in
/-- A refund splits the balance outstanding by `refundSplit`. -/
theorem refundWeight_of_ok (ht : t.refunder = some ⟨wo, ⟨id, .fungible n⟩⟩)
    (hlid : localId id = some lid) {oracle : FeeOracle L} {weight : Weight}
    {assetBalance : BitVec 128} (hc : oracle.chargeWeightInFungibles lid weight = .ok assetBalance) :
    t.refundWeight localId oracle weight =
      (⟨some ⟨wo.saturatingSub weight,
          ⟨id, .fungible (refundSplit n assetBalance (oracle.minimumBalance lid)).2⟩⟩⟩,
        if 0 < (refundSplit n assetBalance (oracle.minimumBalance lid)).1 then
          some ⟨id, .fungible (refundSplit n assetBalance (oracle.minimumBalance lid)).1⟩
        else none) := by
  unfold refundWeight
  simp [ht, matchesFungibles, hlid, hc]

end Refund

omit [LinearOrder A] [DecidableEq I] in
/-- Refunding a list of weights refunds the first one, then the rest from the trader it leaves. -/
theorem refundAll_cons (t : TakeFirstAssetTrader A I) (oracle : FeeOracle L) (weight : Weight)
    (calls : List (FeeOracle L × Weight)) :
    t.refundAll localId ((oracle, weight) :: calls) =
      (((t.refundWeight localId oracle weight).1.refundAll localId calls).1,
        (t.refundWeight localId oracle weight).2 ::
          ((t.refundWeight localId oracle weight).1.refundAll localId calls).2) := rfl

omit [LinearOrder A] [DecidableEq I] in
/-- What a refund hands back, in numbers. -/
theorem amount_refund (id : A) (r : BitVec 128) :
    (((if 0 < r then some (⟨id, .fungible r⟩ : MultiAsset A I) else none).map
      MultiAsset.amount).getD 0) = r.toNat := by
  split_ifs with h
  · rfl
  · have h0 : (0 : BitVec 128).toNat = 0 := rfl
    rw [BitVec.lt_def, h0] at h
    simp only [Option.map_none, Option.getD_none]
    omega

omit [LinearOrder A] [DecidableEq I] in
/-- **The run of refunds.** From a trader holding `n` of `id`, a run of refunds keeps a fungible
amount of `id` outstanding and hands back only amounts of `id`; what it hands back and what stays
add up to at least `n`, and to `n` exactly when every call's minimum balance is one `m ≤ n`. -/
theorem refundAll_spec {id : A} {lid : L} (hlid : localId id = some lid) (m : BitVec 128) :
    ∀ (calls : List (FeeOracle L × Weight)) (t : TakeFirstAssetTrader A I) (wo : Weight)
      (n : BitVec 128), t.refunder = some ⟨wo, ⟨id, .fungible n⟩⟩ →
      (∃ wo' n', (t.refundAll localId calls).1.refunder = some ⟨wo', ⟨id, .fungible n'⟩⟩) ∧
      (∀ r ∈ (t.refundAll localId calls).2, ∀ a, r = some a →
        a.id = id ∧ ∃ k, a.fungibility = .fungible k) ∧
      n.toNat ≤ refunded (t.refundAll localId calls).2 + (t.refundAll localId calls).1.revenue ∧
      ((∀ c ∈ calls, c.1.minimumBalance lid = m) → m.toNat ≤ n.toNat →
        refunded (t.refundAll localId calls).2 + (t.refundAll localId calls).1.revenue =
          n.toNat)
  | [], t, wo, n, ht => by
    refine ⟨⟨wo, n, ht⟩, fun r hr => absurd hr List.not_mem_nil, ?_, fun _ _ => ?_⟩ <;>
      simp [refundAll, refunded, revenue, drop, ht, MultiAsset.amount]
  | (oracle, weight) :: calls, t, wo, n, ht => by
    rw [refundAll_cons]
    cases hc : oracle.chargeWeightInFungibles lid weight with
    | error e =>
      -- the call changes nothing and hands back nothing
      rw [refundWeight_of_error ht hlid hc]
      obtain ⟨hfinal, hids, hge, heq⟩ := refundAll_spec hlid m calls t wo n ht
      refine ⟨hfinal, ?_, ?_, fun hm hmn => ?_⟩
      · intro r hr a ha
        rcases List.mem_cons.mp hr with rfl | hr
        · cases ha
        · exact hids r hr a ha
      · simpa [refunded] using hge
      · simpa [refunded] using heq (fun c hcm => hm c (List.mem_cons_of_mem _ hcm)) hmn
    | ok assetBalance =>
      rw [refundWeight_of_ok ht hlid hc]
      obtain ⟨hsum, hkept⟩ := refundSplit_add n assetBalance (oracle.minimumBalance lid)
      obtain ⟨hfinal, hids, hge, heq⟩ := refundAll_spec hlid m calls _ _ _ rfl
      refine ⟨hfinal, ?_, ?_, fun hm hmn => ?_⟩
      · intro r hr a ha
        rcases List.mem_cons.mp hr with rfl | hr
        · split_ifs at ha
          cases ha
          exact ⟨rfl, _, rfl⟩
        · exact hids r hr a ha
      · simp only [refunded, List.map_cons, List.sum_cons, amount_refund] at hge ⊢
        omega
      · -- the minimum balance of this call is `m`, at most the balance, so nothing is created
        have hm₀ : oracle.minimumBalance lid = m := hm (oracle, weight) List.mem_cons_self
        have hmax : max n.toNat (oracle.minimumBalance lid).toNat = n.toNat := by
          rw [hm₀]
          exact max_eq_left hmn
        have hkept' : m.toNat ≤ (refundSplit n assetBalance (oracle.minimumBalance lid)).2.toNat := by
          rw [← hm₀]
          exact hkept
        have hrest := heq (fun c hcm => hm c (List.mem_cons_of_mem _ hcm)) hkept'
        simp only [refunded, List.map_cons, List.sum_cons, amount_refund] at hrest ⊢
        omega

end Calls

end TakeFirstAssetTrader

/-! ## A purchase and its refunds -/

section Run

variable (localId : A → Option L)

/-- **The trader's accounts.** After a purchase from a new trader, the payment is what was left
unused plus the asset charged, an amount `n` of the payment's first asset. Over any run of
refunds afterwards every refund is an amount of that asset; what was refunded and the revenue
add up to at least `n`, and to exactly `n` when every call sees the purchase's minimum balance;
and another purchase fails. -/
theorem takeFirstAssetTrader_refunds {oracle : FeeOracle L} {weight : Weight}
    {payment unused : Assets A I} {trader : TakeFirstAssetTrader A I}
    (hbuy : TakeFirstAssetTrader.new.buyWeight localId oracle weight payment =
      .ok (trader, unused))
    (calls : List (FeeOracle L × Weight)) :
    ∃ id n, trader.refunder = some ⟨weight, ⟨id, .fungible n⟩⟩ ∧
      (∀ id', payment.amountOf id' = unused.amountOf id' + if id' = id then n.toNat else 0) ∧
      unused.nonFungible = payment.nonFungible ∧
      (∀ r ∈ (trader.refundAll localId calls).2, ∀ a, r = some a →
        a.id = id ∧ ∃ k, a.fungibility = .fungible k) ∧
      n.toNat ≤ refunded (trader.refundAll localId calls).2 +
        (trader.refundAll localId calls).1.revenue ∧
      ((∀ c ∈ calls, c.1.minimumBalance = oracle.minimumBalance) →
        refunded (trader.refundAll localId calls).2 + (trader.refundAll localId calls).1.revenue =
          n.toNat) ∧
      ∀ oracle' weight' payment', (trader.refundAll localId calls).1.buyWeight localId oracle'
        weight' payment' = .error .notWithdrawable := by
  obtain ⟨-, id, n₀, lid, amount, -, hlid, -, hsub, rfl⟩ :=
    TakeFirstAssetTrader.buyWeight_eq_ok localId hbuy
  -- the charge is at least the minimum balance of the purchase
  have hmn : (oracle.minimumBalance lid).toNat ≤
      (if amount < oracle.minimumBalance lid then oracle.minimumBalance lid else amount).toNat := by
    split_ifs with h
    · exact le_refl _
    · exact BitVec.le_def.mp (BitVec.not_lt.mp h)
  obtain ⟨hpaid, hnf⟩ := Assets.checkedSub_fungible hsub
  obtain ⟨⟨wo', n', hfinal⟩, hids, hge, heq⟩ :=
    TakeFirstAssetTrader.refundAll_spec localId hlid (oracle.minimumBalance lid) calls _ weight _ rfl
  refine ⟨id, _, rfl, hpaid, hnf, hids, hge, fun hm => heq (fun c hc => by rw [hm c hc]) hmn,
    fun oracle' weight' payment' => ?_⟩
  exact TakeFirstAssetTrader.buyWeight_of_isSome localId (by rw [hfinal]; rfl) _ _ _

end Run

/-- A fee charger asking `fee` for any weight, at the minimum balance `minimum`. -/
def fixedFee (fee minimum : BitVec 128) : FeeOracle Nat := ⟨fun _ _ => .ok fee, fun _ => minimum⟩

/-- A payment of `7` of asset `0`. -/
def sevenOfZero : Assets Nat Unit := ⟨SortedMap.ofList [(0, 7)], []⟩

/-- Five of asset `0` are charged and refunded in two calls at the same minimum balance. -/
theorem takeFirstAssetTrader_refunds_fixedFee :
    ∃ trader unused, TakeFirstAssetTrader.new.buyWeight some (fixedFee 5 1) .zero sevenOfZero =
        .ok (trader, unused) ∧
      ∃ id n, trader.refunder = some ⟨.zero, ⟨id, .fungible n⟩⟩ ∧
        (∀ id', sevenOfZero.amountOf id' = unused.amountOf id' + if id' = id then n.toNat else 0) ∧
        unused.nonFungible = sevenOfZero.nonFungible ∧
        (∀ r ∈ (trader.refundAll some [(fixedFee 2 1, .zero), (fixedFee 3 1, .zero)]).2, ∀ a,
          r = some a → a.id = id ∧ ∃ k, a.fungibility = .fungible k) ∧
        n.toNat ≤ refunded (trader.refundAll some [(fixedFee 2 1, .zero), (fixedFee 3 1, .zero)]).2 +
          (trader.refundAll some [(fixedFee 2 1, .zero), (fixedFee 3 1, .zero)]).1.revenue ∧
        ((∀ c ∈ [(fixedFee 2 1, Weight.zero), (fixedFee 3 1, .zero)],
            c.1.minimumBalance = (fixedFee 5 1).minimumBalance) →
          refunded (trader.refundAll some [(fixedFee 2 1, .zero), (fixedFee 3 1, .zero)]).2 +
            (trader.refundAll some [(fixedFee 2 1, .zero), (fixedFee 3 1, .zero)]).1.revenue =
              n.toNat) ∧
        ∀ oracle' weight' payment',
          (trader.refundAll some [(fixedFee 2 1, .zero), (fixedFee 3 1, .zero)]).1.buyWeight some
            oracle' weight' payment' = .error .notWithdrawable :=
  ⟨_, _, rfl, takeFirstAssetTrader_refunds some rfl _⟩

/-- **Revenue beyond the charge.** Five of asset `0` are charged at a minimum balance of `1`; a
refund then sees a minimum balance of `10`. It refunds nothing and keeps `10` outstanding, which
`drop` hands to `take_revenue`: twice what was charged. -/
theorem takeFirstAssetTrader_revenue_exceeds_charge :
    ∃ trader unused, TakeFirstAssetTrader.new.buyWeight some (fixedFee 5 1) .zero sevenOfZero =
        .ok (trader, unused) ∧
      trader.refunder = some ⟨.zero, ⟨0, .fungible 5⟩⟩ ∧
      refunded (trader.refundAll some [(fixedFee 0 10, .zero)]).2 +
        (trader.refundAll some [(fixedFee 0 10, .zero)]).1.revenue = 10 :=
  ⟨_, _, rfl, rfl, rfl⟩

end Cumulus.Utility
