import Cumulus.Primitives.Weight
import Cumulus.Found.SortedMap

/-!
# What the queues see of XCM execution

Both message queues hand decoded messages to an XCM executor (`ExecuteXcm`, outside `src/`) and
act on its outcome: on the weight it reports used, and on whether it failed for lack of weight.
These are the parts of `xcm::v3::{Error, Outcome}` that the modelled code matches on.

The fee trader of `primitives/utility` works on assets: `MultiAsset` (an id and a fungible amount
or a non-fungible instance) and the executor's holding `xcm_executor::Assets`, of which it uses
the conversion to sorted `MultiAssets` (`Assets.first?`, its first element: fungible assets come
first) and `checked_sub`.
These live outside `src/` and are modelled as their crates document them, over an asset id type
`A` and an instance type `I`.
-/

namespace Cumulus.Primitives

/-- The XCM errors the modelled code tells apart.
Source: `xcm::v3::Error`, as matched in `pallets/xcmp-queue` and `pallets/dmp-queue` and returned
in `primitives/utility` -/
inductive XcmError where
  /-- `WeightLimitReached(required)`. -/
  | weightLimitReached (required : Weight)
  /-- `UnhandledXcmVersion`. -/
  | unhandledXcmVersion
  /-- `NotWithdrawable`. -/
  | notWithdrawable
  /-- `AssetNotFound`. -/
  | assetNotFound
  /-- `Overflow`. -/
  | overflow
  /-- `TooExpensive`. -/
  | tooExpensive
  /-- Any other error. -/
  | other
  deriving DecidableEq, Repr

/-- The outcome of executing an XCM.
Source: `xcm::v3::Outcome` -/
inductive Outcome where
  | complete (used : Weight)
  | incomplete (used : Weight) (error : XcmError)
  | error (error : XcmError)
  deriving DecidableEq, Repr

/-- `Outcome::weight_used`: nothing is charged for an outcome that failed before execution. -/
def Outcome.weightUsed : Outcome → Weight
  | .complete used => used
  | .incomplete used _ => used
  | .error _ => Weight.zero

/-! ## Assets -/

/-- Source: `xcm::v3::Fungibility` -/
inductive Fungibility (I : Type) where
  | fungible (amount : BitVec 128)
  | nonFungible (assetInstance : I)
  deriving DecidableEq, Repr

/-- Source: `xcm::v3::MultiAsset` (its field `fun` is `fungibility` here) -/
structure MultiAsset (A I : Type) where
  id : A
  fungibility : Fungibility I
  deriving DecidableEq, Repr

/-- The amount of an asset, `0` for a non-fungible one. -/
def MultiAsset.amount {A I : Type} (a : MultiAsset A I) : Nat :=
  match a.fungibility with
  | .fungible amount => amount.toNat
  | .nonFungible _ => 0

/-- The executor's holding: an amount for each fungible asset, and the non-fungible instances
in the order of their set.
Source: `xcm_executor::Assets` -/
structure Assets (A I : Type) [LinearOrder A] where
  fungible : Cumulus.Found.SortedMap A (BitVec 128)
  nonFungible : List (A × I)

namespace Assets

variable {A I : Type} [LinearOrder A]

/-- The first asset of `MultiAssets::from(assets)`. The order of `MultiAsset` puts every fungible
asset before every non-fungible one, and sorts each kind by id (a non-fungible by id, then
instance), so the first asset is the fungible asset of least id if the holding has one, and the
first non-fungible instance otherwise.
Source: `xcm_executor::Assets` `From<Assets> for MultiAssets`, `Ord for MultiAsset`, then
`MultiAssets::get(0)` -/
def first? (a : Assets A I) : Option (MultiAsset A I) :=
  match a.fungible.entries.head?, a.nonFungible.head? with
  | some (id, amount), _ => some ⟨id, .fungible amount⟩
  | none, some (id, assetInstance) => some ⟨id, .nonFungible assetInstance⟩
  | none, none => none

/-- Take `asset` out of the holding if it holds enough of it; an amount taken to `0` removes
its entry.
Source: `xcm_executor::Assets::checked_sub` -/
def checkedSub [DecidableEq I] (self : Assets A I) (asset : MultiAsset A I) :
    Option (Assets A I) :=
  match asset.fungibility with
  | .fungible amount =>
    match self.fungible.get? asset.id with
    | some balance =>
      if amount ≤ balance then
        some { self with
          fungible :=
            if balance - amount = 0 then self.fungible.filter fun k _ => k != asset.id
            else self.fungible.insert asset.id (balance - amount) }
      else none
    | none => none
  | .nonFungible assetInstance =>
    if (asset.id, assetInstance) ∈ self.nonFungible then
      some { self with nonFungible := self.nonFungible.erase (asset.id, assetInstance) }
    else none

end Assets

end Cumulus.Primitives
