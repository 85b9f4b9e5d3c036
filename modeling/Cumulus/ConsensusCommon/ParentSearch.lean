import Cumulus.Found.Worklist

/-!
# The parent search of the collators

`find_potential_parents` lists the parachain blocks a collator may build on at a relay parent:

1. `relayAncestry` — the relay parent and its ancestors with their state roots: at most
   `ancestry_lookback + 1` blocks, all in the relay parent's session, and none past block 1;
2. the para's included head, and its pending head when that differs (`pendingHash`);
3. a depth-first search from the included block over the local block tree, with a stack. An
   entry is a potential parent if it is the included block, if it is the pending block at depth
   one, or if its digest names a relay parent of the ancestry, by hash or by state root. The
   children of a potential parent are pushed while within `max_depth`, without those off the
   pending block's branch when `ignore_alternative_branches` is set.

The relay chain interface and the backend are total functions here; their errors, which the
source passes on with `?` or skips, are left out. The search is `Worklist.run` with one turn's
output `searchOut` and push `searchNext`, and fuel for every entry it can push.

Source: `client/consensus/common/src/lib.rs`
-/

namespace Cumulus.ConsensusCommon

open Cumulus.Found

/-- A relay chain header, as the ancestry walk reads it. -/
structure RelayHeader (RH R : Type) where
  parentHash : RH
  number : Nat
  stateRoot : R
  deriving DecidableEq, Repr

/-- `OccupiedCoreAssumption` of a persisted validation data request. -/
inductive OccupiedCoreAssumption where
  | included
  | timedOut
  deriving DecidableEq, Repr

/-- What `find_potential_parents` asks of the relay chain: headers, the session index for the
children of a block, and the para's persisted validation data at a relay block (its parent head
data, if the para exists). -/
structure RelayChainInterface (RH R S D : Type) where
  header : RH → Option (RelayHeader RH R)
  sessionIndexForChild : RH → S
  persistedValidationData : RH → OccupiedCoreAssumption → Option D

/-- A parachain header, as the search reads it: the relay parent and the relay-parent storage
root that its digest names, if it does. -/
structure ParaHeader (RH R : Type) where
  relayParent : Option RH
  relayParentStorageRoot : Option R
  deriving DecidableEq, Repr

/-- The local parachain backend: the children of a block, and its header if it is stored. -/
structure Backend (H RH R : Type) where
  children : H → List H
  header : H → Option (ParaHeader RH R)

/-- Parameters when searching for suitable parents to build on top of; the para id, which only
selects the para in the relay chain requests, is left out. -/
structure ParentSearchParams (RH : Type) where
  relayParent : RH
  ancestryLookback : Nat
  maxDepth : Nat
  ignoreAlternativeBranches : Bool

/-- A potential parent block returned from `find_potential_parents`. -/
structure PotentialParent (H RH R : Type) where
  hash : H
  header : ParaHeader RH R
  depth : Nat
  alignedWithPending : Bool
  deriving DecidableEq, Repr

variable {H RH R S D : Type} [DecidableEq H] [DecidableEq RH] [DecidableEq R] [DecidableEq S]
  [DecidableEq D]

/-! ## The relay ancestry -/

/-- The walk of step 1 from `currentRp`, with `ancestry` so far and room for `remaining` more
blocks (`ancestry.len() <= ancestry_lookback`). -/
def ancestryLoop (relayClient : RelayChainInterface RH R S D) :
    Nat → RH → Option S → List (RH × R) → List (RH × R)
  | 0, _, _, ancestry => ancestry
  | remaining + 1, currentRp, requiredSession, ancestry =>
    match relayClient.header currentRp with
    | none => ancestry
    | some header =>
      let session := relayClient.sessionIndexForChild currentRp
      -- respect the relay-chain rule not to cross session boundaries
      if requiredSession.any (· ≠ session) then ancestry
      else
        let ancestry := ancestry ++ [(currentRp, header.stateRoot)]
        -- don't iterate back into the genesis block
        if header.number = 1 then ancestry
        else
          ancestryLoop relayClient remaining header.parentHash
            (some (requiredSession.getD session)) ancestry

/-- Step 1: the ancestry record of the relay chain, hashes with their state roots. -/
def relayAncestry (relayClient : RelayChainInterface RH R S D) (relayParent : RH)
    (ancestryLookback : Nat) : List (RH × R) :=
  ancestryLoop relayClient (ancestryLookback + 1) relayParent none []

/-! ## The search -/

section search

variable (params : ParentSearchParams RH) (backend : Backend H RH R)
  (rpAncestry : List (RH × R)) (pendingHash : Option H)

/-- Whether a popped entry is a potential parent: the pending block at depth one and the included
block always are, since they are already posted on chain; another block is if its digest names a
relay parent of the ancestry. -/
def isPotential (entry : PotentialParent H RH R) : Bool :=
  let isPending := entry.depth == 1 && pendingHash.any (· = entry.hash)
  let isIncluded := entry.depth == 0
  isPending || isIncluded ||
    entry.header.relayParent.any (fun hash => rpAncestry.any (·.1 = hash)) ||
    entry.header.relayParentStorageRoot.any (fun root => rpAncestry.any (·.2 = root))

/-- The entries the `for` loop over `children(hash)` pushes, in push order: alignment with the
pending block is decided at depth one and inherited below, and a child without a stored header
is skipped. -/
def childEntries (entry : PotentialParent H RH R) : List (PotentialParent H RH R) :=
  let childDepth := entry.depth + 1
  (backend.children entry.hash).filterMap fun child =>
    let alignedWithPending := entry.alignedWithPending &&
      if childDepth = 1 then pendingHash.all (· = child) else true
    if params.ignoreAlternativeBranches && !alignedWithPending then none
    else (backend.header child).map fun header => ⟨child, header, childDepth, alignedWithPending⟩

/-- What one turn emits: the entry, if it is a potential parent. -/
def searchOut (entry : PotentialParent H RH R) : List (PotentialParent H RH R) :=
  if isPotential rpAncestry pendingHash entry then [entry] else []

/-- What one turn pushes, the last child on top: the children of a potential parent whose
children are within `max_depth`. -/
def searchNext (entry : PotentialParent H RH R) : List (PotentialParent H RH R) :=
  if !isPotential rpAncestry pendingHash entry || params.maxDepth < entry.depth + 1 then []
  else (childEntries params backend pendingHash entry).reverse

end search

/-- The first frontier entry: the included block, at depth 0 and aligned with the pending block. -/
def includedEntry (hash : H) (header : ParaHeader RH R) : PotentialParent H RH R :=
  ⟨hash, header, 0, true⟩

/-- Step 2's pending head: the para head at the relay parent if the pending candidate is
included, when it differs from the included head; a head that fails to decode is swallowed.
`decodeHead` is `Block::Header::decode`, with the hash of the decoded header. -/
def pendingHash (relayClient : RelayChainInterface RH R S D)
    (decodeHead : D → Option (H × ParaHeader RH R)) (relayParent : RH) (includedHead : D) :
    Option H :=
  let pendingHead := (relayClient.persistedValidationData relayParent .included).bind fun x =>
    if x ≠ includedHead then some x else none
  (pendingHead.bind decodeHead).map Prod.fst

/-- Perform a search through the local blocks from the included block for potential parents of a
new block with this relay parent.
Source: `find_potential_parents` -/
def findPotentialParents (params : ParentSearchParams RH) (backend : Backend H RH R)
    (relayClient : RelayChainInterface RH R S D) (decodeHead : D → Option (H × ParaHeader RH R)) :
    List (PotentialParent H RH R) :=
  let rpAncestry := relayAncestry relayClient params.relayParent params.ancestryLookback
  match relayClient.persistedValidationData params.relayParent .timedOut with
  -- the para doesn't exist
  | none => []
  | some includedHead =>
    match decodeHead includedHead with
    | none => []
    | some (includedHash, includedHeader) =>
      let pending := pendingHash relayClient decodeHead params.relayParent includedHead
      let included := includedEntry includedHash includedHeader
      let next := searchNext params backend rpAncestry pending
      Worklist.run (searchOut rpAncestry pending) next
        (Worklist.size next (params.maxDepth + 2) included) [included] []

end Cumulus.ConsensusCommon
