import Mathlib.Data.List.Sort
import Mathlib.Logic.Function.Basic

/-!
# The level monitor of the parachain block import

`LevelMonitor` bounds the number of unfinalized blocks at each height. Before a block of height
`n` is imported, `enforce_limit n` looks at level `n`: when it holds `level_limit` blocks or more,
it removes blocks until there is room for one more. Each removal picks, among the blocks of the
level other than the best block, the one whose freshest descending leaf is least fresh
(`find_target`), and removes it with its descendants, leaf first (`remove_target`).

The backend is a block tree. A hash names its header, so the parent and the number of every block
are fixed maps (`Blockchain.parent`, `Blockchain.number`); what changes is the set of stored
blocks. Two behaviours of the backend are assumptions, as the monitor's own code does not fix
them:

* `tree_route(a, b)` has an empty `retracted` part exactly when `a` is an ancestor-or-self of `b`,
  and its `enacted` part is then the path after `a` down to `b` (`Blockchain.treeRoute`). The
  monitor treats a route with a retracted part like an error, so both are `none` here;
* `remove_leaf_block` removes exactly the current leaves and fails on any other block
  (`Blockchain.removeLeafBlock`).

`Blockchain.removeRequests` records every hash passed to `remove_leaf_block`: the calls are what
the safety of the pruning is about. The hash maps and sets of the source are functions and lists;
a level that is absent and a level that is empty are both `[]`, which `enforce_limit` and
`find_target` do not tell apart.

Source: `client/consensus/common/src/level_monitor.rs`, `client/consensus/common/src/lib.rs`
-/

namespace Cumulus.ConsensusCommon

variable {H : Type} [DecidableEq H]

/-- A block hash with its number. -/
structure HashAndNumber (H : Type) where
  number : Nat
  hash : H
  deriving DecidableEq, Repr

/-- A route of `tree_route` without a retracted part: the common block, the start of the route,
and the `enacted` blocks after it, in increasing number. -/
structure TreeRoute (H : Type) where
  commonBlock : HashAndNumber H
  enacted : List (HashAndNumber H)
  deriving DecidableEq, Repr

/-- The backend's blockchain, as the monitor reads it. -/
structure Blockchain (H : Type) where
  parent : H → Option H
  number : H → Nat
  blocks : List H
  bestHash : H
  finalizedNumber : Nat
  removeRequests : List H

namespace Blockchain

/-- A stored block none of whose children is stored. -/
def isLeaf (c : Blockchain H) (hash : H) : Bool :=
  hash ∈ c.blocks && c.blocks.all fun child => c.parent child ≠ some hash

/-- `leaves()`: the stored blocks without a stored child, in storage order. -/
def leaves (c : Blockchain H) : List H :=
  c.blocks.filter c.isLeaf

/-- `remove_leaf_block`: the request is recorded, and a current leaf is removed; any other block is
refused. The flag says whether the removal succeeded. -/
def removeLeafBlock (c : Blockchain H) (hash : H) : Bool × Blockchain H :=
  let requested := { c with removeRequests := c.removeRequests ++ [hash] }
  if c.isLeaf hash then (true, { requested with blocks := c.blocks.filter (· ≠ hash) })
  else (false, requested)

/-- The blocks after `ancestor` down to `hash`, found by walking up the parent links from `hash`;
`none` if the walk meets a block that is not stored, or does not meet `ancestor` within `fuel`
steps. -/
def routeUp (c : Blockchain H) (ancestor : H) : Nat → H → Option (List (HashAndNumber H))
  | 0, _ => none
  | fuel + 1, hash =>
    if hash ∉ c.blocks then none
    else if hash = ancestor then some []
    else (c.parent hash).bind fun p =>
      (c.routeUp ancestor fuel p).map (· ++ [⟨c.number hash, hash⟩])

/-- `tree_route(from, to)` when it has no retracted part, that is when `from` is an
ancestor-or-self of `to`. A walk of `number to + 1` steps reaches every ancestor in a chain whose
numbers drop by one along each parent link. -/
def treeRoute (c : Blockchain H) (src dst : H) : Option (TreeRoute H) :=
  (c.routeUp src (c.number dst + 1) dst).map fun enacted => ⟨⟨c.number src, src⟩, enacted⟩

/-- The inner block import: a new block whose parent is stored is stored, and becomes the best
block when the fork choice says so; any other block is not imported. -/
def importBlock (c : Blockchain H) (hash : H) (setBest : Bool) : Option (Blockchain H) :=
  if hash ∈ c.blocks then none
  else
    match c.parent hash with
    | some p =>
      if p ∈ c.blocks then
        some { c with
          blocks := c.blocks ++ [hash]
          bestHash := if setBest then hash else c.bestHash }
      else none
    | none => none

end Blockchain

/-- Information about the target scheduled for removal: the index of its freshest leaf in the
leaves array, and the route from the target to that leaf. -/
structure TargetInfo (H : Type) where
  freshestLeafIdx : Nat
  freshestRoute : TreeRoute H
  deriving DecidableEq, Repr

/-- Support structure to constrain the number of leaves at each level. -/
structure LevelMonitor (H : Type) where
  levelLimit : Nat
  importCounter : Nat
  freshness : H → Option Nat
  levels : Nat → List H
  lowestLevel : Nat
  backend : Blockchain H

/-- Counter threshold after which the monitor eventually cleans up its internal data. -/
def cleanupThreshold : Nat := 32

/-- The order of `Option<&Number>` by which the leaves are sorted: a leaf without freshness comes
first. -/
def freshnessLe : Option Nat → Option Nat → Bool
  | none, _ => true
  | some _, none => false
  | some a, some b => a ≤ b

namespace LevelMonitor

/-! ## Restoring and recording blocks -/

/-- One block recorded: its freshness, and its hash in the level of its number. -/
def record (m : LevelMonitor H) (number : Nat) (hash : H) (fresh : Nat) : LevelMonitor H :=
  { m with
    freshness := Function.update m.freshness hash (some fresh)
    levels := Function.update m.levels number ((m.levels number).insert hash) }

/-- The walk of `restore` from a leaf towards the finalized block: it records blocks until it
meets one already recorded or reaches the lowest level. A parent whose header metadata is missing
makes the `expect` panic. -/
def restoreBranch (m : LevelMonitor H) : Nat → H → Option (LevelMonitor H)
  | 0, _ => some m
  | fuel + 1, hash =>
    if (m.freshness hash).isSome then some m
    else
      let number := m.backend.number hash
      let m := m.record number hash number
      if number ≤ m.lowestLevel then some m
      else
        match m.backend.parent hash with
        | some p => if p ∈ m.backend.blocks then m.restoreBranch fuel p else none
        | none => none

/-- Restore the structure using the backend: freshness is inferred from the height. -/
def restore (m : LevelMonitor H) : Option (LevelMonitor H) :=
  let m := { m with lowestLevel := m.backend.finalizedNumber,
                    importCounter := m.backend.finalizedNumber }
  m.backend.leaves.foldlM (fun m leaf =>
    let number := m.backend.number leaf
    restoreBranch { m with importCounter := max m.importCounter number } (number + 1) leaf) m

/-- Instance a new monitor structure. -/
def new (levelLimit : Nat) (backend : Blockchain H) : Option (LevelMonitor H) :=
  restore ⟨levelLimit, 0, fun _ => none, fun _ => [], 0, backend⟩

/-- The cleanup of one level: its blocks lose their freshness and the level is dropped. -/
def cleanupLevel (m : LevelMonitor H) (number : Nat) : LevelMonitor H :=
  { m with
    freshness := fun hash => if hash ∈ m.levels number then none else m.freshness hash
    levels := Function.update m.levels number [] }

/-- Add a new imported block information to the monitor: a block above the last finalized one
gets the next freshness, and once the finalized number has moved `cleanupThreshold` levels past
the lowest level, the levels below it are dropped. -/
def blockImported (m : LevelMonitor H) (number : Nat) (hash : H) : LevelMonitor H :=
  let finalizedNum := m.backend.finalizedNumber
  let m :=
    if number > finalizedNum then
      { m.record number hash (m.importCounter + 1) with importCounter := m.importCounter + 1 }
    else m
  let delta := finalizedNum - m.lowestLevel
  if delta ≥ cleanupThreshold then
    let lowest := m.lowestLevel
    { (List.range delta).foldl (fun m i => m.cleanupLevel (lowest + i)) m with
      lowestLevel := finalizedNum }
  else m

/-! ## Finding the target -/

/-- The search of `find_target` for the freshest leaf descending from `blkHash`: the leaves neither
assigned nor invalidated are scanned from the freshest, and the first one that `blkHash` is, or is
an ancestor of, is taken with the route to it. -/
def candidateInfo (m : LevelMonitor H) (number : Nat) (leaves : List H)
    (assigned invalidated : List Nat) (blkHash : H) : Option (TargetInfo H) :=
  ((leaves.zipIdx.filter fun leaf =>
      !assigned.contains leaf.2 && !invalidated.contains leaf.2).reverse.findSome? fun leaf =>
    if blkHash = leaf.1 then some ⟨leaf.2, ⟨⟨number, blkHash⟩, []⟩⟩
    else (m.backend.treeRoute blkHash leaf.1).map fun route => ⟨leaf.2, route⟩)

/-- The loop of `find_target` over the blocks of the level other than the best block. A candidate
becomes the target when its freshest leaf is less fresh than the target's and the best block is
not in its route; a candidate whose freshest leaf is the least fresh of all ends the search. -/
def findTargetLoop (m : LevelMonitor H) (number : Nat) (leaves : List H)
    (invalidated : List Nat) : List H → List Nat → Option (TargetInfo H) → Option (TargetInfo H)
  | [], _, targetInfo => targetInfo
  | blkHash :: level, assigned, targetInfo =>
    if blkHash = m.backend.bestHash then
      m.findTargetLoop number leaves invalidated level assigned targetInfo
    else
      match m.candidateInfo number leaves assigned invalidated blkHash with
      -- a block of the level without a route to a leaf: "this should never happen"
      | none => m.findTargetLoop number leaves invalidated level assigned targetInfo
      | some candidate =>
        let assigned := candidate.freshestLeafIdx :: assigned
        let isLessFresh :=
          targetInfo.all fun ti => candidate.freshestLeafIdx < ti.freshestLeafIdx
        let notContainsBest :=
          candidate.freshestRoute.enacted.all fun entry => entry.hash ≠ m.backend.bestHash
        if isLessFresh && notContainsBest then
          if candidate.freshestLeafIdx = 0 then some candidate
          else m.findTargetLoop number leaves invalidated level assigned (some candidate)
        else m.findTargetLoop number leaves invalidated level assigned targetInfo

/-- Find the best candidate of level `number` to be removed, with the leaves sorted from the least
fresh. -/
def findTarget (m : LevelMonitor H) (number : Nat) (leaves : List H) (invalidated : List Nat) :
    Option (TargetInfo H) :=
  m.findTargetLoop number leaves invalidated (m.levels number) [] none

/-! ## Removing the target -/

/-- The `remove_leaf` closure: ask the backend to remove the block, and on success forget it in
`levels` and `freshness`. -/
def removeLeaf (m : LevelMonitor H) (entry : HashAndNumber H) : Bool × LevelMonitor H :=
  let (removed, backend) := m.backend.removeLeafBlock entry.hash
  if removed then
    (true, { m with
      backend
      levels := Function.update m.levels entry.number
        ((m.levels entry.number).filter (· ≠ entry.hash))
      freshness := Function.update m.freshness entry.hash none })
  else (false, { m with backend })

/-- The `remove_route` closure, over the enacted blocks of a route from the leaf up: it stops at the
first block that cannot be removed, which is then not a leaf. -/
def removeRoute (m : LevelMonitor H) : List (HashAndNumber H) → LevelMonitor H
  | [] => m
  | entry :: entries =>
    let (removed, m) := m.removeLeaf entry
    if removed then m.removeRoute entries else m

/-- One turn of the loop of `remove_target` over the less fresh leaves: a leaf not yet invalidated
that descends from the target is invalidated and its route removed. -/
def removeLeafRoute (targetHash : H) (acc : LevelMonitor H × List Nat) (leaf : H × Nat) :
    LevelMonitor H × List Nat :=
  if acc.2.contains leaf.2 then acc
  else
    match acc.1.backend.treeRoute targetHash leaf.1 with
    | some route => (acc.1.removeRoute route.enacted.reverse, leaf.2 :: acc.2)
    | none => acc

/-- Remove the target block and all its descendants: the route to its freshest leaf first, then
the routes to the less fresh leaves that descend from it, then the target. Returns the invalidated
leaves with the monitor. -/
def removeTarget (m : LevelMonitor H) (target : TargetInfo H) (number : Nat) (leaves : List H)
    (invalidated : List Nat) : LevelMonitor H × List Nat :=
  let invalidated := target.freshestLeafIdx :: invalidated
  let targetHash := target.freshestRoute.commonBlock.hash
  let m := m.removeRoute target.freshestRoute.enacted.reverse
  -- the leaves less fresh than the freshest one, from the freshest down
  let (m, invalidated) := (leaves.zipIdx.take target.freshestLeafIdx).reverse.foldl
    (removeLeafRoute targetHash) (m, invalidated)
  ((m.removeLeaf ⟨number, targetHash⟩).2, invalidated)

/-- The `(0..remove_count).all(..)` loop of `enforce_limit`: it stops when no target is found. -/
def removeLoop (number : Nat) (leaves : List H) :
    Nat → LevelMonitor H → List Nat → LevelMonitor H
  | 0, m, _ => m
  | count + 1, m, invalidated =>
    match m.findTarget number leaves invalidated with
    | none => m
    | some target =>
      let (m, invalidated) := m.removeTarget target number leaves invalidated
      removeLoop number leaves count m invalidated

/-- Check and enforce the limit bound at the given height: when the level has `level_limit` blocks
or more, remove blocks until one more fits, by freshness. -/
def enforceLimit (m : LevelMonitor H) (number : Nat) : LevelMonitor H :=
  let levelLen := (m.levels number).length
  if levelLen < m.levelLimit then m
  else
    let leaves := m.backend.leaves.insertionSort fun a b =>
      freshnessLe (m.freshness a) (m.freshness b) = true
    removeLoop number leaves (levelLen - m.levelLimit + 1) m []

/-- `ParachainBlockImport::import_block` with a level monitor: the limit is enforced at the block's
height before the import, and a block that is imported is recorded. The imported block becomes the
best block only during the initial network sync (`ForkChoiceStrategy::Custom`). -/
def importBlock (m : LevelMonitor H) (hash : H) (initialSync : Bool) : LevelMonitor H :=
  let number := m.backend.number hash
  let m := m.enforceLimit number
  match m.backend.importBlock hash initialSync with
  | some backend => { m with backend }.blockImported number hash
  | none => m

end LevelMonitor

end Cumulus.ConsensusCommon
