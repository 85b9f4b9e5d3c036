import Cumulus.ParachainSystem.SegmentInvariant

/-!
# aura-ext: the slot record and the fixed-velocity consensus hook

A parachain with asynchronous backing authors several blocks ahead of the relay chain. Its
runtime bounds that twice: aura-ext counts the blocks authored in each AuRa slot (`SlotInfo`),
and the consensus hook `FixedVelocityConsensusHook<_, _, V, C>` allows at most `max(V, 1) + 1`
of them per slot and an unincluded segment of at most `max(C, 1)` blocks. The collator asks the
runtime API `can_build_upon` before building, so that it never builds a block the runtime would
reject.

* `onInitialize` — aura-ext's `on_initialize`: the slot may not move backwards;
* `onStateProof` — the hook on the inherent's state proof: the slot of the relay parent, the
  authored-blocks limit, and the segment capacity `max(C, 1)`;
* `canBuildUpon` — the collator-side check, reading `SlotInfo` and the segment of the block to
  build on;
* `auraStep` — a block of a runtime with both pallets and the hook, over parachain-system's
  `systemStep`; `ChildPasses` — the three checks a child of a state's block must pass.

`V`, `C` and the authored count are `u32`, added with wrap-around (`BitVec 32`) as the runtime's
release build adds them, where the rest of the development follows the debug build's overflow
checks (`Cumulus.Found.MachineInt`); slots are `Nat`, as `u64` slots are only compared here.
-/

namespace Cumulus.AuraExt

open Cumulus.Primitives Cumulus.Found Cumulus.ParachainSystem

/-- An AuRa slot number. -/
abbrev Slot := Nat

/-- `SlotInfo` after a block is initialised: the slot of the new block and the blocks authored in
it so far, this one included. `none` is the panic "slot moved backwards".
Source: `pallets/aura-ext/src/lib.rs` `Hooks::on_initialize` -/
def onInitialize (slotInfo : Option (Slot × BitVec 32)) (newSlot : Slot) :
    Option (Slot × BitVec 32) :=
  match slotInfo with
  | some (slot, authored) =>
    if slot = newSlot then some (slot, authored + 1)
    else if slot < newSlot then some (newSlot, 1)
    else none
  | none => some (newSlot, 1)

/-- The constants of `FixedVelocityConsensusHook<T, RELAY_CHAIN_SLOT_DURATION_MILLIS, V, C>`. -/
structure FixedVelocity where
  relayChainSlotDurationMillis : BitVec 32
  /-- `V`: the blocks a relay chain block may include. -/
  velocity : BitVec 32
  /-- `C`: the blocks the unincluded segment may hold. -/
  capacity : BitVec 32

/-- Rust's `x.max(1)` on a `u32`. -/
def maxOne (x : BitVec 32) : BitVec 32 :=
  if x < 1 then 1 else x

/-- `x.max(1)` is the larger of `x` and one. -/
theorem toNat_maxOne (x : BitVec 32) : (maxOne x).toNat = max x.toNat 1 := by
  have h1 : (1 : BitVec 32).toNat = 1 := rfl
  unfold maxOne
  split_ifs with h
  · rw [BitVec.lt_def, h1] at h
    rw [h1]
    omega
  · rw [BitVec.lt_def, h1] at h
    omega

/-- `x.max(1)` is never zero, so the capacity the hook returns is a valid one. -/
theorem maxOne_ne_zero (x : BitVec 32) : maxOne x ≠ 0 := by
  intro h
  have h0 : (0 : BitVec 32).toNat = 0 := rfl
  have := toNat_maxOne x
  rw [h, h0] at this
  omega

/-- The parachain slot of a relay chain slot: the relay chain's timestamp
(`saturating_mul` of the slot by its duration) over the parachain's slot duration;
`Slot::from_timestamp` divides, so a zero duration panics. -/
def paraSlotFromRelay (hook : FixedVelocity) (paraSlotDurationMillis : Nat)
    (relayChainSlot : Slot) : Option Slot :=
  let relayChainTimestamp := min (hook.relayChainSlotDurationMillis.toNat * relayChainSlot)
    (2 ^ 64 - 1)
  if paraSlotDurationMillis = 0 then none
  else some (relayChainTimestamp / paraSlotDurationMillis)

/-- Check the block against its relay parent's slot and the authored-blocks limit, and give the
segment's capacity `max(C, 1)`.
Source: `pallets/aura-ext/src/consensus_hook.rs` `FixedVelocityConsensusHook::on_state_proof` -/
def onStateProof (hook : FixedVelocity) (slotInfo : Option (Slot × BitVec 32))
    (paraSlotFromRelay : Option Slot) : Option UnincludedSegmentCapacity := do
  let velocity := maxOne hook.velocity
  let slotFromRelay ← paraSlotFromRelay
  -- `expect("slot info is inserted on block initialization")`
  let (slot, authored) ← slotInfo
  if slot ≠ slotFromRelay then none
  else if velocity + 1 < authored then none
  else some (.value (maxOne hook.capacity) (maxOne_ne_zero hook.capacity))

/-- Whether a block may be built on the state's block in `newSlot`, when `includedHash` is the
last included block.
Source: `pallets/aura-ext/src/consensus_hook.rs` `FixedVelocityConsensusHook::can_build_upon` -/
def canBuildUpon {P H : Type} [DecidableEq P] (hook : FixedVelocity)
    (slotInfo : Option (Slot × BitVec 32)) (s : SystemState P H) (includedHash : P)
    (newSlot : Slot) : Bool :=
  let velocity := maxOne hook.velocity
  match slotInfo with
  | none => true
  | some (lastSlot, authoredSoFar) =>
    if hook.capacity ≤ unincludedSegmentSizeAfter s includedHash then false
    else if lastSlot = newSlot then decide (authoredSoFar < velocity + 1)
    else decide (lastSlot < newSlot)

/-! ## The runtime with both pallets -/

/-- The storage of aura-ext and of parachain-system, with the record of the blocks so far. -/
structure AuraRun (P H : Type) where
  slotInfo : Option (Slot × BitVec 32)
  run : SystemRun P H

/-- A block of the runtime: a parachain-system block keeping the outbound contract, its AuRa
slot (`Aura::current_slot`, from its pre-runtime digest) and its relay parent's slot
(`RelayChainStateProof::read_slot`). The block's own capacity field is not read: the hook gives
it. -/
structure AuraBlock (P H : Type) where
  block : ContractBlock P H
  slot : Slot
  relayChainSlot : Slot

section Run

variable {P H : Type} [DecidableEq P] [DecidableEq H] (hs : HashScheme H) (cfg : SystemConfig)
  (hook : FixedVelocity) (paraSlotDurationMillis : Nat)

/-- Genesis: no slot recorded. -/
def AuraRun.genesis : AuraRun P H := ⟨none, SystemRun.genesis hs⟩

/-- One block: aura-ext's `on_initialize`, then parachain-system's block with the capacity that
`on_state_proof` gives in the inherent. -/
def auraStep (r : AuraRun P H) (b : AuraBlock P H) : Option (AuraRun P H) := do
  let slotInfo ← onInitialize r.slotInfo b.slot
  let capacity ← onStateProof hook slotInfo
    (paraSlotFromRelay hook paraSlotDurationMillis b.relayChainSlot)
  let run ← systemStep hs cfg r.run { b.block.input with capacity }
  pure ⟨slotInfo, run⟩

end Run

/-- The three checks of the runtime that a child of the state's block must pass, its parent hash
`atHash`, authored in `newSlot` on a relay parent of the same slot whose state proof reports
`included` as the included head: aura-ext's `on_initialize`, the authored-blocks limit of
`on_state_proof`, and `maybe_drop_included_ancestors` with the capacity it gives. -/
def ChildPasses {P H : Type} [DecidableEq P] (hook : FixedVelocity) (r : AuraRun P H)
    (atHash included : P) (newSlot : Slot) (relayState : RelayChainState P H) : Prop :=
  ∃ slotInfo capacity, onInitialize r.slotInfo newSlot = some slotInfo ∧
    onStateProof hook slotInfo (some newSlot) = some capacity ∧
    (maybeDropIncludedAncestors (ParachainSystem.onInitialize r.run.state atHash)
      { relayState with includedParaHead := some included } capacity atHash).isSome

end Cumulus.AuraExt
