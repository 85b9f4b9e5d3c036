import Cumulus.AuraExt.ConsensusHook

/-!
# aura-ext: `can_build_upon` against the runtime's checks

`can_build_upon` is meant to answer, before a block is built, what the runtime will answer when
it executes it. The runtime checks a child of block `at` three times: aura-ext's `on_initialize`
(no slot backwards), the authored-blocks limit of `on_state_proof`, and the capacity assertion of
`maybe_drop_included_ancestors`. The last one runs after the child's `on_initialize` has recorded
`at`'s head on the last ancestor, which `can_build_upon`, reading `at`'s own state, does not see.

* `HookInv` — what every reachable state of the runtime satisfies: the tracker invariant, the
  slot record within the limit, every ancestor's head recorded but the last, and a segment no
  longer than `max(C, 1)` (`hookInv_of_reachable`);
* `slotChecks_iff`, `maybeDrop_child_iff` — the two halves of the comparison;
* `canBuildUpon_iff_childPasses` — in every reachable state, for an included block other than
  `at` itself and `V` below `u32::MAX - 1`, `can_build_upon` answers as the runtime does;
* `canBuildUpon_diverges` — when `at` itself is the included block, `can_build_upon` still
  counts `at` in the segment, and with `C = 1` it refuses a child the runtime accepts, against
  its docs.

The `u32` limit `max(V, 1) + 1` is computed as the runtime's release build does, wrapping: for
`V = u32::MAX` it is `0` (a debug build panics), which is why the agreement assumes a smaller `V`.
-/

namespace Cumulus.AuraExt

open Cumulus.Primitives Cumulus.Found Cumulus.ParachainSystem

variable {P H : Type}

/-! ## The slot checks -/

section Slots

variable {hook : FixedVelocity}

/-- The authored-blocks limit `max(V, 1) + 1` does not wrap for `V` below `u32::MAX - 1`. -/
theorem toNat_limit (hV : hook.velocity.toNat + 2 < 2 ^ 32) :
    (maxOne hook.velocity + 1).toNat = (maxOne hook.velocity).toNat + 1 := by
  have h1 : (1 : BitVec 32).toNat = 1 := rfl
  rw [BitVec.toNat_add, h1, Nat.mod_eq_of_lt]
  rw [toNat_maxOne]
  omega

/-- When the hook's `on_state_proof` does not panic, the slot was recorded, it is the relay chain's
slot, at most `max(V, 1) + 1` blocks were authored in it, and the capacity is `max(C, 1)`. -/
theorem onStateProof_eq_some {slotInfo : Option (Slot × BitVec 32)} {slotFromRelay : Option Slot}
    {capacity : UnincludedSegmentCapacity}
    (h : onStateProof hook slotInfo slotFromRelay = some capacity) :
    ∃ slot authored, slotInfo = some (slot, authored) ∧ slotFromRelay = some slot ∧
      authored ≤ maxOne hook.velocity + 1 ∧
      capacity = .value (maxOne hook.capacity) (maxOne_ne_zero hook.capacity) := by
  unfold onStateProof at h
  -- the two `expect`s: a slot from the relay parent and a slot record
  cases slotFromRelay with
  | none => cases h
  | some slotFromRelay =>
    cases slotInfo with
    | none => cases h
    | some info =>
      obtain ⟨slot, authored⟩ := info
      simp only [Option.bind_eq_bind, Option.bind_some] at h
      split_ifs at h with hslot hlimit
      cases h
      exact ⟨slot, authored, rfl, by rw [not_not.mp hslot], BitVec.not_lt.mp hlimit, rfl⟩

/-- In the relay chain's slot, `on_state_proof` panics exactly when more than `max(V, 1) + 1` blocks
were authored in it. -/
theorem onStateProof_same_slot (slot : Slot) (authored : BitVec 32) :
    onStateProof hook (some (slot, authored)) (some slot) =
      if maxOne hook.velocity + 1 < authored then none
      else some (.value (maxOne hook.capacity) (maxOne_ne_zero hook.capacity)) := by
  simp [onStateProof]

/-- A child's slot checks, aura-ext's `on_initialize` and the authored-blocks limit, pass
exactly when the slot moves forward, or stays with room for one more block. -/
theorem slotChecks_iff (hV : hook.velocity.toNat + 2 < 2 ^ 32) {lastSlot newSlot : Slot}
    {authored : BitVec 32} (hle : authored ≤ maxOne hook.velocity + 1)
    (Q : UnincludedSegmentCapacity → Prop) :
    (∃ slotInfo capacity, onInitialize (some (lastSlot, authored)) newSlot = some slotInfo ∧
        onStateProof hook slotInfo (some newSlot) = some capacity ∧ Q capacity) ↔
      (if lastSlot = newSlot then authored < maxOne hook.velocity + 1 else lastSlot < newSlot) ∧
        Q (.value (maxOne hook.capacity) (maxOne_ne_zero hook.capacity)) := by
  have hlimit := toNat_limit hV
  have h1 : (1 : BitVec 32).toNat = 1 := rfl
  rw [BitVec.le_def, hlimit] at hle
  by_cases heq : lastSlot = newSlot
  · subst heq
    -- a block more in the same slot: the count must not pass the limit
    have hsucc : (authored + 1).toNat = authored.toNat + 1 := by
      rw [BitVec.toNat_add, h1, Nat.mod_eq_of_lt]
      have := toNat_maxOne hook.velocity
      omega
    simp only [onInitialize, if_true, Option.some.injEq, exists_and_left, exists_eq_left',
      onStateProof_same_slot]
    constructor
    · rintro ⟨capacity, hcap, hQ⟩
      split_ifs at hcap with hlt
      cases hcap
      refine ⟨?_, hQ⟩
      rw [BitVec.not_lt, BitVec.le_def, hsucc] at hlt
      rw [BitVec.lt_def]
      omega
    · rintro ⟨hlt, hQ⟩
      refine ⟨_, ?_, hQ⟩
      rw [if_neg]
      rw [BitVec.not_lt, BitVec.le_def, hsucc]
      rw [BitVec.lt_def] at hlt
      omega
  · have hnotlimit : ¬maxOne hook.velocity + 1 < 1 := by
      rw [BitVec.lt_def, hlimit, h1]
      omega
    by_cases hlt : lastSlot < newSlot
    · simp only [onInitialize, if_neg heq, if_pos hlt, Option.some.injEq, exists_and_left,
        exists_eq_left', onStateProof_same_slot, if_neg hnotlimit]
      simp [hlt]
    · simp [onInitialize, heq, hlt]

end Slots

/-! ## The segment check -/

/-- Appending an element that does not match leaves the index of the first match. -/
theorem findIdx?_append_singleton_of_false {α : Type} (p : α → Bool) {x : α} (hx : p x = false)
    (l : List α) : (l ++ [x]).findIdx? p = l.findIdx? p := by
  simp [List.findIdx?_append, hx]

/-- The block found first, if any, is one of those before the last. -/
theorem pivot_le_length {α : Type} (p : α → Bool) {x : α} (hx : p x = false) (l : List α) :
    (((l ++ [x]).findIdx? p).map (· + 1)).getD 0 ≤ l.length := by
  rw [findIdx?_append_singleton_of_false p hx]
  cases h : l.findIdx? p with
  | none => exact Nat.zero_le _
  | some i => exact (List.findIdx?_eq_some_iff_getElem.mp h).1

/-- The slot record and the segment as a block of the runtime leaves them: nothing before the
first block; after it, at most `max(V, 1) + 1` blocks in the recorded slot, and the heads of all
ancestors but the last, the block itself, whose head its child records. -/
def SlotsPending (hook : FixedVelocity) : Option (Slot × BitVec 32) → List (Ancestor P) → Prop
  | none, seg => seg = []
  | some (_, authored), seg => authored ≤ maxOne hook.velocity + 1 ∧
    ∃ earlier last, seg = earlier ++ [last] ∧ (∀ a ∈ earlier, a.paraHeadHash.isSome) ∧
      last.paraHeadHash = none

/-- What every reachable state of the runtime satisfies. -/
structure HookInv (hook : FixedVelocity) (r : AuraRun P H) : Prop where
  tracked : SegmentTracked r.run.state
  pending : SlotsPending hook r.slotInfo r.run.state.unincludedSegment
  bounded : r.run.state.unincludedSegment.length ≤ (maxOne hook.capacity).toNat

section Segment

variable {hook : FixedVelocity}

/-- After the child's `on_initialize`, every ancestor has its head. -/
theorem SlotsPending.heads {slotInfo : Option (Slot × BitVec 32)} {seg : List (Ancestor P)}
    (h : SlotsPending hook slotInfo seg) (parentHash : P) :
    ∀ a ∈ replaceLastHead parentHash seg, a.paraHeadHash.isSome := by
  cases slotInfo with
  | none =>
    cases (h : seg = [])
    intro a ha
    cases ha
  | some info =>
    obtain ⟨-, earlier, last, rfl, hearlier, -⟩ := h
    rw [replaceLastHead_append_singleton]
    intro a ha
    rcases List.mem_append.mp ha with ha | ha
    · exact hearlier a ha
    · rw [List.mem_singleton.mp ha]
      rfl

/-- The child's capacity check passes exactly when `can_build_upon` finds room, for an included
block other than the child's parent: both find the included block among the ancestors before
the last, or neither does. -/
theorem maybeDrop_child_iff [DecidableEq P] {r : AuraRun P H} (hi : HookInv hook r)
    {lastSlot : Slot} {authored : BitVec 32} (hsi : r.slotInfo = some (lastSlot, authored))
    {atHash included : P} (hne : included ≠ atHash) (relayState : RelayChainState P H) :
    (maybeDropIncludedAncestors (ParachainSystem.onInitialize r.run.state atHash)
        { relayState with includedParaHead := some included }
        (.value (maxOne hook.capacity) (maxOne_ne_zero hook.capacity)) atHash).isSome ↔
      ¬hook.capacity ≤ unincludedSegmentSizeAfter r.run.state included := by
  have hpending := hi.pending
  rw [hsi] at hpending
  obtain ⟨-, earlier, last, hseg, -, hlast⟩ := hpending
  have hiff := (hi.tracked.onInitialize atHash).maybeDropIncludedAncestors_isSome_iff
    (hi.pending.heads atHash)
    (show ({ relayState with includedParaHead := some included } : RelayChainState P H).includedParaHead =
      some included from rfl) (maxOne_ne_zero hook.capacity) atHash
  rw [hiff]
  -- neither the recorded head of `at` nor the missing one is the included block
  have hx : decide (({ last with paraHeadHash := some atHash } : Ancestor P).paraHeadHash =
      some included) = false := by
    simpa using fun h => hne h.symm
  have hx' : decide (last.paraHeadHash = some included) = false := by
    simp [hlast]
  have hpivot := pivot_le_length (fun a : Ancestor P => decide (a.paraHeadHash = some included)) hx' earlier
  have hbound := hi.bounded
  have hseg' : (ParachainSystem.onInitialize r.run.state atHash).unincludedSegment =
      earlier ++ [{ last with paraHeadHash := some atHash }] := by
    rw [← replaceLastHead_append_singleton, ← hseg]
    rfl
  rw [hseg', findIdx?_append_singleton_of_false (fun a : Ancestor P => decide (a.paraHeadHash = some included))
    hx]
  simp only [unincludedSegmentSizeAfter, sizeAfterIncluded]
  rw [hseg, findIdx?_append_singleton_of_false (fun a : Ancestor P => decide (a.paraHeadHash = some included))
    hx']
  rw [findIdx?_append_singleton_of_false (fun a : Ancestor P => decide (a.paraHeadHash = some included)) hx']
    at hpivot
  rw [hseg, List.length_append, List.length_singleton] at hbound
  simp only [List.length_append, List.length_singleton]
  have hcap := toNat_maxOne hook.capacity
  have hlt : (maxOne hook.capacity).toNat < 2 ^ 32 := (maxOne hook.capacity).isLt
  have hk : earlier.length + 1 -
      ((earlier.findIdx? fun a => decide (a.paraHeadHash = some included)).map (· + 1)).getD 0 <
      2 ^ 32 := by omega
  rw [BitVec.lt_def, BitVec.not_le, BitVec.lt_def, BitVec.toNat_ofNat, Nat.mod_eq_of_lt hk]
  omega

end Segment

/-! ## The runtime's runs -/

section Run

variable [DecidableEq P] [DecidableEq H] {hs : HashScheme H} {cfg : SystemConfig}
  {hook : FixedVelocity} {paraSlotDurationMillis : Nat}

omit [DecidableEq P] [DecidableEq H] in
/-- Genesis satisfies the runtime's invariant. -/
theorem hookInv_genesis : HookInv hook (AuraRun.genesis hs : AuraRun P H) :=
  ⟨SegmentTracked.genesis hs, rfl, Nat.zero_le _⟩

/-- **The block step.** Every block of the runtime keeps the invariant: its child's
`on_initialize` fills the last head, the drop keeps a prefix, and the block joins without its
head after the capacity assertion. -/
theorem HookInv.auraStep {r r' : AuraRun P H} {b : AuraBlock P H} (hi : HookInv hook r)
    (h : AuraExt.auraStep hs cfg hook paraSlotDurationMillis r b = some r') : HookInv hook r' := by
  unfold AuraExt.auraStep at h
  obtain ⟨slotInfo, -, h⟩ := Option.bind_eq_some_iff.mp h
  obtain ⟨capacity, hcap, h⟩ := Option.bind_eq_some_iff.mp h
  obtain ⟨run, hrun, h⟩ := Option.bind_eq_some_iff.mp h
  cases h
  obtain ⟨slot, authored, hinfo, -, hle, rfl⟩ := onStateProof_eq_some hcap
  cases hinfo
  obtain ⟨⟨s', received⟩, hexec, rfl⟩ := Option.map_eq_some_iff.mp hrun
  -- the block keeps its own source and relay chain state; only its capacity is the hook's
  obtain ⟨n, a, hseg, hhead, hroom⟩ := executeBlock_unincludedSegment
    (by exact b.block.respects) (by exact b.block.egressSorted) hexec
  refine ⟨hi.tracked.executeBlock (by exact b.block.respects) (by exact b.block.egressSorted) hexec,
    ⟨hle, _, a, hseg, fun x hx => hi.pending.heads _ x (List.mem_of_mem_drop hx), hhead⟩, ?_⟩
  have hbound := hi.bounded
  have hlt : (maxOne hook.capacity).toNat < 2 ^ 32 := (maxOne hook.capacity).isLt
  have hk : r.run.state.unincludedSegment.length - n < 2 ^ 32 := by omega
  change BitVec.ofNat 32 _ < maxOne hook.capacity at hroom
  rw [List.length_drop, length_replaceLastHead, BitVec.lt_def, BitVec.toNat_ofNat,
    Nat.mod_eq_of_lt hk] at hroom
  show s'.unincludedSegment.length ≤ _
  rw [hseg, List.length_append, List.length_drop, length_replaceLastHead, List.length_singleton]
  omega

/-- Every state the runtime reaches from genesis satisfies its invariant. -/
theorem hookInv_of_reachable {r : AuraRun P H}
    (hr : Reachable (AuraExt.auraStep hs cfg hook paraSlotDurationMillis) (AuraRun.genesis hs) r) :
    HookInv hook r :=
  hr.invariant hookInv_genesis fun _ _ _ hi h => hi.auraStep h

/-- In every reachable state, for an included block other than the block `at` to build on and
for `V` below `u32::MAX - 1`, `can_build_upon` allows a block in `newSlot` exactly when a child of
`at` authored in that slot, on a relay parent of that slot reporting `included` as included,
passes the runtime's three checks. -/
theorem canBuildUpon_iff_childPasses (hV : hook.velocity.toNat + 2 < 2 ^ 32) {r : AuraRun P H}
    (hr : Reachable (AuraExt.auraStep hs cfg hook paraSlotDurationMillis) (AuraRun.genesis hs) r)
    {atHash included : P} (hne : included ≠ atHash) (newSlot : Slot)
    (relayState : RelayChainState P H) :
    canBuildUpon hook r.slotInfo r.run.state included newSlot = true ↔
      ChildPasses hook r atHash included newSlot relayState := by
  have hi := hookInv_of_reachable hr
  unfold ChildPasses
  rcases hsi : r.slotInfo with _ | ⟨lastSlot, authored⟩
  · -- before the first block the segment is empty and every check passes
    have hseg : r.run.state.unincludedSegment = [] := by
      have := hi.pending
      rwa [hsi] at this
    have hle : (1 : BitVec 32) ≤ maxOne hook.velocity + 1 := by
      rw [BitVec.le_def, toNat_limit hV]
      have h1 : (1 : BitVec 32).toNat = 1 := rfl
      omega
    have hsome := ((hi.tracked.onInitialize atHash).maybeDropIncludedAncestors_isSome_iff
      (hi.pending.heads atHash)
      (show ({ relayState with includedParaHead := some included } :
        RelayChainState P H).includedParaHead = some included from rfl)
      (maxOne_ne_zero hook.capacity) atHash).mpr
    have hseg₀ : (ParachainSystem.onInitialize r.run.state atHash).unincludedSegment = [] := by
      show replaceLastHead atHash r.run.state.unincludedSegment = []
      rw [hseg]
      rfl
    refine iff_of_true rfl ⟨_, _, rfl, (onStateProof_same_slot newSlot 1).trans (if_neg
      (BitVec.not_lt.mpr hle)), hsome ?_⟩
    have h0 : (BitVec.ofNat 32 0).toNat = 0 := rfl
    have := toNat_maxOne hook.capacity
    rw [hseg₀, List.findIdx?_nil, Option.map_none, Option.getD_none, List.length_nil,
      Nat.sub_zero, BitVec.lt_def, h0]
    omega
  · have hpending := hi.pending
    rw [hsi] at hpending
    rw [slotChecks_iff hV hpending.1, maybeDrop_child_iff hi hsi hne relayState]
    simp only [canBuildUpon]
    split_ifs <;> simp_all

/-- `FixedVelocityConsensusHook<_, 6000, 1, 1>`: one block per relay chain block and a segment of
at most one block. -/
def singleCapacityHook : FixedVelocity := ⟨6000, 1, 1⟩

/-- The first block, in slot 1 on a relay parent of slot 1, with six-second parachain slots. -/
def firstAuraBlock : AuraBlock Nat Nat :=
  ⟨⟨wideBlock 1 1 silentSource, silentSource_respects, by decide⟩, 1, 1⟩

/-- After the first block, with the genesis block as the included one, `can_build_upon` and the
runtime agree on a child in slot 2. -/
theorem canBuildUpon_iff_childPasses_firstBlock :
    ∃ r : AuraRun Nat Nat,
      Reachable (AuraExt.auraStep sumHash .anyRelayNumber singleCapacityHook 6000)
        (AuraRun.genesis sumHash) r ∧
      (singleCapacityHook.velocity.toNat + 2 < 2 ^ 32 ∧ (0 : Nat) ≠ 2) ∧
      (canBuildUpon singleCapacityHook r.slotInfo r.run.state 0 2 = true ↔
        ChildPasses singleCapacityHook r 2 0 2 (wideInherent 2).relayChainState) := by
  have hr := Reachable.of_runSteps (rfl : runSteps
    (AuraExt.auraStep sumHash .anyRelayNumber singleCapacityHook 6000) (AuraRun.genesis sumHash)
    [firstAuraBlock] = some _)
  exact ⟨_, hr, ⟨by decide, by decide⟩,
    canBuildUpon_iff_childPasses (by decide) hr (by decide) 2 (wideInherent 2).relayChainState⟩

/-- **`can_build_upon` refuses a child that the runtime accepts.** After the first block of
`singleCapacityHook`, its hash `2` being the included block, `can_build_upon` still counts that
block in the segment and refuses a child in slot 2, although its docs say that with the included
block at `at` it must return true for a later slot; the runtime accepts the child: its
`on_initialize` records the block's head and the included block is dropped. -/
theorem canBuildUpon_diverges :
    ∃ r : AuraRun Nat Nat,
      Reachable (AuraExt.auraStep sumHash .anyRelayNumber singleCapacityHook 6000)
        (AuraRun.genesis sumHash) r ∧
      canBuildUpon singleCapacityHook r.slotInfo r.run.state 2 2 = false ∧
      ChildPasses singleCapacityHook r 2 2 2 (wideInherent 2).relayChainState :=
  ⟨_, Reachable.of_runSteps (rfl : runSteps
    (AuraExt.auraStep sumHash .anyRelayNumber singleCapacityHook 6000) (AuraRun.genesis sumHash)
    [firstAuraBlock] = some _), rfl, _, _, rfl, rfl, rfl⟩

end Run

end Cumulus.AuraExt
