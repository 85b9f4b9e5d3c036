import Cumulus.ParachainSystem.Inbound

/-!
# parachain-system: the unincluded segment over a run

`AggregatedUnincludedSegment` is meant to be the aggregate of the blocks in `UnincludedSegment`:
`on_finalize` appends each block to both, and `maybe_drop_included_ancestors` takes the included
ones off both. The tracker adds with `saturating_add` and subtracts with plain `-=`, so the two
agree only while no sum saturates; what keeps the sums small is the outbound message source
sending only what `get_channel_status` leaves room for.

* `SegmentTracked` — the tracker of the storage is the aggregate of its segment; every phase of a
  block keeps it (`SegmentTracked.onInitialize`, `.setValidationData`, `.append`), so every block
  that keeps the source's contract does (`SegmentTracked.executeBlock`, `ContractBlock`);
* `unincludedSegment_tracked` — in every state a run of such blocks reaches; without the contract
  the tracker saturates (`unincludedSegment_untracked_overfill`);
* `WatermarkBelowRelay` — after every block, the tracker's watermark is at most the relay parent;
* `finalizeAppend_isOk` — the append of `on_finalize` passes its checks when the relay chain's
  snapshot leaves room for the segment (`TrackerFits`) and its horizontal messages are new; a
  snapshot without that room makes it panic (`finalizeAppend_fails_of_snapshot`).
-/

namespace Cumulus.ParachainSystem

open Cumulus.Primitives Cumulus.Found

variable {P H : Type}

/-! ## The tracker under the operations of the pallet -/

namespace SegmentTracker

/-- Subtracting an included block keeps the tracker's watermark. -/
theorem subtract_hrmpWatermark {T T' : SegmentTracker} {block : Ancestor P}
    (h : T.subtract block = some T') : T'.hrmpWatermark = T.hrmpWatermark := by
  unfold subtract at h
  obtain ⟨used, -, h⟩ := Option.bind_eq_some_iff.mp h
  split at h
  · cases h
    rfl
  · split_ifs at h
    cases h
    rfl

/-- The signals of a segment are the signals of its blocks, in order. -/
theorem signals_eq_filterMap (seg : List (Ancestor P)) :
    signals seg = (seg.map (·.consumedGoAheadSignal)).filterMap id := by
  rw [signals, List.filterMap_map]
  rfl

/-- The tracker of a segment tracks every segment with the same bandwidths and signals. -/
theorem Tracks.of_map_eq {T : SegmentTracker} {seg seg' : List (Ancestor P)} (ht : Tracks T seg)
    (hub : seg'.map (·.usedBandwidth) = seg.map (·.usedBandwidth))
    (hsig : seg'.map (·.consumedGoAheadSignal) = seg.map (·.consumedGoAheadSignal)) :
    Tracks T seg' := by
  have hsignals : signals seg' = signals seg := by
    rw [signals_eq_filterMap, hsig, ← signals_eq_filterMap]
  refine ⟨hub ▸ ht.usedBandwidth, ht.noEmptyEntry, fun a ha => ?_,
    hsignals ▸ ht.signalsLength, hsignals ▸ ht.consumedGoAheadSignal⟩
  have hmem : a.usedBandwidth ∈ seg'.map (·.usedBandwidth) := List.mem_map_of_mem ha
  rw [hub] at hmem
  obtain ⟨b, hb, hba⟩ := List.mem_map.mp hmem
  exact hba ▸ ht.ancestorsNoEmptyEntry b hb

/-- **Dropping the included prefix never panics.** Taking any prefix of the segment off its
tracker succeeds and leaves the tracker of the rest. -/
theorem Tracks.subtractAncestors_take :
    ∀ {T : SegmentTracker} {seg : List (Ancestor P)} (k : Nat), Tracks T seg →
      ∃ T', subtractAncestors T (seg.take k) = some T' ∧ Tracks T' (seg.drop k)
  | T, _, 0, ht => ⟨T, rfl, ht⟩
  | T, [], _ + 1, ht => ⟨T, rfl, ht⟩
  | T, _ :: _, k + 1, ht => by
    obtain ⟨T₁, h₁, ht₁⟩ := ht.subtract
    obtain ⟨T', h', ht'⟩ := Tracks.subtractAncestors_take k ht₁
    exact ⟨T', by simp [subtractAncestors, h₁, h'], ht'⟩

end SegmentTracker

open SegmentTracker

/-- Subtracting included blocks keeps the tracker's watermark. -/
theorem subtractAncestors_hrmpWatermark :
    ∀ {T T' : SegmentTracker} {l : List (Ancestor P)}, subtractAncestors T l = some T' →
      T'.hrmpWatermark = T.hrmpWatermark
  | _, _, [], h => by cases h; rfl
  | _, _, _ :: _, h => by
    obtain ⟨T₁, h₁, h⟩ := Option.bind_eq_some_iff.mp h
    rw [subtractAncestors_hrmpWatermark h, subtract_hrmpWatermark h₁]

/-- `HrmpWatermarkUpdate::new` never goes above the relay parent. -/
theorem HrmpWatermarkUpdate.value_new_le (watermark relayParentNumber : RelayBlockNumber) :
    (HrmpWatermarkUpdate.new watermark relayParentNumber).value ≤ relayParentNumber := by
  unfold HrmpWatermarkUpdate.new
  split_ifs with h
  · exact BitVec.le_refl _
  · exact BitVec.le_of_lt (BitVec.not_le.mp h)

/-- The watermark check passes when a watermark below the relay parent is above the last one. -/
theorem watermarkError_new_eq_none {latest : Option RelayBlockNumber}
    {watermark relayParentNumber : RelayBlockNumber}
    (h : ∀ v, latest = some v → relayParentNumber ≤ watermark ∨ v < watermark) :
    watermarkError latest (.new watermark relayParentNumber) = none := by
  unfold HrmpWatermarkUpdate.new
  split_ifs with hrp
  · cases latest <;> rfl
  · cases latest with
    | none => rfl
    | some v =>
      have hv := (h v rfl).resolve_left hrp
      simp [watermarkError, BitVec.not_le.mpr hv]

/-! ## What `on_finalize` appends -/

/-- A channel's usage fits into `u32`. -/
theorem channelUsage_lt (m : SortedMap ParaId HrmpChannelUpdate) (p : ParaId) :
    (channelUsage m p).1 < 2 ^ 32 ∧ (channelUsage m p).2 < 2 ^ 32 := by
  cases h : m.get? p with
  | none => simp [channelUsage_of_get?_eq_none h]
  | some c =>
    rw [channelUsage_of_get? h]
    exact ⟨c.msgCount.isLt, c.totalBytes.isLt⟩

section Prepared

variable {s : SystemState P H} {ms : MessagingStateSnapshot H}
  {relayUpgradeGoAhead : Option UpgradeGoAhead} {f : Finalizing P H}

/-- What `on_finalize` prepares fits in a `u32` with what the segment used. -/
theorem Prepared.noSaturation (hp : Prepared s ms relayUpgradeGoAhead f) :
    (s.aggregatedUnincludedSegment.getD .default).usedBandwidth.NoSaturation
      f.ancestor.usedBandwidth where
  umpMsgCount := by
    have := hp.umpMsgCount
    have := ms.relayDispatchQueueRemainingCapacity.remainingCount.isLt
    have := (s.aggregatedUnincludedSegment.getD .default).usedBandwidth.umpMsgCount.isLt
    omega
  umpTotalBytes := by
    have := hp.umpTotalBytes
    have := ms.relayDispatchQueueRemainingCapacity.remainingSize.isLt
    have := (s.aggregatedUnincludedSegment.getD .default).usedBandwidth.umpTotalBytes.isLt
    omega
  hrmpOutgoing p c hc := by
    obtain ⟨hone, ch, -, hroom⟩ := hp.hrmpOutgoing p c hc
    obtain ⟨-, hused⟩ :=
      channelUsage_lt (s.aggregatedUnincludedSegment.getD .default).usedBandwidth.hrmpOutgoing p
    have hcap := ch.maxCapacity.isLt
    have htotal := ch.maxTotalSize.isLt
    have hmessages := hroom.messages
    rw [hone]
    refine ⟨show _ + 1 < _ by omega, ?_⟩
    rcases hroom.bytes with hb | hb <;> omega

/-- Every channel of the prepared ancestor carries a message. -/
theorem Prepared.noEmptyEntry (hp : Prepared s ms relayUpgradeGoAhead f) :
    f.ancestor.usedBandwidth.NoEmptyEntry := by
  intro p c hc
  obtain ⟨hone, -⟩ := hp.hrmpOutgoing p c hc
  simp [HrmpChannelUpdate.isEmpty, hone]

end Prepared

/-! ## The segment invariant, phase by phase -/

/-- The segment part of the storage is consistent: the stored tracker, or the empty one when none
is stored, is the aggregate of the segment, and a segment with blocks has a stored tracker. -/
structure SegmentTracked (s : SystemState P H) : Prop where
  tracks : (s.aggregatedUnincludedSegment.getD .default).Tracks s.unincludedSegment
  trackerExists : s.unincludedSegment ≠ [] → s.aggregatedUnincludedSegment.isSome

namespace SegmentTracked

/-- The invariant reads only the segment and the stored tracker. -/
theorem of_eq {s s' : SystemState P H} (ht : SegmentTracked s)
    (hseg : s'.unincludedSegment = s.unincludedSegment)
    (hagg : s'.aggregatedUnincludedSegment = s.aggregatedUnincludedSegment) :
    SegmentTracked s' := by
  constructor
  · rw [hseg, hagg]
    exact ht.tracks
  · rw [hseg, hagg]
    exact ht.trackerExists

/-- Genesis satisfies the segment invariant. -/
theorem genesis (hs : HashScheme H) : SegmentTracked (SystemState.genesis hs : SystemState P H) where
  tracks := tracks_default
  trackerExists h := absurd rfl h

/-- `on_initialize` keeps the segment invariant. -/
theorem onInitialize {s : SystemState P H} (ht : SegmentTracked s) (parentHash : P) :
    SegmentTracked (onInitialize s parentHash) where
  tracks := ht.tracks.of_map_eq (replaceLastHead_map _ parentHash (fun _ => rfl) _)
    (replaceLastHead_map _ parentHash (fun _ => rfl) _)
  trackerExists hne :=
    ht.trackerExists fun h => hne ((replaceLastHead_eq_nil_iff parentHash _).mpr h)

/-- Dropping the included blocks keeps the segment invariant. -/
theorem maybeDropIncludedAncestors [DecidableEq P] {s s' : SystemState P H}
    {relayState : RelayChainState P H} {capacity : UnincludedSegmentCapacity} {parentHash : P}
    (ht : SegmentTracked s) (h : maybeDropIncludedAncestors s relayState capacity parentHash = some s') :
    SegmentTracked s' := by
  obtain ⟨n, aggregated, rfl, hagg, -⟩ := maybeDropIncludedAncestors_spec h
  rcases hagg with ⟨hnil, rfl⟩ | ⟨T, T', hT, hT', rfl⟩
  · -- nothing is dropped
    have hdrop : s.unincludedSegment.drop n = s.unincludedSegment := by
      rcases List.take_eq_nil_iff.mp hnil with rfl | hseg
      · exact List.drop_zero
      · rw [hseg]
        exact List.drop_nil
    exact ht.of_eq hdrop rfl
  · have htT : T.Tracks s.unincludedSegment := by simpa [hT] using ht.tracks
    obtain ⟨T'', h'', ht''⟩ := htT.subtractAncestors_take n
    rw [hT'] at h''
    cases h''
    exact ⟨ht'', fun _ => rfl⟩

/-- On a tracked state whose ancestors all have their heads, `maybe_drop_included_ancestors`
with an included head and a capacity value fails only at its capacity assertion. -/
theorem maybeDropIncludedAncestors_isSome_iff [DecidableEq P] {s : SystemState P H}
    (ht : SegmentTracked s) (hheads : ∀ a ∈ s.unincludedSegment, a.paraHeadHash.isSome)
    {relayState : RelayChainState P H} {included : P}
    (hinc : relayState.includedParaHead = some included) {c : BitVec 32} (hc : c ≠ 0)
    (parentHash : P) :
    (ParachainSystem.maybeDropIncludedAncestors s relayState (.value c hc) parentHash).isSome ↔
      BitVec.ofNat 32 (s.unincludedSegment.length -
        ((s.unincludedSegment.findIdx? fun a => decide (a.paraHeadHash = some included)).map
          (· + 1)).getD 0) < c := by
  have hpos := includedPosition_of_heads included hheads
  obtain ⟨T', hT', -⟩ := ht.tracks.subtractAncestors_take
    (((s.unincludedSegment.findIdx? fun a => decide (a.paraHeadHash = some included)).map
      (· + 1)).getD 0)
  unfold ParachainSystem.maybeDropIncludedAncestors
  simp only [hinc, UnincludedSegmentCapacity.isExpectingIncludedParent, Option.bind_eq_bind,
    Option.bind_some, hpos, UnincludedSegmentCapacity.get, List.length_drop]
  -- a dropped prefix is taken off the stored tracker, which the invariant says is there
  split_ifs with hnil hcap hcap
  · simp [hcap]
  · simp [hcap]
  · obtain ⟨T, hT⟩ := Option.isSome_iff_exists.mp (ht.trackerExists fun h => hnil (by simp [h]))
    rw [hT, Option.getD_some] at hT'
    simp [hT, hT', hcap]
  · obtain ⟨T, hT⟩ := Option.isSome_iff_exists.mp (ht.trackerExists fun h => hnil (by simp [h]))
    simp [hT, hcap]

/-- `set_validation_data` keeps the segment invariant. -/
theorem setValidationData [DecidableEq P] [DecidableEq H] {hs : HashScheme H}
    {cfg : SystemConfig} {s s₁ : SystemState P H} {data : ParachainInherentData P H}
    {capacity : UnincludedSegmentCapacity} {parentHash : P} {received : InboundRecord}
    (ht : SegmentTracked s)
    (h : ParachainSystem.setValidationData hs cfg s data capacity parentHash = some (s₁, received)) :
    SegmentTracked s₁ := by
  obtain ⟨sDrop, code, dmqHead, hrmpHeads, hdrop, -, rfl⟩ := setValidationData_eq h
  have ht₀ : SegmentTracked
      { s with lastRelayChainBlockNumber := data.validationData.relayParentNumber } :=
    ht.of_eq rfl rfl
  exact (ht₀.maybeDropIncludedAncestors hdrop).of_eq rfl rfl

/-- The append of `on_finalize`, of a prepared ancestor, makes the tracker of the longer segment. -/
theorem append {s : SystemState P H} {ms : MessagingStateSnapshot H}
    {relayUpgradeGoAhead : Option UpgradeGoAhead} {f : Finalizing P H} {T' : SegmentTracker}
    (ht : SegmentTracked s) (hp : Prepared s ms relayUpgradeGoAhead f)
    (hT' : (f.state.aggregatedUnincludedSegment.getD .default).append f.ancestor f.watermark
      f.limits = some (.ok T')) :
    SegmentTracked { f.state with
      aggregatedUnincludedSegment := some T'
      unincludedSegment := f.state.unincludedSegment ++ [f.ancestor] } := by
  obtain ⟨ms', up, pending, hstate⟩ := hp.state
  rw [hstate] at hT' ⊢
  exact ⟨ht.tracks.append hp.noSaturation hp.noEmptyEntry hT', fun _ => rfl⟩

end SegmentTracked

/-! ## Runs of blocks that keep the contract -/

/-- A block whose outbound message source keeps the contract of `get_channel_status`
(`OutboundSource.Respects`), and whose relay chain state lists the egress channels sorted, as the
relay chain promises. -/
structure ContractBlock (P H : Type) where
  input : BlockInput P H
  respects : input.source.Respects
  egressSorted :
    (input.inherent.relayChainState.messagingState.egressChannels.map Prod.fst).Pairwise (· < ·)

section Run

variable [DecidableEq P] [DecidableEq H] (hs : HashScheme H) (cfg : SystemConfig)

/-- One block of a run whose blocks keep the contract. -/
def contractStep (r : SystemRun P H) (b : ContractBlock P H) : Option (SystemRun P H) :=
  systemStep hs cfg r b.input

variable {hs cfg}

/-- **The block step.** A block that keeps the contract keeps the segment invariant. -/
theorem SegmentTracked.executeBlock {s s' : SystemState P H} {b : BlockInput P H}
    {received : InboundRecord} (ht : SegmentTracked s) (hsrc : b.source.Respects)
    (hsorted :
      (b.inherent.relayChainState.messagingState.egressChannels.map Prod.fst).Pairwise (· < ·))
    (h : executeBlock hs cfg s b = some (s', received)) : SegmentTracked s' := by
  obtain ⟨s₁, up, code, f, T', hset, hf, hT', rfl⟩ := executeBlock_eq h
  have ht₁ := (ht.onInitialize b.parentHash).setValidationData hset
  obtain ⟨sDrop, code₁, dmqHead, hrmpHeads, -, -, hs₁⟩ := setValidationData_eq hset
  have hms : s₁.relevantMessagingState = some b.inherent.relayChainState.messagingState := by
    rw [hs₁]
  have ht₂ : SegmentTracked { s₁ with
      pendingUpwardMessages := up
      pendingValidationCode := code
      upgradeRestrictionSignal := none
      upgradeGoAhead := none } :=
    ht₁.of_eq rfl rfl
  exact ht₂.append (prepareAncestor_spec hms hsorted hsrc hf) hT'

/-- Every state reachable by blocks that keep the channel contract satisfies the segment invariant.
-/
theorem segmentTracked_of_reachable {r : SystemRun P H}
    (hr : Reachable (contractStep hs cfg) (SystemRun.genesis hs) r) : SegmentTracked r.state := by
  refine @Reachable.invariant _ _ (contractStep hs cfg) _ _ (fun r => SegmentTracked r.state)
    (SegmentTracked.genesis hs) (fun r b r' ht h => ?_) hr
  obtain ⟨⟨s', received⟩, hexec, rfl⟩ := Option.map_eq_some_iff.mp h
  exact ht.executeBlock b.respects b.egressSorted hexec

/-- **The tracker is the aggregate of the unincluded segment.** In every state that a run of
blocks keeping the contract reaches, the stored tracker (the empty one when none is stored) is the
exact sum of the ancestors in the segment, counter by counter and channel by channel, without an
empty channel; it holds a go-ahead signal exactly when one ancestor, and only one, consumed it;
a non-empty segment has a stored tracker; and taking any prefix of the segment off the tracker
never panics. -/
theorem unincludedSegment_tracked {r : SystemRun P H}
    (hr : Reachable (contractStep hs cfg) (SystemRun.genesis hs) r) :
    let T := r.state.aggregatedUnincludedSegment.getD .default
    let seg := r.state.unincludedSegment
    T.usedBandwidth.Aggregates (seg.map (·.usedBandwidth)) ∧ T.usedBandwidth.NoEmptyEntry ∧
    (∀ x, T.consumedGoAheadSignal = some x ↔ signals seg = [x]) ∧
    (signals seg).length ≤ 1 ∧
    (seg ≠ [] → r.state.aggregatedUnincludedSegment.isSome) ∧
    ∀ k, ∃ T', subtractAncestors T (seg.take k) = some T' := by
  have ht := segmentTracked_of_reachable hr
  refine ⟨ht.tracks.usedBandwidth, ht.tracks.noEmptyEntry,
    ht.tracks.consumedGoAheadSignal_eq_some_iff, ht.tracks.signalsLength, ht.trackerExists,
    fun k => ?_⟩
  obtain ⟨T', hT', -⟩ := ht.tracks.subtractAncestors_take k
  exact ⟨T', hT'⟩

/-- A host configuration for the examples: one upward message and four HRMP messages a block. -/
def exampleHostConfiguration : AbridgedHostConfiguration := ⟨100, 100, 1, 4⟩

/-- An egress channel with room for ten messages and `u32::MAX` bytes. -/
def wideChannel : AbridgedHrmpChannel Nat :=
  ⟨10, BitVec.allOnes 32, BitVec.allOnes 32, 0, 0, none⟩

/-- The inherent of a block at relay parent `n` with one egress channel, to para 7, that never
fills up, and no message in. -/
def wideInherent (n : RelayBlockNumber) : ParachainInherentData Nat Nat where
  validationData := ⟨n⟩
  relayChainState :=
    ⟨some 0, none, none, exampleHostConfiguration, ⟨0, ⟨0, 0⟩, [], [(7, wideChannel)]⟩⟩
  downwardMessages := []
  horizontalMessages := .empty

/-- A block over relay parent `n` with a segment capacity of five, no call and the given source. -/
def wideBlock (parentHash : Nat) (n : RelayBlockNumber) (source : OutboundSource) :
    BlockInput Nat Nat :=
  ⟨parentHash, wideInherent n, .value 5 (by decide), [], source⟩

/-- A source that sends nothing. -/
def silentSource : OutboundSource := fun _ _ => some []

/-- A source that fills the channel to para 7 with one message of all the room it has. -/
def fillSource : OutboundSource := fun status _ =>
  match status 7 with
  | some (.ready maxSizeNow _) => some [(7, maxSizeNow)]
  | _ => some []

/-- A source that sends one byte to para 7, whatever its status. -/
def overfillSource : OutboundSource := fun _ _ => some [(7, 1)]

/-- A source that sends nothing keeps the channel contract. -/
theorem silentSource_respects : silentSource.Respects := by
  intro status n messages h p len hmem
  cases h
  cases hmem

/-- The filling source keeps the channel contract. -/
theorem fillSource_respects : fillSource.Respects := by
  intro status n messages h p len hmem
  unfold fillSource at h
  split at h
  · rename_i maxSizeNow maxSizeEver hstatus
    cases h
    obtain ⟨rfl, rfl⟩ := Prod.mk.inj (List.mem_singleton.mp hmem)
    exact ⟨_, _, hstatus, Nat.le_refl _⟩
  · cases h
    cases hmem

/-- Two blocks keeping the contract: the second fills the channel to para 7. -/
theorem unincludedSegment_tracked_wide :
    ∃ r : SystemRun Nat Nat,
      Reachable (contractStep sumHash .anyRelayNumber) (SystemRun.genesis sumHash) r ∧
      r.state.unincludedSegment.length = 2 ∧
      let T := r.state.aggregatedUnincludedSegment.getD .default
      let seg := r.state.unincludedSegment
      T.usedBandwidth.Aggregates (seg.map (·.usedBandwidth)) ∧ T.usedBandwidth.NoEmptyEntry ∧
      (∀ x, T.consumedGoAheadSignal = some x ↔ signals seg = [x]) ∧
      (signals seg).length ≤ 1 ∧
      (seg ≠ [] → r.state.aggregatedUnincludedSegment.isSome) ∧
      ∀ k, ∃ T', subtractAncestors T (seg.take k) = some T' := by
  have hr := Reachable.of_runSteps (rfl : runSteps (contractStep sumHash .anyRelayNumber)
    (SystemRun.genesis sumHash)
    [⟨wideBlock 1 1 silentSource, silentSource_respects, by decide⟩,
      ⟨wideBlock 2 2 fillSource, fillSource_respects, by decide⟩] = some _)
  exact ⟨_, hr, rfl, unincludedSegment_tracked hr⟩

/-- **Without the contract the tracker saturates.** The second block fills the channel to para 7
with `u32::MAX` bytes, as `get_channel_status` allows; the third sends one more byte although
the channel has no room left. The tracker saturates at `u32::MAX` bytes while the segment sends
`2 ^ 32`, and no block panics. -/
theorem unincludedSegment_untracked_overfill :
    ∃ r : SystemRun Nat Nat,
      Reachable (systemStep sumHash .anyRelayNumber) (SystemRun.genesis sumHash) r ∧
      (channelUsage (r.state.aggregatedUnincludedSegment.getD .default).usedBandwidth.hrmpOutgoing
        7).2 = 2 ^ 32 - 1 ∧
      ((r.state.unincludedSegment.map (channelUsage ·.usedBandwidth.hrmpOutgoing 7)).sum).2 =
        2 ^ 32 ∧
      ¬(r.state.aggregatedUnincludedSegment.getD .default).usedBandwidth.Aggregates
        (r.state.unincludedSegment.map (·.usedBandwidth)) := by
  obtain ⟨r, hr, htracker, hsum⟩ : ∃ r : SystemRun Nat Nat,
      Reachable (systemStep sumHash .anyRelayNumber) (SystemRun.genesis sumHash) r ∧
      (channelUsage (r.state.aggregatedUnincludedSegment.getD .default).usedBandwidth.hrmpOutgoing
        7).2 = 2 ^ 32 - 1 ∧
      ((r.state.unincludedSegment.map (channelUsage ·.usedBandwidth.hrmpOutgoing 7)).sum).2 =
        2 ^ 32 :=
    ⟨_, Reachable.of_runSteps (rfl : runSteps (systemStep sumHash .anyRelayNumber)
      (SystemRun.genesis sumHash) [wideBlock 1 1 silentSource, wideBlock 2 2 fillSource,
        wideBlock 3 3 overfillSource] = some _), rfl, rfl⟩
  refine ⟨r, hr, htracker, hsum, fun ha => ?_⟩
  have h7 := congrArg Prod.snd (ha.hrmpOutgoing 7)
  rw [List.map_map] at h7
  change _ = ((r.state.unincludedSegment.map (channelUsage ·.usedBandwidth.hrmpOutgoing 7)).sum).2
    at h7
  omega

/-! ## The watermark after every block -/

/-- The tracker's watermark is at most the relay parent of the last block. -/
def WatermarkBelowRelay (s : SystemState P H) : Prop :=
  ∀ T w, s.aggregatedUnincludedSegment = some T → T.hrmpWatermark = some w →
    w ≤ s.lastRelayChainBlockNumber

/-- Every block, whatever its source, stores the watermark of the block it appends, which is at
most its relay parent. -/
theorem watermarkBelowRelay_executeBlock {s s' : SystemState P H} {b : BlockInput P H}
    {received : InboundRecord} (h : executeBlock hs cfg s b = some (s', received)) :
    WatermarkBelowRelay s' := by
  obtain ⟨s₁, up, code, f, T', hset, hf, hT', rfl⟩ := executeBlock_eq h
  obtain ⟨sDrop, code₁, dmqHead, hrmpHeads, -, -, hs₁⟩ := setValidationData_eq hset
  obtain ⟨⟨ms', up', pending, hstate⟩, -, hwm⟩ := prepareAncestor_frame (by rw [hs₁]) hf
  obtain ⟨-, -, u, -, rfl⟩ := SegmentTracker.append_eq_some_ok.mp hT'
  rintro T w ⟨⟩ ⟨⟩
  show f.watermark.value ≤ f.state.lastRelayChainBlockNumber
  rw [hstate, hwm]
  exact HrmpWatermarkUpdate.value_new_le _ _

/-- In every reachable state, the tracker's watermark is at most the relay parent of the last block.
-/
theorem watermarkBelowRelay_of_reachable {r : SystemRun P H}
    (hr : Reachable (systemStep hs cfg) (SystemRun.genesis hs) r) : WatermarkBelowRelay r.state := by
  refine @Reachable.invariant _ _ (systemStep hs cfg) _ _ (fun r => WatermarkBelowRelay r.state)
    (fun T w h => by cases h) (fun r b r' _ h => ?_) hr
  obtain ⟨⟨s', received⟩, hexec, rfl⟩ := Option.map_eq_some_iff.mp h
  exact watermarkBelowRelay_executeBlock hexec

end Run

/-- The tracker left by the drop is one stored before it, with its watermark. -/
theorem maybeDropIncludedAncestors_hrmpWatermark [DecidableEq P] {s s' : SystemState P H}
    {relayState : RelayChainState P H} {capacity : UnincludedSegmentCapacity} {parentHash : P}
    (h : maybeDropIncludedAncestors s relayState capacity parentHash = some s') {T' : SegmentTracker}
    (hT' : s'.aggregatedUnincludedSegment = some T') :
    ∃ T, s.aggregatedUnincludedSegment = some T ∧ T'.hrmpWatermark = T.hrmpWatermark := by
  obtain ⟨n, aggregated, rfl, hagg, -⟩ := maybeDropIncludedAncestors_spec h
  rcases hagg with ⟨-, rfl⟩ | ⟨T, T'', hT, hsub, rfl⟩
  · exact ⟨T', hT', rfl⟩
  · cases hT'
    exact ⟨T, hT, subtractAncestors_hrmpWatermark hsub⟩

/-- With messages all sent after `old`, the watermark of the dispatch is the relay parent or above
anything at most `old`. -/
theorem hrmpWatermarkLoop_fresh {l : List (ParaId × InboundHrmpMessage)}
    {relayParentNumber old v : RelayBlockNumber} (hfresh : ∀ m ∈ l, old < m.2.sentAt)
    (hv : v ≤ old) :
    relayParentNumber ≤ (hrmpWatermarkLoop none l).getD relayParentNumber ∨
      v < (hrmpWatermarkLoop none l).getD relayParentNumber := by
  by_cases hnil : l = []
  · subst hnil
    exact .inl (BitVec.le_refl _)
  · obtain ⟨w, hw, -, -, hattained⟩ := hrmpWatermarkLoop_spec l none (.inr hnil)
    obtain ⟨m, hm, rfl⟩ := hattained.resolve_left (by simp)
    have hold := hfresh m hm
    rw [hw, Option.getD_some]
    rw [BitVec.le_def] at hv
    rw [BitVec.lt_def] at hold ⊢
    exact .inr (by omega)

/-! ## The append of `on_finalize` -/

/-- The relay chain's snapshot leaves room for what the segment `T` already sends: the upward
queue for its upward messages, and each egress channel for its bytes. -/
structure TrackerFits (T : SegmentTracker) (ms : MessagingStateSnapshot H) : Prop where
  umpMsgCount : T.usedBandwidth.umpMsgCount.toNat ≤
    ms.relayDispatchQueueRemainingCapacity.remainingCount.toNat
  umpTotalBytes : T.usedBandwidth.umpTotalBytes.toNat ≤
    ms.relayDispatchQueueRemainingCapacity.remainingSize.toNat
  hrmpBytes : ∀ p ch, (p, ch) ∈ ms.egressChannels →
    (channelUsage T.usedBandwidth.hrmpOutgoing p).2 ≤ ch.maxTotalSize.toNat - ch.totalSize.toNat

/-- The total limits of a sorted snapshot have each egress channel's room. -/
theorem get?_fromRelayChainState {ms : MessagingStateSnapshot H}
    (hsorted : (ms.egressChannels.map Prod.fst).Pairwise (· < ·)) {p : ParaId}
    {ch : AbridgedHrmpChannel H} (hmem : (p, ch) ∈ ms.egressChannels) :
    (OutboundBandwidthLimits.fromRelayChainState ms).hrmpOutgoing.get? p =
      some ⟨saturatingSub ch.maxTotalSize ch.totalSize, saturatingSub ch.maxCapacity ch.msgCount⟩ := by
  apply SortedMap.get?_ofList_of_mem
  · rw [List.map_map]
    exact hsorted.imp ne_of_lt
  · exact List.mem_map.mpr ⟨(p, ch), hmem, rfl⟩

/-- **The prepared ancestor fits.** When the snapshot leaves room for the segment and the
watermark check passes, the append of a prepared ancestor passes every check. -/
theorem Prepared.append_isOk {s : SystemState P H} {ms : MessagingStateSnapshot H}
    {relayUpgradeGoAhead : Option UpgradeGoAhead} {f : Finalizing P H}
    (hp : Prepared s ms relayUpgradeGoAhead f)
    (hsorted : (ms.egressChannels.map Prod.fst).Pairwise (· < ·))
    (hfits : TrackerFits (s.aggregatedUnincludedSegment.getD .default) ms)
    (hwm : watermarkError (s.aggregatedUnincludedSegment.getD .default).hrmpWatermark f.watermark =
      none) :
    ∃ T', (f.state.aggregatedUnincludedSegment.getD .default).append f.ancestor f.watermark
      f.limits = some (.ok T') := by
  obtain ⟨ms', up, pending, hstate⟩ := hp.state
  rw [hstate, hp.limits]
  dsimp only
  refine SegmentTracker.append_isOk_of_le ?_ hwm ?_ ?_ fun p c hc => ?_
  · -- the signal is not consumed again
    rw [hp.consumedGoAheadSignal]
    split_ifs with hsig <;> simp [hsig]
  · have := hp.umpMsgCount
    have := hfits.umpMsgCount
    simp only [OutboundBandwidthLimits.fromRelayChainState]
    omega
  · have := hp.umpTotalBytes
    have := hfits.umpTotalBytes
    simp only [OutboundBandwidthLimits.fromRelayChainState]
    omega
  · obtain ⟨hone, ch, hmem, hroom⟩ := hp.hrmpOutgoing p c hc
    refine ⟨_, get?_fromRelayChainState hsorted hmem, ?_, ?_⟩
    · have := hroom.messages
      rw [hone, toNat_saturatingSub]
      show _ + 1 ≤ _
      omega
    · rw [toNat_saturatingSub]
      rcases hroom.bytes with hb | hb
      · exact hb
      · rw [hb]
        exact hfits.hrmpBytes p ch hmem

section Run

variable [DecidableEq P] [DecidableEq H] {hs : HashScheme H} {cfg : SystemConfig}

/-- **The append of `on_finalize` never panics**, in every reachable state and whatever the calls
left pending, when the outbound message source keeps the channel contract, the relay chain lists
its egress channels sorted, its snapshot leaves room for what the unincluded segment already sends
(`TrackerFits`), and its horizontal messages were all sent after the last relay parent. -/
theorem finalizeAppend_isOk {r : SystemRun P H}
    (hr : Reachable (systemStep hs cfg) (SystemRun.genesis hs) r) {b : BlockInput P H}
    (hsrc : b.source.Respects)
    (hsorted :
      (b.inherent.relayChainState.messagingState.egressChannels.map Prod.fst).Pairwise (· < ·))
    {s₁ : SystemState P H} {received : InboundRecord}
    (hset : setValidationData hs cfg (onInitialize r.state b.parentHash) b.inherent b.capacity
      b.parentHash = some (s₁, received))
    (hfits : TrackerFits (s₁.aggregatedUnincludedSegment.getD .default)
      b.inherent.relayChainState.messagingState)
    (hfresh : ∀ m ∈ flattenHorizontal b.inherent.horizontalMessages,
      r.state.lastRelayChainBlockNumber < m.2.sentAt)
    (up : List (List UInt8)) (code : Option (List UInt8)) {f : Finalizing P H}
    (hf : prepareAncestor
      { s₁ with
        pendingUpwardMessages := up
        pendingValidationCode := code
        upgradeRestrictionSignal := none
        upgradeGoAhead := none }
      b.inherent.relayChainState.hostConfiguration b.inherent.relayChainState.messagingState
      s₁.upgradeGoAhead b.source = some f) :
    ∃ s', appendAncestor f = some s' := by
  have hbelow := watermarkBelowRelay_of_reachable hr
  obtain ⟨sDrop, code₁, dmqHead, hrmpHeads, hdrop, hpassed, hs₁⟩ := setValidationData_eq hset
  have hp := prepareAncestor_spec (by rw [hs₁]) hsorted hsrc hf
  have hwm₁ : s₁.hrmpWatermark = (hrmpWatermarkLoop none received.horizontal).getD
      b.inherent.validationData.relayParentNumber := by
    rw [hs₁]
  have hrp₁ : s₁.lastRelayChainBlockNumber = b.inherent.validationData.relayParentNumber := by
    obtain ⟨n, aggregated, hsDrop, -, -⟩ := maybeDropIncludedAncestors_spec hdrop
    rw [hs₁, hsDrop]
  have hfresh' : ∀ m ∈ received.horizontal, r.state.lastRelayChainBlockNumber < m.2.sentAt :=
    fun m hm => hfresh m ((List.perm_insertionSort _ _).mem_iff.mp (hpassed ▸ hm))
  -- the block's watermark is above the segment's, which is at most the last relay parent
  have hwm : watermarkError (s₁.aggregatedUnincludedSegment.getD .default).hrmpWatermark
      f.watermark = none := by
    rw [hp.watermark]
    apply watermarkError_new_eq_none
    intro v hv
    obtain ⟨T₁, hagg⟩ : ∃ T₁, s₁.aggregatedUnincludedSegment = some T₁ := by
      cases hagg : s₁.aggregatedUnincludedSegment with
      | none => simp [hagg, SegmentTracker.default] at hv
      | some T₁ => exact ⟨T₁, rfl⟩
    rw [hagg, Option.getD_some] at hv
    rw [hs₁] at hagg
    obtain ⟨T, hT, hwT⟩ := maybeDropIncludedAncestors_hrmpWatermark hdrop hagg
    have hvle := hbelow T v hT (hwT ▸ hv)
    show s₁.lastRelayChainBlockNumber ≤ s₁.hrmpWatermark ∨ v < s₁.hrmpWatermark
    rw [hwm₁, hrp₁]
    exact hrmpWatermarkLoop_fresh hfresh' hvle
  obtain ⟨T', hT'⟩ := hp.append_isOk hsorted hfits hwm
  exact ⟨_, by rw [appendAncestor, hT']⟩

/-- A block at relay parent `n` whose snapshot has room for `remaining` upward messages, with
nothing in and no HRMP channel. -/
def umpInherent (n : RelayBlockNumber) (remaining : BitVec 32) : ParachainInherentData Nat Nat where
  validationData := ⟨n⟩
  relayChainState := ⟨some 0, none, none, exampleHostConfiguration, ⟨0, ⟨remaining, 100⟩, [], []⟩⟩
  downwardMessages := []
  horizontalMessages := .empty

/-- The first block of a chain, sending one upward message while the relay chain has room for
one. -/
def umpBlock : BlockInput Nat Nat :=
  ⟨1, umpInherent 1 1, .value 5 (by decide), [.sendUpwardMessage [0]], silentSource⟩

/-- A second block, at relay parent 2, sending one more upward message while the relay chain has
room for two. -/
def umpBlockTwo : BlockInput Nat Nat :=
  ⟨2, umpInherent 2 2, umpBlock.capacity, [.sendUpwardMessage [1]], silentSource⟩

/-- The append of `umpBlock` passes at genesis; after it, with its message still in the unincluded
segment, so does the append of `umpBlockTwo`. -/
theorem finalizeAppend_isOk_umpBlock :
    (∃ (s₁ : SystemState Nat Nat) (received : InboundRecord) (f : Finalizing Nat Nat),
      setValidationData sumHash .anyRelayNumber
        (onInitialize (SystemRun.genesis sumHash).state umpBlock.parentHash) umpBlock.inherent
        umpBlock.capacity umpBlock.parentHash = some (s₁, received) ∧
      prepareAncestor
        { s₁ with
          pendingUpwardMessages := [[0]]
          pendingValidationCode := none
          upgradeRestrictionSignal := none
          upgradeGoAhead := none }
        exampleHostConfiguration (umpInherent 1 1).relayChainState.messagingState
        s₁.upgradeGoAhead silentSource = some f ∧
      ∃ s', appendAncestor f = some s') ∧
    ∃ r : SystemRun Nat Nat,
      runSteps (systemStep sumHash .anyRelayNumber) (SystemRun.genesis sumHash) [umpBlock] =
        some r ∧
      ∃ (s₁ : SystemState Nat Nat) (received : InboundRecord) (f : Finalizing Nat Nat),
        setValidationData sumHash .anyRelayNumber (onInitialize r.state umpBlockTwo.parentHash)
          umpBlockTwo.inherent umpBlockTwo.capacity umpBlockTwo.parentHash = some (s₁, received) ∧
        prepareAncestor
          { s₁ with
            pendingUpwardMessages := [[1]]
            pendingValidationCode := none
            upgradeRestrictionSignal := none
            upgradeGoAhead := none }
          exampleHostConfiguration (umpInherent 2 2).relayChainState.messagingState
          s₁.upgradeGoAhead silentSource = some f ∧
        ∃ s', appendAncestor f = some s' := by
  have hr := Reachable.refl (systemStep sumHash .anyRelayNumber)
    (SystemRun.genesis sumHash : SystemRun Nat Nat)
  have hsrc : umpBlock.source.Respects := silentSource_respects
  have hsrc₂ : umpBlockTwo.source.Respects := silentSource_respects
  -- the run after the first block, whose upward message the segment still holds
  have hrun : runSteps (systemStep sumHash .anyRelayNumber) (SystemRun.genesis sumHash)
      [umpBlock] = some _ := rfl
  have hr₁ := Reachable.of_runSteps hrun
  refine ⟨⟨_, _, _, rfl, rfl,
    finalizeAppend_isOk hr hsrc List.Pairwise.nil rfl ?_ ?_ [[0]] none rfl⟩,
    _, hrun, _, _, _, rfl, rfl,
    finalizeAppend_isOk hr₁ hsrc₂ List.Pairwise.nil rfl ?_ ?_ [[1]] none rfl⟩
  · exact ⟨by decide, by decide, fun _ _ h => by cases h⟩
  · exact fun m hm => absurd hm List.not_mem_nil
  · exact ⟨by decide, by decide, fun _ _ h => by cases h⟩
  · exact fun m hm => absurd hm List.not_mem_nil

/-- **Without room in the snapshot, the append panics.** After `umpBlock`, a block whose relay
chain snapshot has no room left in the upward queue fails the append of `on_finalize`
(`UmpMessagesOverflow`), although its source sends nothing, it has no egress channel and no
horizontal message. -/
theorem finalizeAppend_fails_of_snapshot :
    silentSource.Respects ∧
    ∃ r : SystemRun Nat Nat,
      Reachable (systemStep sumHash .anyRelayNumber) (SystemRun.genesis sumHash) r ∧
      ∃ (s₁ : SystemState Nat Nat) (received : InboundRecord) (f : Finalizing Nat Nat),
        setValidationData sumHash .anyRelayNumber (onInitialize r.state 2) (umpInherent 2 0)
          (.value 5 (by decide)) 2 = some (s₁, received) ∧
        prepareAncestor
          { s₁ with upgradeRestrictionSignal := none, upgradeGoAhead := none }
          exampleHostConfiguration (umpInherent 2 0).relayChainState.messagingState
          s₁.upgradeGoAhead silentSource = some f ∧
        appendAncestor f = none :=
  ⟨silentSource_respects, _,
    (Reachable.refl _ _).tail
      (rfl : systemStep sumHash .anyRelayNumber (SystemRun.genesis sumHash) umpBlock = some _),
    _, _, _, rfl, rfl, rfl⟩

end Run

end Cumulus.ParachainSystem
