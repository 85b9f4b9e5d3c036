import Cumulus.Primitives.Core
import Cumulus.Found.MachineInt
import Cumulus.Found.SortedMap

/-!
# parachain-system: the unincluded segment

A parachain block is *unincluded* until the relay chain includes it. Parachain-system keeps the
unincluded blocks as a list of `Ancestor`s (`UnincludedSegment`), each with the bandwidth of
upward (UMP) and outbound HRMP messages it used and the upgrade go-ahead signal it consumed, and
keeps their aggregate in one `SegmentTracker` (`AggregatedUnincludedSegment`). A new block is
appended to the tracker against the bandwidth limits of the relay-chain state
(`SegmentTracker::append`, which fails on exceeding a limit); an included block is subtracted
again (`SegmentTracker::subtract`, which panics on an underflow, on a channel it does not have and
on a go-ahead signal it does not hold).

This file translates `pallets/parachain-system/src/unincluded_segment.rs` and the messaging
state snapshot of `relay_state_snapshot.rs` it reads. A `BTreeMap` is a `SortedMap`, iterated in
key order; `u32` counters are `BitVec 32`, `saturating_add` / `saturating_sub` are those of
`Found.MachineInt`, and a plain `-=` is `checkedSub`, `none` on underflow being the panic.
-/

namespace Cumulus.ParachainSystem

open Cumulus.Primitives Cumulus.Found

/-! ## The relay chain's messaging state -/

/-- The capacity of the upward message queue of the parachain on the relay chain.
Source: `pallets/parachain-system/src/relay_state_snapshot.rs`
`RelayDispatchQueueRemainingCapacity` -/
structure RelayDispatchQueueRemainingCapacity where
  /-- The number of additional messages that can be enqueued. -/
  remainingCount : BitVec 32
  /-- The total size of additional messages that can be enqueued. -/
  remainingSize : BitVec 32
  deriving DecidableEq, Repr

/-- The messaging state of the relay chain that concerns the parachain, over the relay hash `H`.
The ingress channels are keyed by sender, the egress channels by recipient; the relay chain
promises both lists sorted by para id.
Source: `pallets/parachain-system/src/relay_state_snapshot.rs` `MessagingStateSnapshot` -/
structure MessagingStateSnapshot (H : Type) where
  /-- The head of the downward message queue chain. -/
  dmqMqcHead : H
  relayDispatchQueueRemainingCapacity : RelayDispatchQueueRemainingCapacity
  ingressChannels : List (ParaId × AbridgedHrmpChannel H)
  egressChannels : List (ParaId × AbridgedHrmpChannel H)
  deriving DecidableEq, Repr

/-! ## Bandwidth limits -/

/-- Source: `unincluded_segment.rs` `HrmpOutboundLimits` -/
structure HrmpOutboundLimits where
  bytesRemaining : BitVec 32
  messagesRemaining : BitVec 32
  deriving DecidableEq, Repr

/-- What the unincluded segment may use in total.
Source: `unincluded_segment.rs` `OutboundBandwidthLimits` -/
structure OutboundBandwidthLimits where
  umpMessagesRemaining : BitVec 32
  umpBytesRemaining : BitVec 32
  hrmpOutgoing : SortedMap ParaId HrmpOutboundLimits

/-- The total limits of a messaging state: the room left in the upward queue, and in each egress
channel its capacity and total size less what the channel holds.
Source: `unincluded_segment.rs` `OutboundBandwidthLimits::from_relay_chain_state` -/
def OutboundBandwidthLimits.fromRelayChainState {H : Type} (s : MessagingStateSnapshot H) :
    OutboundBandwidthLimits where
  umpMessagesRemaining := s.relayDispatchQueueRemainingCapacity.remainingCount
  umpBytesRemaining := s.relayDispatchQueueRemainingCapacity.remainingSize
  hrmpOutgoing := SortedMap.ofList (s.egressChannels.map fun (id, channel) =>
    (id, ⟨saturatingSub channel.maxTotalSize channel.totalSize,
      saturatingSub channel.maxCapacity channel.msgCount⟩))

/-- Source: `unincluded_segment.rs` `BandwidthUpdateError` -/
inductive BandwidthUpdateError where
  | hrmpMessagesOverflow (recipient : ParaId) (messagesRemaining messagesSubmitted : BitVec 32)
  | hrmpBytesOverflow (recipient : ParaId) (bytesRemaining bytesSubmitted : BitVec 32)
  | umpMessagesOverflow (messagesRemaining messagesSubmitted : BitVec 32)
  | umpBytesOverflow (bytesRemaining bytesSubmitted : BitVec 32)
  | invalidHrmpWatermark (submitted latest : RelayBlockNumber)
  | upgradeGoAheadAlreadyProcessed
  deriving DecidableEq, Repr

/-! ## Used bandwidth -/

/-- The messages sent over one HRMP channel.
Source: `unincluded_segment.rs` `HrmpChannelUpdate` -/
structure HrmpChannelUpdate where
  msgCount : BitVec 32
  totalBytes : BitVec 32
  deriving DecidableEq, Repr

namespace HrmpChannelUpdate

/-- `HrmpChannelUpdate::default()`. -/
def default : HrmpChannelUpdate := ⟨0, 0⟩

/-- `is_empty`. -/
def isEmpty (c : HrmpChannelUpdate) : Bool := c.msgCount == 0 && c.totalBytes == 0

/-- Add `other` to the channel's update, within the channel's limits; a recipient the limits do
not know is a panic.
Source: `unincluded_segment.rs` `HrmpChannelUpdate::append` -/
def append (self other : HrmpChannelUpdate) (recipient : ParaId)
    (limits : OutboundBandwidthLimits) : Option (Except BandwidthUpdateError HrmpChannelUpdate) :=
  -- `expect("limit for declared hrmp channel must be present; qed")`
  match limits.hrmpOutgoing.get? recipient with
  | none => none
  | some limits =>
    let msgCount := saturatingAdd self.msgCount other.msgCount
    if limits.messagesRemaining < msgCount then
      some (.error (.hrmpMessagesOverflow recipient limits.messagesRemaining msgCount))
    else
      let totalBytes := saturatingAdd self.totalBytes other.totalBytes
      if limits.bytesRemaining < totalBytes then
        some (.error (.hrmpBytesOverflow recipient limits.bytesRemaining totalBytes))
      else some (.ok ⟨msgCount, totalBytes⟩)

/-- Source: `unincluded_segment.rs` `HrmpChannelUpdate::subtract` -/
def subtract (self other : HrmpChannelUpdate) : Option HrmpChannelUpdate := do
  let msgCount ← checkedSub self.msgCount other.msgCount
  let totalBytes ← checkedSub self.totalBytes other.totalBytes
  pure ⟨msgCount, totalBytes⟩

end HrmpChannelUpdate

/-- The bandwidth a block, or the segment, used.
Source: `unincluded_segment.rs` `UsedBandwidth` -/
structure UsedBandwidth where
  umpMsgCount : BitVec 32
  umpTotalBytes : BitVec 32
  hrmpOutgoing : SortedMap ParaId HrmpChannelUpdate

namespace UsedBandwidth

/-- `UsedBandwidth::default()`. -/
def default : UsedBandwidth := ⟨0, 0, .empty⟩

/-- The loop of `append` over the other's channels, in key order: each is added to the entry
of its recipient, a missing entry counting as empty (`entry(id).or_default()`). -/
def appendChannels (limits : OutboundBandwidthLimits) :
    List (ParaId × HrmpChannelUpdate) → SortedMap ParaId HrmpChannelUpdate →
      Option (Except BandwidthUpdateError (SortedMap ParaId HrmpChannelUpdate))
  | [], acc => some (.ok acc)
  | (id, channel) :: rest, acc =>
    match ((acc.get? id).getD .default).append channel id limits with
    | none => none
    | some (.error e) => some (.error e)
    | some (.ok current) => appendChannels limits rest (acc.insert id current)

/-- Add `other` to the used bandwidth, within the limits.
Source: `unincluded_segment.rs` `UsedBandwidth::append` -/
def append (self other : UsedBandwidth) (limits : OutboundBandwidthLimits) :
    Option (Except BandwidthUpdateError UsedBandwidth) :=
  let umpMsgCount := saturatingAdd self.umpMsgCount other.umpMsgCount
  if limits.umpMessagesRemaining < umpMsgCount then
    some (.error (.umpMessagesOverflow limits.umpMessagesRemaining umpMsgCount))
  else
    let umpTotalBytes := saturatingAdd self.umpTotalBytes other.umpTotalBytes
    if limits.umpBytesRemaining < umpTotalBytes then
      some (.error (.umpBytesOverflow limits.umpBytesRemaining umpTotalBytes))
    else
      (appendChannels limits other.hrmpOutgoing.entries self.hrmpOutgoing).map
        fun r => r.map fun hrmpOutgoing => ⟨umpMsgCount, umpTotalBytes, hrmpOutgoing⟩

/-- The loop of `subtract` over the other's channels: each entry must be there
(`expect("entry's been inserted earlier with `append`; qed")`) and must not underflow. -/
def subtractChannels :
    List (ParaId × HrmpChannelUpdate) → SortedMap ParaId HrmpChannelUpdate →
      Option (SortedMap ParaId HrmpChannelUpdate)
  | [], acc => some acc
  | (id, channel) :: rest, acc => do
    let entry ← acc.get? id
    let entry ← entry.subtract channel
    subtractChannels rest (acc.insert id entry)

/-- Take `other` off the used bandwidth, then drop the channels left empty.
Source: `unincluded_segment.rs` `UsedBandwidth::subtract` -/
def subtract (self other : UsedBandwidth) : Option UsedBandwidth := do
  let umpMsgCount ← checkedSub self.umpMsgCount other.umpMsgCount
  let umpTotalBytes ← checkedSub self.umpTotalBytes other.umpTotalBytes
  let hrmpOutgoing ← subtractChannels other.hrmpOutgoing.entries self.hrmpOutgoing
  pure ⟨umpMsgCount, umpTotalBytes, hrmpOutgoing.filter fun _ channel => !channel.isEmpty⟩

end UsedBandwidth

/-! ## Ancestors and the tracker -/

/-- The relay chain's answer to a pending code upgrade.
Source: `polkadot_primitives::UpgradeGoAhead` -/
inductive UpgradeGoAhead where
  | abort
  | goAhead
  deriving DecidableEq, Repr

/-- An unincluded block, over the parachain's block hash `P`.
Source: `unincluded_segment.rs` `Ancestor` -/
structure Ancestor (P : Type) where
  usedBandwidth : UsedBandwidth
  /-- The block's output head, known from the next block on. -/
  paraHeadHash : Option P
  consumedGoAheadSignal : Option UpgradeGoAhead

/-- Source: `unincluded_segment.rs` `Ancestor::new_unchecked` -/
def Ancestor.newUnchecked {P : Type} (usedBandwidth : UsedBandwidth)
    (consumedGoAheadSignal : Option UpgradeGoAhead) : Ancestor P :=
  ⟨usedBandwidth, none, consumedGoAheadSignal⟩

/-- The number of blocks of the segment after the one whose head is `includedHash`; the whole
segment when no block has that head.
Source: `unincluded_segment.rs` `size_after_included` -/
def sizeAfterIncluded {P : Type} [DecidableEq P] (includedHash : P) (segment : List (Ancestor P)) :
    BitVec 32 :=
  let pivot := ((segment.findIdx? fun ancestor => decide (ancestor.paraHeadHash = some includedHash)).map
    (· + 1)).getD 0
  BitVec.ofNat 32 (segment.length - pivot)

/-- The HRMP watermark a block advances to.
Source: `unincluded_segment.rs` `HrmpWatermarkUpdate` -/
inductive HrmpWatermarkUpdate where
  /-- The watermark is at the relay parent: no check. -/
  | head (n : RelayBlockNumber)
  /-- The watermark is below the relay parent: it must advance. -/
  | trunk (n : RelayBlockNumber)
  deriving DecidableEq, Repr

namespace HrmpWatermarkUpdate

/-- Source: `unincluded_segment.rs` `HrmpWatermarkUpdate::new` -/
def new (watermark relayParentNumber : RelayBlockNumber) : HrmpWatermarkUpdate :=
  if relayParentNumber ≤ watermark then .head relayParentNumber else .trunk watermark

/-- The block number either form carries. -/
def value : HrmpWatermarkUpdate → RelayBlockNumber
  | .head n => n
  | .trunk n => n

end HrmpWatermarkUpdate

/-- The aggregate of the unincluded segment.
Source: `unincluded_segment.rs` `SegmentTracker` -/
structure SegmentTracker where
  usedBandwidth : UsedBandwidth
  hrmpWatermark : Option RelayBlockNumber
  consumedGoAheadSignal : Option UpgradeGoAhead

namespace SegmentTracker

variable {P : Type}

/-- `SegmentTracker::default()`. -/
def default : SegmentTracker := ⟨.default, none, none⟩

/-- The watermark check of `append`: a trunk watermark must be above the last one. -/
def watermarkError : Option RelayBlockNumber → HrmpWatermarkUpdate → Option BandwidthUpdateError
  | some watermark, .trunk new =>
    if new ≤ watermark then some (.invalidHrmpWatermark new watermark) else none
  | _, _ => none

/-- Add a block to the segment: at most one go-ahead signal in the segment, the watermark
advancing, the bandwidth within the limits.
Source: `unincluded_segment.rs` `SegmentTracker::append` -/
def append (self : SegmentTracker) (block : Ancestor P) (newWatermark : HrmpWatermarkUpdate)
    (limits : OutboundBandwidthLimits) : Option (Except BandwidthUpdateError SegmentTracker) :=
  if self.consumedGoAheadSignal.isSome && block.consumedGoAheadSignal.isSome then
    some (.error .upgradeGoAheadAlreadyProcessed)
  else
    match watermarkError self.hrmpWatermark newWatermark with
    | some e => some (.error e)
    | none =>
      (self.usedBandwidth.append block.usedBandwidth limits).map fun r => r.map fun used =>
        { usedBandwidth := used
          hrmpWatermark := some newWatermark.value
          consumedGoAheadSignal := block.consumedGoAheadSignal.or self.consumedGoAheadSignal }

/-- Take an included block off the segment; its go-ahead signal must be the segment's
(`assert_eq!(signal_in_segment, Some(*consumed))`).
Source: `unincluded_segment.rs` `SegmentTracker::subtract` -/
def subtract (self : SegmentTracker) (block : Ancestor P) : Option SegmentTracker := do
  let used ← self.usedBandwidth.subtract block.usedBandwidth
  match block.consumedGoAheadSignal with
  | none => pure { self with usedBandwidth := used }
  | some consumed =>
    if self.consumedGoAheadSignal = some consumed then
      pure { self with usedBandwidth := used, consumedGoAheadSignal := none }
    else none

end SegmentTracker

end Cumulus.ParachainSystem
