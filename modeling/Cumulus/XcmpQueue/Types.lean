import Cumulus.Primitives.Core
import Cumulus.Primitives.Weight
import Cumulus.Found.Storage
import Mathlib.Data.List.Sort

/-!
# xcmp-queue: channel records, configuration and the pallet's storage

The XCMP queue keeps, per sibling para, an inbound channel record (the metadata of the pages
received and not yet executed) and an outbound channel record (the index range of the pages
queued for sending, and whether a signal page waits). This file defines those records, the
queue configuration with its defaults, and the pallet's storage as one state record
`XcmpQueueState`; the entry points are in `Outbound.lean` and `Inbound.lean`.

* `InboundChannelDetails`, `OutboundChannelDetails` (with `new`, `with_signals`,
  `with_suspended_state`) and `QueueConfigData` with its `Default`;
* `InboundChannelDetails.cmp` — the derived `Ord` of the record (sender, then state, then the
  metadata vector lexicographically), which `status.sort()` uses;
* `XcmpQueueState` — `InboundXcmpStatus`, `InboundXcmpMessages`, `OutboundXcmpStatus`,
  `OutboundXcmpMessages`, `SignalMessages`, `QueueConfig`, `Overweight` (with the counter of the
  counted map), `OverweightCount` and `QueueSuspended`;
* `ChannelInfo` — the `GetChannelInfo` answers the queue consults (parachain-system supplies
  them; here they are an input of every entry point that reads them).
-/

namespace Cumulus.XcmpQueue

open Cumulus.Primitives Cumulus.Found

/-! ## Channel records -/

/-- Source: `pallets/xcmp-queue/src/lib.rs` `InboundState` -/
inductive InboundState where
  | ok
  | suspended
  deriving DecidableEq, Repr

/-- Source: `pallets/xcmp-queue/src/lib.rs` `OutboundState` -/
inductive OutboundState where
  | ok
  | suspended
  deriving DecidableEq, Repr

/-- The inbound channel from one sender.
Source: `pallets/xcmp-queue/src/lib.rs` `InboundChannelDetails` -/
structure InboundChannelDetails where
  /-- The `ParaId` of the parachain that this channel is connected with. -/
  sender : ParaId
  /-- The state of the channel. -/
  state : InboundState
  /-- The ordered metadata of each inbound message: the relay block it was sent at and its
  format. -/
  messageMetadata : List (RelayBlockNumber × XcmpMessageFormat)
  deriving DecidableEq, Repr

/-- The outbound channel to one recipient.
Source: `pallets/xcmp-queue/src/lib.rs` `OutboundChannelDetails` -/
structure OutboundChannelDetails where
  /-- The `ParaId` of the parachain that this channel is connected with. -/
  recipient : ParaId
  /-- The state of the channel. -/
  state : OutboundState
  /-- Whether or not any signals exist in this channel. -/
  signalsExist : Bool
  /-- The index of the first outbound message (`u16`). -/
  firstIndex : BitVec 16
  /-- The index of the last outbound message (`u16`). -/
  lastIndex : BitVec 16
  deriving DecidableEq, Repr

namespace OutboundChannelDetails

/-- `OutboundChannelDetails::new`. -/
def new (recipient : ParaId) : OutboundChannelDetails :=
  { recipient, state := .ok, signalsExist := false, firstIndex := 0, lastIndex := 0 }

/-- `OutboundChannelDetails::with_signals`. -/
def withSignals (d : OutboundChannelDetails) : OutboundChannelDetails :=
  { d with signalsExist := true }

/-- `OutboundChannelDetails::with_suspended_state`. -/
def withSuspendedState (d : OutboundChannelDetails) : OutboundChannelDetails :=
  { d with state := .suspended }

end OutboundChannelDetails

/-! ## The derived order of inbound records -/

/-- Lexicographic comparison of vectors, as Rust derives it for `Vec<T>`. -/
def compareLex {α : Type} (c : α → α → Ordering) : List α → List α → Ordering
  | [], [] => .eq
  | [], _ :: _ => .lt
  | _ :: _, [] => .gt
  | a :: as, b :: bs => (c a b).then (compareLex c as bs)

/-- The derived `Ord` of `InboundChannelDetails`: sender, then state (`Ok < Suspended`), then
the metadata vector lexicographically, each entry by `(sent_at, format)`. -/
def InboundChannelDetails.cmp (a b : InboundChannelDetails) : Ordering :=
  (compare a.sender b.sender).then <|
    (compare (if a.state = .ok then 0 else 1) (if b.state = .ok then 0 else 1)).then <|
      compareLex (fun x y => (compare x.1.toNat y.1.toNat).then
        (compare x.2.index y.2.index)) a.messageMetadata b.messageMetadata

/-- `status.sort()` on the inbound records: a stable sort by the derived order (`List.mergeSort`
and the insertion sort agree, `List.mergeSort_eq_insertionSort`). -/
def sortInbound (status : List InboundChannelDetails) : List InboundChannelDetails :=
  status.insertionSort fun a b => a.cmp b ≠ .gt

/-! ## Configuration -/

/-- `WEIGHT_REF_TIME_PER_MILLIS` of `frame_support`: `10^9` picoseconds. -/
def weightRefTimePerMillis : Nat := 1000000000

/-- `DEFAULT_POV_SIZE`: 64 KB. -/
def defaultPovSize : Nat := 64 * 1024

/-- `MAX_MESSAGES_PER_BLOCK`: at most ten messages are executed per block. -/
def maxMessagesPerBlock : Nat := 10

/-- `MAX_OVERWEIGHT_MESSAGES`: at most a thousand messages are kept in `Overweight`. -/
def maxOverweightMessages : Nat := 1000

/-- The configuration which controls the dynamics of the queue.
Source: `pallets/xcmp-queue/src/lib.rs` `QueueConfigData` -/
structure QueueConfigData where
  /-- Pages in the queue from which the other side is told to suspend sending. -/
  suspendThreshold : BitVec 32
  /-- Pages in the queue from which further messages of the channel are dropped. -/
  dropThreshold : BitVec 32
  /-- Pages the queue must shrink to before sending may resume. -/
  resumeThreshold : BitVec 32
  /-- The remaining weight under which no more messages are processed. -/
  thresholdWeight : Weight
  /-- How fast the available weight approaches the maximum. -/
  weightRestrictDecay : Weight
  /-- The maximum weight any individual message may consume. -/
  xcmpMaxIndividualWeight : Weight
  deriving DecidableEq, Repr

/-- `QueueConfigData::default()`.
Source: `pallets/xcmp-queue/src/lib.rs` `impl Default for QueueConfigData` -/
def QueueConfigData.default : QueueConfigData where
  suspendThreshold := 2
  dropThreshold := 5
  resumeThreshold := 1
  thresholdWeight := Weight.fromParts 100000 0
  weightRestrictDecay := Weight.fromParts 2 0
  xcmpMaxIndividualWeight :=
    Weight.fromParts (BitVec.ofNat 64 (20 * weightRefTimePerMillis)) (BitVec.ofNat 64 defaultPovSize)

/-! ## Storage -/

/-- The storage of the pallet.
Source: `pallets/xcmp-queue/src/lib.rs` `#[pallet::storage]` items -/
structure XcmpQueueState where
  /-- `InboundXcmpStatus`: the inbound channel records, kept sorted by sender. -/
  inboundXcmpStatus : List InboundChannelDetails
  /-- `InboundXcmpMessages`: the received pages by `(sender, sent_at)`. -/
  inboundXcmpMessages : ParaId → RelayBlockNumber → Option (List UInt8)
  /-- `OutboundXcmpStatus`: the outbound channel records in order of becoming non-empty. -/
  outboundXcmpStatus : List OutboundChannelDetails
  /-- `OutboundXcmpMessages`: the pages waiting to be sent, by `(recipient, index)`. -/
  outboundXcmpMessages : ParaId → BitVec 16 → Option (List UInt8)
  /-- `SignalMessages`: the signal page waiting for each recipient (empty when none). -/
  signalMessages : ParaId → List UInt8
  /-- `QueueConfig`. -/
  queueConfig : QueueConfigData
  /-- `Overweight`: the messages that exceeded the individual weight budget. -/
  overweight : BitVec 64 → Option (ParaId × RelayBlockNumber × List UInt8)
  /-- The counter that `CountedStorageMap` keeps for `Overweight`. -/
  overweightEntries : Nat
  /-- `OverweightCount`: the next free overweight index. -/
  overweightCount : BitVec 64
  /-- `QueueSuspended`. -/
  queueSuspended : Bool

/-- The pallet's storage at genesis: every map empty, the default configuration. -/
def XcmpQueueState.empty : XcmpQueueState where
  inboundXcmpStatus := []
  inboundXcmpMessages := fun _ _ => none
  outboundXcmpStatus := []
  outboundXcmpMessages := fun _ _ => none
  signalMessages := fun _ => []
  queueConfig := QueueConfigData.default
  overweight := fun _ => none
  overweightEntries := 0
  overweightCount := 0
  queueSuspended := false

/-- The answers of `T::ChannelInfo` (`GetChannelInfo`) at the time of a call.
Source: `primitives/core/src/lib.rs` `trait GetChannelInfo` -/
structure ChannelInfo where
  /-- `get_channel_status(id)`. -/
  getChannelStatus : ParaId → ChannelStatus
  /-- `get_channel_max(id)`: the maximum message size of the channel, if it exists. -/
  getChannelMax : ParaId → Option Nat

end Cumulus.XcmpQueue
