import Cumulus.ParachainSystem.Segment
import Cumulus.Found.BinarySearch
import Cumulus.Found.Run
import Mathlib.Data.List.Sort

/-!
# parachain-system: a block

A parachain block runs parachain-system three times: `on_initialize`, then the
`set_validation_data` inherent with the relay-chain data of the block, then, after the block's
other extrinsics, `on_finalize`. This file translates the parts of
`pallets/parachain-system/src/lib.rs` that the unincluded segment and the inbound message queue
chains rest on:

* `onInitialize` — record the parent as the last ancestor's head, clear the per-block storage;
* `setValidationData` — check the relay parent number, drop the ancestors the relay chain has
  included (`maybeDropIncludedAncestors`), take in the go-ahead signal, store the relay data, and
  process the downward and the horizontal messages against the relay chain's message queue chain
  heads (`processInboundDownwardMessages`, `processInboundHorizontalMessages`);
* `sendUpwardMessage`, `scheduleCodeUpgrade` — the calls of a block that feed `on_finalize`;
* `onFinalize` — adjust the messaging state by the segment's bandwidth, take the upward messages
  that fit and the outbound HRMP messages, and append the block to the segment
  (`prepareAncestor`, then `appendAncestor`);
* `executeBlock`, and `systemStep` over `SystemRun`, which also records what each block passed to
  the message handlers.

A relay-chain state proof is given by the values it proves (`RelayChainState`); the consensus
hook by the capacity it returns; the message handlers of other pallets take every message they
are given (`handle_dmp_messages` of dmp-queue iterates the whole iterator) and change nothing of
parachain-system; the outbound message source (`OutboundXcmpMessageSource`, xcmp-queue in the
runtimes of the repository) is a function of the channel statuses and of the number of channels,
returning the recipient and the length of each message.
-/

namespace Cumulus.ParachainSystem

open Cumulus.Primitives Cumulus.Found

variable {P H : Type}

/-! ## Relay-chain data -/

/-- Source: `polkadot_primitives::UpgradeRestriction` -/
inductive UpgradeRestriction where
  | present
  deriving DecidableEq, Repr

/-- The fields of the host configuration the modelled code reads.
Source: `polkadot_primitives::AbridgedHostConfiguration` -/
structure AbridgedHostConfiguration where
  maxCodeSize : BitVec 32
  maxUpwardMessageSize : BitVec 32
  maxUpwardMessageNumPerCandidate : BitVec 32
  hrmpMaxMessageNumPerCandidate : BitVec 32
  deriving DecidableEq, Repr

/-- The field of the persisted validation data the modelled code reads.
Source: `polkadot_primitives::PersistedValidationData` -/
structure PersistedValidationData where
  relayParentNumber : RelayBlockNumber
  deriving DecidableEq, Repr

/-- What the relay-chain state proof of a block proves (`RelayChainStateProof::read_*`), with the
included para head already hashed (`T::Hashing::hash(&h.0)`). -/
structure RelayChainState (P H : Type) where
  includedParaHead : Option P
  upgradeGoAheadSignal : Option UpgradeGoAhead
  upgradeRestrictionSignal : Option UpgradeRestriction
  hostConfiguration : AbridgedHostConfiguration
  messagingState : MessagingStateSnapshot H

/-- The data of the `set_validation_data` inherent.
Source: `primitives/parachain-inherent/src/lib.rs` `ParachainInherentData` -/
structure ParachainInherentData (P H : Type) where
  validationData : PersistedValidationData
  relayChainState : RelayChainState P H
  downwardMessages : List InboundDownwardMessage
  horizontalMessages : SortedMap ParaId (List InboundHrmpMessage)

/-- The capacity of the unincluded segment the consensus hook returns.
Source: `pallets/parachain-system/src/consensus_hook.rs` `UnincludedSegmentCapacity` -/
inductive UnincludedSegmentCapacity where
  | expectParentIncluded
  | value (n : BitVec 32) (h : n ≠ 0)

namespace UnincludedSegmentCapacity

/-- The number of blocks the segment may hold: one when the parent must be included. -/
def get : UnincludedSegmentCapacity → BitVec 32
  | expectParentIncluded => 1
  | value n _ => n

/-- Whether the parent must be included before the block is built. -/
def isExpectingIncludedParent : UnincludedSegmentCapacity → Bool
  | expectParentIncluded => true
  | value _ _ => false

end UnincludedSegmentCapacity

/-! ## The pallet's storage -/

/-- The storage items of parachain-system that the modelled code reads or writes. -/
structure SystemState (P H : Type) where
  unincludedSegment : List (Ancestor P)
  aggregatedUnincludedSegment : Option SegmentTracker
  validationData : Option PersistedValidationData
  relevantMessagingState : Option (MessagingStateSnapshot H)
  hostConfiguration : Option AbridgedHostConfiguration
  lastRelayChainBlockNumber : RelayBlockNumber
  upgradeGoAhead : Option UpgradeGoAhead
  upgradeRestrictionSignal : Option UpgradeRestriction
  pendingValidationCode : Option (List UInt8)
  pendingUpwardMessages : List (List UInt8)
  upwardMessages : List (List UInt8)
  announcedHrmpMessagesPerCandidate : BitVec 32
  hrmpWatermark : RelayBlockNumber
  lastDmqMqcHead : MessageQueueChain H
  lastHrmpMqcHeads : SortedMap ParaId (MessageQueueChain H)
  processedDownwardMessages : BitVec 32

/-- The storage at genesis: every item at its default. -/
def SystemState.genesis (hs : HashScheme H) : SystemState P H where
  unincludedSegment := []
  aggregatedUnincludedSegment := none
  validationData := none
  relevantMessagingState := none
  hostConfiguration := none
  lastRelayChainBlockNumber := 0
  upgradeGoAhead := none
  upgradeRestrictionSignal := none
  pendingValidationCode := none
  pendingUpwardMessages := []
  upwardMessages := []
  announcedHrmpMessagesPerCandidate := 0
  hrmpWatermark := 0
  lastDmqMqcHead := .empty hs
  lastHrmpMqcHeads := .empty
  processedDownwardMessages := 0

/-- The runtime's choices the modelled code depends on. -/
structure SystemConfig where
  /-- `T::CheckAssociatedRelayNumber::check_associated_relay_number(current, previous)`: `false`
  is the panic. -/
  checkAssociatedRelayNumber : RelayBlockNumber → RelayBlockNumber → Bool

/-- Source: `pallets/parachain-system/src/lib.rs` `RelayNumberStrictlyIncreases` -/
def SystemConfig.relayNumberStrictlyIncreases : SystemConfig :=
  ⟨fun current previous => decide (previous < current)⟩

/-- Source: `pallets/parachain-system/src/lib.rs` `AnyRelayNumber` -/
def SystemConfig.anyRelayNumber : SystemConfig := ⟨fun _ _ => true⟩

/-- Source: `pallets/parachain-system/src/lib.rs` `RelayNumberMonotonicallyIncreases` -/
def SystemConfig.relayNumberMonotonicallyIncreases : SystemConfig :=
  ⟨fun current previous => decide (previous ≤ current)⟩

/-! ## `on_initialize` -/

/-- Record `parentHash` as the head of the last ancestor (`chain.last_mut()`). -/
def replaceLastHead (parentHash : P) : List (Ancestor P) → List (Ancestor P)
  | [] => []
  | [a] => [{ a with paraHeadHash := some parentHash }]
  | a :: rest => a :: replaceLastHead parentHash rest

/-- Source: `pallets/parachain-system/src/lib.rs` `Hooks::on_initialize` -/
def onInitialize (s : SystemState P H) (parentHash : P) : SystemState P H :=
  { s with
    unincludedSegment := replaceLastHead parentHash s.unincludedSegment
    validationData := none
    processedDownwardMessages := 0
    hrmpWatermark := 0
    upwardMessages := []
    announcedHrmpMessagesPerCandidate :=
      (s.hostConfiguration.map (·.hrmpMaxMessageNumPerCandidate)).getD 0 }

/-! ## Dropping the included ancestors -/

/-- `chain.iter().position(..)`: the index of the ancestor with the included head; every ancestor
looked at must have its head (`expect("para head hash is updated during block initialization")`). -/
def includedPosition [DecidableEq P] (included : P) : List (Ancestor P) → Option (Option Nat)
  | [] => some none
  | a :: rest =>
    match a.paraHeadHash with
    | none => none
    | some h =>
      if h = included then some (some 0)
      else (includedPosition included rest).map (·.map (· + 1))

/-- Subtract the dropped ancestors from the tracker, in order. -/
def subtractAncestors (agg : SegmentTracker) : List (Ancestor P) → Option SegmentTracker
  | [] => some agg
  | block :: rest => (agg.subtract block).bind fun agg => subtractAncestors agg rest

/-- Drop the ancestors up to the one the relay chain has included, and check there is room for
this block.
Source: `pallets/parachain-system/src/lib.rs` `Pallet::maybe_drop_included_ancestors` -/
def maybeDropIncludedAncestors [DecidableEq P] (s : SystemState P H)
    (relayState : RelayChainState P H) (capacity : UnincludedSegmentCapacity) (parentHash : P) :
    Option (SystemState P H) := do
  let includedHead ← match relayState.includedParaHead, capacity.isExpectingIncludedParent with
    | some h, true => if h = parentHash then some h else none
    | some h, false => some h
    | none, true => some parentHash
    | none, false => none
  let idx ← includedPosition includedHead s.unincludedSegment
  let n := (idx.map (· + 1)).getD 0
  let dropped := s.unincludedSegment.take n
  let aggregated ← if dropped = [] then some s.aggregatedUnincludedSegment else do
    -- `expect("dropped part of the segment wasn't empty, hence value exists")`
    let agg ← s.aggregatedUnincludedSegment
    let agg ← subtractAncestors agg dropped
    pure (some agg)
  let rest := s.unincludedSegment.drop n
  -- `assert!(new_len < capacity.get(), "no space left for the block in the unincluded segment")`
  if BitVec.ofNat 32 rest.length < capacity.get then
    some { s with unincludedSegment := rest, aggregatedUnincludedSegment := aggregated }
  else none

/-- Source: `pallets/parachain-system/src/lib.rs` `Pallet::unincluded_segment_size_after` -/
def unincludedSegmentSizeAfter [DecidableEq P] (s : SystemState P H) (includedHash : P) :
    BitVec 32 :=
  sizeAfterIncluded includedHash s.unincludedSegment

/-! ## The go-ahead signal -/

/-- `assert_eq!(upgrade_go_ahead_signal, Some(*signal_in_segment))` when an ancestor in the segment
consumed a signal. -/
def signalMatchesSegment (signal signalInSegment : Option UpgradeGoAhead) : Bool :=
  match signalInSegment with
  | some inSegment => signal == some inSegment
  | none => true

/-- Act on the relay chain's go-ahead signal, unless an ancestor did already. -/
def applyGoAhead (s : SystemState P H) (signal signalInSegment : Option UpgradeGoAhead) :
    Option (SystemState P H) :=
  match signal, signalInSegment with
  | some _, some _ => some s
  -- `assert!(PendingValidationCode::exists())`; the code is put in place
  | some .goAhead, none =>
    if s.pendingValidationCode.isSome then some { s with pendingValidationCode := none } else none
  | some .abort, none => some { s with pendingValidationCode := none }
  | none, _ => some s

/-! ## Inbound messages -/

/-- Process the downward messages: extend the downward message queue chain with each message
the handler takes, then compare with the relay chain's head.
Source: `pallets/parachain-system/src/lib.rs` `Pallet::process_inbound_downward_messages` -/
def processInboundDownwardMessages [DecidableEq H] (hs : HashScheme H) (s : SystemState P H)
    (expectedDmqMqcHead : H) (downwardMessages : List InboundDownwardMessage) :
    Option (SystemState P H × List InboundDownwardMessage) :=
  let dmCount := BitVec.ofNat 32 downwardMessages.length
  let (dmqHead, passed) :=
    if dmCount ≠ 0 then
      (downwardMessages.foldl (fun c m => c.extendDownward hs m) s.lastDmqMqcHead,
        downwardMessages)
    else (s.lastDmqMqcHead, [])
  if dmqHead.head = expectedDmqMqcHead then
    some ({ s with lastDmqMqcHead := dmqHead, processedDownwardMessages := dmCount }, passed)
  else none

/-- The order in which horizontal messages are dispatched: by `sent_at`, then by sender. -/
def dispatchedBefore (a b : ParaId × InboundHrmpMessage) : Prop :=
  a.2.sentAt < b.2.sentAt ∨ (a.2.sentAt = b.2.sentAt ∧ a.1 ≤ b.1)

instance : DecidableRel dispatchedBefore := fun _ _ =>
  inferInstanceAs (Decidable (_ ∨ _))

/-- The horizontal messages as `(sender, message)` pairs, sender by sender. -/
def flattenHorizontal (horizontal : SortedMap ParaId (List InboundHrmpMessage)) :
    List (ParaId × InboundHrmpMessage) :=
  horizontal.entries.flatMap fun (sender, messages) => messages.map (sender, ·)

/-- The chain of a sender so far in this block, else the one at the end of the last block, else
the empty chain (`entry(sender).or_insert_with(|| last_mqc_heads.get(sender)..unwrap_or_default())`). -/
def runningHead (hs : HashScheme H) (last running : SortedMap ParaId (MessageQueueChain H))
    (sender : ParaId) : MessageQueueChain H :=
  (running.get? sender).getD ((last.get? sender).getD (.empty hs))

/-- Extend each sender's chain with its messages, in dispatch order. -/
def extendRunning (hs : HashScheme H) (last : SortedMap ParaId (MessageQueueChain H)) :
    List (ParaId × InboundHrmpMessage) → SortedMap ParaId (MessageQueueChain H) →
      SortedMap ParaId (MessageQueueChain H)
  | [], running => running
  | (sender, message) :: rest, running =>
    extendRunning hs last rest
      (running.insert sender ((runningHead hs last running sender).extendHrmp hs message))

/-- The watermark: the `sent_at` of the last message dispatched, if any. -/
def hrmpWatermarkLoop : Option RelayBlockNumber → List (ParaId × InboundHrmpMessage) →
    Option RelayBlockNumber
  | watermark, [] => watermark
  | watermark, (_, message) :: rest =>
    hrmpWatermarkLoop
      (if (watermark.map fun w => decide (w < message.sentAt)).getD true then some message.sentAt else watermark)
      rest

/-- The check of every ingress channel's head, carrying the heads of idle channels over. -/
def checkIngress [DecidableEq H] (hs : HashScheme H) (last : SortedMap ParaId (MessageQueueChain H)) :
    List (ParaId × AbridgedHrmpChannel H) → SortedMap ParaId (MessageQueueChain H) →
      Option (SortedMap ParaId (MessageQueueChain H))
  | [], running => some running
  | (sender, channel) :: rest, running =>
    let current := runningHead hs last running sender
    if current.head = channel.mqcHead.getD hs.zero then
      checkIngress hs last rest (running.insert sender current)
    else none

/-- Process the horizontal messages: every sender must have an ingress channel; the messages are
dispatched by `sent_at`, then by sender, each sender's chain being extended with its messages;
then every ingress channel's head must be the relay chain's.
Source: `pallets/parachain-system/src/lib.rs` `Pallet::process_inbound_horizontal_messages` -/
def processInboundHorizontalMessages [DecidableEq H] (hs : HashScheme H) (s : SystemState P H)
    (ingressChannels : List (ParaId × AbridgedHrmpChannel H))
    (horizontalMessages : SortedMap ParaId (List InboundHrmpMessage))
    (relayParentNumber : RelayBlockNumber) :
    Option (SystemState P H × List (ParaId × InboundHrmpMessage)) :=
  -- `assert!(ingress_channels.binary_search_by_key(sender, |&(s, _)| s).is_ok())`
  if horizontalMessages.entries.all fun (sender, _) =>
      (binarySearchByKey ingressChannels sender Prod.fst).isOk then
    let sorted := (flattenHorizontal horizontalMessages).insertionSort dispatchedBefore
    let running := extendRunning hs s.lastHrmpMqcHeads sorted .empty
    match checkIngress hs s.lastHrmpMqcHeads ingressChannels running with
    | none => none
    | some running =>
      some ({ s with
          lastHrmpMqcHeads := running
          hrmpWatermark := (hrmpWatermarkLoop none sorted).getD relayParentNumber },
        sorted)
  else none

/-! ## `set_validation_data` -/

/-- What a block passed to the message handlers, and the senders with an ingress channel at its
relay parent. -/
structure InboundRecord where
  downward : List InboundDownwardMessage
  horizontal : List (ParaId × InboundHrmpMessage)
  ingress : List ParaId

/-- Source: `pallets/parachain-system/src/lib.rs` `Pallet::set_validation_data` -/
def setValidationData [DecidableEq P] [DecidableEq H] (hs : HashScheme H) (cfg : SystemConfig)
    (s : SystemState P H) (data : ParachainInherentData P H)
    (capacity : UnincludedSegmentCapacity) (parentHash : P) :
    Option (SystemState P H × InboundRecord) := do
  -- `assert!(!ValidationData::exists(), "ValidationData must be updated only once in a block")`
  let s ← if s.validationData.isSome then none else some s
  let vfp := data.validationData
  let s ← if cfg.checkAssociatedRelayNumber vfp.relayParentNumber s.lastRelayChainBlockNumber then
    some { s with lastRelayChainBlockNumber := vfp.relayParentNumber } else none
  let relayState := data.relayChainState
  let s ← maybeDropIncludedAncestors s relayState capacity parentHash
  let signal := relayState.upgradeGoAheadSignal
  let signalInSegment := s.aggregatedUnincludedSegment.bind (·.consumedGoAheadSignal)
  let s ← if signalMatchesSegment signal signalInSegment then some s else none
  let s ← applyGoAhead s signal signalInSegment
  let s := { s with
    upgradeRestrictionSignal := relayState.upgradeRestrictionSignal
    upgradeGoAhead := signal
    validationData := some vfp
    relevantMessagingState := some relayState.messagingState
    hostConfiguration := some relayState.hostConfiguration }
  let (s, downward) ← processInboundDownwardMessages hs s relayState.messagingState.dmqMqcHead
    data.downwardMessages
  let (s, horizontal) ← processInboundHorizontalMessages hs s
    relayState.messagingState.ingressChannels data.horizontalMessages vfp.relayParentNumber
  pure (s, ⟨downward, horizontal, relayState.messagingState.ingressChannels.map Prod.fst⟩)

/-! ## Calls during the block -/

/-- The calls of a block between the inherent and `on_finalize` that the modelled code reads. -/
inductive SystemCall where
  /-- `send_upward_message`, as other pallets call it. -/
  | sendUpwardMessage (message : List UInt8)
  /-- `schedule_code_upgrade`, as `set_validation_code` and `enact_authorized_upgrade` call it. -/
  | scheduleCodeUpgrade (code : List UInt8)

/-- Queue an upward message, unless it is larger than the relay chain takes (`TooBig`).
Source: `pallets/parachain-system/src/lib.rs` `Pallet::send_upward_message` -/
def sendUpwardMessage (s : SystemState P H) (message : List UInt8) :
    Except MessageSendError (SystemState P H) :=
  match s.hostConfiguration with
  | some cfg =>
    if cfg.maxUpwardMessageSize.toNat < message.length then .error .tooBig
    else .ok { s with pendingUpwardMessages := s.pendingUpwardMessages ++ [message] }
  | none => .ok { s with pendingUpwardMessages := s.pendingUpwardMessages ++ [message] }

/-- The errors of the pallet that `schedule_code_upgrade` returns.
Source: `pallets/parachain-system/src/lib.rs` `Error` -/
inductive SystemError where
  | overlappingUpgrades
  | prohibitedByPolkadot
  | tooBig
  | validationDataNotAvailable
  | hostConfigurationNotAvailable
  deriving DecidableEq, Repr

/-- Store a new validation function to apply when the relay chain says go ahead.
Source: `pallets/parachain-system/src/lib.rs` `Pallet::schedule_code_upgrade` -/
def scheduleCodeUpgrade (s : SystemState P H) (validationFunction : List UInt8) :
    Except SystemError (SystemState P H) :=
  if s.validationData.isNone then .error .validationDataNotAvailable
  else if s.upgradeRestrictionSignal.isSome then .error .prohibitedByPolkadot
  else if s.pendingValidationCode.isSome then .error .overlappingUpgrades
  else match s.hostConfiguration with
    | none => .error .hostConfigurationNotAvailable
    | some cfg =>
      if cfg.maxCodeSize.toNat < validationFunction.length then .error .tooBig
      else .ok { s with pendingValidationCode := some validationFunction }

/-- One call; a call that fails changes nothing. -/
def applyCall (s : SystemState P H) : SystemCall → SystemState P H
  | .sendUpwardMessage message =>
    match sendUpwardMessage s message with
    | .ok s' => s'
    | .error _ => s
  | .scheduleCodeUpgrade code =>
    match scheduleCodeUpgrade s code with
    | .ok s' => s'
    | .error _ => s

/-! ## `on_finalize` -/

/-- `get_channel_status` on the current messaging state: `Closed` without a channel, `Full` at
capacity, else `Ready(max_total_size - total_size, max_message_size)`.
Source: `pallets/parachain-system/src/lib.rs` `GetChannelInfo::get_channel_status` -/
def getChannelStatus (s : SystemState P H) (id : ParaId) : Option ChannelStatus :=
  match s.relevantMessagingState with
  | none => some .closed
  | some d =>
    match binarySearchByKey d.egressChannels id Prod.fst with
    | .error _ => some .closed
    | .ok i =>
      match d.egressChannels[i]? with
      | none => none
      | some (_, channel) => do
        let next ← checkedAdd channel.msgCount 1
        if channel.maxCapacity < next then some .full
        else do
          let maxSizeNow ← checkedSub channel.maxTotalSize channel.totalSize
          pure (.ready maxSizeNow.toNat channel.maxMessageSize.toNat)

/-- The outbound message source: given the channel statuses and the most channels to serve, the
recipient and the data length of each message, or `none` where it panics. -/
abbrev OutboundSource := (ParaId → Option ChannelStatus) → Nat → Option (List (ParaId × Nat))

/-- Count what the segment already sends over a channel as pending in it, up to the channel's
limits. -/
def adjustChannel (used : HrmpChannelUpdate) (c : AbridgedHrmpChannel H) :
    Option (AbridgedHrmpChannel H) := do
  let totalSize ← checkedAdd c.totalSize used.totalBytes
  let msgCount ← checkedAdd c.msgCount used.msgCount
  pure { c with totalSize := min totalSize c.maxTotalSize, msgCount := min msgCount c.maxCapacity }

/-- The loop of `adjust_egress_bandwidth_limits` over the segment's channels; a channel the
messaging state does not have is closed and skipped. -/
def adjustChannels : List (ParaId × HrmpChannelUpdate) → List (ParaId × AbridgedHrmpChannel H) →
    Option (List (ParaId × AbridgedHrmpChannel H))
  | [], channels => some channels
  | (id, used) :: rest, channels =>
    match binarySearchByKey channels id Prod.fst with
    | .error _ => adjustChannels rest channels
    | .ok i =>
      match channels[i]? with
      | none => none
      | some (recipient, c) => do
        let c ← adjustChannel used c
        adjustChannels rest (channels.set i (recipient, c))

/-- Take the segment's bandwidth off the messaging state.
Source: `pallets/parachain-system/src/lib.rs` `Pallet::adjust_egress_bandwidth_limits` -/
def adjustEgressBandwidthLimits (s : SystemState P H) : Option (SystemState P H) :=
  match s.aggregatedUnincludedSegment, s.relevantMessagingState with
  | some segment, some ms => do
    let used := segment.usedBandwidth
    let egressChannels ← adjustChannels used.hrmpOutgoing.entries ms.egressChannels
    let capacity := ms.relayDispatchQueueRemainingCapacity
    pure { s with
      relevantMessagingState := some { ms with
        egressChannels
        relayDispatchQueueRemainingCapacity :=
          ⟨saturatingSub capacity.remainingCount used.umpMsgCount,
            saturatingSub capacity.remainingSize used.umpTotalBytes⟩ } }
  | _, _ => some s

/-- The scan over the pending upward messages: the count and total size of the longest prefix
within the available capacity and size. -/
def umpScan (availableCapacity availableSize : BitVec 32) :
    List (List UInt8) → BitVec 32 × BitVec 32 → BitVec 32 × BitVec 32
  | [], state => state
  | message :: rest, (capUsed, sizeUsed) =>
    let newCap := saturatingAdd capUsed 1
    let newSize := saturatingAdd sizeUsed (BitVec.ofNat 32 message.length)
    if newCap ≤ availableCapacity ∧ newSize ≤ availableSize then
      umpScan availableCapacity availableSize rest (newCap, newSize)
    else (capUsed, sizeUsed)

/-- The `PendingUpwardMessages::mutate` of `on_finalize`: move the pending upward messages that fit
the adjusted messaging state to `UpwardMessages`, and return their count and total size. -/
def takeUpwardMessages (s : SystemState P H) (hostConfig : AbridgedHostConfiguration) :
    Option (SystemState P H × BitVec 32 × BitVec 32) :=
  match s.relevantMessagingState with
  | none => some (s, 0, 0)
  | some limits =>
    let availableCapacity := min limits.relayDispatchQueueRemainingCapacity.remainingCount
      hostConfig.maxUpwardMessageNumPerCandidate
    let (num, totalSize) := umpScan availableCapacity
      limits.relayDispatchQueueRemainingCapacity.remainingSize s.pendingUpwardMessages (0, 0)
    -- `up[..num as usize]`
    if num.toNat ≤ s.pendingUpwardMessages.length then
      some ({ s with
        upwardMessages := s.pendingUpwardMessages.take num.toNat
        pendingUpwardMessages := s.pendingUpwardMessages.drop num.toNat }, num, totalSize)
    else none

/-- What `on_finalize` has computed when it appends the block: the storage, the new ancestor,
its watermark and the total limits. -/
structure Finalizing (P H : Type) where
  state : SystemState P H
  ancestor : Ancestor P
  watermark : HrmpWatermarkUpdate
  limits : OutboundBandwidthLimits

/-- The part of `on_finalize` up to the append: the limits of the unadjusted messaging state, the
upward messages that fit the adjusted one, the outbound messages of the source, and the ancestor
they make. -/
def prepareAncestor (s : SystemState P H) (hostConfig : AbridgedHostConfiguration)
    (ms : MessagingStateSnapshot H) (relayUpgradeGoAhead : Option UpgradeGoAhead)
    (source : OutboundSource) : Option (Finalizing P H) := do
  let totalBandwidthOut := OutboundBandwidthLimits.fromRelayChainState ms
  let s ← adjustEgressBandwidthLimits s
  let (s, umpMsgCount, umpTotalBytes) ← takeUpwardMessages s hostConfig
  let maximumChannels := min hostConfig.hrmpMaxMessageNumPerCandidate
    s.announcedHrmpMessagesPerCandidate
  let s := { s with announcedHrmpMessagesPerCandidate := 0 }
  let outboundMessages ← source (getChannelStatus s) maximumChannels.toNat
  let hrmpOutgoing := SortedMap.ofList (outboundMessages.map fun (recipient, length) =>
    (recipient, (⟨1, BitVec.ofNat 32 length⟩ : HrmpChannelUpdate)))
  let aggregated := s.aggregatedUnincludedSegment.getD .default
  -- a signal an ancestor in the segment consumed is not consumed again
  let consumedGoAheadSignal :=
    if aggregated.consumedGoAheadSignal.isSome then none else relayUpgradeGoAhead
  pure ⟨s, .newUnchecked ⟨umpMsgCount, umpTotalBytes, hrmpOutgoing⟩ consumedGoAheadSignal,
    .new s.hrmpWatermark s.lastRelayChainBlockNumber, totalBandwidthOut⟩

/-- The append of `on_finalize`: `expect("unincluded segment limits exceeded")`. -/
def appendAncestor (f : Finalizing P H) : Option (SystemState P H) :=
  match (f.state.aggregatedUnincludedSegment.getD .default).append f.ancestor f.watermark
      f.limits with
  | some (.ok aggregated) =>
    some { f.state with
      aggregatedUnincludedSegment := some aggregated
      unincludedSegment := f.state.unincludedSegment ++ [f.ancestor] }
  | _ => none

/-- Source: `pallets/parachain-system/src/lib.rs` `Hooks::on_finalize` -/
def onFinalize (s : SystemState P H) (source : OutboundSource) : Option (SystemState P H) :=
  let relayUpgradeGoAhead := s.upgradeGoAhead
  let s := { s with upgradeRestrictionSignal := none, upgradeGoAhead := none }
  -- `assert!(ValidationData::exists(), ..)`
  if s.validationData.isNone then none
  else
    -- without a host configuration or a messaging state, `debug_assert!` and return
    match s.hostConfiguration, s.relevantMessagingState with
    | some hostConfig, some ms =>
      (prepareAncestor s hostConfig ms relayUpgradeGoAhead source).bind appendAncestor
    | _, _ => some s

/-! ## Blocks and runs -/

/-- The inputs of one block: its parent, the inherent, the capacity the consensus hook returns,
the calls of the block and the outbound message source. -/
structure BlockInput (P H : Type) where
  parentHash : P
  inherent : ParachainInherentData P H
  capacity : UnincludedSegmentCapacity
  calls : List SystemCall
  source : OutboundSource

section Run

variable [DecidableEq P] [DecidableEq H] (hs : HashScheme H) (cfg : SystemConfig)

/-- One block: `on_initialize`, the inherent, the calls, `on_finalize`. -/
def executeBlock (s : SystemState P H) (b : BlockInput P H) :
    Option (SystemState P H × InboundRecord) := do
  let s := onInitialize s b.parentHash
  let (s, received) ← setValidationData hs cfg s b.inherent b.capacity b.parentHash
  let s := b.calls.foldl applyCall s
  let s ← onFinalize s b.source
  pure (s, received)

/-- The storage with the record of what every block so far passed to the message handlers. -/
structure SystemRun (P H : Type) where
  state : SystemState P H
  history : List InboundRecord

/-- Genesis: nothing received. -/
def SystemRun.genesis : SystemRun P H := ⟨.genesis hs, []⟩

/-- One block of a run. -/
def systemStep (r : SystemRun P H) (b : BlockInput P H) : Option (SystemRun P H) :=
  (executeBlock hs cfg r.state b).map fun (s, received) => ⟨s, r.history ++ [received]⟩

end Run

end Cumulus.ParachainSystem
