import Cumulus.XcmpQueue.Outbound
import Cumulus.Found.BinarySearch
import Cumulus.Primitives.Xcm

/-!
# xcmp-queue: the inbound queue

The entry points that write `InboundXcmpStatus`, `InboundXcmpMessages` and the overweight store:

* `handleXcmpMessages` — `XcmpMessageHandler::handle_xcmp_messages`: for each inbound page,
  act on a signal page at once, or record the page in the channel of its sender (found by
  `binary_search_by_key`, or pushed) and store its payload; sort the records; then service the
  queue;
* `processXcmpMessage` — `process_xcmp_message`: execute the fragments of one page until the
  weight or the per-block message count runs out, stashing overweight fragments;
* `serviceXcmpQueue` — `service_xcmp_queue` (also `on_idle`): visit the channels in a shuffled
  order, one page at a time, with a weight allowance that grows towards `max_weight`;
* `serviceOverweight` — the `service_overweight` call; `setConfig` and its members — the calls
  that set the configuration and `QueueSuspended`.

What lies outside `src/` is a parameter (`InboundEnv`): the SCALE decoders of a `VersionedXcm` and
of a `Vec<u8>`, the conversion to the current `Xcm`, the XCM executor, the controller-origin test,
the weight of one database read, and the `u32` stream of the ChaCha generator seeded with the
parent hash. A step that would overflow, underflow or index out of bounds panics (`none`); the
loops run on fuel that suffices when every decoder consumes a byte, which the environment carries
as a field.
-/

namespace Cumulus.XcmpQueue

open Cumulus.Primitives Cumulus.Found

/-! ## The environment -/

/-- What the inbound queue calls outside the repository, over the type `X` of decoded
`VersionedXcm`s and `Y` of `Xcm`s. -/
structure InboundEnv (X Y : Type) where
  /-- `VersionedXcm::decode_with_depth_limit`: one fragment and the bytes after it. -/
  decodeVersionedXcm : List UInt8 → Option (X × List UInt8)
  /-- Decoding consumes at least one byte. -/
  decodeVersionedXcm_lt : ∀ l x rest, decodeVersionedXcm l = some (x, rest) → rest.length < l.length
  /-- `<Vec<u8>>::decode`: one blob and the bytes after it. -/
  decodeBlob : List UInt8 → Option (List UInt8 × List UInt8)
  /-- Decoding consumes at least one byte. -/
  decodeBlob_lt : ∀ l b rest, decodeBlob l = some (b, rest) → rest.length < l.length
  /-- `Xcm::try_from(versioned)`. -/
  tryFromVersioned : X → Option Y
  /-- `XcmExecutor::prepare_and_execute` from `(Parent, Parachain(sender))` with a weight limit. -/
  execute : ParaId → Y → Weight → Outcome
  /-- Whether the origin of `sender` passes `ControllerOrigin`. -/
  isController : ParaId → Bool
  /-- `T::DbWeight::get().reads(1)`. -/
  dbRead : Weight
  /-- The `i`-th `next_u32()` of the `ChaChaRng` seeded with the parent hash. -/
  randomU32 : Nat → BitVec 32

variable {X Y : Type} (env : InboundEnv X Y)

/-- Execute one XCM from `sender` with weight limit `maxWeight`.
Source: `pallets/xcmp-queue/src/lib.rs` `Pallet::handle_xcm_message` -/
def handleXcmMessage (sender : ParaId) (xcm : X) (maxWeight : Weight) : Except XcmError Weight :=
  match env.tryFromVersioned xcm with
  | some xcm =>
    match env.execute sender xcm maxWeight with
    | .error error => .error error
    | .complete weight => .ok weight
    -- as far as the caller is concerned this was dispatched without error
    | .incomplete weight _ => .ok weight
  | none => .error .unhandledXcmVersion

/-! ## `process_xcmp_message` -/

/-- Put an XCM into the overweight store under the next free index (a `u64` counter, `+= 1`).
Source: `pallets/xcmp-queue/src/lib.rs` `Pallet::stash_overweight` -/
def stashOverweight (s : XcmpQueueState) (sender : ParaId) (sentAt : RelayBlockNumber)
    (xcm : List UInt8) : Option XcmpQueueState := do
  let index := s.overweightCount
  let count ← checkedAdd s.overweightCount 1
  pure { s with
    overweightCount := count
    overweight := Function.update s.overweight index (some (sender, sentAt, xcm))
    -- the counter of the `CountedStorageMap` grows when the key is new
    overweightEntries := if (s.overweight index).isSome then s.overweightEntries
      else s.overweightEntries + 1 }

/-- The loop of `process_xcmp_message` over the fragments of a `ConcatenatedVersionedXcm` page:
returns the unprocessed bytes, the weight used, the message count and the storage.
Source: `pallets/xcmp-queue/src/lib.rs` `Pallet::process_xcmp_message` -/
def xcmLoop (sender : ParaId) (sentAt : RelayBlockNumber) (maxWeight maxIndividualWeight : Weight) :
    Nat → List UInt8 → Weight → BitVec 8 → XcmpQueueState →
      Option (List UInt8 × Weight × BitVec 8 × XcmpQueueState)
  -- unreachable from `processXcmpMessage`: every pass consumes a byte
  | 0, _, _, _, _ => none
  | fuel + 1, remaining, weightUsed, processed, s =>
    if remaining.isEmpty || decide (maxMessagesPerBlock ≤ processed.toNat) then
      some (remaining, weightUsed, processed, s)
    else
      match env.decodeVersionedXcm remaining with
      -- invalid data: drop the rest of the page
      | none => some ([], weightUsed, processed, s)
      | some (xcm, rest) => do
        let weight ← maxWeight.sub weightUsed
        let processed ← checkedAdd processed 1
        match handleXcmMessage env sender xcm weight with
        | .ok used =>
          xcmLoop sender sentAt maxWeight maxIndividualWeight fuel rest
            (weightUsed.saturatingAdd used) processed s
        | .error (.weightLimitReached required) =>
          if required.anyGt maxIndividualWeight then
            -- overweight: stash the fragment if there is room, and go on with the next one
            let weightUsed := weightUsed.saturatingAdd env.dbRead
            if s.overweightEntries < maxOverweightMessages then do
              let s ← stashOverweight s sender sentAt (remaining.take (remaining.length - rest.length))
              xcmLoop sender sentAt maxWeight maxIndividualWeight fuel rest weightUsed processed s
            else xcmLoop sender sentAt maxWeight maxIndividualWeight fuel rest weightUsed processed s
          else if required.allLte maxWeight then
            -- too heavy for now: leave it for the next time and stop
            some (remaining, weightUsed, processed, s)
          else xcmLoop sender sentAt maxWeight maxIndividualWeight fuel rest weightUsed processed s
        -- invalid message: not retried
        | .error _ =>
          xcmLoop sender sentAt maxWeight maxIndividualWeight fuel rest weightUsed processed s

/-- The loop of `process_xcmp_message` over a `ConcatenatedEncodedBlob` page. Blobs are not
handled (`handle_blob_message` returns `Err(false)`), so each fragment is counted and dropped and
no weight is used.
Source: `pallets/xcmp-queue/src/lib.rs` `Pallet::process_xcmp_message` -/
def blobLoop : Nat → List UInt8 → BitVec 8 → Option (List UInt8 × BitVec 8)
  | 0, _, _ => none
  | fuel + 1, remaining, processed =>
    if remaining.isEmpty then some (remaining, processed)
    else
      match env.decodeBlob remaining with
      | none => some ([], processed)
      | some (_, rest) => do
        let processed ← checkedAdd processed 1
        blobLoop fuel rest processed

/-- Execute the page `(sender, sent_at)` as far as weight and the message count allow; keep what
is left of it, or remove it if nothing is. Returns the weight used, whether the page is gone, the
message count and the storage.
Source: `pallets/xcmp-queue/src/lib.rs` `Pallet::process_xcmp_message` -/
def processXcmpMessage (s : XcmpQueueState) (sender : ParaId)
    (metadata : RelayBlockNumber × XcmpMessageFormat) (processed : BitVec 8)
    (maxWeight maxIndividualWeight : Weight) :
    Option (Weight × Bool × BitVec 8 × XcmpQueueState) := do
  let sentAt := metadata.1
  let data := (s.inboundXcmpMessages sender sentAt).getD []
  let out ← match metadata.2 with
    | .concatenatedVersionedXcm =>
      xcmLoop env sender sentAt maxWeight maxIndividualWeight (data.length + 1) data Weight.zero
        processed s
    | .concatenatedEncodedBlob => do
      let out ← blobLoop env (data.length + 1) data processed
      pure (out.1, Weight.zero, out.2, s)
    -- signals are handled on receipt and never queued
    | .signals => pure ([], Weight.zero, processed, s)
  let remaining := out.1
  let isEmpty := remaining.isEmpty
  pure (out.2.1, isEmpty, out.2.2.1,
    { out.2.2.2 with
      inboundXcmpMessages := updateDouble out.2.2.2.inboundXcmpMessages sender sentAt
        (if isEmpty then none else some remaining) })

/-! ## `service_xcmp_queue` -/

/-- Swap the elements at `i` and `j` (`slice::swap`; both are in bounds where it is called). -/
def swapAt (l : List Nat) (i j : Nat) : List Nat :=
  match l[i]?, l[j]? with
  | some a, some b => (l.set i b).set j a
  | _, _ => l

/-- A shuffled order of `0..len`: swap position `i` with `next_u32() % len`, for each `i`.
Source: `pallets/xcmp-queue/src/lib.rs` `Pallet::create_shuffle` -/
def createShuffle (len : Nat) : List Nat :=
  (List.range len).foldl (fun shuffled i => swapAt shuffled i ((env.randomU32 i).toNat % len))
    (List.range len)

/-- The local variables of the loop of `service_xcmp_queue`, with the storage it writes. -/
structure ServiceState where
  shuffleIndex : Nat
  shuffled : List Nat
  status : List InboundChannelDetails
  weightUsed : Weight
  weightAvailable : Weight
  messagesProcessed : BitVec 8
  store : XcmpQueueState

/-- The weight allowance of a visit: it approaches `max_weight` by a share `1 / (decay + 1)` of
the gap on each visit of the first round, jumps to it when within `threshold_weight` of it, and
is all of it from the second round on.
Source: `pallets/xcmp-queue/src/lib.rs` `Pallet::service_xcmp_queue` -/
def nextWeightAvailable (config : QueueConfigData) (maxWeight weightAvailable : Weight)
    (firstRound : Bool) : Option Weight :=
  if weightAvailable ≠ maxWeight then
    if firstRound then do
      let gap ← maxWeight.sub weightAvailable
      let divisor ← checkedAdd config.weightRestrictDecay.refTime 1
      let available ← weightAvailable.add (gap.divU64 divisor)
      let reach ← available.add config.thresholdWeight
      pure (if reach.anyGt maxWeight then maxWeight else available)
    else some maxWeight
  else some weightAvailable

/-- Process the first page of a channel record, if it has one; drop its metadata entry when the
page is gone. Returns the weight used, the record, the message count and the storage.
Source: `pallets/xcmp-queue/src/lib.rs` `Pallet::service_xcmp_queue` -/
def processFirstPage (st : ServiceState) (details : InboundChannelDetails)
    (weightAvailable maxIndividualWeight : Weight) :
    Option (Weight × InboundChannelDetails × BitVec 8 × XcmpQueueState) :=
  match details.messageMetadata with
  | [] => some (Weight.zero, details, st.messagesProcessed, st.store)
  | metadata :: rest => do
    let weightRemaining := weightAvailable.saturatingSub st.weightUsed
    let out ← processXcmpMessage env st.store details.sender metadata st.messagesProcessed
      weightRemaining maxIndividualWeight
    pure (out.1, if out.2.1 then { details with messageMetadata := rest } else details,
      out.2.2.1, out.2.2.2)

/-- The loop of `service_xcmp_queue`: visit `shuffled[shuffle_index]` while there is an index
left, the unused weight reaches `threshold_weight` and fewer than ten messages were processed.
A channel with pages left and progress made is visited again after the others.
Source: `pallets/xcmp-queue/src/lib.rs` `Pallet::service_xcmp_queue` -/
def serviceLoop (maxWeight : Weight) (suspended : Bool) (config : QueueConfigData) :
    Nat → ServiceState → Option ServiceState
  -- unreachable with the fuel of `serviceXcmpQueue`
  | 0, _ => none
  | fuel + 1, st =>
    if decide (st.shuffleIndex < st.shuffled.length) &&
        (maxWeight.saturatingSub st.weightUsed).allGte config.thresholdWeight &&
        decide (st.messagesProcessed.toNat < maxMessagesPerBlock) then do
      let index ← st.shuffled[st.shuffleIndex]?
      let details ← st.status[index]?
      let sender := details.sender
      if suspended && !env.isController sender then
        serviceLoop maxWeight suspended config fuel { st with shuffleIndex := st.shuffleIndex + 1 }
      else
        let weightAvailable ← nextWeightAvailable config maxWeight st.weightAvailable
          (decide (st.shuffleIndex < st.status.length))
        let out ← processFirstPage env st details weightAvailable config.xcmpMaxIndividualWeight
        let weightProcessed := out.1
        let weightUsed ← st.weightUsed.add weightProcessed
        -- resume a suspended channel whose queue has shrunk to `resume_threshold`
        let resume := decide (BitVec.ofNat 32 out.2.1.messageMetadata.length ≤ config.resumeThreshold) &&
          decide (out.2.1.state = .suspended)
        let details := if resume then { out.2.1 with state := .ok } else out.2.1
        let store := if resume then sendSignal out.2.2.2 sender .resume else out.2.2.2
        let st' := { st with
          status := st.status.set index details
          weightUsed, weightAvailable
          messagesProcessed := out.2.2.1
          store }
        if !details.messageMetadata.isEmpty &&
            (weightProcessed.anyGt Weight.zero || decide (weightAvailable ≠ maxWeight)) then
          if st.shuffleIndex + 1 = st.shuffled.length then
            -- only this queue left: run the loop once more on it
            serviceLoop maxWeight suspended config fuel st'
          else
            serviceLoop maxWeight suspended config fuel
              { st' with shuffled := st.shuffled ++ [index], shuffleIndex := st.shuffleIndex + 1 }
        else serviceLoop maxWeight suspended config fuel { st' with shuffleIndex := st.shuffleIndex + 1 }
    else some st

/-- A bound on the visits of `service_xcmp_queue`: a visit that processes a page counts a message
(at most ten) or removes a metadata entry, and the others advance the index. -/
def serviceFuel (status : List InboundChannelDetails) : Nat :=
  status.length + 2 * (maxMessagesPerBlock + (status.map (·.messageMetadata.length)).sum) + 1

/-- Service the inbound queue with at most `max_weight`; keep the records with pages left.
Source: `pallets/xcmp-queue/src/lib.rs` `Pallet::service_xcmp_queue` -/
def serviceXcmpQueue (s : XcmpQueueState) (maxWeight : Weight) : Option (Weight × XcmpQueueState) :=
  let status := s.inboundXcmpStatus
  if status.isEmpty then some (Weight.zero, s)
  else do
    let st ← serviceLoop env maxWeight s.queueSuspended s.queueConfig (serviceFuel status)
      ⟨0, createShuffle env status.length, status, Weight.zero, Weight.zero, 0, s⟩
    pure (st.weightUsed,
      { st.store with inboundXcmpStatus := st.status.filter fun d => !d.messageMetadata.isEmpty })

/-! ## `handle_xcmp_messages` -/

/-- Act on the signals of a signal page, in order, up to the first byte that is not a signal.
The decoding of a signal consumes exactly its one byte.
Source: `pallets/xcmp-queue/src/lib.rs` `XcmpMessageHandler::handle_xcmp_messages` -/
def handleSignals (s : XcmpQueueState) (sender : ParaId) : List UInt8 → XcmpQueueState
  | [] => s
  | b :: rest =>
    match ChannelSignal.decode (b :: rest) with
    | some (.suspend, _) => handleSignals (suspendChannel s sender) sender rest
    | some (.resume, _) => handleSignals (resumeChannel s sender) sender rest
    | none => s

/-- Record a received page in the channel of its sender: found by binary search, it is suspended
(with a `Suspend` signal back) from `suspend_threshold` pages on and takes no more pages from
`drop_threshold` on; not found, a new record is pushed at the end.
Source: `pallets/xcmp-queue/src/lib.rs` `XcmpMessageHandler::handle_xcmp_messages` -/
def recordInbound (config : QueueConfigData) (status : List InboundChannelDetails)
    (s : XcmpQueueState) (sender : ParaId) (sentAt : RelayBlockNumber)
    (format : XcmpMessageFormat) : List InboundChannelDetails × XcmpQueueState :=
  match binarySearchByKey status sender (·.sender) with
  | .ok i =>
    match status[i]? with
    | some d =>
      let count := BitVec.ofNat 32 d.messageMetadata.length
      let suspend := decide (config.suspendThreshold ≤ count) && decide (d.state = .ok)
      let d := if suspend then { d with state := .suspended } else d
      let s := if suspend then sendSignal s sender .suspend else s
      let d := if count < config.dropThreshold then
          { d with messageMetadata := d.messageMetadata ++ [(sentAt, format)] }
        else d
      (status.set i d, s)
    -- unreachable: a hit is an index of the vector
    | none => (status, s)
  | .error _ => (status ++ [⟨sender, .ok, [(sentAt, format)]⟩], s)

/-- One inbound page: skip it if its format byte is unknown, act on it if it is a signal page,
else record it and store its payload under `(sender, sent_at)`.
Source: `pallets/xcmp-queue/src/lib.rs` `XcmpMessageHandler::handle_xcmp_messages` -/
def handleOne (config : QueueConfigData) (status : List InboundChannelDetails)
    (s : XcmpQueueState) (sender : ParaId) (sentAt : RelayBlockNumber) (data : List UInt8) :
    List InboundChannelDetails × XcmpQueueState :=
  match XcmpMessageFormat.decode data with
  | none => (status, s)
  | some (format, dataRef) =>
    if format = .signals then (status, handleSignals s sender dataRef)
    else
      let out := recordInbound config status s sender sentAt format
      (out.1, { out.2 with
        inboundXcmpMessages := updateDouble out.2.inboundXcmpMessages sender sentAt (some dataRef) })

/-- The loop of `handle_xcmp_messages` over the inbound pages, on the local status vector. -/
def handleLoop (config : QueueConfigData) :
    List (ParaId × RelayBlockNumber × List UInt8) → List InboundChannelDetails → XcmpQueueState →
      List InboundChannelDetails × XcmpQueueState
  | [], status, s => (status, s)
  | (sender, sentAt, data) :: iter, status, s =>
    let out := handleOne config status s sender sentAt data
    handleLoop config iter out.1 out.2

/-- Receive the pages of one block, then service the queue with `max_weight`.
Source: `pallets/xcmp-queue/src/lib.rs` `XcmpMessageHandler::handle_xcmp_messages` -/
def handleXcmpMessages (s : XcmpQueueState) (iter : List (ParaId × RelayBlockNumber × List UInt8))
    (maxWeight : Weight) : Option (Weight × XcmpQueueState) :=
  let out := handleLoop s.queueConfig iter s.inboundXcmpStatus s
  serviceXcmpQueue env { out.2 with inboundXcmpStatus := sortInbound out.1 } maxWeight

/-! ## Calls -/

/-- The errors of `service_overweight`.
Source: `pallets/xcmp-queue/src/lib.rs` `Error` -/
inductive XcmpQueueError where
  | badOverweightIndex
  | badXcm
  | weightOverLimit
  deriving DecidableEq, Repr

/-- `VersionedXcm::decode_all_with_depth_limit`: a decoding that consumes all of the input. -/
def InboundEnv.decodeAll (data : List UInt8) : Option X :=
  match env.decodeVersionedXcm data with
  | some (xcm, []) => some xcm
  | _ => none

/-- Execute an overweight XCM with `weight_limit`, and remove it if that succeeds. A failed call
changes nothing. Returns the weight charged.
Source: `pallets/xcmp-queue/src/lib.rs` `Pallet::service_overweight` -/
def serviceOverweight (s : XcmpQueueState) (index : BitVec 64) (weightLimit : Weight) :
    Except XcmpQueueError (Weight × XcmpQueueState) := do
  let (sender, _, data) ← (s.overweight index).elim (.error .badOverweightIndex) .ok
  let xcm ← (env.decodeAll data).elim (.error .badXcm) .ok
  let used ← (handleXcmMessage env sender xcm weightLimit).mapError fun _ => .weightOverLimit
  pure (used.saturatingAdd (Weight.fromParts 1000000 0),
    { s with
      overweight := Function.update s.overweight index none
      overweightEntries := s.overweightEntries - 1 })

/-- The root and controller calls that set one field of the configuration or `QueueSuspended`:
one edit of the stored configuration. -/
def setConfig (s : XcmpQueueState) (f : QueueConfigData → QueueConfigData) : XcmpQueueState :=
  { s with queueConfig := f s.queueConfig }

/-- Source: `pallets/xcmp-queue/src/lib.rs` `Pallet::update_suspend_threshold` -/
def updateSuspendThreshold (s : XcmpQueueState) (new : BitVec 32) : XcmpQueueState :=
  setConfig s fun c => { c with suspendThreshold := new }

/-- Source: `pallets/xcmp-queue/src/lib.rs` `Pallet::update_drop_threshold` -/
def updateDropThreshold (s : XcmpQueueState) (new : BitVec 32) : XcmpQueueState :=
  setConfig s fun c => { c with dropThreshold := new }

/-- Source: `pallets/xcmp-queue/src/lib.rs` `Pallet::update_resume_threshold` -/
def updateResumeThreshold (s : XcmpQueueState) (new : BitVec 32) : XcmpQueueState :=
  setConfig s fun c => { c with resumeThreshold := new }

/-- Source: `pallets/xcmp-queue/src/lib.rs` `Pallet::update_threshold_weight` -/
def updateThresholdWeight (s : XcmpQueueState) (new : Weight) : XcmpQueueState :=
  setConfig s fun c => { c with thresholdWeight := new }

/-- Source: `pallets/xcmp-queue/src/lib.rs` `Pallet::update_weight_restrict_decay` -/
def updateWeightRestrictDecay (s : XcmpQueueState) (new : Weight) : XcmpQueueState :=
  setConfig s fun c => { c with weightRestrictDecay := new }

/-- Source: `pallets/xcmp-queue/src/lib.rs` `Pallet::update_xcmp_max_individual_weight` -/
def updateXcmpMaxIndividualWeight (s : XcmpQueueState) (new : Weight) : XcmpQueueState :=
  setConfig s fun c => { c with xcmpMaxIndividualWeight := new }

/-- `suspend_xcm_execution` and `resume_xcm_execution`: set `QueueSuspended`.
Source: `pallets/xcmp-queue/src/lib.rs` `Pallet::suspend_xcm_execution` -/
def setQueueSuspended (s : XcmpQueueState) (suspended : Bool) : XcmpQueueState :=
  { s with queueSuspended := suspended }

end Cumulus.XcmpQueue
