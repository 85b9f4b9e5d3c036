import Cumulus.Primitives.Core
import Cumulus.Primitives.Xcm
import Cumulus.Found.MachineInt
import Mathlib.Logic.Function.Basic

/-!
# dmp-queue: the downward message queue

The pallet executes the downward messages that the relay chain hands to
`DmpMessageHandler::handle_dmp_messages` while weight and the per-block message count allow, and
queues the rest in the pages `Pages[begin_used..end_used]`, which later calls (and `on_idle`)
service first. A message that needs more than `max_individual` weight is stashed in `Overweight`
under the next `overweight_count`; only `service_overweight` executes it.

* `tryServiceMessage` — `try_service_message`: decode, convert and execute one message; `Ok`
  with the weight used unless the executor reports `WeightLimitReached`;
* `doServiceQueue` — `do_service_queue`: service the pages from `begin_used` on, put the rest
  of a page back when the weight or the message count runs out, and reset the indices to `0..0`
  once every page is done; `serviceQueue` (`service_queue`, also `on_idle`) starts it with no
  message processed;
* `handleDmpMessages` — `handle_dmp_messages`: service the queue, then execute the incoming
  messages inline while nothing is queued, stash the overweight ones and put the rest on one new
  page;
* `serviceOverweight` — the `service_overweight` call.

Outside `src/` are the decoder of a `VersionedXcm`, its conversion to the current `Xcm`, the
XCM executor and the weight of one database read (`DmpEnv`). The executor acts on the rest of the
chain, which the messages executed before may have changed, so it is indexed by the position of
the message in its call (`messages_processed` after the increment): each attempt may meet another
executor.

Besides what the source returns, the servicing functions return the messages they serviced (those
for which the source deposits `ExecutedDownward`, `InvalidFormat` or `UnsupportedVersion`) and
those they stashed (`OverweightEnqueued`), in order; `Delivery.lean` follows every message by them.
A step that would overflow panics (`none`).
-/

namespace Cumulus.DmpQueue

open Cumulus.Primitives Cumulus.Found

/-- A downward message as the queue keeps it: the relay block it was sent at and its bytes. -/
abbrev Message := RelayBlockNumber × List UInt8

/-! ## Configuration and storage -/

/-- `WEIGHT_REF_TIME_PER_MILLIS` of `frame_support`: `10^9` picoseconds. -/
def weightRefTimePerMillis : Nat := 1000000000

/-- `DEFAULT_POV_SIZE`: 64 KB. -/
def defaultPovSize : Nat := 64 * 1024

/-- `MAX_MESSAGES_PER_BLOCK`: at most ten messages are processed per block. -/
def maxMessagesPerBlock : Nat := 10

/-- `MAX_OVERWEIGHT_MESSAGES`: at most a thousand messages are kept in `Overweight`. -/
def maxOverweightMessages : Nat := 1000

/-- Source: `pallets/dmp-queue/src/lib.rs` `ConfigData` -/
structure ConfigData where
  /-- The most weight one message may use; heavier messages go to the overweight queue. -/
  maxIndividual : Weight
  deriving DecidableEq, Repr

/-- `ConfigData::default()`: 10 ms of execution time and 64 KB of proof. -/
def ConfigData.default : ConfigData where
  maxIndividual :=
    Weight.fromParts (BitVec.ofNat 64 (10 * weightRefTimePerMillis)) (BitVec.ofNat 64 defaultPovSize)

/-- Source: `pallets/dmp-queue/src/lib.rs` `PageIndexData` -/
structure PageIndexData where
  /-- The lowest used page index. -/
  beginUsed : BitVec 32
  /-- The lowest unused page index. -/
  endUsed : BitVec 32
  /-- The number of overweight messages ever recorded (and thus the lowest free index). -/
  overweightCount : BitVec 64
  deriving DecidableEq, Repr

/-- The storage of the pallet. -/
structure DmpQueueState where
  /-- `Configuration`. -/
  configuration : ConfigData
  /-- `PageIndex`. -/
  pageIndex : PageIndexData
  /-- `Pages`: the queue pages (a `ValueQuery` map, empty where nothing is stored). -/
  pages : BitVec 32 → List Message
  /-- `Overweight`: the stashed overweight messages. -/
  overweight : BitVec 64 → Option Message
  /-- The counter that `CountedStorageMap` keeps for `Overweight`. -/
  overweightEntries : Nat

/-- The pallet's storage at genesis: no page, no overweight message, the default configuration. -/
def DmpQueueState.empty : DmpQueueState where
  configuration := ConfigData.default
  pageIndex := ⟨0, 0, 0⟩
  pages := fun _ => []
  overweight := fun _ => none
  overweightEntries := 0

/-- `Overweight::insert` on the counted map: the counter grows when the key is new. -/
def DmpQueueState.insertOverweight (s : DmpQueueState) (index : BitVec 64) (m : Message) :
    DmpQueueState :=
  { s with
    overweight := Function.update s.overweight index (some m)
    overweightEntries := if (s.overweight index).isSome then s.overweightEntries
      else s.overweightEntries + 1 }

/-! ## The environment -/

/-- What the queue calls outside the repository, over the type `X` of decoded `VersionedXcm`s and
`Y` of `Xcm`s. -/
structure DmpEnv (X Y : Type) where
  /-- `VersionedXcm::decode_all_with_depth_limit`: the whole buffer as one message. -/
  decodeAll : List UInt8 → Option X
  /-- `Xcm::try_from(versioned)`. -/
  tryFrom : X → Option Y
  /-- `XcmExecutor::prepare_and_execute` from `Parent` with a weight limit, at the given position
  of the message in its call. -/
  execute : Nat → Y → Weight → Outcome
  /-- `T::DbWeight::get().reads(1)`. -/
  dbRead : Weight

variable {X Y : Type} (env : DmpEnv X Y)

/-! ## Servicing one message -/

/-- Service one message with at most `limit` weight: `Ok` with the weight used, also when the
message does not decode or convert, and `Err` with the weight required when the executor reports
that the limit was reached. The error's hash and id go to events only.
Source: `pallets/dmp-queue/src/lib.rs` `Pallet::try_service_message` -/
def tryServiceMessage (attempt : Nat) (limit : Weight) (_sentAt : RelayBlockNumber)
    (data : List UInt8) : Except Weight Weight :=
  match env.decodeAll data with
  | none => .ok Weight.zero
  | some versioned =>
    match env.tryFrom versioned with
    | none => .ok Weight.zero
    | some x =>
      match env.execute attempt x limit with
      | .error (.weightLimitReached requiredWeight) => .error requiredWeight
      | outcome => .ok outcome.weightUsed

/-! ## `do_service_queue` -/

/-- What the `for` loop over one page leaves: the rest of the page from the message it bailed at
(`none` if it got through the page), the weight used, the message count and the messages
serviced so far. -/
structure PageOutcome where
  bailedAt : Option (List Message)
  used : Weight
  messagesProcessed : BitVec 8
  serviced : List Message

/-- The `for` loop of `do_service_queue` over the page taken at `begin_used`.
Source: `pallets/dmp-queue/src/lib.rs` `Pallet::do_service_queue` -/
def servicePage (limit : Weight) :
    List Message → Weight → BitVec 8 → List Message → Option PageOutcome
  | [], used, processed, serviced => some ⟨none, used, processed, serviced⟩
  | m :: rest, used, processed, serviced =>
    if maxMessagesPerBlock ≤ processed.toNat then
      -- exceeded the block message limit: put the remaining messages back and bail
      some ⟨some (m :: rest), used, processed, serviced⟩
    else do
      let processed ← checkedAdd processed 1
      match tryServiceMessage env processed.toNat (limit.saturatingSub used) m.1 m.2 with
      | .ok w => do
        let used ← used.add w
        servicePage limit rest used processed (serviced ++ [m])
      -- too much weight needed: put the remaining messages back and bail
      | .error _ => some ⟨some (m :: rest), used, processed, serviced⟩

/-- What servicing the queue leaves: the weight used, the message count, the storage and the
messages serviced, in order. -/
structure Serviced where
  used : Weight
  messagesProcessed : BitVec 8
  store : DmpQueueState
  serviced : List Message

/-- The `while begin_used < end_used` loop of `do_service_queue`, with the reset at its exit.
Source: `pallets/dmp-queue/src/lib.rs` `Pallet::do_service_queue` -/
def serviceLoop (limit : Weight) : Nat → Serviced → Option Serviced
  -- unreachable with the fuel of `doServiceQueue`: each pass advances `begin_used`
  | 0, _ => none
  | fuel + 1, st =>
    let pageIndex := st.store.pageIndex
    if pageIndex.beginUsed < pageIndex.endUsed then do
      let page := st.store.pages pageIndex.beginUsed
      -- `Pages::take`
      let store := { st.store with pages := Function.update st.store.pages pageIndex.beginUsed [] }
      let out ← servicePage env limit page st.used st.messagesProcessed st.serviced
      match out.bailedAt with
      | some rest =>
        some ⟨out.used, out.messagesProcessed,
          { store with pages := Function.update store.pages pageIndex.beginUsed rest }, out.serviced⟩
      | none => do
        let beginUsed ← checkedAdd pageIndex.beginUsed 1
        serviceLoop limit fuel
          ⟨out.used, out.messagesProcessed, { store with pageIndex := { pageIndex with beginUsed } },
            out.serviced⟩
    else if pageIndex.beginUsed = pageIndex.endUsed then
      -- reset if there's no pages left
      some { st with
        store := { st.store with pageIndex := { pageIndex with beginUsed := 0, endUsed := 0 } } }
    else some st

/-- Service the queue with at most `limit` weight, counting on from `messages_processed`.
Source: `pallets/dmp-queue/src/lib.rs` `Pallet::do_service_queue` -/
def doServiceQueue (limit : Weight) (s : DmpQueueState) (messagesProcessed : BitVec 8) :
    Option Serviced :=
  serviceLoop env limit ((s.pageIndex.endUsed - s.pageIndex.beginUsed).toNat + 1)
    ⟨Weight.zero, messagesProcessed, s, []⟩

/-- Service the queue with at most `limit` weight; also `on_idle`.
Source: `pallets/dmp-queue/src/lib.rs` `Pallet::service_queue` -/
def serviceQueue (limit : Weight) (s : DmpQueueState) : Option Serviced :=
  doServiceQueue env limit s 0

/-! ## `handle_dmp_messages` -/

/-- The locals of `handle_dmp_messages` with the storage it writes, and the messages serviced and
stashed so far. -/
structure HandleState where
  used : Weight
  messagesProcessed : BitVec 8
  store : DmpQueueState
  maybeEnqueuePage : Option (List Message)
  serviced : List Message
  stashed : List Message

/-- `if let Some(ref mut enqueue_page) = maybe_enqueue_page { enqueue_page.push(..) }`. -/
def pushEnqueued (acc : HandleState) (m : Message) : HandleState :=
  match acc.maybeEnqueuePage with
  | some page => { acc with maybeEnqueuePage := some (page ++ [m]) }
  | none => acc

@[simp] theorem pushEnqueued_of_none {acc : HandleState} (h : acc.maybeEnqueuePage = none)
    (m : Message) : pushEnqueued acc m = acc := by
  simp [pushEnqueued, h]

/-- A message joins the page being enqueued when there is one. -/
theorem pushEnqueued_of_some {acc : HandleState} {page : List Message}
    (h : acc.maybeEnqueuePage = some page) (m : Message) :
    pushEnqueued acc m = { acc with maybeEnqueuePage := some (page ++ [m]) } := by
  simp [pushEnqueued, h]

/-- The body of the loop of `handle_dmp_messages` for one incoming message.
Source: `pallets/dmp-queue/src/lib.rs` `DmpMessageHandler::handle_dmp_messages` -/
def handleMessage (config : ConfigData) (limit : Weight) (acc : HandleState) (m : Message) :
    Option HandleState :=
  if acc.maybeEnqueuePage.isNone then
    if maxMessagesPerBlock ≤ acc.messagesProcessed.toNat then
      some (pushEnqueued { acc with maybeEnqueuePage := some [] } m)
    else do
      -- not currently enqueuing: try to execute inline
      let remainingWeight := limit.saturatingSub acc.used
      let messagesProcessed ← checkedAdd acc.messagesProcessed 1
      match tryServiceMessage env messagesProcessed.toNat remainingWeight m.1 m.2 with
      | .ok consumed => do
        let used ← acc.used.add consumed
        pure (pushEnqueued { acc with used, messagesProcessed, serviced := acc.serviced ++ [m] } m)
      | .error requiredWeight =>
        let isUnderLimit := decide (acc.store.overweightEntries < maxOverweightMessages)
        let used := acc.used.saturatingAdd env.dbRead
        if requiredWeight.anyGt config.maxIndividual && isUnderLimit then do
          -- overweight: stash it and `continue`, past the push below
          let overweightIndex := acc.store.pageIndex.overweightCount
          let store := acc.store.insertOverweight overweightIndex m
          let overweightCount ← checkedAdd overweightIndex 1
          pure { acc with
            used, messagesProcessed
            store := { store with pageIndex := { store.pageIndex with overweightCount } }
            stashed := acc.stashed ++ [m] }
        else
          -- not overweight: stop executing inline and enqueue from here on
          pure (pushEnqueued { acc with used, messagesProcessed, maybeEnqueuePage := some [] } m)
  else some (pushEnqueued acc m)

/-- The loop of `handle_dmp_messages` over the incoming messages. -/
def handleLoop (config : ConfigData) (limit : Weight) : List Message → HandleState →
    Option HandleState
  | [], acc => some acc
  | m :: ms, acc => (handleMessage env config limit acc m).bind (handleLoop config limit ms)

/-- What `handle_dmp_messages` leaves: the weight used, the storage, and the messages serviced
and stashed, in order. -/
structure Handled where
  used : Weight
  store : DmpQueueState
  serviced : List Message
  stashed : List Message

/-- Service the queue, then the incoming messages with the weight left: inline while nothing is
queued, and from the first one that does not fit on, onto one new page at `end_used`.
Source: `pallets/dmp-queue/src/lib.rs` `DmpMessageHandler::handle_dmp_messages` -/
def handleDmpMessages (s : DmpQueueState) (iter : List Message) (limit : Weight) :
    Option Handled := do
  let config := s.configuration
  -- first try to use `limit` to service the current queue
  let q ← doServiceQueue env limit s 0
  -- the queue is still non-empty: start a fresh page
  let maybeEnqueuePage :=
    if q.store.pageIndex.beginUsed < q.store.pageIndex.endUsed then some [] else none
  let acc ← handleLoop env config limit iter
    ⟨q.used, q.messagesProcessed, q.store, maybeEnqueuePage, q.serviced, []⟩
  match acc.maybeEnqueuePage with
  | some page => do
    let pageIndex := acc.store.pageIndex
    let endUsed ← checkedAdd pageIndex.endUsed 1
    pure ⟨acc.used,
      { acc.store with
        pages := Function.update acc.store.pages pageIndex.endUsed page
        pageIndex := { pageIndex with endUsed } },
      acc.serviced, acc.stashed⟩
  | none => pure ⟨acc.used, acc.store, acc.serviced, acc.stashed⟩

/-! ## `service_overweight` -/

/-- Source: `pallets/dmp-queue/src/lib.rs` `Error` -/
inductive DmpQueueError where
  /-- The message index given is unknown. -/
  | unknown
  /-- The amount of weight given is possibly not enough for executing the message. -/
  | overLimit
  deriving DecidableEq, Repr

/-- Execute the overweight message `index` with at most `weight_limit`, and remove it if that
succeeds. The executor meets it as the only message of its call.
Source: `pallets/dmp-queue/src/lib.rs` `Pallet::service_overweight` -/
def serviceOverweight (s : DmpQueueState) (index : BitVec 64) (weightLimit : Weight) :
    Except DmpQueueError (Weight × DmpQueueState) :=
  match s.overweight index with
  | none => .error .unknown
  | some (sentAt, data) =>
    match tryServiceMessage env 1 weightLimit sentAt data with
    | .error _ => .error .overLimit
    | .ok weightUsed =>
      .ok (weightUsed.saturatingAdd (Weight.fromParts 1000000 0),
        { s with
          overweight := Function.update s.overweight index none
          overweightEntries := s.overweightEntries - 1 })

end Cumulus.DmpQueue
