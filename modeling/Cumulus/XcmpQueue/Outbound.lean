import Cumulus.XcmpQueue.Types
import Cumulus.Found.MachineInt

/-!
# xcmp-queue: the outbound queue

The entry points that write `OutboundXcmpStatus`, `OutboundXcmpMessages` and `SignalMessages`:

* `sendFragment` — `send_fragment` (behind `send_xcm_message`, `send_blob_message` and
  `SendXcm::deliver`): append the encoded fragment to the last page of the recipient if it has
  the same format and the page stays within `max_message_size`, else open a new page;
* `sendSignal` — `send_signal`: append a signal to the recipient's signal page;
* `suspendChannel`, `resumeChannel` — the reactions to inbound `Suspend` / `Resume` signals;
* `takeOutboundMessages` — `XcmpMessageSource::take_outbound_messages`: at most one page per
  channel, by channel status, then prune the drained records and rotate the served ones to the
  back.

`send_fragment` takes the fragment already SCALE-encoded (`data = fragment.encode()`): the
generic `Encode` of the fragment is the one thing of the function not modelled. A step that
would overflow a `u16` index, underflow `result.len() - pruned`, or give `rotate_left` an index
past the end panics, and returns `none`.
-/

namespace Cumulus.XcmpQueue

open Cumulus.Primitives Cumulus.Found

/-- Whether a record is the one of recipient `r` (`item.recipient == r`). -/
def isFor (r : ParaId) (d : OutboundChannelDetails) : Bool := d.recipient == r

/-- The record of recipient `r`: the first one, as every lookup of the pallet
(`iter().find(|item| item.recipient == r)`) reads it. -/
def recordOf (statuses : List OutboundChannelDetails) (r : ParaId) :
    Option OutboundChannelDetails :=
  statuses.find? (isFor r)

/-! ## `send_fragment` -/

/-- The closure `send_fragment` passes to `OutboundXcmpMessages::mutate` on the last page: refuse
a page of another format or one that would grow past `max_message_size`, else extend it.
Returns whether it appended, and the page written back.
Source: `pallets/xcmp-queue/src/lib.rs` `send_fragment` -/
def tryAppend (format : XcmpMessageFormat) (data : List UInt8) (maxMessageSize : Nat)
    (page : List UInt8) : Bool × List UInt8 :=
  if (XcmpMessageFormat.decode page).map Prod.fst ≠ some format then (false, page)
  else if page.length + data.length > maxMessageSize then (false, page)
  else (true, page ++ data)

/-- The record `send_fragment` works on: the existing one of the recipient, or a new one. -/
def detailsFor (statuses : List OutboundChannelDetails) (r : ParaId) : OutboundChannelDetails :=
  (recordOf statuses r).getD (OutboundChannelDetails.new r)

/-- The status vector with a record for `r`: unchanged if it has one, else with `new(r)` pushed. -/
def withRecordFor (statuses : List OutboundChannelDetails) (r : ParaId) :
    List OutboundChannelDetails :=
  if (recordOf statuses r).isSome then statuses else statuses ++ [OutboundChannelDetails.new r]

/-- The new-page branch of `send_fragment`: store `format ++ data` at `last_index`, increment
`last_index` (a `u16`, so the step panics at 65535) and put the status vector back. Returns the
number of pages before the new one, `(last_index - first_index - 1) as u32`.
Source: `pallets/xcmp-queue/src/lib.rs` `send_fragment` -/
def newPage (s : XcmpQueueState) (recipient : ParaId) (format : XcmpMessageFormat)
    (data : List UInt8) : Option (Except MessageSendError (BitVec 32) × XcmpQueueState) := do
  let details := detailsFor s.outboundXcmpStatus recipient
  let pageIndex := details.lastIndex
  let lastIndex ← checkedAdd details.lastIndex 1
  let used ← checkedSub lastIndex details.firstIndex
  let r ← checkedSub used 1
  let statuses := modifyFirst (isFor recipient) (fun d => { d with lastIndex := lastIndex })
    (withRecordFor s.outboundXcmpStatus recipient)
  pure (.ok (r.setWidth 32),
    { s with
      outboundXcmpMessages :=
        updateDouble s.outboundXcmpMessages recipient pageIndex (some (format.encode ++ data))
      outboundXcmpStatus := statuses })

/-- Place an encoded fragment on the outgoing queue of `recipient`.
Source: `pallets/xcmp-queue/src/lib.rs` `Pallet::send_fragment` -/
def sendFragment (info : ChannelInfo) (s : XcmpQueueState) (recipient : ParaId)
    (format : XcmpMessageFormat) (data : List UInt8) :
    Option (Except MessageSendError (BitVec 32) × XcmpQueueState) :=
  match info.getChannelMax recipient with
  | none => some (.error .noChannel, s)
  | some maxMessageSize =>
    if data.length > maxMessageSize then some (.error .tooBig, s)
    else
      let details := detailsFor s.outboundXcmpStatus recipient
      if details.firstIndex < details.lastIndex then
        -- `have_active`: try the last page first; `mutate` writes the page back either way
        let idx := details.lastIndex - 1
        let (appended, page) :=
          tryAppend format data maxMessageSize ((s.outboundXcmpMessages recipient idx).getD [])
        let s' := { s with
          outboundXcmpMessages := updateDouble s.outboundXcmpMessages recipient idx (some page) }
        if appended then
          some (.ok ((details.lastIndex - details.firstIndex - 1).setWidth 32), s')
        else newPage s' recipient format data
      else newPage s recipient format data

/-! ## Signals, suspension and resumption -/

/-- Queue a signal for `dest`; it is sent before any page of the channel.
Source: `pallets/xcmp-queue/src/lib.rs` `Pallet::send_signal` -/
def sendSignal (s : XcmpQueueState) (dest : ParaId) (signal : ChannelSignal) : XcmpQueueState :=
  let statuses := modifyOrPush (isFor dest) (fun d => { d with signalsExist := true })
    (OutboundChannelDetails.new dest).withSignals s.outboundXcmpStatus
  let page := s.signalMessages dest
  let page' := if page.isEmpty then XcmpMessageFormat.signals.encode ++ signal.encode
    else page ++ signal.encode
  { s with
    outboundXcmpStatus := statuses
    signalMessages := Function.update s.signalMessages dest page' }

/-- Mark the outbound channel to `target` suspended, creating its record if needed.
Source: `pallets/xcmp-queue/src/lib.rs` `Pallet::suspend_channel` -/
def suspendChannel (s : XcmpQueueState) (target : ParaId) : XcmpQueueState :=
  { s with
    outboundXcmpStatus := modifyOrPush (isFor target) (fun d => { d with state := .suspended })
      (OutboundChannelDetails.new target).withSuspendedState s.outboundXcmpStatus }

/-- The edit `resume_channel` makes at the first record of `target` (`iter().position`): remove
it if its page range is empty, else mark it `Ok`.
Source: `pallets/xcmp-queue/src/lib.rs` `Pallet::resume_channel` -/
def resumeIn (target : ParaId) : List OutboundChannelDetails → List OutboundChannelDetails
  | [] => []
  | d :: ds =>
    if d.recipient = target then
      if d.firstIndex = d.lastIndex then ds else { d with state := .ok } :: ds
    else d :: resumeIn target ds

/-- Resume the outbound channel to `target`.
Source: `pallets/xcmp-queue/src/lib.rs` `Pallet::resume_channel` -/
def resumeChannel (s : XcmpQueueState) (target : ParaId) : XcmpQueueState :=
  { s with outboundXcmpStatus := resumeIn target s.outboundXcmpStatus }

/-! ## `take_outbound_messages` -/

/-- What the loop of `take_outbound_messages` accumulates besides the status records: the pages
taken so far and the two storage maps it edits. -/
structure TakeAcc where
  /-- `result`: the `(recipient, page)` pairs taken so far. -/
  result : List (ParaId × List UInt8)
  /-- `OutboundXcmpMessages` as edited so far. -/
  pages : ParaId → BitVec 16 → Option (List UInt8)
  /-- `SignalMessages` as edited so far. -/
  signals : ParaId → List UInt8

/-- The end of the loop body once a page was taken: reset the indices of a drained queue, keep
the page unless it is larger than `max_size_ever` (then it is dropped), and write the record.
Source: `pallets/xcmp-queue/src/lib.rs` `take_outbound_messages` -/
def finishTake (acc : TakeAcc) (status : OutboundChannelDetails) (maxSizeEver : Nat)
    (page : List UInt8) (signalsExist : Bool) (firstIndex : BitVec 16) :
    OutboundChannelDetails × TakeAcc :=
  -- `if first_index == last_index { first_index = 0; last_index = 0; }`
  let drained := firstIndex = status.lastIndex
  ({ status with
      signalsExist
      firstIndex := if drained then 0 else firstIndex
      lastIndex := if drained then 0 else status.lastIndex },
    { acc with
      result := if page.length > maxSizeEver then acc.result
        else acc.result ++ [(status.recipient, page)] })

/-- The loop body of `take_outbound_messages` for one record, after the `max_message_count` check:
skip a suspended channel; on `Closed` remove its pages and signals and reset the record; on
`Full` skip it; on `Ready(max_size_now, max_size_ever)` take its signal page, or else its first
page, if shorter than `max_size_now`.
Source: `pallets/xcmp-queue/src/lib.rs` `take_outbound_messages` -/
def takeChannel (info : ChannelInfo) (acc : TakeAcc) (status : OutboundChannelDetails) :
    OutboundChannelDetails × TakeAcc :=
  if status.state = .suspended then (status, acc)
  else
    match info.getChannelStatus status.recipient with
    | .closed =>
      (OutboundChannelDetails.new status.recipient,
        { acc with
          pages := fun p i =>
            if p = status.recipient ∧ status.firstIndex ≤ i ∧ i < status.lastIndex then none
            else acc.pages p i
          signals :=
            if status.signalsExist then Function.update acc.signals status.recipient []
            else acc.signals })
    | .full => (status, acc)
    | .ready maxSizeNow maxSizeEver =>
      if status.signalsExist then
        let page := acc.signals status.recipient
        if page.length < maxSizeNow then
          finishTake { acc with signals := Function.update acc.signals status.recipient [] }
            status maxSizeEver page false status.firstIndex
        else (status, acc)
      else if status.firstIndex < status.lastIndex then
        let page := (acc.pages status.recipient status.firstIndex).getD []
        if page.length < maxSizeNow then
          finishTake
            { acc with pages := updateDouble acc.pages status.recipient status.firstIndex none }
            status maxSizeEver page status.signalsExist (status.firstIndex + 1)
        else (status, acc)
      else (status, acc)

/-- The loop over the records, with its `break` once `max_message_count` pages were taken; the
records after the break are left as they are.
Source: `pallets/xcmp-queue/src/lib.rs` `take_outbound_messages` -/
def takeLoop (info : ChannelInfo) (maxMessageCount : Nat) :
    List OutboundChannelDetails → TakeAcc → List OutboundChannelDetails × TakeAcc
  | [], acc => ([], acc)
  | status :: rest, acc =>
    if acc.result.length = maxMessageCount then (status :: rest, acc)
    else
      let step := takeChannel info acc status
      let later := takeLoop info maxMessageCount rest step.2
      (step.1 :: later.1, later.2)

/-- The records `take_outbound_messages` keeps: suspended, with a signal, or with a page. -/
def keepRecord (x : OutboundChannelDetails) : Bool :=
  x.state = .suspended || x.signalsExist || decide (x.firstIndex < x.lastIndex)

/-- Take at most one page per channel, for at most `maximum_channels` channels, then prune and
rotate the status vector. `none` is the panic of `result.len() - pruned` (or of `rotate_left`).
Source: `pallets/xcmp-queue/src/lib.rs` `XcmpMessageSource::take_outbound_messages` -/
def takeOutboundMessages (info : ChannelInfo) (s : XcmpQueueState) (maximumChannels : Nat) :
    Option (List (ParaId × List UInt8) × XcmpQueueState) :=
  let statuses := s.outboundXcmpStatus
  let maxMessageCount := min statuses.length maximumChannels
  let loop := takeLoop info maxMessageCount statuses ⟨[], s.outboundXcmpMessages, s.signalMessages⟩
  -- `sort_by_key(|m| m.0)` is stable, as the insertion sort is
  let result := loop.2.result.insertionSort fun a b => a.1 ≤ b.1
  let kept := loop.1.filter keepRecord
  -- `retain` never adds a record, so this subtraction is exact
  let pruned := statuses.length - kept.length
  if pruned ≤ result.length ∧ result.length - pruned ≤ kept.length then
    let mid := result.length - pruned
    some (result,
      { s with
        outboundXcmpStatus := kept.drop mid ++ kept.take mid
        outboundXcmpMessages := loop.2.pages
        signalMessages := loop.2.signals })
  else none

/-! ## The outbound queue as a state machine -/

/-- A call of an entry point of the outbound queue. -/
inductive OutboundCall where
  /-- `send_fragment(recipient, format, fragment)`, with `data = fragment.encode()`. -/
  | sendFragment (recipient : ParaId) (format : XcmpMessageFormat) (data : List UInt8)
  /-- `send_signal(dest, signal)`. -/
  | sendSignal (dest : ParaId) (signal : ChannelSignal)
  /-- `suspend_channel(target)`, on an inbound `Suspend` signal. -/
  | suspendChannel (target : ParaId)
  /-- `resume_channel(target)`, on an inbound `Resume` signal. -/
  | resumeChannel (target : ParaId)
  /-- `take_outbound_messages(maximum_channels)`, from parachain-system's `on_finalize`. -/
  | takeOutboundMessages (maximumChannels : Nat)

/-- One call, with the channel answers of parachain-system at the time of the call. A failed
send commits nothing but its error; a panic is `none`. -/
def outboundStep (s : XcmpQueueState) : ChannelInfo × OutboundCall → Option XcmpQueueState
  | (info, .sendFragment recipient format data) =>
    (sendFragment info s recipient format data).map Prod.snd
  | (_, .sendSignal dest signal) => some (sendSignal s dest signal)
  | (_, .suspendChannel target) => some (suspendChannel s target)
  | (_, .resumeChannel target) => some (resumeChannel s target)
  | (info, .takeOutboundMessages maximumChannels) =>
    (takeOutboundMessages info s maximumChannels).map Prod.snd

end Cumulus.XcmpQueue
