import Cumulus.XcmpQueue.Inbound

/-!
# xcmp-queue: how inbound pages are recorded

`handle_xcmp_messages` looks the sender of each page up in the status vector with a binary search,
but pushes the records of new senders at the end and sorts the vector only after the whole batch.
A search that runs on the unsorted vector can miss a record that is there, and the sender then
gets a second record (`handleXcmpMessages_duplicate_sender`). The payload of a page is stored
whether or not its metadata was recorded, so a page dropped at `drop_threshold` leaves its
payload behind with no metadata to reach it (`handleXcmpMessages_dropped_payload_kept`).

Both runs service the queue with no weight; `serviceXcmpQueue_below_threshold` says that such a
service only prunes the records without pages, whatever the environment.
-/

namespace Cumulus.XcmpQueue

open Cumulus.Primitives Cumulus.Found

variable {X Y : Type} (env : InboundEnv X Y)

/-- A service whose weight does not reach `threshold_weight` processes nothing: the loop stops
at its first test, and only the records without pages are pruned. -/
theorem serviceXcmpQueue_below_threshold (s : XcmpQueueState) {maxWeight : Weight}
    (hw : maxWeight.allGte s.queueConfig.thresholdWeight = false) :
    serviceXcmpQueue env s maxWeight = some (Weight.zero,
      { s with inboundXcmpStatus := s.inboundXcmpStatus.filter fun d => !d.messageMetadata.isEmpty }) := by
  unfold serviceXcmpQueue
  dsimp only
  split
  · next hempty =>
    obtain ⟨status, _, _, _, _, _, _, _, _, _⟩ := s
    cases (List.isEmpty_iff.mp hempty : status = [])
    rfl
  · -- the fuel is positive, and the first test of the loop fails on the weight
    have hfuel : serviceFuel s.inboundXcmpStatus =
        (serviceFuel s.inboundXcmpStatus - 1) + 1 := by
      unfold serviceFuel
      omega
    rw [hfuel]
    simp [serviceLoop, hw]

/-- `handle_xcmp_messages` with a weight below `threshold_weight`: the pages are recorded, the
records sorted, and those without pages pruned. -/
theorem handleXcmpMessages_below_threshold (s : XcmpQueueState)
    (iter : List (ParaId × RelayBlockNumber × List UInt8)) {maxWeight : Weight}
    (hw : maxWeight.allGte
      (handleLoop s.queueConfig iter s.inboundXcmpStatus s).2.queueConfig.thresholdWeight = false) :
    handleXcmpMessages env s iter maxWeight = some (Weight.zero,
      { (handleLoop s.queueConfig iter s.inboundXcmpStatus s).2 with
        inboundXcmpStatus := (sortInbound (handleLoop s.queueConfig iter s.inboundXcmpStatus s).1).filter
          fun d => !d.messageMetadata.isEmpty }) :=
  serviceXcmpQueue_below_threshold env _ hw

/-- Three pages from two senders, in the order parachain-system passes them (by `sent_at`, then
sender): the third page's sender 5 is searched in `[5, 1]`, which is not sorted, is not found, and
gets a second record. -/
theorem handleXcmpMessages_duplicate_sender :
    ∃ s, handleXcmpMessages env XcmpQueueState.empty [(5, 1, [0]), (1, 2, [0]), (5, 3, [0])]
        Weight.zero = some (Weight.zero, s) ∧
      s.inboundXcmpStatus.map (·.sender) = [1, 5, 5] :=
  ⟨_, handleXcmpMessages_below_threshold env _ _ (by decide), rfl⟩

/-- Six pages from one sender: the sixth arrives when the channel holds `drop_threshold = 5`
pages, so its metadata is dropped, but its payload is stored under `(1, 6)`. -/
theorem handleXcmpMessages_dropped_payload_kept :
    ∃ s, handleXcmpMessages env XcmpQueueState.empty
        [(1, 1, [0, 7]), (1, 2, [0, 7]), (1, 3, [0, 7]), (1, 4, [0, 7]), (1, 5, [0, 7]),
          (1, 6, [0, 7])] Weight.zero = some (Weight.zero, s) ∧
      s.inboundXcmpMessages 1 6 = some [7] ∧
      s.inboundXcmpStatus.map (·.messageMetadata.map Prod.fst) = [[1, 2, 3, 4, 5]] :=
  ⟨_, handleXcmpMessages_below_threshold env _ _ (by decide), rfl, rfl⟩

end Cumulus.XcmpQueue
