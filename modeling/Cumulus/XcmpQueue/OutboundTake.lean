import Cumulus.XcmpQueue.OutboundInvariant

/-!
# xcmp-queue: what `take_outbound_messages` returns

parachain-system's `on_finalize` passes the pages `take_outbound_messages` returns to the relay
chain as the block's HRMP messages, and its limit checks panic unless there is at most one
message per recipient, in ascending order, each within its channel. This file says what the
returned list is, for a status vector with at most one record per recipient, as every reachable
state has:

* `nodup_of_reachable` — every call keeps at most one record per recipient (`outboundStep_nodup`,
  a stranding `resume_channel` included), so every state reached from empty storage has one;

* `TakenPage` — a page taken from a record: not suspended, the channel `Ready(n, e)`, the page
  shorter than `n` and at most `e` long, the signal page if there is one and else the page at
  `first_index`; `TakenFrom` — what the loop leaves behind it;
* `takeChannel_taken`, `takeLoop_taken` — one record adds at most one such page; the loop adds one
  per record it visits, in the order of the records;
* `takeOutboundMessages_shape` — at most `min(maximum_channels, records)` messages, recipients
  strictly ascending, each message a `TakenPage` whose signal page is emptied, or whose page is
  removed with the record one index further on;
* `takeOutboundMessages_twin_records` — with two records for one recipient, that recipient gets
  two messages.
-/

namespace Cumulus.XcmpQueue

open Cumulus.Primitives Cumulus.Found

/-- A page taken from record `d`, read against the maps of the loop before its body: the channel
is not suspended and answers `Ready(n, e)`, the page is shorter than `n` and at most `e` long, and
it is the signal page if the record has one, else the page at `first_index` (empty if missing, as
`take` on a value query gives). -/
def TakenPage (info : ChannelInfo) (pages : ParaId → BitVec 16 → Option (List UInt8))
    (signals : ParaId → List UInt8) (d : OutboundChannelDetails) (page : List UInt8) : Prop :=
  d.state ≠ .suspended ∧ ∃ n e, info.getChannelStatus d.recipient = .ready n e ∧
    page.length < n ∧ page.length ≤ e ∧
    if d.signalsExist then page = signals d.recipient
    else d.firstIndex < d.lastIndex ∧ page = (pages d.recipient d.firstIndex).getD []

/-- What taking a page of `d` leaves at its recipient: the signal page emptied; or the page at
`first_index` removed and every record of the recipient one index further on, unless the queue
drained and the record is not kept. -/
def TakenFrom (d : OutboundChannelDetails) (records : List OutboundChannelDetails)
    (pages : ParaId → BitVec 16 → Option (List UInt8)) (signals : ParaId → List UInt8) : Prop :=
  if d.signalsExist then signals d.recipient = []
  else pages d.recipient d.firstIndex = none ∧
    ∀ d' ∈ records, d'.recipient = d.recipient →
      keepRecord d' = false ∨ d'.firstIndex = d.firstIndex + 1 ∧ d'.lastIndex = d.lastIndex

section Taken

variable {info : ChannelInfo} {d : OutboundChannelDetails}
  {pages pages' : ParaId → BitVec 16 → Option (List UInt8)} {signals signals' : ParaId → List UInt8}

/-- Whether a page was taken from a record reads only the maps of the record's recipient. -/
theorem TakenPage.congr {page : List UInt8} (h : TakenPage info pages signals d page)
    (hp : pages' d.recipient = pages d.recipient) (hs : signals' d.recipient = signals d.recipient) :
    TakenPage info pages' signals' d page := by
  unfold TakenPage at *
  rwa [hp, hs]

/-- What a later part of the loop leaves at `d`'s recipient is what the body left, when it adds
no record of the recipient. -/
theorem TakenFrom.extend {records records' : List OutboundChannelDetails}
    (h : TakenFrom d records pages signals) (hp : pages' d.recipient = pages d.recipient)
    (hs : signals' d.recipient = signals d.recipient)
    (hrec : ∀ d' ∈ records', d'.recipient = d.recipient → d' ∈ records) :
    TakenFrom d records' pages' signals' := by
  unfold TakenFrom at *
  rw [hp, hs]
  split
  · simpa [*] using h
  · rename_i hsig
    rw [if_neg hsig] at h
    exact ⟨h.1, fun d' hd' hr => h.2 d' (hrec d' hd' hr) hr⟩

end Taken

/-! ## One record -/

/-- The loop body adds nothing, or one page of its record's recipient, which it takes out. -/
theorem takeChannel_taken (info : ChannelInfo) (acc : TakeAcc) (d : OutboundChannelDetails) :
    (takeChannel info acc d).2.result = acc.result ∨
    ∃ page, (takeChannel info acc d).2.result = acc.result ++ [(d.recipient, page)] ∧
      TakenPage info acc.pages acc.signals d page ∧
      TakenFrom d [(takeChannel info acc d).1] (takeChannel info acc d).2.pages
        (takeChannel info acc d).2.signals := by
  unfold takeChannel
  by_cases hsus : d.state = .suspended
  · left
    rw [if_pos hsus]
  rw [if_neg hsus]
  cases hst : info.getChannelStatus d.recipient with
  | closed => exact .inl rfl
  | full => exact .inl rfl
  | ready n e =>
    dsimp only
    by_cases hsig : d.signalsExist = true
    · -- the signal page goes first
      rw [if_pos hsig]
      by_cases hlt : (acc.signals d.recipient).length < n
      · rw [if_pos hlt]
        unfold finishTake
        by_cases hbig : (acc.signals d.recipient).length > e
        · left
          simp [hbig]
        · right
          refine ⟨acc.signals d.recipient, by simp [hbig], ⟨hsus, n, e, hst, hlt, by omega, ?_⟩, ?_⟩
          · simp [hsig]
          · simp [TakenFrom, hsig]
      · left
        rw [if_neg hlt]
    · rw [if_neg hsig]
      by_cases hfl : d.firstIndex < d.lastIndex
      · rw [if_pos hfl]
        by_cases hlt : ((acc.pages d.recipient d.firstIndex).getD []).length < n
        · rw [if_pos hlt]
          unfold finishTake
          by_cases hbig : ((acc.pages d.recipient d.firstIndex).getD []).length > e
          · left
            simp [hbig]
          · right
            refine ⟨(acc.pages d.recipient d.firstIndex).getD [], by simp [hbig],
              ⟨hsus, n, e, hst, hlt, by omega, by simp [hsig, hfl]⟩, ?_⟩
            -- the record moves one index on, or drains and is not kept
            simp only [TakenFrom, hsig, Bool.false_eq_true, if_false, updateDouble_self,
              Function.update_self, true_and, List.mem_singleton]
            rintro d' rfl -
            by_cases hdrain : d.firstIndex + 1 = d.lastIndex
            · left
              rw [if_pos hdrain, if_pos hdrain]
              simp [keepRecord, hsus]
            · right
              rw [if_neg hdrain, if_neg hdrain]
              exact ⟨rfl, rfl⟩
        · left
          rw [if_neg hlt]
      · left
        rw [if_neg hfl]

/-! ## The loop -/

/-- The loop of `take_outbound_messages` keeps the recipients of the records it walks, in order. -/
theorem takeLoop_recipients (info : ChannelInfo) (m : Nat) :
    ∀ (todo : List OutboundChannelDetails) (acc : TakeAcc),
      (takeLoop info m todo acc).1.map (·.recipient) = todo.map (·.recipient)
  | [], _ => rfl
  | d :: rest, acc => by
    unfold takeLoop
    split
    · rfl
    · simp [recipient_takeChannel, takeLoop_recipients info m rest]

/-- The loop touches the pages and the signal of the recipients of its records only. -/
theorem takeLoop_frame (info : ChannelInfo) (m : Nat) (r : ParaId) :
    ∀ (todo : List OutboundChannelDetails) (acc : TakeAcc), r ∉ todo.map (·.recipient) →
      (takeLoop info m todo acc).2.pages r = acc.pages r ∧
        (takeLoop info m todo acc).2.signals r = acc.signals r
  | [], _, _ => ⟨rfl, rfl⟩
  | d :: rest, acc, hr => by
    simp only [List.map_cons, List.mem_cons, not_or] at hr
    unfold takeLoop
    split
    · exact ⟨rfl, rfl⟩
    · obtain ⟨hpages, hsignals⟩ := takeLoop_frame info m r rest (takeChannel info acc d).2 hr.2
      obtain ⟨hpages', hsignals'⟩ := takeChannel_frame info acc d r hr.1
      exact ⟨hpages.trans hpages', hsignals.trans hsignals'⟩

/-- **The loop.** Over records with distinct recipients, the loop appends at most one page per
record it visits, in the order of the records, never past `m` pages; each is a `TakenPage` of
its record against the maps the loop started from. The induction is on the records still to
visit, with the accumulator generalised. -/
theorem takeLoop_taken (info : ChannelInfo) (m : Nat) :
    ∀ (todo : List OutboundChannelDetails) (acc : TakeAcc), (todo.map (·.recipient)).Nodup →
      ∃ taken, (takeLoop info m todo acc).2.result = acc.result ++ taken ∧
        (acc.result.length ≤ m → acc.result.length + taken.length ≤ m) ∧
        (taken.map Prod.fst).Sublist (todo.map (·.recipient)) ∧
        ∀ x ∈ taken, ∃ d ∈ todo, d.recipient = x.1 ∧ TakenPage info acc.pages acc.signals d x.2 ∧
          TakenFrom d (takeLoop info m todo acc).1 (takeLoop info m todo acc).2.pages
            (takeLoop info m todo acc).2.signals
  | [], acc, _ => ⟨[], by simp [takeLoop], by simp, by simp, by simp⟩
  | d :: rest, acc, hnd => by
    obtain ⟨hfresh, hnd'⟩ := List.nodup_cons.mp hnd
    unfold takeLoop
    split
    · exact ⟨[], by simp, by simp, by simp, by simp⟩
    · rename_i hm
      dsimp only
      obtain ⟨taken, hres, hcount, hsub, htaken⟩ :=
        takeLoop_taken info m rest (takeChannel info acc d).2 hnd'
      obtain ⟨hpages, hsignals⟩ :=
        takeLoop_frame info m d.recipient rest (takeChannel info acc d).2 hfresh
      -- a page the rest takes is of a record of another recipient, which the body left alone
      have hlater : ∀ x ∈ taken, ∃ d' ∈ d :: rest, d'.recipient = x.1 ∧
          TakenPage info acc.pages acc.signals d' x.2 ∧
          TakenFrom d' ((takeChannel info acc d).1 ::
            (takeLoop info m rest (takeChannel info acc d).2).1)
            (takeLoop info m rest (takeChannel info acc d).2).2.pages
            (takeLoop info m rest (takeChannel info acc d).2).2.signals := by
        intro x hx
        obtain ⟨d', hd', hr, hpage, hfrom⟩ := htaken x hx
        have hne : d'.recipient ≠ d.recipient := by
          intro h
          apply hfresh
          show d.recipient ∈ rest.map (·.recipient)
          rw [← h]
          exact List.mem_map_of_mem hd'
        obtain ⟨hp, hs⟩ := takeChannel_frame info acc d d'.recipient hne
        refine ⟨d', List.mem_cons_of_mem _ hd', hr, hpage.congr hp.symm hs.symm,
          hfrom.extend rfl rfl fun d'' hd'' hr'' => ?_⟩
        rcases List.mem_cons.mp hd'' with rfl | h
        · exact absurd (hr''.symm.trans (recipient_takeChannel info acc d)) hne
        · exact h
      rcases takeChannel_taken info acc d with hnone | ⟨page, hpage, hp, hfrom⟩
      · refine ⟨taken, by rw [hres, hnone], fun hle => ?_, hsub.cons _, hlater⟩
        rw [hnone] at hcount
        exact hcount hle
      · refine ⟨(d.recipient, page) :: taken, by rw [hres, hpage]; simp, fun hle => ?_,
          hsub.cons_cons _, ?_⟩
        · rw [hpage, List.length_append, List.length_singleton] at hcount
          have := hcount (by omega)
          simp only [List.length_cons]
          omega
        · intro x hx
          rcases List.mem_cons.mp hx with rfl | hx
          · -- the page of this record: the rest adds no record of its recipient
            refine ⟨d, List.mem_cons_self, rfl, hp, hfrom.extend hpages hsignals
              fun d'' hd'' hr'' => ?_⟩
            rcases List.mem_cons.mp hd'' with rfl | h
            · exact List.mem_singleton_self _
            · have hmem : d''.recipient ∈
                  (takeLoop info m rest (takeChannel info acc d).2).1.map (·.recipient) :=
                List.mem_map_of_mem h
              rw [takeLoop_recipients, hr''] at hmem
              exact absurd hmem hfresh
          · exact hlater x hx

/-! ## One record per recipient, in every reachable state -/

section Nodup

variable {s s' : XcmpQueueState}

/-- The new-page branch of `send_fragment` edits or adds the record of its recipient. -/
theorem newPage_nodup {r : ParaId} {format : XcmpMessageFormat} {data : List UInt8}
    {res : Except MessageSendError (BitVec 32)}
    (h : (s.outboundXcmpStatus.map (·.recipient)).Nodup)
    (hn : newPage s r format data = some (res, s')) :
    (s'.outboundXcmpStatus.map (·.recipient)).Nodup := by
  simp only [newPage, Option.bind_eq_bind, Option.bind_eq_some_iff, Option.pure_def,
    Option.some.injEq, Prod.mk.injEq] at hn
  obtain ⟨last', -, _, -, _, -, -, rfl⟩ := hn
  have hf : ∀ d : OutboundChannelDetails, { d with lastIndex := last' }.recipient = d.recipient :=
    fun _ => rfl
  dsimp only
  rw [modifyFirst_withRecordFor]
  exact nodup_modifyOrPush hf h r rfl

/-- `send_fragment` edits or adds the record of its recipient, on every branch. -/
theorem sendFragment_nodup {info : ChannelInfo} {r : ParaId} {format : XcmpMessageFormat}
    {data : List UInt8} {res : Except MessageSendError (BitVec 32)}
    (h : (s.outboundXcmpStatus.map (·.recipient)).Nodup)
    (hs : sendFragment info s r format data = some (res, s')) :
    (s'.outboundXcmpStatus.map (·.recipient)).Nodup := by
  unfold sendFragment at hs
  split at hs
  · cases hs
    exact h
  · split at hs
    · cases hs
      exact h
    · dsimp only at hs
      split at hs
      · -- the last page is written back; a refused append opens a new page after it
        split at hs
        · cases hs
          exact h
        · exact newPage_nodup (by exact h) hs
      · exact newPage_nodup h hs

/-- `take_outbound_messages` keeps, rotated, the records of the loop that `retain` keeps. -/
theorem takeOutboundMessages_nodup {info : ChannelInfo} {m : Nat}
    {res : List (ParaId × List UInt8)} (h : (s.outboundXcmpStatus.map (·.recipient)).Nodup)
    (ht : takeOutboundMessages info s m = some (res, s')) :
    (s'.outboundXcmpStatus.map (·.recipient)).Nodup := by
  unfold takeOutboundMessages at ht
  dsimp only at ht
  split at ht
  · cases ht
    have hloop : ((takeLoop info (min s.outboundXcmpStatus.length m) s.outboundXcmpStatus
        ⟨[], s.outboundXcmpMessages, s.signalMessages⟩).1.map (·.recipient)).Nodup := by
      rw [takeLoop_recipients]
      exact h
    have hkept := hloop.sublist ((List.filter_sublist (p := keepRecord)).map _)
    -- `rotate_left` is a rotation, so a permutation
    refine ((List.Perm.map _ ?_).nodup_iff).mp hkept
    exact (List.perm_append_comm.trans (by rw [List.take_append_drop])).symm
  · cases ht

/-- Every call keeps at most one record per recipient, a stranding `resume_channel` included. -/
theorem outboundStep_nodup {call : ChannelInfo × OutboundCall}
    (h : (s.outboundXcmpStatus.map (·.recipient)).Nodup) (hs : outboundStep s call = some s') :
    (s'.outboundXcmpStatus.map (·.recipient)).Nodup := by
  obtain ⟨info, c⟩ := call
  cases c with
  | sendFragment recipient format data =>
    simp only [outboundStep, Option.map_eq_some_iff] at hs
    obtain ⟨⟨_, _⟩, hf, rfl⟩ := hs
    exact sendFragment_nodup h hf
  | sendSignal dest signal =>
    cases hs
    exact nodup_modifyOrPush (fun _ => by rfl) h dest (by rfl)
  | suspendChannel target =>
    cases hs
    exact nodup_modifyOrPush (fun _ => by rfl) h target (by rfl)
  | resumeChannel target =>
    cases hs
    exact h.sublist (recipients_resumeIn_sublist target _)
  | takeOutboundMessages m =>
    simp only [outboundStep, Option.map_eq_some_iff] at hs
    obtain ⟨⟨_, _⟩, ht, rfl⟩ := hs
    exact takeOutboundMessages_nodup h ht

end Nodup

/-- **One record per recipient.** Every state that calls reach from empty storage, whatever the
channels answer, has at most one record per recipient; a stranding `resume_channel`, which breaks
the rest of `OutboundRepr`, keeps this part. -/
theorem nodup_of_reachable {s : XcmpQueueState}
    (h : Reachable outboundStep XcmpQueueState.empty s) :
    (s.outboundXcmpStatus.map (·.recipient)).Nodup :=
  @Reachable.invariant _ _ _ _ _ (fun s => (s.outboundXcmpStatus.map (·.recipient)).Nodup)
    List.nodup_nil (fun _ _ _ hs hstep => outboundStep_nodup hs hstep) h

/-! ## `take_outbound_messages` -/

/-- **What `take_outbound_messages` returns.** For a status vector with at most one record per
recipient, whatever the channels answer, a list that `take_outbound_messages` returns has at most
`min(maximum_channels, records)` messages, its recipients strictly ascending, and each message is
a `TakenPage` of its recipient's record: the signal page, which is then emptied, or the page at
`first_index`, which is removed from storage with the recipient's record one index further on. -/
theorem takeOutboundMessages_shape {info : ChannelInfo} {s s' : XcmpQueueState}
    {maximumChannels : Nat} {result : List (ParaId × List UInt8)}
    (hnodup : (s.outboundXcmpStatus.map (·.recipient)).Nodup)
    (h : takeOutboundMessages info s maximumChannels = some (result, s')) :
    result.length ≤ min maximumChannels s.outboundXcmpStatus.length ∧
    (result.map Prod.fst).Pairwise (· < ·) ∧
    ∀ r page, (r, page) ∈ result → ∃ d ∈ s.outboundXcmpStatus, d.recipient = r ∧
      TakenPage info s.outboundXcmpMessages s.signalMessages d page ∧
      if d.signalsExist then s'.signalMessages r = []
      else s'.outboundXcmpMessages r d.firstIndex = none ∧
        ∀ d' ∈ s'.outboundXcmpStatus, d'.recipient = r →
          d'.firstIndex = d.firstIndex + 1 ∧ d'.lastIndex = d.lastIndex := by
  unfold takeOutboundMessages at h
  dsimp only at h
  split at h
  · simp only [Option.some.injEq, Prod.mk.injEq] at h
    obtain ⟨rfl, rfl⟩ := h
    obtain ⟨taken, hres, hcount, hsub, htaken⟩ := takeLoop_taken info
      (min s.outboundXcmpStatus.length maximumChannels) s.outboundXcmpStatus
      ⟨[], s.outboundXcmpMessages, s.signalMessages⟩ hnodup
    simp only [List.nil_append, List.length_nil, Nat.zero_le, Nat.zero_add, forall_const]
      at hres hcount
    have : Std.Total fun a b : ParaId × List UInt8 => a.1 ≤ b.1 := ⟨fun a b => le_total a.1 b.1⟩
    have : IsTrans (ParaId × List UInt8) fun a b => a.1 ≤ b.1 := ⟨fun _ _ _ => le_trans⟩
    refine ⟨?_, ?_, fun r page hmem => ?_⟩
    · rw [List.length_insertionSort, hres]
      omega
    · -- sorted by recipient, and no recipient twice
      have hsorted := List.pairwise_map.mpr (List.pairwise_insertionSort
        (fun a b : ParaId × List UInt8 => a.1 ≤ b.1)
        (takeLoop info (min s.outboundXcmpStatus.length maximumChannels) s.outboundXcmpStatus
          ⟨[], s.outboundXcmpMessages, s.signalMessages⟩).2.result)
      have hdistinct : (((takeLoop info (min s.outboundXcmpStatus.length maximumChannels)
          s.outboundXcmpStatus ⟨[], s.outboundXcmpMessages, s.signalMessages⟩).2.result.insertionSort
            fun a b => a.1 ≤ b.1).map Prod.fst).Nodup := by
        rw [((List.perm_insertionSort _ _).map Prod.fst).nodup_iff, hres]
        exact hsub.nodup hnodup
      exact (hsorted.and hdistinct).imp fun ⟨hle, hne⟩ => lt_of_le_of_ne hle hne
    · rw [List.mem_insertionSort, hres] at hmem
      obtain ⟨d, hd, hr, hpage, hfrom⟩ := htaken (r, page) hmem
      subst hr
      refine ⟨d, hd, rfl, hpage, ?_⟩
      unfold TakenFrom at hfrom
      split
      · rename_i hsig
        rw [if_pos hsig] at hfrom
        exact hfrom
      · rename_i hsig
        rw [if_neg hsig] at hfrom
        refine ⟨hfrom.1, fun d' hd' hr' => ?_⟩
        -- a record still there after the pruning is one that is kept
        have hkept : d' ∈ (takeLoop info (min s.outboundXcmpStatus.length maximumChannels)
            s.outboundXcmpStatus ⟨[], s.outboundXcmpMessages, s.signalMessages⟩).1.filter
            keepRecord := by
          rcases List.mem_append.mp hd' with h' | h'
          · exact List.mem_of_mem_drop h'
          · exact List.mem_of_mem_take h'
        obtain ⟨hd'', hkeep⟩ := List.mem_filter.mp hkept
        exact (hfrom.2 d' hd'' hr').resolve_left (by simp [hkeep])
  · cases h

/-- From empty storage, one fragment sent to recipient 2, then one to recipient 1: a record for
each, in that order, each with one page. -/
def twoSends : List (ChannelInfo × OutboundCall) :=
  [(readyChannels, .sendFragment 2 .concatenatedVersionedXcm [1]),
    (readyChannels, .sendFragment 1 .concatenatedVersionedXcm [1])]

/-- After one fragment to recipient 2 and one to recipient 1, taking at most two pages gives one
page for each, in recipient order, each the first page of its record. -/
theorem takeOutboundMessages_shape_twoChannels :
    ∃ s s', runSteps outboundStep XcmpQueueState.empty twoSends = some s ∧
    ((s.outboundXcmpStatus.map (·.recipient)).Nodup ∧
      takeOutboundMessages readyChannels s 2 = some ([(1, [0, 1]), (2, [0, 1])], s')) ∧
    [(1, [0, 1]), (2, [0, 1])].length ≤ min 2 s.outboundXcmpStatus.length ∧
    ([(1, [0, 1]), (2, [0, 1])].map Prod.fst).Pairwise (· < ·) ∧
    ∀ r page, (r, page) ∈ [(1, [0, 1]), (2, [0, 1])] → ∃ d ∈ s.outboundXcmpStatus,
      d.recipient = r ∧ TakenPage readyChannels s.outboundXcmpMessages s.signalMessages d page ∧
      if d.signalsExist then s'.signalMessages r = []
      else s'.outboundXcmpMessages r d.firstIndex = none ∧
        ∀ d' ∈ s'.outboundXcmpStatus, d'.recipient = r →
          d'.firstIndex = d.firstIndex + 1 ∧ d'.lastIndex = d.lastIndex := by
  have hrun : runSteps outboundStep XcmpQueueState.empty twoSends = some _ := rfl
  -- the state the sends reach is reachable, so it has one record per recipient
  have hnodup := nodup_of_reachable (Reachable.of_runSteps hrun)
  refine ⟨_, ?after, hrun, ⟨hnodup, ?take⟩, takeOutboundMessages_shape hnodup ?take⟩
  case take => rfl

/-- Two records for recipient 1, the first with a page. -/
def twinRecordState : XcmpQueueState :=
  { XcmpQueueState.empty with
    outboundXcmpStatus := [⟨1, .ok, false, 0, 1⟩, ⟨1, .ok, false, 0, 1⟩]
    outboundXcmpMessages := fun p i => if p = 1 ∧ i = 0 then some [1] else none }

/-- With two records for one recipient, the loop visits both: the first takes the page, the
second takes the page again from the now empty storage slot, and the recipient gets two
messages, the second one empty. -/
theorem takeOutboundMessages_twin_records :
    ∃ s', takeOutboundMessages readyChannels twinRecordState 2 = some ([(1, [1]), (1, [])], s') ∧
      ¬([(1, [1]), (1, [])].map Prod.fst : List ParaId).Pairwise (· < ·) :=
  ⟨_, rfl, by decide⟩

end Cumulus.XcmpQueue
