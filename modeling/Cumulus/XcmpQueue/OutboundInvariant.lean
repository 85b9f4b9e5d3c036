import Cumulus.XcmpQueue.Outbound
import Cumulus.Found.Run

/-!
# xcmp-queue: the representation invariant of the outbound queue

The outbound queue is kept in three storage items that the entry points edit separately: the
status vector (one record per recipient, with the index range `first_index..last_index` of its
pages and a flag for a waiting signal page), the page map and the signal map. The invariant
`OutboundRepr` says that they describe one queue per recipient:

* the status vector has at most one record per recipient;
* the record of a recipient has `first_index ≤ last_index`, a page at exactly the indices
  `first_index..last_index - 1`, and `signals_exist` exactly when its signal page is non-empty;
* a recipient without a record has no page and no signal.

It is stated per recipient (`ChannelRepr`) over the record that `recordOf` finds, so that every
entry point is a local edit at one recipient (`OutboundRepr.update`).

Every entry point keeps it, except `resume_channel` on a record with no pages and a waiting
signal: it deletes the record and leaves the signal page behind (`resumeChannel_wf` names the
condition). So every state reached by calls none of which is such a resume satisfies it
(`outboundWf_of_safeReachable`).
-/

namespace Cumulus.XcmpQueue

open Cumulus.Primitives Cumulus.Found

variable {l l' : List OutboundChannelDetails} {r r' : ParaId} {d : OutboundChannelDetails}

/-! ## Lookups in the status vector -/

/-- With one record per recipient, the record found for `r` is the record in the list with recipient
`r`. -/
theorem recordOf_eq_some_iff (hnd : (l.map (·.recipient)).Nodup) :
    recordOf l r = some d ↔ d ∈ l ∧ d.recipient = r :=
  find?_key_eq_some_iff OutboundChannelDetails.recipient hnd

/-- No record is found for a recipient without a record. -/
theorem recordOf_eq_none_iff : recordOf l r = none ↔ r ∉ l.map (·.recipient) :=
  find?_key_eq_none_iff OutboundChannelDetails.recipient

/-- The edit-or-create idiom of `send_signal`, `suspend_channel` and `send_fragment`: afterwards
the record of `r` is the edit of the one `detailsFor` finds or makes. -/
theorem recordOf_modifyOrPush {f : OutboundChannelDetails → OutboundChannelDetails}
    (hf : ∀ d, (f d).recipient = d.recipient) (l : List OutboundChannelDetails) (r r' : ParaId)
    {a : OutboundChannelDetails} (ha : a = f (OutboundChannelDetails.new r)) :
    recordOf (modifyOrPush (isFor r) f a l) r' =
      if r' = r then some (f (detailsFor l r)) else recordOf l r' := by
  subst ha
  exact find?_key_modifyOrPush OutboundChannelDetails.recipient hf l (OutboundChannelDetails.new r)
    r rfl r'

/-- Modifying the record of `r` in place, or pushing a new record for `r` when it has none, keeps
one record per recipient. -/
theorem nodup_modifyOrPush {f : OutboundChannelDetails → OutboundChannelDetails}
    (hf : ∀ d, (f d).recipient = d.recipient) (hnd : (l.map (·.recipient)).Nodup) (r : ParaId)
    {a : OutboundChannelDetails} (ha : a.recipient = r) :
    ((modifyOrPush (isFor r) f a l).map (·.recipient)).Nodup :=
  nodup_map_modifyOrPush OutboundChannelDetails.recipient hf hnd ha

/-- `send_fragment` pushes `new(r)` and edits it later; that is the edit-or-create idiom. -/
theorem modifyFirst_withRecordFor (f : OutboundChannelDetails → OutboundChannelDetails)
    (l : List OutboundChannelDetails) (r : ParaId) :
    modifyFirst (isFor r) f (withRecordFor l r) =
      modifyOrPush (isFor r) f (f (OutboundChannelDetails.new r)) l := by
  unfold withRecordFor modifyOrPush recordOf
  by_cases hs : (l.find? (isFor r)).isSome
  · simp only [hs, if_true]
  · simp only [hs, if_false, Bool.false_eq_true]
    rw [modifyFirst_append_of_find?_eq_none f (Option.not_isSome_iff_eq_none.mp hs)]
    simp [modifyFirst_cons, isFor, OutboundChannelDetails.new]

/-- The record of `r` in a cons: the head when it is for `r`, else the record of `r` in the tail. -/
theorem recordOf_cons (a : OutboundChannelDetails) (as : List OutboundChannelDetails) (r : ParaId) :
    recordOf (a :: as) r = if a.recipient = r then some a else recordOf as r := by
  unfold recordOf isFor
  rw [List.find?_cons]
  by_cases h : a.recipient = r
  · simp [h]
  · simp [beq_false_of_ne h, h]

/-- With one record per recipient, `resume_channel` changes the record of its target only:
it is removed if its range is empty, and marked `Ok` otherwise. -/
theorem recordOf_resumeIn (hnd : (l.map (·.recipient)).Nodup) (r r' : ParaId) :
    recordOf (resumeIn r l) r' = if r' = r then
      (recordOf l r).bind fun d =>
        if d.firstIndex = d.lastIndex then none else some { d with state := .ok }
      else recordOf l r' := by
  induction l with
  | nil => simp [resumeIn, recordOf]
  | cons a as ih =>
    simp only [List.map_cons, List.nodup_cons] at hnd
    by_cases ha : a.recipient = r
    · subst ha
      -- the tail holds no other record of the target
      have htail : recordOf as a.recipient = none := recordOf_eq_none_iff.mpr hnd.1
      by_cases hr : r' = a.recipient
      · subst hr
        by_cases he : a.firstIndex = a.lastIndex <;> simp [resumeIn, recordOf_cons, he, htail]
      · have hne : a.recipient ≠ r' := Ne.symm hr
        by_cases he : a.firstIndex = a.lastIndex <;> simp [resumeIn, recordOf_cons, he, hr, hne]
    · have hrec : recordOf (a :: as) r = recordOf as r := by simp [recordOf_cons, ha]
      by_cases hr : r' = a.recipient
      · subst hr
        simp [resumeIn, recordOf_cons, ha]
      · simp [resumeIn, recordOf_cons, ha, Ne.symm hr, ih hnd.2, hrec]

/-- `resume_channel` only removes records: the recipients after it are a sublist of those before. -/
theorem recipients_resumeIn_sublist (r : ParaId) (l : List OutboundChannelDetails) :
    ((resumeIn r l).map (·.recipient)).Sublist (l.map (·.recipient)) := by
  induction l with
  | nil => simp [resumeIn]
  | cons a as ih =>
    simp only [resumeIn]
    split
    · split
      · exact List.sublist_cons_self _ _
      · simp
    · exact ih.cons_cons _

/-! ## The invariant -/

/-- The storage of one recipient `r` describes its queue, given the record `recordOf` finds. -/
def ChannelRepr (pages : ParaId → BitVec 16 → Option (List UInt8)) (signals : ParaId → List UInt8)
    (r : ParaId) : Option OutboundChannelDetails → Prop
  | none => (∀ i, pages r i = none) ∧ signals r = []
  | some d => d.firstIndex ≤ d.lastIndex ∧
      (∀ i, (pages r i).isSome ↔ d.firstIndex ≤ i ∧ i < d.lastIndex) ∧
      (d.signalsExist = true ↔ signals r ≠ [])

/-- The representation invariant of the outbound queue. -/
structure OutboundRepr (statuses : List OutboundChannelDetails)
    (pages : ParaId → BitVec 16 → Option (List UInt8)) (signals : ParaId → List UInt8) :
    Prop where
  /-- At most one record per recipient. -/
  nodup : (statuses.map (·.recipient)).Nodup
  /-- Every recipient's pages and signal agree with its record, or it has none. -/
  channel : ∀ r, ChannelRepr pages signals r (recordOf statuses r)

/-- The invariant on the pallet's storage. -/
def XcmpQueueState.OutboundWf (s : XcmpQueueState) : Prop :=
  OutboundRepr s.outboundXcmpStatus s.outboundXcmpMessages s.signalMessages

variable {pages pages' : ParaId → BitVec 16 → Option (List UInt8)}
  {signals signals' : ParaId → List UInt8}

/-- The invariant read off a record of the vector, in the terms of the source's storage doc. -/
theorem OutboundRepr.of_mem (h : OutboundRepr l pages signals) (hd : d ∈ l) :
    ChannelRepr pages signals d.recipient (some d) := by
  have := h.channel d.recipient
  rwa [(recordOf_eq_some_iff h.nodup).mpr ⟨hd, rfl⟩] at this

/-- `ChannelRepr` reads the storage of its own recipient only. -/
theorem channelRepr_congr (o : Option OutboundChannelDetails) (hp : pages' r = pages r)
    (hs : signals' r = signals r) :
    ChannelRepr pages' signals' r o ↔ ChannelRepr pages signals r o := by
  cases o <;> simp only [ChannelRepr, hp, hs]

/-- **The frame rule.** An edit that changes the vector, the pages and the signals at one
recipient `r` only, keeps one record per recipient and leaves `r` well represented keeps the
invariant. -/
theorem OutboundRepr.update (h : OutboundRepr l pages signals) (r : ParaId)
    (hnd : (l'.map (·.recipient)).Nodup)
    (hl : ∀ r', r' ≠ r → recordOf l' r' = recordOf l r')
    (hp : ∀ r', r' ≠ r → pages' r' = pages r')
    (hs : ∀ r', r' ≠ r → signals' r' = signals r')
    (hr : ChannelRepr pages' signals' r (recordOf l' r)) : OutboundRepr l' pages' signals' where
  nodup := hnd
  channel r' := by
    by_cases hr' : r' = r
    · subst hr'
      exact hr
    · rw [hl r' hr', channelRepr_congr _ (hp r' hr') (hs r' hr')]
      exact h.channel r'

/-- The record `send_fragment` works on is well represented, found or new. -/
theorem channelRepr_detailsFor (h : ChannelRepr pages signals r (recordOf l r)) :
    ChannelRepr pages signals r (some (detailsFor l r)) := by
  unfold detailsFor
  cases hr : recordOf l r with
  | none =>
    rw [hr] at h
    simp [ChannelRepr, OutboundChannelDetails.new, h.1, h.2]
  | some d =>
    rw [hr] at h
    exact h

/-- The channel state plays no part in the invariant. -/
theorem channelRepr_setState (st : OutboundState) :
    ChannelRepr pages signals r (some { d with state := st }) ↔
      ChannelRepr pages signals r (some d) := Iff.rfl

/-- The empty storage satisfies the invariant. -/
theorem outboundWf_empty : XcmpQueueState.empty.OutboundWf where
  nodup := List.nodup_nil
  channel _ := ⟨fun _ => rfl, rfl⟩

/-! ## `send_fragment` -/

/-- Writing a page at an index inside the record's range keeps the invariant: this is the
`mutate` of the last page in `send_fragment`, which writes the page back whether it appends or
not. -/
theorem OutboundRepr.setPage (h : OutboundRepr l pages signals) (hd : recordOf l r = some d)
    (i : BitVec 16) (hi : d.firstIndex ≤ i ∧ i < d.lastIndex) (p : List UInt8) :
    OutboundRepr l (updateDouble pages r i (some p)) signals := by
  refine h.update r h.nodup (fun _ _ => rfl) (fun r' hr' => updateDouble_of_ne _ hr' _ _)
    (fun _ _ => rfl) ?_
  have hc := h.channel r
  rw [hd] at hc ⊢
  obtain ⟨hle, hpages, hsig⟩ := hc
  refine ⟨hle, fun j => ?_, hsig⟩
  rw [updateDouble_self]
  by_cases hj : j = i
  · subst hj
    simp [hi]
  · rw [Function.update_of_ne hj]
    exact hpages j

/-- The new-page branch of `send_fragment` keeps the invariant: the page lands at `last_index`,
which the incremented `last_index` then covers. -/
theorem newPage_wf {s s' : XcmpQueueState} {format : XcmpMessageFormat} {data : List UInt8}
    {res : Except MessageSendError (BitVec 32)} (h : s.OutboundWf)
    (hn : newPage s r format data = some (res, s')) : s'.OutboundWf := by
  simp only [newPage, Option.bind_eq_bind, Option.bind_eq_some_iff, Option.pure_def,
    Option.some.injEq, Prod.mk.injEq] at hn
  obtain ⟨last', hlast, _, -, _, -, -, rfl⟩ := hn
  obtain ⟨-, hlast'⟩ := checkedAdd_eq_some.mp hlast
  have hd := channelRepr_detailsFor (h.channel r)
  obtain ⟨hle, hpages, hsig⟩ := hd
  have hf : ∀ d : OutboundChannelDetails, { d with lastIndex := last' }.recipient = d.recipient :=
    fun _ => rfl
  unfold XcmpQueueState.OutboundWf
  dsimp only
  rw [modifyFirst_withRecordFor]
  refine h.update r (nodup_modifyOrPush hf h.nodup r rfl)
    (fun r' hr' => by rw [recordOf_modifyOrPush hf _ _ _ rfl, if_neg hr'])
    (fun r' hr' => updateDouble_of_ne _ hr' _ _) (fun _ _ => rfl) ?_
  rw [recordOf_modifyOrPush hf _ _ _ rfl, if_pos rfl]
  refine ⟨by bv_omega, fun j => ?_, hsig⟩
  rw [updateDouble_self]
  by_cases hj : j = (detailsFor s.outboundXcmpStatus r).lastIndex
  · rw [hj, Function.update_self]
    simp only [Option.isSome_some, true_iff]
    constructor <;> bv_omega
  · rw [Function.update_of_ne hj, hpages j]
    have h1 : BitVec.toNat (1 : BitVec 16) = 1 := rfl
    simp only [BitVec.le_def, BitVec.lt_def] at hle ⊢
    have := BitVec.toNat_ne.mp hj
    omega

/-- A record whose range is non-empty was found, not made. -/
theorem recordOf_of_detailsFor_lt (h : (detailsFor l r).firstIndex < (detailsFor l r).lastIndex) :
    recordOf l r = some (detailsFor l r) := by
  unfold detailsFor at h ⊢
  cases hr : recordOf l r with
  | none =>
    rw [hr] at h
    simp [OutboundChannelDetails.new] at h
  | some d => rfl

/-- `send_fragment` keeps the invariant, on every branch: an error, an append to the last page,
or a new page (after a refused append or with no active page). -/
theorem sendFragment_wf {info : ChannelInfo} {s s' : XcmpQueueState} {format : XcmpMessageFormat}
    {data : List UInt8} {res : Except MessageSendError (BitVec 32)} (h : s.OutboundWf)
    (hs : sendFragment info s r format data = some (res, s')) : s'.OutboundWf := by
  unfold sendFragment at hs
  split at hs
  · cases hs
    exact h
  · split at hs
    · cases hs
      exact h
    · dsimp only at hs
      split at hs
      · next hactive =>
        -- the last page is written back inside the range, appended to or not
        have hset := h.setPage (recordOf_of_detailsFor_lt hactive)
          ((detailsFor s.outboundXcmpStatus r).lastIndex - 1) ⟨by bv_omega, by bv_omega⟩
        split at hs
        · cases hs
          exact hset _
        · refine newPage_wf ?_ hs
          exact hset _
      · exact newPage_wf h hs

/-! ## Signals, suspension and resumption -/

/-- After `send_signal`, the record of the destination has its signals flag set, and every other
record is unchanged. -/
theorem recordOf_sendSignal (s : XcmpQueueState) (dest : ParaId) (signal : ChannelSignal)
    (r' : ParaId) :
    recordOf (sendSignal s dest signal).outboundXcmpStatus r' =
      if r' = dest then some { detailsFor s.outboundXcmpStatus dest with signalsExist := true }
      else recordOf s.outboundXcmpStatus r' :=
  recordOf_modifyOrPush (fun _ => by rfl) _ _ _ (by rfl)

/-- After `suspend_channel`, the record of the target is suspended, and every other record is
unchanged. -/
theorem recordOf_suspendChannel (s : XcmpQueueState) (target r' : ParaId) :
    recordOf (suspendChannel s target).outboundXcmpStatus r' =
      if r' = target then some { detailsFor s.outboundXcmpStatus target with state := .suspended }
      else recordOf s.outboundXcmpStatus r' :=
  recordOf_modifyOrPush (fun _ => by rfl) _ _ _ (by rfl)

/-- `send_signal` keeps the invariant: the record of `dest` gets `signals_exist` and its signal
page becomes non-empty. -/
theorem sendSignal_wf {s : XcmpQueueState} (h : s.OutboundWf) (dest : ParaId)
    (signal : ChannelSignal) : (sendSignal s dest signal).OutboundWf := by
  refine h.update dest (nodup_modifyOrPush (fun _ => by rfl) h.nodup dest (by rfl))
    (fun r' hr' => by rw [recordOf_sendSignal, if_neg hr'])
    (fun _ _ => rfl) (fun r' hr' => Function.update_of_ne hr' _ _) ?_
  rw [recordOf_sendSignal, if_pos rfl]
  obtain ⟨hle, hpages, -⟩ := channelRepr_detailsFor (h.channel dest)
  refine ⟨hle, hpages, ?_⟩
  -- the signal page is non-empty on both branches of the `mutate`
  have hne : signal.encode ≠ [] := by cases signal <;> simp [ChannelSignal.encode]
  simp only [sendSignal, Function.update_self, ne_eq, true_iff]
  split <;> simp [hne]

/-- `suspend_channel` keeps the invariant: it changes the state of a record only. -/
theorem suspendChannel_wf {s : XcmpQueueState} (h : s.OutboundWf) (target : ParaId) :
    (suspendChannel s target).OutboundWf := by
  refine h.update target (nodup_modifyOrPush (fun _ => by rfl) h.nodup target (by rfl))
    (fun r' hr' => by rw [recordOf_suspendChannel, if_neg hr'])
    (fun _ _ => rfl) (fun _ _ => rfl) ?_
  rw [recordOf_suspendChannel, if_pos rfl, channelRepr_setState]
  exact channelRepr_detailsFor (h.channel target)

/-- `resume_channel` keeps the invariant unless it deletes a record whose signal still waits:
a deleted record has an empty range, so only its signal page can be left behind. -/
theorem resumeChannel_wf {s : XcmpQueueState} (h : s.OutboundWf) (target : ParaId)
    (hsafe : ∀ d, recordOf s.outboundXcmpStatus target = some d →
      d.firstIndex = d.lastIndex → d.signalsExist = false) :
    (resumeChannel s target).OutboundWf := by
  unfold resumeChannel XcmpQueueState.OutboundWf
  dsimp only
  refine h.update target (h.nodup.sublist (recipients_resumeIn_sublist target _))
    (fun r' hr' => by rw [recordOf_resumeIn h.nodup, if_neg hr']) (fun _ _ => rfl)
    (fun _ _ => rfl) ?_
  rw [recordOf_resumeIn h.nodup, if_pos rfl]
  have hc := h.channel target
  cases hd : recordOf s.outboundXcmpStatus target with
  | none =>
    rw [hd] at hc
    exact hc
  | some d =>
    rw [hd] at hc
    obtain ⟨hle, hpages, hsig⟩ := hc
    by_cases he : d.firstIndex = d.lastIndex
    · simp only [Option.bind_some, he, if_true]
      refine ⟨fun i => Option.not_isSome_iff_eq_none.mp fun hi => ?_, ?_⟩
      · have := (hpages i).mp hi
        bv_omega
      · have hno := hsafe d hd he
        by_contra hne
        simp [hno] at hsig
        exact hne hsig
    · simp only [Option.bind_some, he, if_false]
      exact ⟨hle, hpages, hsig⟩

/-! ## `take_outbound_messages` -/

/-- The record of `r` in an appended list is its record in the first part, or else in the second. -/
theorem recordOf_append (l l' : List OutboundChannelDetails) (r : ParaId) :
    recordOf (l ++ l') r = (recordOf l r).or (recordOf l' r) :=
  List.find?_append

/-- Replacing a record by one of the same recipient, with a local edit of the storage, keeps the
invariant if the new record is well represented: the loop of `take_outbound_messages` does this
once per record. -/
theorem OutboundRepr.replace {pre post : List OutboundChannelDetails}
    {d d' : OutboundChannelDetails} (h : OutboundRepr (pre ++ d :: post) pages signals)
    (hrec : d'.recipient = d.recipient)
    (hp : ∀ r', r' ≠ d.recipient → pages' r' = pages r')
    (hs : ∀ r', r' ≠ d.recipient → signals' r' = signals r')
    (hr : ChannelRepr pages' signals' d.recipient (some d')) :
    OutboundRepr (pre ++ d' :: post) pages' signals' := by
  have hnd : ((pre ++ d' :: post).map (·.recipient)).Nodup := by
    have := h.nodup
    simpa [hrec] using this
  refine h.update d.recipient hnd (fun r' hr' => ?_) hp hs ?_
  · have hne : d.recipient ≠ r' := Ne.symm hr'
    simp [recordOf_append, recordOf_cons, hrec, hne]
  · rwa [(recordOf_eq_some_iff hnd).mpr ⟨by simp, hrec⟩]

section Take

variable (info : ChannelInfo) (acc : TakeAcc) (d : OutboundChannelDetails)

/-- Every branch of the loop body keeps the recipient of the record. -/
theorem recipient_takeChannel : (takeChannel info acc d).1.recipient = d.recipient := by
  unfold takeChannel finishTake
  dsimp only
  split
  · rfl
  · split
    · rfl
    · rfl
    · split
      · split <;> rfl
      · split
        · split <;> rfl
        · rfl

/-- The loop body edits the pages and the signal of its own recipient only. -/
theorem takeChannel_frame (r' : ParaId) (hr' : r' ≠ d.recipient) :
    (takeChannel info acc d).2.pages r' = acc.pages r' ∧
      (takeChannel info acc d).2.signals r' = acc.signals r' := by
  unfold takeChannel finishTake
  dsimp only
  split
  · exact ⟨rfl, rfl⟩
  · split
    · refine ⟨funext fun i => by simp [hr'], ?_⟩
      split
      · exact Function.update_of_ne hr' _ _
      · rfl
    · exact ⟨rfl, rfl⟩
    · split
      · split
        · exact ⟨rfl, Function.update_of_ne hr' _ _⟩
        · exact ⟨rfl, rfl⟩
      · split
        · split
          · exact ⟨updateDouble_of_ne _ hr' _ _, rfl⟩
          · exact ⟨rfl, rfl⟩
        · exact ⟨rfl, rfl⟩

/-- The loop body leaves its record well represented: a `Closed` channel loses its pages and its
signal with its record; a taken signal clears the flag and the signal page; a taken page moves
`first_index` past it; a drained range is reset to `0..0`. -/
theorem takeChannel_channelRepr
    (h : ChannelRepr acc.pages acc.signals d.recipient (some d)) :
    ChannelRepr (takeChannel info acc d).2.pages (takeChannel info acc d).2.signals d.recipient
      (some (takeChannel info acc d).1) := by
  obtain ⟨hle, hpages, hsig⟩ := h
  unfold takeChannel finishTake
  dsimp only
  split
  · exact ⟨hle, hpages, hsig⟩
  · split
    · -- `Closed`: the range `first_index..last_index` is purged, and the signal if flagged
      refine ⟨BitVec.le_refl _, fun i => ?_, ?_⟩
      · simp only [OutboundChannelDetails.new, true_and]
        split
        · simp
        · next hi =>
          rw [Option.not_isSome_iff_eq_none.mp fun hs => hi ((hpages i).mp hs)]
          simp only [Option.isSome_none, Bool.false_eq_true, false_iff]
          bv_omega
      · split
        · simp [OutboundChannelDetails.new]
        · next hno =>
          simp only [OutboundChannelDetails.new, Bool.false_eq_true, false_iff, not_not]
          by_contra hne
          exact hno (hsig.mpr hne)
    · exact ⟨hle, hpages, hsig⟩
    · split
      · split
        · -- the signal page is taken
          dsimp only
          refine ⟨?_, fun i => ?_, by simp⟩
          · split <;> simp [hle]
          · rw [hpages i]
            split
            · next he => simp only [he]; bv_omega
            · rfl
        · exact ⟨hle, hpages, hsig⟩
      · split
        · split
          · -- the first page is taken
            next hlt _ =>
            dsimp only
            refine ⟨?_, fun i => ?_, hsig⟩
            · split
              · exact BitVec.le_refl _
              · bv_omega
            · rw [updateDouble_self]
              by_cases hi : i = d.firstIndex
              · subst hi
                simp only [Function.update_self, Option.isSome_none, Bool.false_eq_true, false_iff]
                split <;> bv_omega
              · rw [Function.update_of_ne hi, hpages i]
                have := BitVec.toNat_ne.mp hi
                split <;> bv_omega
          · exact ⟨hle, hpages, hsig⟩
        · exact ⟨hle, hpages, hsig⟩

/-- One pass of the loop keeps the invariant, whatever the records before it became. -/
theorem takeChannel_repr {pre post : List OutboundChannelDetails}
    (h : OutboundRepr (pre ++ d :: post) acc.pages acc.signals) :
    OutboundRepr (pre ++ (takeChannel info acc d).1 :: post) (takeChannel info acc d).2.pages
      (takeChannel info acc d).2.signals :=
  h.replace (recipient_takeChannel info acc d)
    (fun r' hr' => (takeChannel_frame info acc d r' hr').1)
    (fun r' hr' => (takeChannel_frame info acc d r' hr').2)
    (takeChannel_channelRepr info acc d (h.of_mem (by simp)))

end Take

/-- The whole loop keeps the invariant: by induction on the records still to visit, with the
visited ones (already edited) in front. -/
theorem takeLoop_repr (info : ChannelInfo) (m : Nat) :
    ∀ (todo pre : List OutboundChannelDetails) (acc : TakeAcc),
      OutboundRepr (pre ++ todo) acc.pages acc.signals →
      OutboundRepr (pre ++ (takeLoop info m todo acc).1) (takeLoop info m todo acc).2.pages
        (takeLoop info m todo acc).2.signals
  | [], _, _, h => h
  | d :: rest, pre, acc, h => by
    unfold takeLoop
    split
    · exact h
    · have h1 := takeChannel_repr info acc d h
      have h2 := takeLoop_repr info m rest (pre ++ [(takeChannel info acc d).1])
        (takeChannel info acc d).2 (by simpa using h1)
      simpa using h2

/-- With one record per recipient, `retain` removes exactly the records it rejects. -/
theorem recordOf_filter (hnd : (l.map (·.recipient)).Nodup) (p : OutboundChannelDetails → Bool)
    (r : ParaId) : recordOf (l.filter p) r = (recordOf l r).filter p :=
  find?_key_filter OutboundChannelDetails.recipient hnd p r

/-- The `retain` of `take_outbound_messages` keeps the invariant: a record it drops is not
suspended, has no signal and an empty range, so nothing of its recipient is left in storage. -/
theorem OutboundRepr.filter_keepRecord (h : OutboundRepr l pages signals) :
    OutboundRepr (l.filter keepRecord) pages signals where
  nodup := h.nodup.sublist (List.filter_sublist.map _)
  channel r := by
    rw [recordOf_filter h.nodup]
    have hc := h.channel r
    cases hd : recordOf l r with
    | none =>
      rw [hd] at hc
      exact hc
    | some d =>
      rw [hd] at hc
      obtain ⟨hle, hpages, hsig⟩ := hc
      by_cases hk : keepRecord d = true
      · simp only [Option.filter_some, hk, if_true]
        exact ⟨hle, hpages, hsig⟩
      · simp only [Option.filter_some, hk, Bool.false_eq_true, if_false]
        simp only [keepRecord, Bool.or_eq_true, decide_eq_true_eq, not_or] at hk
        obtain ⟨⟨-, hno⟩, hnlt⟩ := hk
        refine ⟨fun i => Option.not_isSome_iff_eq_none.mp fun hi => ?_, ?_⟩
        · have := (hpages i).mp hi
          bv_omega
        · by_contra hne
          exact hno (hsig.mpr hne)

/-- With one record per recipient, reordering the records does not change what is found for any
recipient. -/
theorem recordOf_perm (hnd : (l.map (·.recipient)).Nodup) (hp : l.Perm l') (r : ParaId) :
    recordOf l' r = recordOf l r :=
  find?_key_perm OutboundChannelDetails.recipient hnd hp r

/-- With one record per recipient, reordering the records keeps the invariant. -/
theorem OutboundRepr.perm (h : OutboundRepr l pages signals) (hp : l.Perm l') :
    OutboundRepr l' pages signals where
  nodup := ((hp.map _).nodup_iff).mp h.nodup
  channel r := by
    rw [recordOf_perm h.nodup hp r]
    exact h.channel r

/-- `take_outbound_messages` keeps the invariant whenever it does not panic. -/
theorem takeOutboundMessages_wf {info : ChannelInfo} {s s' : XcmpQueueState} {m : Nat}
    {res : List (ParaId × List UInt8)} (h : s.OutboundWf)
    (ht : takeOutboundMessages info s m = some (res, s')) : s'.OutboundWf := by
  unfold takeOutboundMessages at ht
  dsimp only at ht
  split at ht
  · cases ht
    have hloop := takeLoop_repr info (min s.outboundXcmpStatus.length m) s.outboundXcmpStatus []
      ⟨[], s.outboundXcmpMessages, s.signalMessages⟩ h
    rw [List.nil_append] at hloop
    refine (OutboundRepr.filter_keepRecord hloop).perm ?_
    -- `rotate_left` is a rotation, so a permutation
    exact (List.perm_append_comm.trans (by rw [List.take_append_drop])).symm
  · cases ht

/-- A channel that closes while it holds pages makes `take_outbound_messages` panic: its record
is reset and pruned, but no message was taken for it, so `result.len() - pruned` underflows. -/
theorem takeOutboundMessages_closed_channel_panics :
    ∃ s, sendFragment ⟨fun _ => .ready 10 10, fun _ => some 10⟩ XcmpQueueState.empty 1
        .concatenatedEncodedBlob [0] = some (.ok 0, s) ∧
      takeOutboundMessages ⟨fun _ => .closed, fun _ => none⟩ s 1 = none :=
  ⟨_, rfl, rfl⟩

/-! ## Runs -/

/-- The call the invariant does not survive: `resume_channel` on a record with an empty range and
a waiting signal, which deletes the record and strands the signal page. -/
def StrandsSignal (s : XcmpQueueState) : OutboundCall → Prop
  | .resumeChannel target => ∃ d, recordOf s.outboundXcmpStatus target = some d ∧
      d.firstIndex = d.lastIndex ∧ d.signalsExist = true
  | _ => False

/-- Every call but a stranding resume keeps the invariant. -/
theorem outboundStep_wf {s s' : XcmpQueueState} {call : ChannelInfo × OutboundCall}
    (h : s.OutboundWf) (hsafe : ¬StrandsSignal s call.2) (hs : outboundStep s call = some s') :
    s'.OutboundWf := by
  obtain ⟨info, c⟩ := call
  cases c with
  | sendFragment recipient format data =>
    simp only [outboundStep, Option.map_eq_some_iff] at hs
    obtain ⟨⟨_, _⟩, hf, rfl⟩ := hs
    exact sendFragment_wf h hf
  | sendSignal dest signal =>
    cases hs
    exact sendSignal_wf h dest signal
  | suspendChannel target =>
    cases hs
    exact suspendChannel_wf h target
  | resumeChannel target =>
    cases hs
    refine resumeChannel_wf h target fun d hd he => ?_
    simp only [StrandsSignal, not_exists, not_and] at hsafe
    simpa using hsafe d hd he
  | takeOutboundMessages m =>
    simp only [outboundStep, Option.map_eq_some_iff] at hs
    obtain ⟨⟨_, _⟩, ht, rfl⟩ := hs
    exact takeOutboundMessages_wf h ht

/-- A transition of the outbound queue by a call that is not a stranding resume. -/
def SafeOutboundStep (s s' : XcmpQueueState) : Prop :=
  ∃ call, ¬StrandsSignal s call.2 ∧ outboundStep s call = some s'

/-- Every state reached from empty storage by calls none of which is a stranding resume, under
any channel answers, satisfies the invariant. -/
theorem outboundWf_of_safeReachable {s : XcmpQueueState}
    (h : Relation.ReflTransGen SafeOutboundStep XcmpQueueState.empty s) : s.OutboundWf :=
  reflTransGen_invariant outboundWf_empty
    (fun _ _ hs ⟨_, hsafe, hstep⟩ => outboundStep_wf hs hsafe hstep) h

/-- Channels that all answer `Ready(10, 10)`. -/
def readyChannels : ChannelInfo := ⟨fun _ => .ready 10 10, fun _ => some 10⟩

/-- A `Suspend` signal queued for recipient 1, then a fragment sent to it: neither call strands a
signal, so the state they reach is well formed. -/
theorem outboundWf_of_safeReachable_signalThenFragment :
    ∃ s, outboundStep (sendSignal XcmpQueueState.empty 1 .suspend)
        (readyChannels, .sendFragment 1 .concatenatedVersionedXcm [1]) =
        some s ∧ s.OutboundWf := by
  obtain ⟨s, hs⟩ : ∃ s, outboundStep (sendSignal XcmpQueueState.empty 1 .suspend)
      (readyChannels, .sendFragment 1 .concatenatedVersionedXcm [1]) =
      some s := ⟨_, rfl⟩
  -- only a `resume_channel` can strand a signal
  have h₁ : SafeOutboundStep XcmpQueueState.empty (sendSignal XcmpQueueState.empty 1 .suspend) :=
    ⟨(readyChannels, .sendSignal 1 .suspend), not_false, rfl⟩
  have h₂ : SafeOutboundStep (sendSignal XcmpQueueState.empty 1 .suspend) s :=
    ⟨(readyChannels, .sendFragment 1 .concatenatedVersionedXcm [1]),
      not_false, hs⟩
  exact ⟨s, hs, outboundWf_of_safeReachable ((Relation.ReflTransGen.single h₁).tail h₂)⟩

/-- A signal queued on a channel with no pages, then a `Resume` from that channel: the record is
deleted and the signal page is left with no record to send it. -/
theorem resumeChannel_strands_signal (info : ChannelInfo) :
    ∃ s, runSteps outboundStep XcmpQueueState.empty
        [(info, .sendSignal 1 .suspend), (info, .resumeChannel 1)] = some s ∧
      s.outboundXcmpStatus = [] ∧ s.signalMessages 1 = [2, 0] ∧ ¬s.OutboundWf := by
  refine ⟨_, rfl, rfl, rfl, fun h => ?_⟩
  have hc : ChannelRepr _ _ 1 none := h.channel 1
  exact absurd hc.2 (by decide)

/-! ## Page sizes -/

/-- Two empty blobs (each SCALE-encoded as the one byte `[0]`) sent on a channel whose
`max_message_size` is `1`: both are accepted, each on a page of its own of two bytes, and the next
`take_outbound_messages` takes the first page, finds it larger than `max_size_ever` and drops it,
so the first fragment is never delivered. -/
theorem sendFragment_accepted_page_dropped :
    ∃ s₁ s₂ s₃, sendFragment ⟨fun _ => .ready 10 1, fun _ => some 1⟩ XcmpQueueState.empty 1
        .concatenatedEncodedBlob [0] = some (.ok 0, s₁) ∧
      sendFragment ⟨fun _ => .ready 10 1, fun _ => some 1⟩ s₁ 1 .concatenatedEncodedBlob [0] =
        some (.ok 1, s₂) ∧
      s₂.outboundXcmpMessages 1 0 = some [1, 0] ∧
      takeOutboundMessages ⟨fun _ => .ready 10 1, fun _ => some 1⟩ s₂ 1 = some ([], s₃) ∧
      s₃.outboundXcmpMessages 1 0 = none :=
  ⟨_, _, _, rfl, rfl, rfl, rfl, rfl⟩

end Cumulus.XcmpQueue
