import Cumulus.ParachainSystem.Pallet
import Cumulus.ParachainSystem.Bandwidth

/-!
# parachain-system: what `on_finalize` appends

`on_finalize` builds the block's `Ancestor` from the messaging state *adjusted* by the segment's
bandwidth, and appends it against the limits of the *unadjusted* one. This file gives each of its
steps one spec lemma and assembles them into `prepareAncestor_spec`: the new ancestor's upward
counters fit the room the segment left in the relay chain's queue, and each of its channels the
room the segment left in the channel, provided the outbound message source keeps the channel
contract (`OutboundSource.Respects`):

* `umpScan_le`, `takeUpwardMessages_spec` — the upward messages taken fit the adjusted queue, and
  the slice `up[..num]` never panics (`takeUpwardMessages_isSome`);
* `adjustChannels_spec`, `adjustEgressBandwidthLimits_spec` — an egress channel the segment uses
  holds what the segment sends over it, capped at the channel's limits (`AdjustedBy`); the others
  are left as they are;
* `getChannelStatus_eq_ready` — what a `Ready` answer says of the channel it reads;
* `channelRoom_of_adjusted` — `Ready(n, _)` on the adjusted state, for a message of `len ≤ n`,
  means room in the unadjusted channel for the segment's use of it plus the message
  (`ChannelRoom`);
* `prepareAncestor_spec` — the `Prepared` record of all of the above; `appendAncestor_eq_some` and
  `onFinalize_eq` put `on_finalize` back together from its two parts.
-/

namespace Cumulus.ParachainSystem

open Cumulus.Primitives Cumulus.Found

variable {P H : Type}

/-! ## The channel contract of the outbound source -/

/-- An outbound message source keeps the channel contract when it sends only over channels that
answer `Ready(n, _)`, each message no longer than `n`. -/
def OutboundSource.Respects (source : OutboundSource) : Prop :=
  ∀ status n messages, source status n = some messages → ∀ p len, (p, len) ∈ messages →
    ∃ m e, status p = some (.ready m e) ∧ len ≤ m

/-! ## Upward messages -/

/-- The scan stays within the available capacity and size, and counts at most one per message. -/
theorem umpScan_le {availableCapacity availableSize : BitVec 32} :
    ∀ {messages : List (List UInt8)} {c s c' s' : BitVec 32},
      umpScan availableCapacity availableSize messages (c, s) = (c', s') →
      c ≤ availableCapacity → s ≤ availableSize →
      c' ≤ availableCapacity ∧ s' ≤ availableSize ∧ c'.toNat ≤ c.toNat + messages.length
  | [], c, s, c', s', h, hc, hs => by
    obtain ⟨rfl, rfl⟩ := Prod.mk.inj h
    exact ⟨hc, hs, by omega⟩
  | message :: rest, c, s, c', s', h, hc, hs => by
    unfold umpScan at h
    dsimp only at h
    split_ifs at h with hfit
    · obtain ⟨h₁, h₂, h₃⟩ := umpScan_le h hfit.1 hfit.2
      have hstep : (saturatingAdd c 1).toNat ≤ c.toNat + 1 := by
        rw [toNat_saturatingAdd_one (by decide)]
        omega
      refine ⟨h₁, h₂, ?_⟩
      rw [List.length_cons]
      omega
    · obtain ⟨rfl, rfl⟩ := Prod.mk.inj h
      exact ⟨hc, hs, by omega⟩

/-- The upward messages `on_finalize` takes fit the relay chain's queue as the messaging state
says; nothing else of the storage changes. -/
theorem takeUpwardMessages_spec {s s' : SystemState P H} {hostConfig : AbridgedHostConfiguration}
    {n size : BitVec 32} (h : takeUpwardMessages s hostConfig = some (s', n, size)) :
    (∃ up pending, s' = { s with upwardMessages := up, pendingUpwardMessages := pending }) ∧
    ∀ limits, s.relevantMessagingState = some limits →
      n.toNat ≤ limits.relayDispatchQueueRemainingCapacity.remainingCount.toNat ∧
      size.toNat ≤ limits.relayDispatchQueueRemainingCapacity.remainingSize.toNat := by
  unfold takeUpwardMessages at h
  split at h
  · rename_i hnone
    obtain ⟨rfl, -, -⟩ := Prod.mk.inj (Option.some.inj h)
    exact ⟨⟨_, _, rfl⟩, fun _ hsome => by simp [hnone] at hsome⟩
  · rename_i limits hlimits
    dsimp only at h
    split_ifs at h with hlen
    simp only [Option.some.injEq, Prod.mk.injEq] at h
    obtain ⟨rfl, rfl, rfl⟩ := h
    have hzero : ∀ x : BitVec 32, 0 ≤ x := fun x => BitVec.le_def.mpr (Nat.zero_le _)
    obtain ⟨hcap, hsize, -⟩ := umpScan_le (Prod.ext rfl rfl) (hzero _) (hzero _)
    refine ⟨⟨_, _, rfl⟩, fun limits' hlimits' => ?_⟩
    rw [hlimits] at hlimits'
    cases hlimits'
    rw [BitVec.le_def, toNat_min] at hcap
    rw [BitVec.le_def] at hsize
    exact ⟨by omega, hsize⟩

/-! ## The longest prefix that fits -/

/-- The total byte length of a list of messages. -/
def totalBytes (messages : List (List UInt8)) : Nat := (messages.map List.length).sum

@[simp] theorem totalBytes_nil : totalBytes [] = 0 := rfl

@[simp] theorem totalBytes_cons (message : List UInt8) (messages : List (List UInt8)) :
    totalBytes (message :: messages) = message.length + totalBytes messages := by
  simp [totalBytes]

/-- A prefix of the messages has no more bytes than all of them. -/
theorem totalBytes_take_le (messages : List (List UInt8)) (k : Nat) :
    totalBytes (messages.take k) ≤ totalBytes messages := by
  have h := congrArg totalBytes (List.take_append_drop k messages)
  simp only [totalBytes, List.map_append, List.sum_append] at h ⊢
  omega

/-- `k` is the length of the longest prefix of `messages` with at most `count` messages and at
most `size` bytes: the prefixes that fit are exactly those of length up to `k`. -/
def IsLongestFit (count size : Nat) (messages : List (List UInt8)) (k : Nat) : Prop :=
  k ≤ messages.length ∧
    ∀ j ≤ messages.length, (j ≤ count ∧ totalBytes (messages.take j) ≤ size ↔ j ≤ k)

/-- Nothing is taken of no messages. -/
theorem isLongestFit_nil (count size : Nat) : IsLongestFit count size [] 0 :=
  ⟨Nat.le_refl _, fun j hj => by simp at hj; simp [hj]⟩

/-- A first message that fits extends the longest prefix of the rest, within what it leaves. -/
theorem IsLongestFit.cons {count size k : Nat} {message : List UInt8}
    {messages : List (List UInt8)} (hcount : 1 ≤ count) (hsize : message.length ≤ size)
    (h : IsLongestFit (count - 1) (size - message.length) messages k) :
    IsLongestFit count size (message :: messages) (k + 1) := by
  refine ⟨by simpa using h.1, fun j hj => ?_⟩
  cases j with
  | zero => simp
  | succ j =>
    have hrest := h.2 j (by simpa using hj)
    simp only [List.take_succ_cons, totalBytes_cons]
    omega

/-- A first message that does not fit ends the prefix at once. -/
theorem isLongestFit_cons_zero {count size : Nat} {message : List UInt8}
    {messages : List (List UInt8)} (h : ¬(1 ≤ count ∧ message.length ≤ size)) :
    IsLongestFit count size (message :: messages) 0 := by
  refine ⟨Nat.zero_le _, fun j _ => ?_⟩
  cases j with
  | zero => simp
  | succ j =>
    simp only [List.take_succ_cons, totalBytes_cons]
    omega

/-- Without saturation, the scan from `(c, s)` adds the count and the size of the longest prefix
within what is left of the capacity and the size. The induction is on the messages, with the
state of the scan generalised. -/
theorem umpScan_spec {availableCapacity availableSize : BitVec 32} :
    ∀ (messages : List (List UInt8)) (c s : BitVec 32),
      c.toNat + messages.length < 2 ^ 32 → s.toNat + totalBytes messages < 2 ^ 32 →
      c ≤ availableCapacity → s ≤ availableSize →
      ∃ k, IsLongestFit (availableCapacity.toNat - c.toNat) (availableSize.toNat - s.toNat)
          messages k ∧
        umpScan availableCapacity availableSize messages (c, s) =
          (BitVec.ofNat 32 (c.toNat + k), BitVec.ofNat 32 (s.toNat + totalBytes (messages.take k)))
  | [], c, s, _, _, _, _ => ⟨0, isLongestFit_nil _ _, by simp [umpScan]⟩
  | message :: rest, c, s, hc, hs, hcle, hsle => by
    simp only [List.length_cons, totalBytes_cons] at hc hs
    rw [BitVec.le_def] at hcle hsle
    -- neither sum saturates below `2 ^ 32`
    have hcap : (saturatingAdd c 1).toNat = c.toNat + 1 := by
      rw [toNat_saturatingAdd_one (by decide)]
      omega
    have hlen : (BitVec.ofNat 32 message.length).toNat = message.length := by
      rw [BitVec.toNat_ofNat]
      exact Nat.mod_eq_of_lt (by omega)
    have hsize : (saturatingAdd s (BitVec.ofNat 32 message.length)).toNat =
        s.toNat + message.length := by
      rw [toNat_saturatingAdd, hlen]
      omega
    unfold umpScan
    dsimp only
    split_ifs with hfit
    · obtain ⟨k, hk, heq⟩ := umpScan_spec rest _ _ (by rw [hcap]; omega)
        (by rw [hsize]; omega) hfit.1 hfit.2
      rw [hcap, hsize, ← Nat.sub_sub, ← Nat.sub_sub] at hk
      have hfit₁ := BitVec.le_def.mp hfit.1
      have hfit₂ := BitVec.le_def.mp hfit.2
      rw [hcap] at hfit₁
      rw [hsize] at hfit₂
      refine ⟨k + 1, hk.cons (by omega) (by omega), ?_⟩
      rw [heq, hcap, hsize, List.take_succ_cons, totalBytes_cons]
      exact Prod.ext (congrArg (BitVec.ofNat 32) (by omega))
        (congrArg (BitVec.ofNat 32) (by omega))
    · refine ⟨0, isLongestFit_cons_zero fun ⟨h₁, h₂⟩ => hfit ⟨?_, ?_⟩, ?_⟩
      · rw [BitVec.le_def, hcap]
        omega
      · rw [BitVec.le_def, hsize]
        omega
      · simp

/-- With fewer than `2 ^ 32` pending messages of fewer than `2 ^ 32` bytes in all, the upward
messages `on_finalize` takes are the longest prefix of the pending ones within
`min(remaining_count, max_upward_message_num_per_candidate)` messages and `remaining_size` bytes,
and the count and size it returns are theirs. -/
theorem takeUpwardMessages_longestFit {s : SystemState P H}
    (hostConfig : AbridgedHostConfiguration) {limits : MessagingStateSnapshot H}
    (hlimits : s.relevantMessagingState = some limits)
    (hcount : s.pendingUpwardMessages.length < 2 ^ 32)
    (hbytes : totalBytes s.pendingUpwardMessages < 2 ^ 32) :
    ∃ k, IsLongestFit (min limits.relayDispatchQueueRemainingCapacity.remainingCount.toNat
          hostConfig.maxUpwardMessageNumPerCandidate.toNat)
        limits.relayDispatchQueueRemainingCapacity.remainingSize.toNat s.pendingUpwardMessages k ∧
      takeUpwardMessages s hostConfig = some ({ s with
        upwardMessages := s.pendingUpwardMessages.take k
        pendingUpwardMessages := s.pendingUpwardMessages.drop k },
        BitVec.ofNat 32 k, BitVec.ofNat 32 (totalBytes (s.pendingUpwardMessages.take k))) := by
  have h0 : (0 : BitVec 32).toNat = 0 := rfl
  have hzero : ∀ x : BitVec 32, 0 ≤ x := fun x => BitVec.le_def.mpr (Nat.zero_le _)
  obtain ⟨k, hk, heq⟩ := umpScan_spec s.pendingUpwardMessages 0 0 (by rw [h0]; omega)
    (by rw [h0]; omega) (hzero (min limits.relayDispatchQueueRemainingCapacity.remainingCount
      hostConfig.maxUpwardMessageNumPerCandidate))
    (hzero limits.relayDispatchQueueRemainingCapacity.remainingSize)
  rw [h0, Nat.sub_zero, Nat.sub_zero, toNat_min] at hk
  rw [h0, Nat.zero_add, Nat.zero_add] at heq
  have hnum : (BitVec.ofNat 32 k).toNat = k := by
    rw [BitVec.toNat_ofNat]
    exact Nat.mod_eq_of_lt (by have := hk.1; omega)
  refine ⟨k, hk, ?_⟩
  unfold takeUpwardMessages
  rw [hlimits]
  dsimp only
  rw [heq, hnum, if_pos hk.1]

/-! ## The egress channels after `adjust_egress_bandwidth_limits` -/

/-- Adjusting a channel by its usage adds the messages and bytes, each capped at the channel's
maximum, and keeps the maxima. -/
theorem adjustChannel_spec {used : HrmpChannelUpdate} {c c' : AbridgedHrmpChannel H}
    (h : adjustChannel used c = some c') :
    c'.totalSize.toNat = min (c.totalSize.toNat + used.totalBytes.toNat) c.maxTotalSize.toNat ∧
    c'.msgCount.toNat = min (c.msgCount.toNat + used.msgCount.toNat) c.maxCapacity.toNat ∧
    c'.maxCapacity = c.maxCapacity ∧ c'.maxTotalSize = c.maxTotalSize := by
  unfold adjustChannel at h
  obtain ⟨totalSize, htotal, h⟩ := Option.bind_eq_some_iff.mp h
  obtain ⟨msgCount, hcount, h⟩ := Option.bind_eq_some_iff.mp h
  cases h
  rw [checkedAdd_eq_some] at htotal hcount
  refine ⟨?_, ?_, rfl, rfl⟩ <;> simp [toNat_min, htotal.2, hcount.2]

/-- What `adjust_egress_bandwidth_limits` makes of an egress channel: one the segment does not
use is left as it is, one it uses holds the segment's messages and bytes. -/
def AdjustedBy (used : Option HrmpChannelUpdate) (c c' : AbridgedHrmpChannel H) : Prop :=
  match used with
  | none => c' = c
  | some u => adjustChannel u c = some c'

/-- The loop of `adjust_egress_bandwidth_limits` keeps every channel at its index, adjusted by what
the segment sends over it. -/
theorem adjustChannels_spec :
    ∀ {es : List (ParaId × HrmpChannelUpdate)}
      {channels channels' : List (ParaId × AbridgedHrmpChannel H)},
      (channels.map Prod.fst).Pairwise (· < ·) → (es.map Prod.fst).Nodup →
      adjustChannels es channels = some channels' →
      channels'.map Prod.fst = channels.map Prod.fst ∧
      ∀ (i : Nat) (p : ParaId) (c : AbridgedHrmpChannel H), channels[i]? = some (p, c) →
        ∃ c', channels'[i]? = some (p, c') ∧ AdjustedBy (es.lookup p) c c'
  | [], channels, channels', _, _, h => by
    cases h
    exact ⟨rfl, fun i p c hc => ⟨c, hc, rfl⟩⟩
  | (id, used) :: rest, channels, channels', hs, hnd, h => by
    rw [List.map_cons, List.nodup_cons] at hnd
    unfold adjustChannels at h
    cases hsearch : binarySearchByKey channels id Prod.fst with
    | error e =>
      -- the channel is closed: it is skipped
      rw [hsearch] at h
      have hnot := binarySearchByKey_error_not_mem hs hsearch
      obtain ⟨hkeys, hrest⟩ := adjustChannels_spec hs hnd.2 h
      refine ⟨hkeys, fun i p c hc => ?_⟩
      have hp : p ≠ id := fun he =>
        hnot (he ▸ List.mem_map.mpr ⟨_, List.mem_of_getElem? hc, rfl⟩)
      rw [lookup_pair_cons, if_neg hp]
      exact hrest i p c hc
    | ok i₀ =>
      rw [hsearch] at h
      dsimp only at h
      obtain ⟨x, hx, hxkey⟩ := binarySearchByKey_ok_sound hsearch
      cases hc₀ : channels[i₀]? with
      | none => rw [hc₀] at h; cases h
      | some entry =>
        obtain ⟨recipient, c₀⟩ := entry
        rw [hc₀] at h
        dsimp only at h
        obtain ⟨c₁, hc₁, h⟩ := Option.bind_eq_some_iff.mp h
        have hrec : recipient = id := by
          rw [hc₀] at hx
          cases hx
          exact hxkey
        subst hrec
        have hkeys₁ := keys_set_of_getElem? c₁ hc₀
        obtain ⟨hkeys, hrest⟩ := adjustChannels_spec (hkeys₁ ▸ hs) hnd.2 h
        refine ⟨hkeys.trans hkeys₁, fun i p c hc => ?_⟩
        by_cases hi : i₀ = i
        · -- the channel found is the one the segment uses
          subst hi
          rw [hc₀] at hc
          obtain ⟨rfl, rfl⟩ := Prod.mk.inj (Option.some.inj hc)
          have hi₀ : i₀ < channels.length := (List.getElem?_eq_some_iff.mp hc₀).1
          obtain ⟨c', hc', had⟩ := hrest i₀ recipient c₁ (List.getElem?_set_self hi₀)
          rw [lookup_eq_none_of_not_mem hnd.1] at had
          change c' = c₁ at had
          subst had
          refine ⟨c', hc', ?_⟩
          rw [lookup_pair_cons, if_pos rfl]
          exact hc₁
        · obtain ⟨c', hc', had⟩ := hrest i p c (by rw [List.getElem?_set_ne hi]; exact hc)
          have hp : p ≠ recipient := fun he =>
            hi (index_eq_of_getElem?_key (hs.imp ne_of_lt) hc₀ (he ▸ hc))
          rw [lookup_pair_cons, if_neg hp]
          exact ⟨c', hc', had⟩

/-- `adjust_egress_bandwidth_limits` takes the tracker's upward counters off the relay chain's
queue and adds its channels to the egress channels; nothing else changes. A missing tracker
counts as the empty one. -/
theorem adjustEgressBandwidthLimits_spec {s s' : SystemState P H}
    {ms : MessagingStateSnapshot H} (h : adjustEgressBandwidthLimits s = some s')
    (hms : s.relevantMessagingState = some ms) :
    let used := (s.aggregatedUnincludedSegment.getD .default).usedBandwidth
    ∃ egress, adjustChannels used.hrmpOutgoing.entries ms.egressChannels = some egress ∧
      s' = { s with relevantMessagingState := some { ms with
        egressChannels := egress
        relayDispatchQueueRemainingCapacity :=
          ⟨saturatingSub ms.relayDispatchQueueRemainingCapacity.remainingCount used.umpMsgCount,
            saturatingSub ms.relayDispatchQueueRemainingCapacity.remainingSize
              used.umpTotalBytes⟩ } } := by
  unfold adjustEgressBandwidthLimits at h
  rw [hms] at h
  cases hagg : s.aggregatedUnincludedSegment with
  | none =>
    rw [hagg] at h
    cases h
    refine ⟨ms.egressChannels, rfl, ?_⟩
    simp only [Option.getD_none, SegmentTracker.default, UsedBandwidth.default,
      saturatingSub_zero]
    rw [← hms]
    cases s
    simp only at hagg
    subst hagg
    rfl
  | some T =>
    rw [hagg] at h
    obtain ⟨egress, hegress, h⟩ := Option.bind_eq_some_iff.mp h
    cases h
    exact ⟨egress, hegress, rfl⟩

/-! ## Channel statuses -/

/-- `Ready(n, _)` comes from an egress channel with room for one more message and `n` bytes left. -/
theorem getChannelStatus_eq_ready {s : SystemState P H} {p : ParaId} {m e : Nat}
    (h : getChannelStatus s p = some (.ready m e)) :
    ∃ (d : MessagingStateSnapshot H) (i : Nat) (c : AbridgedHrmpChannel H),
      s.relevantMessagingState = some d ∧ d.egressChannels[i]? = some (p, c) ∧
      c.msgCount.toNat + 1 ≤ c.maxCapacity.toNat ∧ c.totalSize.toNat ≤ c.maxTotalSize.toNat ∧
      m = c.maxTotalSize.toNat - c.totalSize.toNat := by
  unfold getChannelStatus at h
  cases hd : s.relevantMessagingState with
  | none => rw [hd] at h; cases h
  | some d =>
    rw [hd] at h
    dsimp only at h
    cases hsearch : binarySearchByKey d.egressChannels p Prod.fst with
    | error e => rw [hsearch] at h; cases h
    | ok i =>
      rw [hsearch] at h
      dsimp only at h
      obtain ⟨x, hx, hxkey⟩ := binarySearchByKey_ok_sound hsearch
      cases hc : d.egressChannels[i]? with
      | none => rw [hc] at h; cases h
      | some entry =>
        obtain ⟨q, c⟩ := entry
        rw [hc] at h
        dsimp only at h
        have hq : q = p := by
          rw [hc] at hx
          cases hx
          exact hxkey
        subst hq
        obtain ⟨next, hnext, h⟩ := Option.bind_eq_some_iff.mp h
        split_ifs at h with hfull
        · cases h
        · obtain ⟨size, hsize, h⟩ := Option.bind_eq_some_iff.mp h
          cases h
          rw [checkedAdd_one_eq_some (by decide)] at hnext
          rw [checkedSub_eq_some] at hsize
          have hcap := BitVec.le_def.mp (BitVec.not_lt.mp hfull)
          exact ⟨d, i, c, rfl, hc, by omega, hsize.1, hsize.2⟩

/-- The unadjusted channel `c` has room for `u`, what the segment sends over it, plus one message
of `len` bytes: the count stays within the capacity, and the bytes within the total size unless
the message is empty. -/
structure ChannelRoom {H : Type} (u : Nat × Nat) (c : AbridgedHrmpChannel H) (len : Nat) :
    Prop where
  messages : u.1 + 1 ≤ c.maxCapacity.toNat - c.msgCount.toNat
  bytes : u.2 + len ≤ c.maxTotalSize.toNat - c.totalSize.toNat ∨ len = 0

/-- On the adjusted egress channels, room for one more message of `len` bytes is room, in the
unadjusted channel, for what the segment sends over it plus that message. -/
theorem channelRoom_of_adjusted {channels channels' : List (ParaId × AbridgedHrmpChannel H)}
    {used : SortedMap ParaId HrmpChannelUpdate} {i : Nat} {p : ParaId}
    {c' : AbridgedHrmpChannel H} {len : Nat} (hs : (channels.map Prod.fst).Pairwise (· < ·))
    (hadj : adjustChannels used.entries channels = some channels')
    (hc' : channels'[i]? = some (p, c')) (hcount : c'.msgCount.toNat + 1 ≤ c'.maxCapacity.toNat)
    (hlen : len ≤ c'.maxTotalSize.toNat - c'.totalSize.toNat) :
    ∃ c, (p, c) ∈ channels ∧ ChannelRoom (channelUsage used p) c len := by
  obtain ⟨hkeys, hspec⟩ := adjustChannels_spec hs used.keys_nodup hadj
  -- the channel at index `i` before the adjustment has the same recipient
  have hkey : (channels.map Prod.fst)[i]? = some p := by
    rw [← hkeys, List.getElem?_map, hc']
    rfl
  obtain ⟨⟨q, c⟩, hc, hq⟩ := Option.map_eq_some_iff.mp (List.getElem?_map ▸ hkey)
  cases hq
  obtain ⟨c'', hc'', had⟩ := hspec i q c hc
  rw [hc'] at hc''
  obtain ⟨-, rfl⟩ := Prod.mk.inj (Option.some.inj hc'')
  refine ⟨c, List.mem_of_getElem? hc, ?_⟩
  -- `used.entries.lookup q` is `used.get? q`
  change AdjustedBy (used.get? q) c c' at had
  cases hu : used.get? q with
  | none =>
    rw [hu] at had
    change c' = c at had
    subst had
    rw [channelUsage_of_get?_eq_none hu]
    exact ⟨by simpa using (by omega : 1 ≤ c'.maxCapacity.toNat - c'.msgCount.toNat),
      .inl (by simpa using hlen)⟩
  | some u =>
    rw [hu] at had
    obtain ⟨htotal, hmsg, hmaxc, hmaxt⟩ := adjustChannel_spec had
    rw [channelUsage_of_get? hu]
    rw [hmaxc, hmsg] at hcount
    rw [hmaxt, htotal] at hlen
    simp only [HrmpChannelUpdate.usage]
    constructor
    · omega
    · omega

/-! ## The ancestor `on_finalize` prepares -/

/-- What `on_finalize` prepares to append, in numbers, against the storage `s` it starts from and
the unadjusted messaging state `ms`. -/
structure Prepared (s : SystemState P H) (ms : MessagingStateSnapshot H)
    (relayUpgradeGoAhead : Option UpgradeGoAhead) (f : Finalizing P H) : Prop where
  state : ∃ ms' up pending, f.state = { s with
    relevantMessagingState := some ms'
    upwardMessages := up
    pendingUpwardMessages := pending
    announcedHrmpMessagesPerCandidate := 0 }
  limits : f.limits = .fromRelayChainState ms
  watermark : f.watermark = .new s.hrmpWatermark s.lastRelayChainBlockNumber
  paraHeadHash : f.ancestor.paraHeadHash = none
  consumedGoAheadSignal : f.ancestor.consumedGoAheadSignal =
    if (s.aggregatedUnincludedSegment.getD .default).consumedGoAheadSignal.isSome then none
    else relayUpgradeGoAhead
  umpMsgCount : f.ancestor.usedBandwidth.umpMsgCount.toNat ≤
    ms.relayDispatchQueueRemainingCapacity.remainingCount.toNat -
      (s.aggregatedUnincludedSegment.getD .default).usedBandwidth.umpMsgCount.toNat
  umpTotalBytes : f.ancestor.usedBandwidth.umpTotalBytes.toNat ≤
    ms.relayDispatchQueueRemainingCapacity.remainingSize.toNat -
      (s.aggregatedUnincludedSegment.getD .default).usedBandwidth.umpTotalBytes.toNat
  hrmpOutgoing : ∀ p c, f.ancestor.usedBandwidth.hrmpOutgoing.get? p = some c →
    c.msgCount = 1 ∧ ∃ ch, (p, ch) ∈ ms.egressChannels ∧
      ChannelRoom (channelUsage (s.aggregatedUnincludedSegment.getD .default).usedBandwidth.hrmpOutgoing p)
        ch c.totalBytes.toNat

/-- The channel updates of the outbound messages: one message each, of its length. -/
theorem get?_outbound_eq_some {messages : List (ParaId × Nat)} {p : ParaId}
    {c : HrmpChannelUpdate}
    (h : (SortedMap.ofList (messages.map fun (recipient, length) =>
      (recipient, (⟨1, BitVec.ofNat 32 length⟩ : HrmpChannelUpdate)))).get? p = some c) :
    ∃ len, (p, len) ∈ messages ∧ c = ⟨1, BitVec.ofNat 32 len⟩ := by
  obtain ⟨⟨q, len⟩, hmem, hq⟩ := List.mem_map.mp (SortedMap.mem_of_get?_ofList h)
  obtain ⟨rfl, rfl⟩ := Prod.mk.inj hq
  exact ⟨len, hmem, rfl⟩

/-- What `on_finalize` prepares, whatever the source returns: the storage items it writes, the
limits and the watermark. -/
theorem prepareAncestor_frame {s : SystemState P H} {hostConfig : AbridgedHostConfiguration}
    {ms : MessagingStateSnapshot H} {relayUpgradeGoAhead : Option UpgradeGoAhead}
    {source : OutboundSource} {f : Finalizing P H} (hms : s.relevantMessagingState = some ms)
    (h : prepareAncestor s hostConfig ms relayUpgradeGoAhead source = some f) :
    (∃ ms' up pending, f.state = { s with
      relevantMessagingState := some ms'
      upwardMessages := up
      pendingUpwardMessages := pending
      announcedHrmpMessagesPerCandidate := 0 }) ∧
    f.limits = .fromRelayChainState ms ∧
    f.watermark = .new s.hrmpWatermark s.lastRelayChainBlockNumber := by
  unfold prepareAncestor at h
  obtain ⟨s₁, hadj, h⟩ := Option.bind_eq_some_iff.mp h
  obtain ⟨⟨s₂, n, size⟩, htake, h⟩ := Option.bind_eq_some_iff.mp h
  dsimp only at h
  obtain ⟨outbound, -, h⟩ := Option.bind_eq_some_iff.mp h
  cases h
  obtain ⟨egress, -, rfl⟩ := adjustEgressBandwidthLimits_spec hadj hms
  obtain ⟨⟨up, pending, rfl⟩, -⟩ := takeUpwardMessages_spec htake
  exact ⟨⟨_, up, pending, rfl⟩, rfl, rfl⟩

/-- Room for two upward messages and `u32::MAX` bytes, with nothing in the segment, and two
copies of `message` pending. -/
def wideUpwardState (hs : HashScheme H) (head : H) (message : List UInt8) : SystemState P H :=
  { SystemState.genesis hs with
    relevantMessagingState := some ⟨head, ⟨2, BitVec.allOnes 32⟩, [], []⟩
    pendingUpwardMessages := [message, message] }

/-- **The upward messages of `on_finalize`.** With fewer than `2 ^ 32` pending messages of fewer
than `2 ^ 32` bytes in all, `on_finalize` splits the pending messages into `UpwardMessages` and the
new `PendingUpwardMessages` without losing or repeating one; `UpwardMessages` is the longest
prefix within the count `min(remaining_count, max_upward_message_num_per_candidate)` and the size
`remaining_size` of the messaging state as the segment's bandwidth adjusts it; and the new
ancestor records its length and its byte length. -/
theorem prepareAncestor_upwardMessages {s : SystemState P H}
    {hostConfig : AbridgedHostConfiguration} {ms : MessagingStateSnapshot H}
    {relayUpgradeGoAhead : Option UpgradeGoAhead} {source : OutboundSource} {f : Finalizing P H}
    (hms : s.relevantMessagingState = some ms)
    (hcount : s.pendingUpwardMessages.length < 2 ^ 32)
    (hbytes : totalBytes s.pendingUpwardMessages < 2 ^ 32)
    (h : prepareAncestor s hostConfig ms relayUpgradeGoAhead source = some f) :
    let used := (s.aggregatedUnincludedSegment.getD .default).usedBandwidth
    f.state.upwardMessages ++ f.state.pendingUpwardMessages = s.pendingUpwardMessages ∧
    IsLongestFit
      (min (saturatingSub ms.relayDispatchQueueRemainingCapacity.remainingCount
        used.umpMsgCount).toNat hostConfig.maxUpwardMessageNumPerCandidate.toNat)
      (saturatingSub ms.relayDispatchQueueRemainingCapacity.remainingSize
        used.umpTotalBytes).toNat
      s.pendingUpwardMessages f.state.upwardMessages.length ∧
    f.ancestor.usedBandwidth.umpMsgCount.toNat = f.state.upwardMessages.length ∧
    f.ancestor.usedBandwidth.umpTotalBytes.toNat = totalBytes f.state.upwardMessages := by
  intro used
  unfold prepareAncestor at h
  obtain ⟨s₁, hadj, h⟩ := Option.bind_eq_some_iff.mp h
  obtain ⟨⟨s₂, n, size⟩, htake, h⟩ := Option.bind_eq_some_iff.mp h
  dsimp only at h
  obtain ⟨outbound, -, h⟩ := Option.bind_eq_some_iff.mp h
  cases h
  obtain ⟨egress, -, hs₁⟩ := adjustEgressBandwidthLimits_spec hadj hms
  -- the scan reads the adjusted messaging state and the same pending messages
  obtain ⟨ms₁, hlimits⟩ : ∃ ms₁, s₁.relevantMessagingState = some ms₁ := ⟨_, by rw [hs₁]⟩
  have hcount₁ : s₁.pendingUpwardMessages.length < 2 ^ 32 := by rw [hs₁]; exact hcount
  have hbytes₁ : totalBytes s₁.pendingUpwardMessages < 2 ^ 32 := by rw [hs₁]; exact hbytes
  obtain ⟨k, hk, heq⟩ := takeUpwardMessages_longestFit hostConfig hlimits hcount₁ hbytes₁
  subst hs₁
  cases hlimits
  rw [heq] at htake
  simp only [Option.some.injEq, Prod.mk.injEq] at htake
  obtain ⟨rfl, rfl, rfl⟩ := htake
  have hlen : (s.pendingUpwardMessages.take k).length = k := by
    rw [List.length_take]
    exact Nat.min_eq_left hk.1
  have hsum := totalBytes_take_le s.pendingUpwardMessages k
  refine ⟨List.take_append_drop k _, by rw [hlen]; exact hk, ?_, ?_⟩
  · show (BitVec.ofNat 32 k).toNat = _
    rw [hlen, BitVec.toNat_ofNat]
    exact Nat.mod_eq_of_lt (by have := hk.1; omega)
  · show (BitVec.ofNat 32 (totalBytes (s.pendingUpwardMessages.take k))).toNat = _
    rw [BitVec.toNat_ofNat]
    exact Nat.mod_eq_of_lt (by omega)

/-- A state with room for two messages and two pending. -/
def oneOfTwoState : SystemState Nat Nat := wideUpwardState ⟨0, fun _ _ _ => 0, fun _ => 0⟩ 0 [7]

/-- The messaging state of `oneOfTwoState`. -/
def twoRoomSnapshot : MessagingStateSnapshot Nat := ⟨0, ⟨2, BitVec.allOnes 32⟩, [], []⟩

/-- A host configuration of one upward message per candidate. -/
def oneUpwardConfig : AbridgedHostConfiguration := ⟨0, 0, 1, 0⟩

/-- Of the two pending messages, `on_finalize` takes the first. -/
theorem prepareAncestor_upwardMessages_oneOfTwo :
    ∃ f : Finalizing Nat Nat,
      (oneOfTwoState.relevantMessagingState = some twoRoomSnapshot ∧
        oneOfTwoState.pendingUpwardMessages.length < 2 ^ 32 ∧
        totalBytes oneOfTwoState.pendingUpwardMessages < 2 ^ 32 ∧
        prepareAncestor oneOfTwoState oneUpwardConfig twoRoomSnapshot none
          (fun _ _ => some []) = some f) ∧
      f.state.upwardMessages = [[7]] ∧
      f.state.upwardMessages ++ f.state.pendingUpwardMessages =
        oneOfTwoState.pendingUpwardMessages ∧
      IsLongestFit
        (min (saturatingSub twoRoomSnapshot.relayDispatchQueueRemainingCapacity.remainingCount
          (oneOfTwoState.aggregatedUnincludedSegment.getD .default).usedBandwidth.umpMsgCount).toNat
          oneUpwardConfig.maxUpwardMessageNumPerCandidate.toNat)
        (saturatingSub twoRoomSnapshot.relayDispatchQueueRemainingCapacity.remainingSize
          (oneOfTwoState.aggregatedUnincludedSegment.getD .default).usedBandwidth.umpTotalBytes).toNat
        oneOfTwoState.pendingUpwardMessages f.state.upwardMessages.length ∧
      f.ancestor.usedBandwidth.umpMsgCount.toNat = f.state.upwardMessages.length ∧
      f.ancestor.usedBandwidth.umpTotalBytes.toNat = totalBytes f.state.upwardMessages := by
  obtain ⟨f, hf, hup⟩ : ∃ f, prepareAncestor oneOfTwoState oneUpwardConfig twoRoomSnapshot none
      (fun _ _ => some []) = some f ∧ f.state.upwardMessages = [[7]] := ⟨_, rfl, rfl⟩
  exact ⟨f, ⟨rfl, by decide, by decide, hf⟩, hup,
    prepareAncestor_upwardMessages rfl (by decide) (by decide) hf⟩

/-- Two messages of `2 ^ 31` bytes are taken together, with `u32::MAX` bytes counted. The message
stays a variable: nothing here computes its length. -/
theorem takeUpwardMessages_wideUpwardState (hs : HashScheme H) (head : H) {message : List UInt8}
    (hlen : message.length = 2 ^ 31) :
    takeUpwardMessages (wideUpwardState hs head message : SystemState P H) ⟨0, 0, 2, 0⟩ =
      some ({ wideUpwardState hs head message with
        upwardMessages := [message, message]
        pendingUpwardMessages := [] }, 2, BitVec.allOnes 32) ∧
    totalBytes [message, message] = 2 ^ 32 ∧
    IsLongestFit 2 (2 ^ 32 - 1) [message, message] 1 := by
  refine ⟨?_, by simp [hlen], ?_⟩
  · have hscan : umpScan (min 2 2) (BitVec.allOnes 32) [message, message] (0, 0) =
        (2, BitVec.allOnes 32) := by
      simp only [umpScan, hlen]
      decide
    have h2 : (2 : BitVec 32).toNat = 2 := rfl
    unfold takeUpwardMessages wideUpwardState
    simp only [hscan]
    rw [h2, if_pos (by simp)]
    rfl
  · refine IsLongestFit.cons (by decide) (by rw [hlen]; decide) (isLongestFit_cons_zero ?_)
    rw [hlen]
    decide

/-- **Past `u32::MAX` bytes the scan saturates.** Two pending messages of `2 ^ 31` bytes each, with
room for two messages and `u32::MAX` bytes: `saturating_add` counts `u32::MAX` bytes for the
two, so both are taken although together they are `2 ^ 32` bytes; the longest prefix that fits is
the first alone, and the size returned is not theirs. -/
theorem takeUpwardMessages_saturates :
    ∃ message : List UInt8, message.length = 2 ^ 31 ∧
      takeUpwardMessages (wideUpwardState ⟨0, fun _ _ _ => 0, fun _ => 0⟩ 0 message :
        SystemState Nat Nat) ⟨0, 0, 2, 0⟩ =
        some ({ wideUpwardState ⟨0, fun _ _ _ => 0, fun _ => 0⟩ 0 message with
          upwardMessages := [message, message]
          pendingUpwardMessages := [] }, 2, BitVec.allOnes 32) ∧
      totalBytes [message, message] = 2 ^ 32 ∧
      IsLongestFit 2 (2 ^ 32 - 1) [message, message] 1 :=
  ⟨List.replicate (2 ^ 31) 0, List.length_replicate,
    takeUpwardMessages_wideUpwardState _ 0 List.length_replicate⟩

/-- **What `on_finalize` prepares.** With the source keeping the channel contract and the relay
chain's egress channels sorted, the ancestor's upward counters fit the room the segment left in
the relay chain's queue, and each of its channels carries one message with room left for it in
the channel. -/
theorem prepareAncestor_spec {s : SystemState P H} {hostConfig : AbridgedHostConfiguration}
    {ms : MessagingStateSnapshot H} {relayUpgradeGoAhead : Option UpgradeGoAhead}
    {source : OutboundSource} {f : Finalizing P H} (hms : s.relevantMessagingState = some ms)
    (hsorted : (ms.egressChannels.map Prod.fst).Pairwise (· < ·)) (hsrc : source.Respects)
    (h : prepareAncestor s hostConfig ms relayUpgradeGoAhead source = some f) :
    Prepared s ms relayUpgradeGoAhead f := by
  unfold prepareAncestor at h
  obtain ⟨s₁, hadj, h⟩ := Option.bind_eq_some_iff.mp h
  obtain ⟨⟨s₂, n, size⟩, htake, h⟩ := Option.bind_eq_some_iff.mp h
  dsimp only at h
  obtain ⟨outbound, hout, h⟩ := Option.bind_eq_some_iff.mp h
  cases h
  obtain ⟨egress, hegress, rfl⟩ := adjustEgressBandwidthLimits_spec hadj hms
  obtain ⟨⟨up, pending, rfl⟩, hbound⟩ := takeUpwardMessages_spec htake
  obtain ⟨hn, hsize⟩ := hbound _ rfl
  refine ⟨⟨_, up, pending, rfl⟩, rfl, rfl, rfl, rfl, ?_, ?_, fun p c hc => ?_⟩
  · simpa [Ancestor.newUnchecked, toNat_saturatingSub] using hn
  · simpa [Ancestor.newUnchecked, toNat_saturatingSub] using hsize
  · obtain ⟨len, hmem, rfl⟩ := get?_outbound_eq_some hc
    obtain ⟨m, e, hstatus, hlen⟩ := hsrc _ _ _ hout p len hmem
    obtain ⟨d, i, c', hd, hc', hcount, -, hm⟩ := getChannelStatus_eq_ready hstatus
    cases hd
    obtain ⟨ch, hch, hroom⟩ := channelRoom_of_adjusted hsorted hegress hc' hcount (hm ▸ hlen)
    -- a message within the room left is shorter than `2 ^ 32`
    have hlt : len < 2 ^ 32 := by
      have := c'.maxTotalSize.isLt
      omega
    have hlen32 : (BitVec.ofNat 32 len).toNat = len := by
      rw [BitVec.toNat_ofNat]
      exact Nat.mod_eq_of_lt hlt
    refine ⟨rfl, ch, hch, ?_⟩
    show ChannelRoom _ ch (BitVec.ofNat 32 len).toNat
    rw [hlen32]
    exact hroom

/-- The append of `on_finalize` adds the ancestor to the segment and the tracker. -/
theorem appendAncestor_eq_some {f : Finalizing P H} {s' : SystemState P H}
    (h : appendAncestor f = some s') :
    ∃ T', (f.state.aggregatedUnincludedSegment.getD .default).append f.ancestor f.watermark
        f.limits = some (.ok T') ∧
      s' = { f.state with
        aggregatedUnincludedSegment := some T'
        unincludedSegment := f.state.unincludedSegment ++ [f.ancestor] } := by
  unfold appendAncestor at h
  split at h
  · rename_i T' hT'
    exact ⟨T', hT', (Option.some.inj h).symm⟩
  · cases h

/-- `on_finalize` after `set_validation_data`: the preparation, then the append. -/
theorem onFinalize_eq {s : SystemState P H} {source : OutboundSource}
    {vfp : PersistedValidationData} {hostConfig : AbridgedHostConfiguration}
    {ms : MessagingStateSnapshot H} (hvfp : s.validationData = some vfp)
    (hhost : s.hostConfiguration = some hostConfig) (hms : s.relevantMessagingState = some ms) :
    onFinalize s source =
      (prepareAncestor { s with upgradeRestrictionSignal := none, upgradeGoAhead := none }
        hostConfig ms s.upgradeGoAhead source).bind appendAncestor := by
  simp [onFinalize, hvfp, hhost, hms]

end Cumulus.ParachainSystem
