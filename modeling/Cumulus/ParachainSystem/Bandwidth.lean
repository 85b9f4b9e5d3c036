import Cumulus.ParachainSystem.Segment
import Mathlib.Algebra.BigOperators.Group.List.Basic
import Mathlib.Algebra.Group.Prod

/-!
# parachain-system: the segment's bandwidth in numbers

`AggregatedUnincludedSegment` is meant to hold the sum of what the blocks of `UnincludedSegment`
used. This file says that in numbers and proves what each operation of `Segment.lean` does to
them, so that the pallet's proofs never unfold an operation:

* `HrmpChannelUpdate.usage`, `channelUsage` — the messages and bytes of a channel as a pair of
  naturals, a channel without an entry counting as `0`;
* `UsedBandwidth.Aggregates u bs` — `u` is the exact sum of the bandwidths `bs`, counter by
  counter and channel by channel; `UsedBandwidth.NoSaturation u b` — adding `b` to `u`
  overflows no `u32`;
* `Aggregates.append` — an append that does not saturate adds its block to the sum;
  `Aggregates.subtract` — taking the first block off a sum never panics (each of its channels is
  in the sum, no counter underflows) and leaves the sum of the others;
* `SegmentTracker.Tracks T seg` — `Aggregates`, no empty channel in the tracker or in an
  ancestor, and at most one ancestor with a consumed go-ahead signal, which is then the
  tracker's; `Tracks.append` and `Tracks.subtract` are its two step lemmas, and
  `SegmentTracker.append_isOk_of_le` says when an append passes every check;
* `SegmentTracker.append_exact` — with every recipient's limits present and every limit below
  `u32::MAX`, `append` fails exactly when one of its checks fails over unbounded integers and
  otherwise adds exactly; `append_saturates_at_max` is why the bound is there.
-/

namespace Cumulus.ParachainSystem

open Cumulus.Primitives Cumulus.Found

/-! ## Channel updates -/

namespace HrmpChannelUpdate

/-- The messages and bytes of an update. -/
def usage (c : HrmpChannelUpdate) : Nat × Nat := (c.msgCount.toNat, c.totalBytes.toNat)

@[simp] theorem usage_default : default.usage = 0 := rfl

/-- A channel update is non-empty exactly when it has a message or a byte. -/
theorem isEmpty_eq_false_iff {c : HrmpChannelUpdate} : c.isEmpty = false ↔ c.usage ≠ 0 := by
  obtain ⟨m, b⟩ := c
  simp only [isEmpty, usage, ne_eq, Prod.mk_eq_zero, Bool.and_eq_false_iff, beq_eq_false_iff_ne,
    BitVec.ofNat_eq_ofNat, ← BitVec.toNat_inj, BitVec.toNat_ofNat, Nat.zero_mod]
  omega

/-- The update `append` makes before its limit checks: both fields `saturating_add`ed. -/
def saturatingAppend (self other : HrmpChannelUpdate) : HrmpChannelUpdate :=
  ⟨saturatingAdd self.msgCount other.msgCount, saturatingAdd self.totalBytes other.totalBytes⟩

/-- Within `u32`, the saturating append is the sum. -/
theorem usage_saturatingAppend {self other : HrmpChannelUpdate}
    (hm : self.msgCount.toNat + other.msgCount.toNat < 2 ^ 32)
    (hb : self.totalBytes.toNat + other.totalBytes.toNat < 2 ^ 32) :
    (self.saturatingAppend other).usage = self.usage + other.usage := by
  simp only [saturatingAppend, usage, toNat_saturatingAdd, Prod.mk_add_mk, Prod.mk.injEq]
  omega

/-- Saturation never takes an update below what was added, so a non-empty one stays non-empty. -/
theorem isEmpty_saturatingAppend {self other : HrmpChannelUpdate} (h : other.isEmpty = false) :
    (self.saturatingAppend other).isEmpty = false := by
  rw [isEmpty_eq_false_iff] at h ⊢
  have hm := other.msgCount.isLt
  have hb := other.totalBytes.isLt
  simp only [saturatingAppend, usage, toNat_saturatingAdd, ne_eq, Prod.mk_eq_zero] at h ⊢
  omega

/-- `HrmpChannelUpdate::append` succeeds exactly when the recipient has a limit and the saturated
sums fit within it. -/
theorem append_eq_some_ok {self other c : HrmpChannelUpdate} {recipient : ParaId}
    {limits : OutboundBandwidthLimits} :
    self.append other recipient limits = some (.ok c) ↔
      ∃ lim, limits.hrmpOutgoing.get? recipient = some lim ∧ c = self.saturatingAppend other ∧
        c.msgCount ≤ lim.messagesRemaining ∧ c.totalBytes ≤ lim.bytesRemaining := by
  unfold append
  split
  · simp_all
  · rename_i lim hlim
    simp only [hlim, Option.some.injEq, exists_eq_left']
    by_cases hm : lim.messagesRemaining < saturatingAdd self.msgCount other.msgCount
    · simp only [hm, if_true, Option.some.injEq, reduceCtorEq, false_iff, not_and]
      rintro rfl h
      exact absurd h (BitVec.not_le.mpr hm)
    · by_cases hb : lim.bytesRemaining < saturatingAdd self.totalBytes other.totalBytes
      · simp only [hm, hb, if_true, if_false, Option.some.injEq, reduceCtorEq, false_iff, not_and]
        rintro rfl - h
        exact absurd h (BitVec.not_le.mpr hb)
      · simp only [hm, hb, if_false, Option.some.injEq, Except.ok.injEq]
        constructor
        · rintro rfl
          exact ⟨rfl, BitVec.not_lt.mp hm, BitVec.not_lt.mp hb⟩
        · rintro ⟨rfl, -⟩
          rfl

/-- With the recipient's limits present, `append` does not panic. -/
theorem append_isSome {self other : HrmpChannelUpdate} {recipient : ParaId}
    {limits : OutboundBandwidthLimits} (h : (limits.hrmpOutgoing.get? recipient).isSome) :
    (self.append other recipient limits).isSome := by
  obtain ⟨lim, hlim⟩ := Option.isSome_iff_exists.mp h
  unfold append
  simp only [hlim]
  split_ifs <;> rfl

/-- `subtract` of an update that was added succeeds and leaves the rest. -/
theorem subtract_eq_some {self other : HrmpChannelUpdate} {rest : Nat × Nat}
    (h : self.usage = other.usage + rest) :
    ∃ c, self.subtract other = some c ∧ c.usage = rest := by
  simp only [usage, Prod.ext_iff, Prod.fst_add, Prod.snd_add] at h
  have hm : other.msgCount.toNat ≤ self.msgCount.toNat := by omega
  have hb : other.totalBytes.toNat ≤ self.totalBytes.toNat := by omega
  refine ⟨⟨self.msgCount - other.msgCount, self.totalBytes - other.totalBytes⟩, ?_, ?_⟩
  · simp [subtract, checkedSub_of_le hm, checkedSub_of_le hb]
  · simp only [usage, BitVec.toNat_sub_of_le (BitVec.le_def.mpr hm),
      BitVec.toNat_sub_of_le (BitVec.le_def.mpr hb), Prod.ext_iff]
    omega

end HrmpChannelUpdate

/-! ## Used bandwidth -/

/-- The messages and bytes of the channel to `p` in a map of updates, `0` without an entry. -/
def channelUsage (m : SortedMap ParaId HrmpChannelUpdate) (p : ParaId) : Nat × Nat :=
  ((m.get? p).map HrmpChannelUpdate.usage).getD 0

/-- The usage of a channel with an entry is the usage of the entry. -/
theorem channelUsage_of_get? {m : SortedMap ParaId HrmpChannelUpdate} {p : ParaId}
    {c : HrmpChannelUpdate} (h : m.get? p = some c) : channelUsage m p = c.usage := by
  simp [channelUsage, h]

/-- A channel without an entry has no usage. -/
theorem channelUsage_of_get?_eq_none {m : SortedMap ParaId HrmpChannelUpdate} {p : ParaId}
    (h : m.get? p = none) : channelUsage m p = 0 := by
  simp [channelUsage, h]

/-- Inserting the entry of one channel leaves the usage of every other channel. -/
theorem channelUsage_insert_of_ne (m : SortedMap ParaId HrmpChannelUpdate) {id p : ParaId}
    (c : HrmpChannelUpdate) (h : p ≠ id) : channelUsage (m.insert id c) p = channelUsage m p := by
  rw [channelUsage, SortedMap.get?_insert_of_ne _ _ h, channelUsage]

/-- `entry(id).or_default()` starts from the channel's usage. -/
theorem usage_getD_default (m : SortedMap ParaId HrmpChannelUpdate) (p : ParaId) :
    ((m.get? p).getD .default).usage = channelUsage m p := by
  cases h : m.get? p with
  | none => simp [channelUsage, h]
  | some c => simp [channelUsage, h]

/-- `retain(|_, c| !c.is_empty())` drops only what counts as nothing. -/
theorem channelUsage_filter (m : SortedMap ParaId HrmpChannelUpdate) (p : ParaId) :
    channelUsage (m.filter fun _ c => !c.isEmpty) p = channelUsage m p := by
  unfold channelUsage
  rw [SortedMap.get?_filter]
  cases h : m.get? p with
  | none => rfl
  | some c =>
    cases hc : c.isEmpty with
    | false => simp [Option.filter_some, hc]
    | true =>
      -- an empty update is `0` in numbers
      have : c.usage = 0 := by
        by_contra hne
        exact Bool.false_ne_true (HrmpChannelUpdate.isEmpty_eq_false_iff.mpr hne ▸ hc)
      simp [Option.filter_some, hc, this]

/-- Every limit is below `u32::MAX`, where a saturated sum stops. -/
structure OutboundBandwidthLimits.BelowMax (limits : OutboundBandwidthLimits) : Prop where
  umpMessagesRemaining : limits.umpMessagesRemaining.toNat < 2 ^ 32 - 1
  umpBytesRemaining : limits.umpBytesRemaining.toNat < 2 ^ 32 - 1
  hrmpOutgoing : ∀ p lim, limits.hrmpOutgoing.get? p = some lim →
    lim.messagesRemaining.toNat < 2 ^ 32 - 1 ∧ lim.bytesRemaining.toNat < 2 ^ 32 - 1

namespace UsedBandwidth

/-- `u` is the exact sum of the bandwidths `bs`: its UMP counters are the sums of theirs, and so
is every channel. -/
structure Aggregates (u : UsedBandwidth) (bs : List UsedBandwidth) : Prop where
  umpMsgCount : u.umpMsgCount.toNat = (bs.map (·.umpMsgCount.toNat)).sum
  umpTotalBytes : u.umpTotalBytes.toNat = (bs.map (·.umpTotalBytes.toNat)).sum
  hrmpOutgoing : ∀ p, channelUsage u.hrmpOutgoing p = (bs.map (channelUsage ·.hrmpOutgoing p)).sum

/-- The default bandwidth aggregates no block. -/
theorem aggregates_default : Aggregates default [] := ⟨rfl, rfl, fun _ => rfl⟩

/-- Adding `other` to `u` overflows no `u32`. -/
structure NoSaturation (u other : UsedBandwidth) : Prop where
  umpMsgCount : u.umpMsgCount.toNat + other.umpMsgCount.toNat < 2 ^ 32
  umpTotalBytes : u.umpTotalBytes.toNat + other.umpTotalBytes.toNat < 2 ^ 32
  hrmpOutgoing : ∀ p c, other.hrmpOutgoing.get? p = some c →
    (channelUsage u.hrmpOutgoing p).1 + c.msgCount.toNat < 2 ^ 32 ∧
      (channelUsage u.hrmpOutgoing p).2 + c.totalBytes.toNat < 2 ^ 32

/-- No channel has an empty update. -/
def NoEmptyEntry (u : UsedBandwidth) : Prop :=
  ∀ p c, u.hrmpOutgoing.get? p = some c → c.isEmpty = false

/-! ### `append` -/

/-- What the loop of `append` leaves when it completes: a channel of `es` gets its saturating
append, the others are as they were. -/
theorem appendChannels_get? {limits : OutboundBandwidthLimits} :
    ∀ {es : List (ParaId × HrmpChannelUpdate)} {acc acc' : SortedMap ParaId HrmpChannelUpdate},
      (es.map Prod.fst).Nodup → appendChannels limits es acc = some (.ok acc') → ∀ p,
        acc'.get? p = ((es.lookup p).map fun c =>
          ((acc.get? p).getD .default).saturatingAppend c).or (acc.get? p)
  | [], acc, acc', _, h, p => by
    cases h
    rfl
  | (id, channel) :: rest, acc, acc', hnd, h, p => by
    rw [List.map_cons, List.nodup_cons] at hnd
    unfold appendChannels at h
    split at h
    · cases h
    · cases h
    · rename_i current hcur
      obtain ⟨-, -, rfl, -⟩ := HrmpChannelUpdate.append_eq_some_ok.mp hcur
      rw [appendChannels_get? hnd.2 h p, lookup_pair_cons]
      by_cases hp : p = id
      · subst hp
        -- the channel comes once, so the rest of the loop leaves it alone
        rw [lookup_eq_none_of_not_mem hnd.1, SortedMap.get?_insert_self]
        simp
      · rw [SortedMap.get?_insert_of_ne _ _ hp, if_neg hp]

/-- The loop of `append` completes when every channel passes its checks. -/
theorem appendChannels_isOk {limits : OutboundBandwidthLimits} :
    ∀ {es : List (ParaId × HrmpChannelUpdate)} {acc : SortedMap ParaId HrmpChannelUpdate},
      (es.map Prod.fst).Nodup →
      (∀ p c, (p, c) ∈ es → ∃ lim, limits.hrmpOutgoing.get? p = some lim ∧
        (((acc.get? p).getD .default).saturatingAppend c).msgCount ≤ lim.messagesRemaining ∧
        (((acc.get? p).getD .default).saturatingAppend c).totalBytes ≤ lim.bytesRemaining) →
      ∃ acc', appendChannels limits es acc = some (.ok acc')
  | [], acc, _, _ => ⟨acc, rfl⟩
  | (id, channel) :: rest, acc, hnd, hchecks => by
    rw [List.map_cons, List.nodup_cons] at hnd
    obtain ⟨lim, hlim, hm, hb⟩ := hchecks id channel List.mem_cons_self
    have hcur : ((acc.get? id).getD .default).append channel id limits =
        some (.ok (((acc.get? id).getD .default).saturatingAppend channel)) :=
      HrmpChannelUpdate.append_eq_some_ok.mpr ⟨lim, hlim, rfl, hm, hb⟩
    unfold appendChannels
    rw [hcur]
    refine appendChannels_isOk hnd.2 fun p c hpc => ?_
    -- a later channel is another one, which the insertion did not touch
    have hp : p ≠ id := fun he => hnd.1 (he ▸ List.mem_map.mpr ⟨_, hpc, rfl⟩)
    rw [SortedMap.get?_insert_of_ne _ _ hp]
    exact hchecks p c (List.mem_cons_of_mem _ hpc)

/-- The loop of `append` does not panic when every channel it visits has its limits. -/
theorem appendChannels_isSome {limits : OutboundBandwidthLimits} :
    ∀ {es : List (ParaId × HrmpChannelUpdate)} {acc : SortedMap ParaId HrmpChannelUpdate},
      (∀ p c, (p, c) ∈ es → (limits.hrmpOutgoing.get? p).isSome) →
      (appendChannels limits es acc).isSome
  | [], _, _ => rfl
  | (id, channel) :: rest, acc, hlim => by
    have hcur := @HrmpChannelUpdate.append_isSome ((acc.get? id).getD .default) channel id limits
      (hlim id channel List.mem_cons_self)
    unfold appendChannels
    split
    · rename_i hnone
      rw [hnone] at hcur
      cases hcur
    · rfl
    · exact appendChannels_isSome fun p c hpc => hlim p c (List.mem_cons_of_mem _ hpc)

/-- A loop of `append` that completes passed the checks of every channel it visited, each
against the channel as it was before the loop. -/
theorem appendChannels_checks {limits : OutboundBandwidthLimits} :
    ∀ {es : List (ParaId × HrmpChannelUpdate)} {acc acc' : SortedMap ParaId HrmpChannelUpdate},
      (es.map Prod.fst).Nodup → appendChannels limits es acc = some (.ok acc') →
      ∀ p c, (p, c) ∈ es → ∃ lim, limits.hrmpOutgoing.get? p = some lim ∧
        (((acc.get? p).getD .default).saturatingAppend c).msgCount ≤ lim.messagesRemaining ∧
        (((acc.get? p).getD .default).saturatingAppend c).totalBytes ≤ lim.bytesRemaining
  | [], _, _, _, _, _, _, hpc => absurd hpc List.not_mem_nil
  | (id, channel) :: rest, acc, acc', hnd, h, p, c, hpc => by
    rw [List.map_cons, List.nodup_cons] at hnd
    unfold appendChannels at h
    split at h
    · cases h
    · cases h
    · rename_i current hcur
      rcases List.mem_cons.mp hpc with hpc | hpc
      · obtain ⟨rfl, rfl⟩ := Prod.mk.inj hpc
        obtain ⟨lim, hlim, rfl, hm, hb⟩ := HrmpChannelUpdate.append_eq_some_ok.mp hcur
        exact ⟨lim, hlim, hm, hb⟩
      · -- a later channel is another one, which the insertion did not touch
        have hp : p ≠ id := fun he => hnd.1 (he ▸ List.mem_map.mpr ⟨_, hpc, rfl⟩)
        have hrest := appendChannels_checks hnd.2 h p c hpc
        rwa [SortedMap.get?_insert_of_ne _ _ hp] at hrest

/-- `UsedBandwidth::append` succeeds exactly when the upward sums fit the remaining upward limits
and every channel of the block appends; the result holds the saturated sums and the appended
channels. -/
theorem append_eq_some_ok {self other u : UsedBandwidth} {limits : OutboundBandwidthLimits} :
    self.append other limits = some (.ok u) ↔
      saturatingAdd self.umpMsgCount other.umpMsgCount ≤ limits.umpMessagesRemaining ∧
      saturatingAdd self.umpTotalBytes other.umpTotalBytes ≤ limits.umpBytesRemaining ∧
      ∃ acc, appendChannels limits other.hrmpOutgoing.entries self.hrmpOutgoing = some (.ok acc) ∧
        u = ⟨saturatingAdd self.umpMsgCount other.umpMsgCount,
          saturatingAdd self.umpTotalBytes other.umpTotalBytes, acc⟩ := by
  unfold append
  by_cases hm : limits.umpMessagesRemaining < saturatingAdd self.umpMsgCount other.umpMsgCount
  · simp only [hm, if_true, Option.some.injEq, reduceCtorEq, false_iff, not_and]
    exact fun h => absurd h (BitVec.not_le.mpr hm)
  · by_cases hb : limits.umpBytesRemaining < saturatingAdd self.umpTotalBytes other.umpTotalBytes
    · simp only [hm, hb, if_true, if_false, Option.some.injEq, reduceCtorEq, false_iff, not_and]
      exact fun _ h => absurd h (BitVec.not_le.mpr hb)
    · simp only [hm, hb, if_false, BitVec.not_lt.mp hm, BitVec.not_lt.mp hb, true_and]
      constructor
      · intro h
        obtain ⟨r, hr, hu⟩ := Option.map_eq_some_iff.mp h
        cases r with
        | error e => cases hu
        | ok acc => exact ⟨acc, hr, (Except.ok.inj hu).symm⟩
      · rintro ⟨acc, hacc, rfl⟩
        rw [hacc]
        rfl

/-- **Append adds.** An append that does not saturate makes the sum of the blocks so far and the
new one. -/
theorem Aggregates.append {self other u : UsedBandwidth} {bs : List UsedBandwidth}
    {limits : OutboundBandwidthLimits} (ha : Aggregates self bs) (hsat : NoSaturation self other)
    (h : self.append other limits = some (.ok u)) : Aggregates u (bs ++ [other]) := by
  obtain ⟨-, -, acc, hacc, rfl⟩ := append_eq_some_ok.mp h
  have hget := appendChannels_get? other.hrmpOutgoing.keys_nodup hacc
  constructor
  · simp only [toNat_saturatingAdd, List.map_append, List.sum_append, List.map_singleton,
      List.sum_singleton, ← ha.umpMsgCount]
    have := hsat.umpMsgCount
    omega
  · simp only [toNat_saturatingAdd, List.map_append, List.sum_append, List.map_singleton,
      List.sum_singleton, ← ha.umpTotalBytes]
    have := hsat.umpTotalBytes
    omega
  · intro p
    rw [List.map_append, List.sum_append, List.map_singleton, List.sum_singleton,
      ← ha.hrmpOutgoing p]
    -- `other.hrmpOutgoing.entries.lookup p` is `other.hrmpOutgoing.get? p`
    change channelUsage acc p = _
    cases hp : other.hrmpOutgoing.get? p with
    | none =>
      have hacc : acc.get? p = self.hrmpOutgoing.get? p := by
        rw [hget p]
        simp [← SortedMap.get?.eq_def, hp]
      rw [channelUsage, hacc, ← channelUsage, channelUsage_of_get?_eq_none hp, add_zero]
    | some c =>
      have hacc : acc.get? p = some (((self.hrmpOutgoing.get? p).getD .default).saturatingAppend c) := by
        rw [hget p]
        simp [← SortedMap.get?.eq_def, hp]
      obtain ⟨hm, hb⟩ := hsat.hrmpOutgoing p c hp
      rw [channelUsage_of_get? hacc, channelUsage_of_get? hp,
        HrmpChannelUpdate.usage_saturatingAppend, usage_getD_default]
      · simpa [HrmpChannelUpdate.usage, ← usage_getD_default] using hm
      · simpa [HrmpChannelUpdate.usage, ← usage_getD_default] using hb

/-- Appending bandwidths without empty channel entries gives one without empty entries. -/
theorem NoEmptyEntry.append {self other u : UsedBandwidth} {limits : OutboundBandwidthLimits}
    (hself : self.NoEmptyEntry) (hother : other.NoEmptyEntry)
    (h : self.append other limits = some (.ok u)) : u.NoEmptyEntry := by
  obtain ⟨-, -, acc, hacc, rfl⟩ := append_eq_some_ok.mp h
  intro p c hc
  change acc.get? p = some c at hc
  rw [appendChannels_get? other.hrmpOutgoing.keys_nodup hacc p] at hc
  cases hp : other.hrmpOutgoing.get? p with
  | none =>
    simp only [← SortedMap.get?.eq_def, hp, Option.map_none, Option.none_or] at hc
    exact hself p c hc
  | some c' =>
    simp only [← SortedMap.get?.eq_def, hp, Option.map_some, Option.some_or,
      Option.some.injEq] at hc
    rw [← hc]
    exact HrmpChannelUpdate.isEmpty_saturatingAppend (hother p c' hp)

/-- An append whose sums stay within the limits passes its checks. -/
theorem append_isOk_of_le {self other : UsedBandwidth} {limits : OutboundBandwidthLimits}
    (hm : self.umpMsgCount.toNat + other.umpMsgCount.toNat ≤ limits.umpMessagesRemaining.toNat)
    (hb : self.umpTotalBytes.toNat + other.umpTotalBytes.toNat ≤ limits.umpBytesRemaining.toNat)
    (hch : ∀ p c, other.hrmpOutgoing.get? p = some c → ∃ lim,
      limits.hrmpOutgoing.get? p = some lim ∧
      (channelUsage self.hrmpOutgoing p).1 + c.msgCount.toNat ≤ lim.messagesRemaining.toNat ∧
      (channelUsage self.hrmpOutgoing p).2 + c.totalBytes.toNat ≤ lim.bytesRemaining.toNat) :
    ∃ u, self.append other limits = some (.ok u) := by
  have hlt := limits.umpMessagesRemaining.isLt
  have hlt' := limits.umpBytesRemaining.isLt
  obtain ⟨acc, hacc⟩ := @appendChannels_isOk limits other.hrmpOutgoing.entries self.hrmpOutgoing
    other.hrmpOutgoing.keys_nodup fun p c hpc => by
      obtain ⟨lim, hlim, hlm, hlb⟩ := hch p c (SortedMap.mem_entries_iff.mp hpc)
      have := lim.messagesRemaining.isLt
      have := lim.bytesRemaining.isLt
      refine ⟨lim, hlim, ?_, ?_⟩ <;>
        simp only [HrmpChannelUpdate.saturatingAppend, BitVec.le_def, toNat_saturatingAdd] <;>
        simp only [← usage_getD_default, HrmpChannelUpdate.usage] at hlm hlb <;> omega
  refine ⟨_, append_eq_some_ok.mpr ⟨?_, ?_, acc, hacc, rfl⟩⟩ <;>
    simp only [BitVec.le_def, toNat_saturatingAdd] <;> omega

/-- Every sum `append` checks is within its limit, over unbounded integers. -/
structure FitsLimits (u other : UsedBandwidth) (limits : OutboundBandwidthLimits) : Prop where
  umpMsgCount :
    u.umpMsgCount.toNat + other.umpMsgCount.toNat ≤ limits.umpMessagesRemaining.toNat
  umpTotalBytes :
    u.umpTotalBytes.toNat + other.umpTotalBytes.toNat ≤ limits.umpBytesRemaining.toNat
  hrmpOutgoing : ∀ p c, other.hrmpOutgoing.get? p = some c → ∃ lim,
    limits.hrmpOutgoing.get? p = some lim ∧
    (channelUsage u.hrmpOutgoing p).1 + c.msgCount.toNat ≤ lim.messagesRemaining.toNat ∧
    (channelUsage u.hrmpOutgoing p).2 + c.totalBytes.toNat ≤ lim.bytesRemaining.toNat

/-- Sums within `u32` limits do not saturate. -/
theorem FitsLimits.noSaturation {self other : UsedBandwidth} {limits : OutboundBandwidthLimits}
    (h : FitsLimits self other limits) : NoSaturation self other where
  umpMsgCount := Nat.lt_of_le_of_lt h.umpMsgCount limits.umpMessagesRemaining.isLt
  umpTotalBytes := Nat.lt_of_le_of_lt h.umpTotalBytes limits.umpBytesRemaining.isLt
  hrmpOutgoing p c hc := by
    obtain ⟨lim, -, hm, hb⟩ := h.hrmpOutgoing p c hc
    exact ⟨Nat.lt_of_le_of_lt hm lim.messagesRemaining.isLt,
      Nat.lt_of_le_of_lt hb lim.bytesRemaining.isLt⟩

/-- Bandwidths that fit the limits together append successfully. -/
theorem FitsLimits.append_isOk {self other : UsedBandwidth} {limits : OutboundBandwidthLimits}
    (h : FitsLimits self other limits) : ∃ u, self.append other limits = some (.ok u) :=
  append_isOk_of_le h.umpMsgCount h.umpTotalBytes h.hrmpOutgoing

/-- Below `u32::MAX`, the saturated checks `append` passed are the unbounded ones. -/
theorem fitsLimits_of_append {self other u : UsedBandwidth} {limits : OutboundBandwidthLimits}
    (hmax : limits.BelowMax) (h : self.append other limits = some (.ok u)) :
    FitsLimits self other limits := by
  obtain ⟨hm, hb, acc, hacc, -⟩ := append_eq_some_ok.mp h
  refine ⟨(saturatingAdd_le_iff hmax.umpMessagesRemaining).mp hm,
    (saturatingAdd_le_iff hmax.umpBytesRemaining).mp hb, fun p c hc => ?_⟩
  obtain ⟨lim, hlim, hlm, hlb⟩ := appendChannels_checks other.hrmpOutgoing.keys_nodup hacc p c
    (SortedMap.mem_entries_iff.mpr hc)
  obtain ⟨hmaxm, hmaxb⟩ := hmax.hrmpOutgoing p lim hlim
  have hused := usage_getD_default self.hrmpOutgoing p
  simp only [HrmpChannelUpdate.usage, Prod.ext_iff] at hused
  refine ⟨lim, hlim, ?_, ?_⟩
  · rw [← hused.1]
    exact (saturatingAdd_le_iff hmaxm).mp hlm
  · rw [← hused.2]
    exact (saturatingAdd_le_iff hmaxb).mp hlb

/-- An append does not panic when each of the other's channels has its limits. -/
theorem append_isSome {self other : UsedBandwidth} {limits : OutboundBandwidthLimits}
    (hrec : ∀ p c, other.hrmpOutgoing.get? p = some c → (limits.hrmpOutgoing.get? p).isSome) :
    (self.append other limits).isSome := by
  have hloop := @appendChannels_isSome limits other.hrmpOutgoing.entries self.hrmpOutgoing
    fun p c hpc => hrec p c (SortedMap.mem_entries_iff.mp hpc)
  unfold append
  dsimp only
  split_ifs
  · rfl
  · rfl
  · rw [Option.isSome_map]
    exact hloop

/-- A bandwidth aggregates itself alone. -/
theorem aggregates_singleton (u : UsedBandwidth) : Aggregates u [u] where
  umpMsgCount := by simp
  umpTotalBytes := by simp
  hrmpOutgoing p := by simp

/-! ### `subtract` -/

/-- The loop of `subtract` completes when each channel it takes off is in the accumulator with
at least as much; it then leaves every channel less what was taken off it. -/
theorem subtractChannels_eq_some :
    ∀ {es : List (ParaId × HrmpChannelUpdate)} {acc : SortedMap ParaId HrmpChannelUpdate},
      (es.map Prod.fst).Nodup →
      (∀ p c, (p, c) ∈ es → ∃ e rest, acc.get? p = some e ∧ e.usage = c.usage + rest) →
      ∃ acc', subtractChannels es acc = some acc' ∧
        ∀ p, channelUsage acc' p + ((es.lookup p).map HrmpChannelUpdate.usage).getD 0 =
          channelUsage acc p
  | [], acc, _, _ => ⟨acc, rfl, fun p => by simp⟩
  | (id, channel) :: rest, acc, hnd, hcover => by
    rw [List.map_cons, List.nodup_cons] at hnd
    obtain ⟨e, r, he, hr⟩ := hcover id channel List.mem_cons_self
    obtain ⟨e', hsub, he'⟩ := HrmpChannelUpdate.subtract_eq_some hr
    obtain ⟨acc', hacc', hget⟩ := @subtractChannels_eq_some rest (acc.insert id e') hnd.2
      fun p c hpc => by
        have hp : p ≠ id := fun he => hnd.1 (he ▸ List.mem_map.mpr ⟨_, hpc, rfl⟩)
        rw [SortedMap.get?_insert_of_ne _ _ hp]
        exact hcover p c (List.mem_cons_of_mem _ hpc)
    refine ⟨acc', ?_, fun p => ?_⟩
    · simp [subtractChannels, he, hsub, hacc']
    · have hp := hget p
      rw [lookup_pair_cons]
      by_cases hpid : p = id
      · subst hpid
        rw [lookup_eq_none_of_not_mem hnd.1, channelUsage_of_get? (SortedMap.get?_insert_self _ _ _),
          he'] at hp
        rw [if_pos rfl, channelUsage_of_get? he, hr, ← hp]
        simp [add_comm]
      · rw [channelUsage_insert_of_ne _ _ hpid] at hp
        rw [if_neg hpid, hp]

/-- **Subtract never panics on a sum.** Taking the first block off the sum of the blocks
succeeds (its channels are all there, as none is empty, and no counter underflows) and leaves
the sum of the others, without empty channels. -/
theorem Aggregates.subtract {self other : UsedBandwidth} {bs : List UsedBandwidth}
    (ha : Aggregates self (other :: bs)) (hne : other.NoEmptyEntry) :
    ∃ u, self.subtract other = some u ∧ Aggregates u bs ∧ u.NoEmptyEntry := by
  have hm := ha.umpMsgCount
  have hb := ha.umpTotalBytes
  simp only [List.map_cons, List.sum_cons] at hm hb
  obtain ⟨acc, hacc, hget⟩ := @subtractChannels_eq_some other.hrmpOutgoing.entries
    self.hrmpOutgoing other.hrmpOutgoing.keys_nodup fun p c hpc => by
      have hc := SortedMap.mem_entries_iff.mp hpc
      have hsum := ha.hrmpOutgoing p
      rw [List.map_cons, List.sum_cons, channelUsage_of_get? hc] at hsum
      -- the channel is in the sum with at least the block's non-empty update
      cases hs : self.hrmpOutgoing.get? p with
      | none =>
        rw [channelUsage_of_get?_eq_none hs] at hsum
        have : c.usage = 0 := (add_eq_zero.mp hsum.symm).1
        exact absurd this (HrmpChannelUpdate.isEmpty_eq_false_iff.mp (hne p c hc))
      | some e => exact ⟨e, _, rfl, (channelUsage_of_get? hs).symm.trans hsum⟩
  refine ⟨⟨self.umpMsgCount - other.umpMsgCount, self.umpTotalBytes - other.umpTotalBytes,
    acc.filter fun _ c => !c.isEmpty⟩, ?_, ⟨?_, ?_, fun p => ?_⟩, fun p c hc => ?_⟩
  · have hm' : other.umpMsgCount.toNat ≤ self.umpMsgCount.toNat := by omega
    have hb' : other.umpTotalBytes.toNat ≤ self.umpTotalBytes.toNat := by omega
    simp [UsedBandwidth.subtract, checkedSub_of_le hm', checkedSub_of_le hb', hacc]
  · rw [BitVec.toNat_sub_of_le (BitVec.le_def.mpr (by omega))]
    omega
  · rw [BitVec.toNat_sub_of_le (BitVec.le_def.mpr (by omega))]
    omega
  · have hsum := ha.hrmpOutgoing p
    have hp := hget p
    rw [List.map_cons, List.sum_cons] at hsum
    change channelUsage (acc.filter fun _ c => !c.isEmpty) p = _
    rw [channelUsage_filter]
    -- `other.hrmpOutgoing.entries.lookup p` is `other.hrmpOutgoing.get? p`
    change channelUsage acc p + channelUsage other.hrmpOutgoing p = _ at hp
    rw [hsum, add_comm] at hp
    exact add_left_cancel hp
  · change (acc.filter fun _ c => !c.isEmpty).get? p = some c at hc
    rw [SortedMap.get?_filter] at hc
    obtain ⟨-, hc⟩ := Option.filter_eq_some_iff.mp hc
    simpa using hc

end UsedBandwidth

/-! ## The tracker -/

namespace SegmentTracker

variable {P : Type}

/-- The go-ahead signals the ancestors consumed, in segment order. -/
def signals (seg : List (Ancestor P)) : List UpgradeGoAhead :=
  seg.filterMap (·.consumedGoAheadSignal)

/-- **The tracker is the aggregate of exactly the ancestors `seg`**: its bandwidth is their sum,
no channel of it or of an ancestor is empty, and at most one ancestor consumed a go-ahead
signal, which is then the tracker's. -/
structure Tracks (T : SegmentTracker) (seg : List (Ancestor P)) : Prop where
  usedBandwidth : T.usedBandwidth.Aggregates (seg.map (·.usedBandwidth))
  noEmptyEntry : T.usedBandwidth.NoEmptyEntry
  ancestorsNoEmptyEntry : ∀ a ∈ seg, a.usedBandwidth.NoEmptyEntry
  signalsLength : (signals seg).length ≤ 1
  consumedGoAheadSignal : T.consumedGoAheadSignal = (signals seg).head?

/-- The default tracker tracks the empty segment. -/
theorem tracks_default : Tracks default ([] : List (Ancestor P)) where
  usedBandwidth := UsedBandwidth.aggregates_default
  noEmptyEntry _ _ h := by simp [SegmentTracker.default, UsedBandwidth.default] at h
  ancestorsNoEmptyEntry := by simp
  signalsLength := by simp [signals]
  consumedGoAheadSignal := rfl

/-- The tracker holds a signal exactly when one ancestor, and only one, consumed it. -/
theorem Tracks.consumedGoAheadSignal_eq_some_iff {T : SegmentTracker} {seg : List (Ancestor P)}
    (ht : Tracks T seg) (x : UpgradeGoAhead) :
    T.consumedGoAheadSignal = some x ↔ signals seg = [x] := by
  rw [ht.consumedGoAheadSignal]
  have hlen := ht.signalsLength
  constructor
  · intro h
    match hs : signals seg, hlen with
    | [], _ => simp [hs] at h
    | [y], _ => simpa [hs] using h
    | _ :: _ :: _, hlen => simp at hlen
  · intro h
    rw [h]
    rfl

/-- `SegmentTracker::append` succeeds exactly when no second go-ahead signal is consumed, the
watermark advances and the bandwidths append; the tracker then holds the appended bandwidth, the new
watermark and the signal. -/
theorem append_eq_some_ok {T T' : SegmentTracker} {block : Ancestor P}
    {newWatermark : HrmpWatermarkUpdate} {limits : OutboundBandwidthLimits} :
    T.append block newWatermark limits = some (.ok T') ↔
      ¬(T.consumedGoAheadSignal.isSome ∧ block.consumedGoAheadSignal.isSome) ∧
      watermarkError T.hrmpWatermark newWatermark = none ∧
      ∃ u, T.usedBandwidth.append block.usedBandwidth limits = some (.ok u) ∧
        T' = ⟨u, some newWatermark.value,
          block.consumedGoAheadSignal.or T.consumedGoAheadSignal⟩ := by
  unfold append
  by_cases hs : T.consumedGoAheadSignal.isSome && block.consumedGoAheadSignal.isSome
  · simp only [hs, if_true, Option.some.injEq, reduceCtorEq, false_iff]
    simp only [Bool.and_eq_true] at hs
    rintro ⟨h, -⟩
    exact h hs
  · simp only [Bool.and_eq_true] at hs
    simp only [Bool.and_eq_true, hs, if_false, not_false_eq_true, true_and]
    cases hw : watermarkError T.hrmpWatermark newWatermark with
    | some e => simp
    | none =>
      simp only [true_and]
      constructor
      · intro h
        obtain ⟨r, hr, hu⟩ := Option.map_eq_some_iff.mp h
        cases r with
        | error e => cases hu
        | ok u => exact ⟨u, hr, (Except.ok.inj hu).symm⟩
      · rintro ⟨u, hu, rfl⟩
        rw [hu]
        rfl

/-- The signals of a segment with a block appended are those of the segment, then the block's. -/
theorem signals_append (seg : List (Ancestor P)) (block : Ancestor P) :
    signals (seg ++ [block]) = signals seg ++ block.consumedGoAheadSignal.toList := by
  cases h : block.consumedGoAheadSignal <;> simp [signals, List.filterMap_append, h]

/-- The signals of a segment with a block in front are the block's, then those of the segment. -/
theorem signals_cons (block : Ancestor P) (seg : List (Ancestor P)) :
    signals (block :: seg) = block.consumedGoAheadSignal.toList ++ signals seg := by
  cases h : block.consumedGoAheadSignal <;> simp [signals, h]

/-- The signal check of `append` keeps at most one signal in the segment, the tracker's. -/
theorem signals_append_of_not_both {T : SegmentTracker} {seg : List (Ancestor P)}
    {block : Ancestor P} (hT : T.consumedGoAheadSignal = (signals seg).head?)
    (hlen : (signals seg).length ≤ 1)
    (hsig : ¬(T.consumedGoAheadSignal.isSome ∧ block.consumedGoAheadSignal.isSome)) :
    (signals (seg ++ [block])).length ≤ 1 ∧
      block.consumedGoAheadSignal.or T.consumedGoAheadSignal = (signals (seg ++ [block])).head? := by
  rw [signals_append]
  cases hb : block.consumedGoAheadSignal with
  | none => simpa [hT] using hlen
  | some x =>
    -- the tracker holds no signal, so no ancestor consumed one
    have hnone : T.consumedGoAheadSignal = none := by simpa [hb] using hsig
    have hnil : signals seg = [] := List.head?_eq_none_iff.mp (hT ▸ hnone)
    simp [hnil, hnone]

/-- **The append step.** An append that does not saturate, of a block without empty channels,
makes the tracker of the segment with the block at its end. -/
theorem Tracks.append {T T' : SegmentTracker} {seg : List (Ancestor P)} {block : Ancestor P}
    {newWatermark : HrmpWatermarkUpdate} {limits : OutboundBandwidthLimits} (ht : Tracks T seg)
    (hsat : T.usedBandwidth.NoSaturation block.usedBandwidth)
    (hblock : block.usedBandwidth.NoEmptyEntry)
    (h : T.append block newWatermark limits = some (.ok T')) : Tracks T' (seg ++ [block]) := by
  obtain ⟨hsig, -, u, hu, rfl⟩ := append_eq_some_ok.mp h
  obtain ⟨hlen, hcons⟩ :=
    signals_append_of_not_both ht.consumedGoAheadSignal ht.signalsLength hsig
  refine ⟨?_, ht.noEmptyEntry.append hblock hu, ?_, hlen, hcons⟩
  · rw [List.map_append, List.map_singleton]
    exact ht.usedBandwidth.append hsat hu
  · intro a ha
    rcases List.mem_append.mp ha with ha | ha
    · exact ht.ancestorsNoEmptyEntry a ha
    · rw [List.mem_singleton.mp ha]
      exact hblock

/-- **The subtract step.** Taking the first ancestor off its tracker never panics (no underflow,
every channel there, the go-ahead assertion holds) and leaves the tracker of the others. -/
theorem Tracks.subtract {T : SegmentTracker} {block : Ancestor P} {seg : List (Ancestor P)}
    (ht : Tracks T (block :: seg)) : ∃ T', T.subtract block = some T' ∧ Tracks T' seg := by
  have ha := ht.usedBandwidth
  rw [List.map_cons] at ha
  obtain ⟨u, hu, hau, hneu⟩ :=
    ha.subtract (ht.ancestorsNoEmptyEntry block List.mem_cons_self)
  have hlen := ht.signalsLength
  have hcons := ht.consumedGoAheadSignal
  rw [signals_cons] at hlen hcons
  have hrest : ∀ a ∈ seg, a.usedBandwidth.NoEmptyEntry :=
    fun a ha => ht.ancestorsNoEmptyEntry a (List.mem_cons_of_mem _ ha)
  cases hb : block.consumedGoAheadSignal with
  | none =>
    refine ⟨{ T with usedBandwidth := u }, by simp [SegmentTracker.subtract, hu, hb],
      hau, hneu, hrest, by simpa [hb] using hlen, by simpa [hb] using hcons⟩
  | some x =>
    -- the block consumed the segment's only signal
    have hnil : signals seg = [] := by
      simp only [hb, Option.toList_some, List.singleton_append, List.length_cons] at hlen
      exact List.eq_nil_of_length_eq_zero (by omega)
    have hT : T.consumedGoAheadSignal = some x := by simpa [hb] using hcons
    refine ⟨{ T with usedBandwidth := u, consumedGoAheadSignal := none },
      by simp [SegmentTracker.subtract, hu, hb, hT], hau, hneu, hrest, by simp [hnil],
      by simp [hnil]⟩

/-- An append passes every check when the go-ahead signal is not consumed twice, the watermark
check passes and every sum stays within its limit. -/
theorem append_isOk_of_le {T : SegmentTracker} {block : Ancestor P}
    {newWatermark : HrmpWatermarkUpdate} {limits : OutboundBandwidthLimits}
    (hsig : ¬(T.consumedGoAheadSignal.isSome ∧ block.consumedGoAheadSignal.isSome))
    (hwm : watermarkError T.hrmpWatermark newWatermark = none)
    (hm : T.usedBandwidth.umpMsgCount.toNat + block.usedBandwidth.umpMsgCount.toNat ≤
      limits.umpMessagesRemaining.toNat)
    (hb : T.usedBandwidth.umpTotalBytes.toNat + block.usedBandwidth.umpTotalBytes.toNat ≤
      limits.umpBytesRemaining.toNat)
    (hch : ∀ p c, block.usedBandwidth.hrmpOutgoing.get? p = some c → ∃ lim,
      limits.hrmpOutgoing.get? p = some lim ∧
      (channelUsage T.usedBandwidth.hrmpOutgoing p).1 + c.msgCount.toNat ≤
        lim.messagesRemaining.toNat ∧
      (channelUsage T.usedBandwidth.hrmpOutgoing p).2 + c.totalBytes.toNat ≤
        lim.bytesRemaining.toNat) :
    ∃ T', T.append block newWatermark limits = some (.ok T') := by
  obtain ⟨u, hu⟩ := UsedBandwidth.append_isOk_of_le hm hb hch
  exact ⟨_, append_eq_some_ok.mpr ⟨hsig, hwm, u, hu, rfl⟩⟩

/-! ### Exactness of `append` -/

/-- The watermark check fails exactly on a trunk update at or below the last watermark. -/
theorem watermarkError_isSome_iff {latest : Option RelayBlockNumber}
    {update : HrmpWatermarkUpdate} :
    (watermarkError latest update).isSome ↔
      ∃ w v, update = .trunk w ∧ latest = some v ∧ w ≤ v := by
  cases latest with
  | none => simp [watermarkError]
  | some v =>
    cases update with
    | head n => simp [watermarkError]
    | trunk n =>
      by_cases h : n ≤ v
      · simp [watermarkError, h]
      · simp [watermarkError, h]

/-- `SegmentTracker::append` does not panic when every channel the block uses has a limit. -/
theorem append_isSome {T : SegmentTracker} {block : Ancestor P}
    {newWatermark : HrmpWatermarkUpdate} {limits : OutboundBandwidthLimits}
    (hrec : ∀ p c, block.usedBandwidth.hrmpOutgoing.get? p = some c →
      (limits.hrmpOutgoing.get? p).isSome) :
    (T.append block newWatermark limits).isSome := by
  unfold append
  split_ifs
  · rfl
  · split
    · rfl
    · rw [Option.isSome_map]
      exact UsedBandwidth.append_isSome hrec

/-- An append that returns something returns an error exactly when it does not pass. -/
theorem exists_error_iff_not_ok {T : SegmentTracker} {block : Ancestor P}
    {newWatermark : HrmpWatermarkUpdate} {limits : OutboundBandwidthLimits}
    (h : (T.append block newWatermark limits).isSome) :
    (∃ e, T.append block newWatermark limits = some (.error e)) ↔
      ¬∃ T', T.append block newWatermark limits = some (.ok T') := by
  obtain ⟨r, hr⟩ := Option.isSome_iff_exists.mp h
  rw [hr]
  cases r with
  | error e => simp
  | ok T' => simp

/-- With the limits below `u32::MAX`, an append passes exactly when neither the signal check
nor the watermark check fails and its sums fit. -/
theorem append_isOk_iff {T : SegmentTracker} {block : Ancestor P}
    {newWatermark : HrmpWatermarkUpdate} {limits : OutboundBandwidthLimits}
    (hmax : limits.BelowMax) :
    (∃ T', T.append block newWatermark limits = some (.ok T')) ↔
      ¬(T.consumedGoAheadSignal.isSome ∧ block.consumedGoAheadSignal.isSome) ∧
      ¬(∃ w v, newWatermark = .trunk w ∧ T.hrmpWatermark = some v ∧ w ≤ v) ∧
      T.usedBandwidth.FitsLimits block.usedBandwidth limits := by
  constructor
  · rintro ⟨T', h⟩
    obtain ⟨hsig, hwm, u, hu, -⟩ := append_eq_some_ok.mp h
    have hwm' : ¬(watermarkError T.hrmpWatermark newWatermark).isSome := by simp [hwm]
    exact ⟨hsig, watermarkError_isSome_iff.not.mp hwm',
      UsedBandwidth.fitsLimits_of_append hmax hu⟩
  · rintro ⟨hsig, hwm, hfit⟩
    obtain ⟨u, hu⟩ := hfit.append_isOk
    have hwm' := Option.not_isSome_iff_eq_none.mp (watermarkError_isSome_iff.not.mpr hwm)
    exact ⟨_, append_eq_some_ok.mpr ⟨hsig, hwm', u, hu, rfl⟩⟩

/-- **`append` is all or nothing, and exact.** When every recipient of the block has its limits
and every limit is below `u32::MAX`, `append` does not panic; it fails exactly when the tracker
and the block both consumed a go-ahead signal, when a trunk watermark does not advance, or when
some sum over unbounded integers is above its limit; and when it passes, its bandwidth is the
exact sum of the two, each sum it checked is within its limit, the watermark is the update's and
the signal the block's, if any. A failed append returns no tracker, so the caller keeps the old
one. -/
theorem append_exact {T : SegmentTracker} {block : Ancestor P}
    {newWatermark : HrmpWatermarkUpdate} {limits : OutboundBandwidthLimits}
    (hrec : ∀ p c, block.usedBandwidth.hrmpOutgoing.get? p = some c →
      (limits.hrmpOutgoing.get? p).isSome)
    (hmax : limits.BelowMax) :
    (T.append block newWatermark limits).isSome ∧
    ((∃ e, T.append block newWatermark limits = some (.error e)) ↔
      (T.consumedGoAheadSignal.isSome ∧ block.consumedGoAheadSignal.isSome) ∨
      (∃ w v, newWatermark = .trunk w ∧ T.hrmpWatermark = some v ∧ w ≤ v) ∨
      ¬T.usedBandwidth.FitsLimits block.usedBandwidth limits) ∧
    ∀ T', T.append block newWatermark limits = some (.ok T') →
      T'.usedBandwidth.Aggregates [T.usedBandwidth, block.usedBandwidth] ∧
      T'.usedBandwidth.umpMsgCount ≤ limits.umpMessagesRemaining ∧
      T'.usedBandwidth.umpTotalBytes ≤ limits.umpBytesRemaining ∧
      (∀ p c, block.usedBandwidth.hrmpOutgoing.get? p = some c → ∃ lim,
        limits.hrmpOutgoing.get? p = some lim ∧
        (channelUsage T'.usedBandwidth.hrmpOutgoing p).1 ≤ lim.messagesRemaining.toNat ∧
        (channelUsage T'.usedBandwidth.hrmpOutgoing p).2 ≤ lim.bytesRemaining.toNat) ∧
      T'.hrmpWatermark = some newWatermark.value ∧
      T'.consumedGoAheadSignal = block.consumedGoAheadSignal.or T.consumedGoAheadSignal := by
  have hsome : (T.append block newWatermark limits).isSome := append_isSome hrec
  refine ⟨hsome, ?_, fun T' h => ?_⟩
  · rw [exists_error_iff_not_ok hsome, append_isOk_iff hmax]
    constructor
    · intro h
      by_contra hn
      exact h ⟨fun hs => hn (.inl hs), fun hw => hn (.inr (.inl hw)),
        Classical.byContradiction fun hf => hn (.inr (.inr hf))⟩
    · rintro (hs | hw | hf) ⟨hns, hnw, hfit⟩
      exacts [hns hs, hnw hw, hf hfit]
  · obtain ⟨-, -, u, hu, rfl⟩ := append_eq_some_ok.mp h
    have hfit := UsedBandwidth.fitsLimits_of_append hmax hu
    have hagg := (UsedBandwidth.aggregates_singleton T.usedBandwidth).append hfit.noSaturation hu
    obtain ⟨hm, hb, acc, -, hu'⟩ := UsedBandwidth.append_eq_some_ok.mp hu
    refine ⟨hagg, by rw [hu']; exact hm, by rw [hu']; exact hb, fun p c hc => ?_, rfl, rfl⟩
    obtain ⟨lim, hlim, hlm, hlb⟩ := hfit.hrmpOutgoing p c hc
    have hsum : channelUsage u.hrmpOutgoing p =
        channelUsage T.usedBandwidth.hrmpOutgoing p + c.usage := by
      rw [hagg.hrmpOutgoing p, ← channelUsage_of_get? hc]
      simp
    refine ⟨lim, hlim, ?_, ?_⟩
    · rw [hsum]
      exact hlm
    · rw [hsum]
      exact hlb

/-- A tracker whose UMP message count is at `u32::MAX`. -/
def saturatedTracker : SegmentTracker := ⟨⟨BitVec.allOnes 32, 0, .empty⟩, none, none⟩

/-- An ancestor that sent one upward message. -/
def oneMessageAncestor : Ancestor Unit := ⟨⟨1, 0, .empty⟩, none, none⟩

/-- Limits at `u32::MAX`. -/
def maxLimits : OutboundBandwidthLimits := ⟨BitVec.allOnes 32, BitVec.allOnes 32, .empty⟩

/-- At `u32::MAX` the saturated check lets a sum above its limit through: the UMP count
`(2^32 - 1) + 1` saturates back to the limit, and the append passes with a count that is not
the sum. -/
theorem append_saturates_at_max :
    ∃ T', saturatedTracker.append oneMessageAncestor (.head 0) maxLimits = some (.ok T') ∧
      maxLimits.umpMessagesRemaining.toNat <
        saturatedTracker.usedBandwidth.umpMsgCount.toNat +
          oneMessageAncestor.usedBandwidth.umpMsgCount.toNat ∧
      ¬T'.usedBandwidth.Aggregates
        [saturatedTracker.usedBandwidth, oneMessageAncestor.usedBandwidth] := by
  refine ⟨_, rfl, by decide, fun ha => ?_⟩
  have h := ha.umpMsgCount
  revert h
  decide

/-- A tracker with a watermark and one channel, and a block that adds to the channel and
consumes a go-ahead signal, within limits of `10`. -/
def channelTracker : SegmentTracker := ⟨⟨1, 2, SortedMap.ofList [(7, ⟨1, 3⟩)]⟩, some 4, none⟩

/-- The block of `append_exact_channel`: one message of one byte to para `7`, and a go-ahead signal
consumed. -/
def channelAncestor : Ancestor Unit :=
  ⟨⟨1, 1, SortedMap.ofList [(7, ⟨1, 1⟩)]⟩, none, some .goAhead⟩

/-- Limits of `10` messages and bytes upward and over the channel to para `7`. -/
def channelLimits : OutboundBandwidthLimits := ⟨10, 10, SortedMap.ofList [(7, ⟨10, 10⟩)]⟩

/-- The tracker step on `channelTracker` and `channelAncestor`: it does not panic, it errs exactly
when a check of the source fails, and on success the tracker aggregates both bandwidths within the
limits. -/
theorem append_exact_channel :
    (∀ p c, channelAncestor.usedBandwidth.hrmpOutgoing.get? p = some c →
      (channelLimits.hrmpOutgoing.get? p).isSome) ∧
    channelLimits.BelowMax ∧
    (channelTracker.append channelAncestor (.trunk 5) channelLimits).isSome ∧
    ((∃ e, channelTracker.append channelAncestor (.trunk 5) channelLimits = some (.error e)) ↔
      (channelTracker.consumedGoAheadSignal.isSome ∧
        channelAncestor.consumedGoAheadSignal.isSome) ∨
      (∃ w v, HrmpWatermarkUpdate.trunk 5 = .trunk w ∧ channelTracker.hrmpWatermark = some v ∧
        w ≤ v) ∨
      ¬channelTracker.usedBandwidth.FitsLimits channelAncestor.usedBandwidth channelLimits) ∧
    ∀ T', channelTracker.append channelAncestor (.trunk 5) channelLimits = some (.ok T') →
      T'.usedBandwidth.Aggregates [channelTracker.usedBandwidth, channelAncestor.usedBandwidth] ∧
      T'.usedBandwidth.umpMsgCount ≤ channelLimits.umpMessagesRemaining ∧
      T'.usedBandwidth.umpTotalBytes ≤ channelLimits.umpBytesRemaining ∧
      (∀ p c, channelAncestor.usedBandwidth.hrmpOutgoing.get? p = some c → ∃ lim,
        channelLimits.hrmpOutgoing.get? p = some lim ∧
        (channelUsage T'.usedBandwidth.hrmpOutgoing p).1 ≤ lim.messagesRemaining.toNat ∧
        (channelUsage T'.usedBandwidth.hrmpOutgoing p).2 ≤ lim.bytesRemaining.toNat) ∧
      T'.hrmpWatermark = some (HrmpWatermarkUpdate.trunk 5).value ∧
      T'.consumedGoAheadSignal =
        channelAncestor.consumedGoAheadSignal.or channelTracker.consumedGoAheadSignal := by
  have hrec : ∀ p c, channelAncestor.usedBandwidth.hrmpOutgoing.get? p = some c →
      (channelLimits.hrmpOutgoing.get? p).isSome := by
    intro p c h
    obtain ⟨rfl, -⟩ := Prod.mk.inj (List.mem_singleton.mp (SortedMap.mem_of_get?_ofList h))
    rfl
  have hmax : channelLimits.BelowMax := by
    refine ⟨by decide, by decide, fun p lim h => ?_⟩
    obtain ⟨-, rfl⟩ := Prod.mk.inj (List.mem_singleton.mp (SortedMap.mem_of_get?_ofList h))
    decide
  exact ⟨hrec, hmax, append_exact hrec hmax⟩

end SegmentTracker

end Cumulus.ParachainSystem
