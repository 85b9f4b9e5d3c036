import Cumulus.ParachainSystem.Block
import Mathlib.Data.List.Sort

/-!
# parachain-system: the dispatch of inbound horizontal messages

`process_inbound_horizontal_messages` flattens the messages of the inherent sender by sender,
sorts them by `sent_at` and then by sender with the stable `sort_by`, dispatches them in that
order and stores as the HRMP watermark the largest `sent_at` it met.

* `dispatchedBefore` is total and transitive, so the sort leaves the messages in dispatch order;
* `filter_dispatchOrder` — the sort is stable: each sender's messages keep the order of the
  inherent, provided that order is by `sent_at`;
* `hrmpWatermarkLoop_spec` — the watermark loop computes the largest `sent_at`;
* `processInboundHorizontalMessages_dispatch` — what the handler is given, and the watermark.
-/

namespace Cumulus.ParachainSystem

open Cumulus.Primitives Cumulus.Found

variable {P H : Type}

/-! ## The dispatch order -/

-- `omega` does not read `ParaId` as `Nat`, so the sender comparisons are taken apart by hand
instance : Std.Total dispatchedBefore where
  total a b := by
    simp only [dispatchedBefore, BitVec.lt_def, ← BitVec.toNat_inj]
    rcases Nat.lt_trichotomy a.2.sentAt.toNat b.2.sentAt.toNat with h | h | h
    · exact .inl (.inl h)
    · rcases Nat.le_total a.1 b.1 with h' | h'
      · exact .inl (.inr ⟨h, h'⟩)
      · exact .inr (.inr ⟨h.symm, h'⟩)
    · exact .inr (.inl h)

instance : IsTrans (ParaId × InboundHrmpMessage) dispatchedBefore where
  trans a b c hab hbc := by
    simp only [dispatchedBefore, BitVec.lt_def, ← BitVec.toNat_inj] at hab hbc ⊢
    rcases hab with hab | ⟨hab, hab'⟩ <;> rcases hbc with hbc | ⟨hbc, hbc'⟩
    · exact .inl (Nat.lt_trans hab hbc)
    · exact .inl (hbc ▸ hab)
    · exact .inl (hab ▸ hbc)
    · exact .inr ⟨hab.trans hbc, Nat.le_trans hab' hbc'⟩

/-- One sender's messages, by `sent_at`, are in dispatch order. -/
theorem pairwise_dispatchedBefore_map {sender : ParaId} {messages : List InboundHrmpMessage}
    (h : messages.Pairwise fun a b => a.sentAt ≤ b.sentAt) :
    (messages.map (sender, ·)).Pairwise dispatchedBefore := by
  rw [List.pairwise_map]
  refine h.imp fun {a b} hab => ?_
  simp only [dispatchedBefore, BitVec.lt_def, ← BitVec.toNat_inj]
  rw [BitVec.le_def] at hab
  rcases Nat.lt_or_eq_of_le hab with h | h
  · exact .inl h
  · exact .inr ⟨h, Nat.le_refl _⟩

/-- The flattened messages of one sender are its list. -/
theorem filter_flatMap_sender : ∀ {l : List (ParaId × List InboundHrmpMessage)},
    (l.map Prod.fst).Nodup → ∀ p : ParaId,
      (l.flatMap fun (sender, messages) => messages.map (sender, ·)).filter (·.1 == p) =
        ((l.lookup p).getD []).map (p, ·)
  | [], _, p => rfl
  | (q, messages) :: rest, hnd, p => by
    rw [List.map_cons, List.nodup_cons] at hnd
    rw [List.flatMap_cons, List.filter_append, filter_flatMap_sender hnd.2 p, lookup_pair_cons,
      List.filter_map]
    by_cases hq : p = q
    · -- the sender has no other entry
      subst hq
      have hnone := lookup_eq_none_of_not_mem hnd.1
      simp [hnone, Function.comp_def]
    · have hqp : (q == p) = false := beq_false_of_ne (Ne.symm hq)
      simp [hq, hqp, Function.comp_def]

/-- The flattened horizontal messages of one sender are that sender's messages, in order. -/
theorem filter_flattenHorizontal (horizontal : SortedMap ParaId (List InboundHrmpMessage))
    (p : ParaId) :
    (flattenHorizontal horizontal).filter (·.1 == p) = ((horizontal.get? p).getD []).map (p, ·) :=
  filter_flatMap_sender horizontal.keys_nodup p

/-- **The sort is stable.** When each sender's messages are by `sent_at`, the dispatched
messages of a sender are exactly its messages, in their order. -/
theorem filter_dispatchOrder {horizontal : SortedMap ParaId (List InboundHrmpMessage)}
    (hsorted : ∀ sender messages, horizontal.get? sender = some messages →
      messages.Pairwise fun a b => a.sentAt ≤ b.sentAt) (p : ParaId) :
    ((flattenHorizontal horizontal).insertionSort dispatchedBefore).filter (·.1 == p) =
      ((horizontal.get? p).getD []).map (p, ·) := by
  set mine := ((horizontal.get? p).getD []).map (p, ·)
  have hmine : mine.Pairwise dispatchedBefore := by
    apply pairwise_dispatchedBefore_map
    cases hp : horizontal.get? p with
    | none => exact List.Pairwise.nil
    | some messages => exact hsorted p messages hp
  -- the sender's messages are a sublist of the sorted list, all of whose messages from the
  -- sender they are, and there are as many of them
  have hsub : List.Sublist mine ((flattenHorizontal horizontal).insertionSort dispatchedBefore) := by
    refine List.sublist_insertionSort hmine ?_
    rw [show mine = _ from (filter_flattenHorizontal horizontal p).symm]
    exact List.filter_sublist
  have hself : mine.filter (·.1 == p) = mine := by
    rw [List.filter_eq_self]
    intro m hm
    obtain ⟨x, -, rfl⟩ := List.mem_map.mp hm
    exact beq_self_eq_true p
  have hlen : mine.length =
      (((flattenHorizontal horizontal).insertionSort dispatchedBefore).filter (·.1 == p)).length := by
    rw [((List.perm_insertionSort dispatchedBefore _).filter _).length_eq,
      filter_flattenHorizontal]
  exact ((hself ▸ hsub.filter fun m : ParaId × InboundHrmpMessage => m.1 == p).eq_of_length
    hlen).symm

/-! ## The watermark -/

/-- One message of the watermark loop: the watermark becomes the larger of the old one and the
message's `sent_at`. -/
theorem hrmpWatermarkLoop_cons (watermark : Option RelayBlockNumber) (sender : ParaId)
    (message : InboundHrmpMessage) (rest : List (ParaId × InboundHrmpMessage)) :
    ∃ b, hrmpWatermarkLoop watermark ((sender, message) :: rest) = hrmpWatermarkLoop (some b) rest ∧
      message.sentAt ≤ b ∧ (∀ v, watermark = some v → v ≤ b) ∧
      (watermark = some b ∨ b = message.sentAt) := by
  rw [hrmpWatermarkLoop]
  cases watermark with
  | none => exact ⟨message.sentAt, by simp, BitVec.le_refl _, by simp, .inr rfl⟩
  | some v =>
    by_cases hlt : v < message.sentAt
    · refine ⟨message.sentAt, by simp [hlt], BitVec.le_refl _, ?_, .inr rfl⟩
      rintro v' ⟨⟩
      exact BitVec.le_of_lt hlt
    · refine ⟨v, by simp [hlt], BitVec.not_lt.mp hlt, ?_, .inl rfl⟩
      rintro v' ⟨⟩
      exact BitVec.le_refl _

/-- **The watermark loop computes the largest `sent_at`**, starting from the watermark it is
given, whenever it has one or a message. -/
theorem hrmpWatermarkLoop_spec :
    ∀ (l : List (ParaId × InboundHrmpMessage)) (watermark : Option RelayBlockNumber),
      watermark.isSome ∨ l ≠ [] → ∃ r, hrmpWatermarkLoop watermark l = some r ∧
        (∀ v, watermark = some v → v ≤ r) ∧ (∀ m ∈ l, m.2.sentAt ≤ r) ∧
        (watermark = some r ∨ ∃ m ∈ l, m.2.sentAt = r)
  | [], some v, _ => ⟨v, rfl, fun v' hv => by cases hv; exact BitVec.le_refl _, by simp, .inl rfl⟩
  | [], none, hne => by simp at hne
  | (sender, message) :: rest, watermark, _ => by
    obtain ⟨b, hstep, hmb, hwb, hb⟩ := hrmpWatermarkLoop_cons watermark sender message rest
    obtain ⟨r, hr, hbr, hrest, hattained⟩ := hrmpWatermarkLoop_spec rest (some b) (.inl rfl)
    have hbr := hbr b rfl
    refine ⟨r, hstep.trans hr, fun v hv => BitVec.le_trans (hwb v hv) hbr, ?_, ?_⟩
    · intro m hm
      rcases List.mem_cons.mp hm with rfl | hm
      · exact BitVec.le_trans hmb hbr
      · exact hrest m hm
    · rcases hattained with hbr' | ⟨m, hm, hmr⟩
      · -- the largest is the one this message left
        cases hbr'
        rcases hb with hw | rfl
        · exact .inl hw
        · exact .inr ⟨(sender, message), List.mem_cons_self, rfl⟩
      · exact .inr ⟨m, List.mem_cons_of_mem _ hm, hmr⟩

/-! ## What the handler is given -/

/-- **Dispatch order and watermark of inbound HRMP.** When each sender's messages are by
`sent_at`, a completed `process_inbound_horizontal_messages` gives the handler all the messages,
sorted by `sent_at` and then by sender, each sender's in their order, and stores as the watermark
the largest `sent_at`, or the relay parent's number when there is no message. -/
theorem processInboundHorizontalMessages_dispatch [DecidableEq H] {hs : HashScheme H}
    {s s' : SystemState P H} {ingress : List (ParaId × AbridgedHrmpChannel H)}
    {horizontal : SortedMap ParaId (List InboundHrmpMessage)} {relayParentNumber : RelayBlockNumber}
    {passed : List (ParaId × InboundHrmpMessage)}
    (hsorted : ∀ sender messages, horizontal.get? sender = some messages →
      messages.Pairwise fun a b => a.sentAt ≤ b.sentAt)
    (h : processInboundHorizontalMessages hs s ingress horizontal relayParentNumber =
      some (s', passed)) :
    passed.Perm (flattenHorizontal horizontal) ∧
    passed.Pairwise dispatchedBefore ∧
    (∀ sender, (passed.filter (·.1 == sender)).map (·.2) = (horizontal.get? sender).getD []) ∧
    (flattenHorizontal horizontal = [] → s'.hrmpWatermark = relayParentNumber) ∧
    (∀ m ∈ flattenHorizontal horizontal, m.2.sentAt ≤ s'.hrmpWatermark) ∧
    (flattenHorizontal horizontal ≠ [] →
      ∃ m ∈ flattenHorizontal horizontal, m.2.sentAt = s'.hrmpWatermark) := by
  obtain ⟨rfl, -, -, hs'⟩ := processInboundHorizontalMessages_spec h
  have hperm := List.perm_insertionSort dispatchedBefore (flattenHorizontal horizontal)
  have hwm : s'.hrmpWatermark = (hrmpWatermarkLoop none
      ((flattenHorizontal horizontal).insertionSort dispatchedBefore)).getD relayParentNumber := by
    rw [hs']
  refine ⟨hperm, List.pairwise_insertionSort _ _, fun sender => ?_, fun hnil => ?_, ?_⟩
  · rw [filter_dispatchOrder hsorted sender, List.map_map]
    exact List.map_id _
  · rw [hwm, List.perm_nil.mp (hperm.trans (List.Perm.of_eq hnil))]
    rfl
  · -- with a message, the loop has a watermark: the largest `sent_at`
    by_cases hnil : flattenHorizontal horizontal = []
    · simp [hnil]
    · obtain ⟨r, hr, -, hle, hattained⟩ := hrmpWatermarkLoop_spec _ none
        (.inr fun h => hnil (List.perm_nil.mp (h ▸ hperm.symm)))
      rw [hwm, hr, Option.getD_some]
      refine ⟨fun m hm => hle m (hperm.mem_iff.mpr hm), fun _ => ?_⟩
      obtain ⟨m, hm, hmr⟩ := hattained.resolve_left (by simp)
      exact ⟨m, hperm.mem_iff.mp hm, hmr⟩

/-- A hash scheme to follow chains by hand in examples: not a hash, but every step is visible. -/
def sumHash : HashScheme Nat := ⟨0, fun h n d => 2 * h + n.toNat + d, fun data => data.length⟩

/-- Two senders: the message of sender 2 sent at 4 goes between sender 1's at 3 and at 5. -/
def twoSenders : SortedMap ParaId (List InboundHrmpMessage) :=
  .ofList [(2, [⟨4, [1]⟩]), (1, [⟨3, []⟩, ⟨5, [7, 7]⟩])]

/-- The ingress channels of `twoSenders`, with the heads their messages lead to. -/
def twoSendersIngress : List (ParaId × AbridgedHrmpChannel Nat) :=
  [(1, ⟨10, 100, 10, 2, 3, some 13⟩), (2, ⟨10, 100, 10, 1, 1, some 5⟩)]

/-- Two senders with sorted messages: every message is dispatched once, in `(sent_at, sender)` order
and each sender's in order, and the watermark is the last `sent_at`. -/
theorem processInboundHorizontalMessages_dispatch_twoSenders :
    (∀ sender messages, twoSenders.get? sender = some messages →
      messages.Pairwise fun a b => a.sentAt ≤ b.sentAt) ∧
    ∃ (s' : SystemState Unit Nat) (passed : List (ParaId × InboundHrmpMessage)),
      processInboundHorizontalMessages sumHash (.genesis sumHash) twoSendersIngress twoSenders 9 =
        some (s', passed) ∧
      passed.Perm (flattenHorizontal twoSenders) ∧
      passed.Pairwise dispatchedBefore ∧
      (∀ sender, (passed.filter (·.1 == sender)).map (·.2) = (twoSenders.get? sender).getD []) ∧
      (flattenHorizontal twoSenders = [] → s'.hrmpWatermark = 9) ∧
      (∀ m ∈ flattenHorizontal twoSenders, m.2.sentAt ≤ s'.hrmpWatermark) ∧
      (flattenHorizontal twoSenders ≠ [] →
        ∃ m ∈ flattenHorizontal twoSenders, m.2.sentAt = s'.hrmpWatermark) := by
  have hsorted : ∀ sender messages, twoSenders.get? sender = some messages →
      messages.Pairwise fun a b => a.sentAt ≤ b.sentAt := by
    intro sender messages h
    have hmem := SortedMap.mem_of_get?_ofList h
    simp only [List.mem_cons, Prod.mk.injEq, List.not_mem_nil, or_false] at hmem
    rcases hmem with ⟨-, rfl⟩ | ⟨-, rfl⟩ <;> decide
  obtain ⟨s', passed, h⟩ : ∃ (s' : SystemState Unit Nat) (passed : List (ParaId × InboundHrmpMessage)),
      processInboundHorizontalMessages sumHash (.genesis sumHash) twoSendersIngress twoSenders 9 =
        some (s', passed) := ⟨_, _, rfl⟩
  exact ⟨hsorted, s', passed, h, processInboundHorizontalMessages_dispatch hsorted h⟩

end Cumulus.ParachainSystem
