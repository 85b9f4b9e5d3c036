import Cumulus.BridgeMessages.LaneRuns
import Mathlib.Order.Interval.Finset.Nat
import Mathlib.Algebra.BigOperators.Group.Finset.Piecewise

/-!
# bridge messages: what `calc_relayers_rewards` counts

When a delivery proof confirms the nonces of `received_range`, the source lane rewards the
relayers of the proof's unrewarded entries: `calc_relayers_rewards` adds to the relayer of each
entry the nonces of the entry inside the range. For every deque that passes the source's check
`ensure_unrewarded_relayers_are_correct` and every range:

* each relayer gets the number of nonces of the range that its entries delivered, however many
  entries it has and wherever they stand (`rewardsLoop_spec`, `card_deliveredIn`);
* the rewards add up to the nonces of the range from the first entry's begin to the last entry's
  end, so to at most the size of the range (`Covers.mem_iff`);
* a relayer with no entry gets nothing.

Both counts need the entries to be the consecutive, disjoint runs the check establishes
(`covers_of_ensureRelayersLoop`, the converse of `ensureRelayersLoop_covers`).
`calcRelayersRewards_counts` gathers them for every range whose delivered nonces are fewer than
`2^64`. Each count is a `u64` added with `+=`: when the range and the entries cover every `u64`
nonce, the count of the one entry is `2^64`, which overflows (`calcRelayersRewards_overflows`).
-/

namespace Cumulus.BridgeMessages

open Cumulus.Found

variable {R : Type}

/-! ## The counts -/

/-- The nonces of `a..=b` that the entries of `rels` satisfying `p` delivered. -/
def deliveredIn (rels : List (UnrewardedRelayer R)) (p : UnrewardedRelayer R → Prop)
    [DecidablePred p] (a b : Nat) : Finset Nat :=
  (Finset.Icc a b).filter fun n =>
    ∃ e ∈ rels, p e ∧ e.messages.begin.toNat ≤ n ∧ n ≤ e.messages.«end».toNat

/-- The number of nonces of the entry `e` inside `a..=b`. -/
def entryCount (a b : Nat) (e : UnrewardedRelayer R) : Nat :=
  min e.messages.«end».toNat b + 1 - max e.messages.begin.toNat a

/-- The nonces of `a..=b` that fall in the entry's range are counted by `entryCount`. -/
theorem card_filter_entry (a b : Nat) (e : UnrewardedRelayer R) :
    ((Finset.Icc a b).filter fun n =>
      e.messages.begin.toNat ≤ n ∧ n ≤ e.messages.«end».toNat).card = entryCount a b e := by
  have h : ((Finset.Icc a b).filter fun n =>
      e.messages.begin.toNat ≤ n ∧ n ≤ e.messages.«end».toNat) =
      Finset.Icc (max e.messages.begin.toNat a) (min e.messages.«end».toNat b) := by
    ext n
    simp only [Finset.mem_filter, Finset.mem_Icc]
    omega
  rw [h, Nat.card_Icc, entryCount]

/-- A filtered sum over a cons adds the head's term when it passes the filter. -/
theorem sum_map_filter_cons {α : Type} (p : α → Prop) [DecidablePred p] (f : α → Nat) (e : α)
    (es : List α) :
    (((e :: es).filter p).map f).sum = (if p e then f e else 0) + ((es.filter p).map f).sum := by
  by_cases h : p e <;> simp [h]

/-! ## Consecutive runs -/

/-- Every run of a split starts no earlier than the split. -/
theorem Covers.le_begin {start stop : Nat} {rels : List (UnrewardedRelayer R)}
    (h : Covers start stop rels) : ∀ e ∈ rels, start ≤ e.messages.begin.toNat := by
  induction rels generalizing start with
  | nil => intro e he; cases he
  | cons e es ih =>
    obtain ⟨hb, hle, hes⟩ := h
    rw [BitVec.le_def] at hle
    intro e' he'
    rcases List.mem_cons.mp he' with rfl | he'
    · exact hb.ge
    · have := ih hes e' he'
      omega

/-- The runs cover exactly the nonces `start, …, stop - 1`. -/
theorem Covers.mem_iff {start stop : Nat} {rels : List (UnrewardedRelayer R)}
    (h : Covers start stop rels) (n : Nat) :
    (∃ e ∈ rels, e.messages.begin.toNat ≤ n ∧ n ≤ e.messages.«end».toNat) ↔
      start ≤ n ∧ n < stop := by
  induction rels generalizing start with
  | nil =>
    have h : start = stop := h
    simp only [List.not_mem_nil, false_and, exists_false, false_iff]
    omega
  | cons e es ih =>
    obtain ⟨hb, hle, hes⟩ := h
    rw [BitVec.le_def] at hle
    rw [List.exists_mem_cons_iff, ih hes]
    have := hes.le
    omega

/-- What the source's check of a delivery proof's entries establishes: non-empty runs, each
beginning just after the one before it, the first where the loop expects. The converse of
`ensureRelayersLoop_covers`; the induction is on the entries. -/
theorem covers_of_ensureRelayersLoop (latest : MessageNonce) :
    ∀ {rels : List (UnrewardedRelayer R)} {expected : Option MessageNonce},
      ensureRelayersLoop latest expected rels = .ok () →
      ∀ e ∈ rels.head?, expected = some e.messages.begin ∧
        ∃ stop, Covers e.messages.begin.toNat stop rels
  | [], _, _ => fun _ he => by cases he
  | e :: es, expected, h => fun e' he' => by
    cases he'
    unfold ensureRelayersLoop at h
    split at h
    · cases h
    · next hlt =>
      split at h
      · cases h
      · next hexp =>
        split at h
        · cases h
        · have hle : e.messages.begin ≤ e.messages.«end» := BitVec.not_lt.mp hlt
          refine ⟨not_not.mp hexp, ?_⟩
          cases es with
          | nil => exact ⟨_, rfl, hle, rfl⟩
          | cons e' es =>
            -- the next entry begins where the check expected it: at `end + 1`
            obtain ⟨hnext, stop, hcov⟩ := covers_of_ensureRelayersLoop latest h e' rfl
            have hb : e'.messages.begin.toNat = e.messages.«end».toNat + 1 :=
              ((checkedAdd_one_eq_some (by decide)).mp hnext).2
            exact ⟨stop, rfl, hle, hb ▸ hcov⟩

/-- On consecutive runs, the nonces of `a..=b` delivered by the entries satisfying `p` are the sum
of the counts of those entries: the runs are disjoint. -/
theorem card_deliveredIn (p : UnrewardedRelayer R → Prop) [DecidablePred p] (a b : Nat) :
    ∀ {start stop : Nat} {rels : List (UnrewardedRelayer R)}, Covers start stop rels →
      (deliveredIn rels p a b).card = ((rels.filter p).map (entryCount a b)).sum
  | _, _, [], _ => by simp [deliveredIn]
  | _, _, e :: es, ⟨_, _, hes⟩ => by
    have hsplit : deliveredIn (e :: es) p a b =
        ((Finset.Icc a b).filter fun n =>
          p e ∧ e.messages.begin.toNat ≤ n ∧ n ≤ e.messages.«end».toNat) ∪ deliveredIn es p a b := by
      simp only [deliveredIn, List.exists_mem_cons_iff, Finset.filter_or]
    -- the later runs begin after `e` ends
    have hdisj : Disjoint ((Finset.Icc a b).filter fun n =>
        p e ∧ e.messages.begin.toNat ≤ n ∧ n ≤ e.messages.«end».toNat) (deliveredIn es p a b) := by
      rw [Finset.disjoint_left]
      intro n hn hn'
      obtain ⟨-, -, -, hend⟩ := Finset.mem_filter.mp hn
      obtain ⟨-, e', he', -, hbegin, -⟩ := Finset.mem_filter.mp hn'
      have := hes.le_begin e' he'
      omega
    rw [hsplit, Finset.card_union_of_disjoint hdisj, card_deliveredIn p a b hes,
      sum_map_filter_cons]
    by_cases hp : p e
    · simp only [hp, true_and, if_true, card_filter_entry]
    · simp [hp]

/-! ## The loop -/

section Loop

variable [DecidableEq R] {receivedStart receivedEnd : MessageNonce}

omit [DecidableEq R] in
/-- The ends of an entry clipped to `receivedStart..=receivedEnd`: `max` of the begins and `min`
of the ends. -/
theorem toNat_clip (receivedStart receivedEnd : MessageNonce) (e : UnrewardedRelayer R) :
    (if e.messages.begin < receivedStart then receivedStart else e.messages.begin).toNat =
        max e.messages.begin.toNat receivedStart.toNat ∧
      (if receivedEnd < e.messages.«end» then receivedEnd else e.messages.«end»).toNat =
        min e.messages.«end».toNat receivedEnd.toNat := by
  constructor
  · split
    · next h => rw [BitVec.lt_def] at h; omega
    · next h => rw [BitVec.lt_def] at h; omega
  · split
    · next h => rw [BitVec.lt_def] at h; omega
    · next h => rw [BitVec.lt_def] at h; omega

/-- The loop adds to each relayer the counts of its entries, as long as no sum overflows. The
induction is on the entries, with the rewards so far generalised. -/
theorem rewardsLoop_spec :
    ∀ {rels : List (UnrewardedRelayer R)} {acc : R → MessageNonce},
      (∀ ρ, (acc ρ).toNat + ((rels.filter (·.relayer = ρ)).map
        (entryCount receivedStart.toNat receivedEnd.toNat)).sum < 2 ^ 64) →
      ∃ out, rewardsLoop receivedStart receivedEnd rels acc = some out ∧
        ∀ ρ, (out ρ).toNat = (acc ρ).toNat + ((rels.filter (·.relayer = ρ)).map
          (entryCount receivedStart.toNat receivedEnd.toNat)).sum
  | [], acc, _ => ⟨acc, rfl, fun ρ => by simp⟩
  | e :: es, acc, hfit => by
    obtain ⟨hbegin, hend⟩ := toNat_clip receivedStart receivedEnd e
    simp only [sum_map_filter_cons] at hfit ⊢
    unfold rewardsLoop
    generalize (if e.messages.begin < receivedStart then receivedStart else e.messages.begin) =
      nonceBegin at hbegin ⊢
    generalize (if receivedEnd < e.messages.«end» then receivedEnd else e.messages.«end») =
      nonceEnd at hend ⊢
    dsimp only
    have hfitE := hfit e.relayer
    rw [if_pos rfl] at hfitE
    split
    · -- the entry has nonces in the range: its count is added to its relayer
      next hle =>
      have h1 : (1 : MessageNonce).toNat = 1 := rfl
      have hcountFit : (nonceEnd - nonceBegin).toNat + (1 : MessageNonce).toNat < 2 ^ 64 := by
        rw [BitVec.toNat_sub_of_le hle, hbegin, hend, h1]
        unfold entryCount at hfitE
        omega
      have hcount : (nonceEnd - nonceBegin + 1).toNat =
          entryCount receivedStart.toNat receivedEnd.toNat e := by
        have hle' := BitVec.le_def.mp hle
        rw [hbegin, hend] at hle'
        rw [BitVec.toNat_add_of_lt hcountFit, BitVec.toNat_sub_of_le hle, hbegin, hend, h1,
          entryCount]
        omega
      have htotalFit : (acc e.relayer).toNat + (nonceEnd - nonceBegin + 1).toNat < 2 ^ 64 := by
        rw [hcount]
        omega
      have hfit' : ∀ ρ, (Function.update acc e.relayer (acc e.relayer + (nonceEnd - nonceBegin + 1))
          ρ).toNat + ((es.filter (·.relayer = ρ)).map
            (entryCount receivedStart.toNat receivedEnd.toNat)).sum < 2 ^ 64 := by
        intro ρ
        by_cases hρ : e.relayer = ρ
        · subst hρ
          rw [Function.update_self, BitVec.toNat_add_of_lt htotalFit, hcount]
          omega
        · rw [Function.update_of_ne (Ne.symm hρ)]
          have := hfit ρ
          omega
      obtain ⟨out, hout, hspec⟩ := rewardsLoop_spec hfit'
      refine ⟨out, ?_, fun ρ => ?_⟩
      · simp only [checkedAdd_of_lt hcountFit, checkedAdd_of_lt htotalFit, Option.bind_eq_bind,
          Option.bind_some]
        exact hout
      · rw [hspec ρ]
        by_cases hρ : e.relayer = ρ
        · subst hρ
          rw [Function.update_self, BitVec.toNat_add_of_lt htotalFit, hcount, if_pos rfl]
          omega
        · rw [Function.update_of_ne (Ne.symm hρ), if_neg hρ, Nat.zero_add]
    · -- no nonce of the entry is in the range
      next hlt =>
      have hzero : entryCount receivedStart.toNat receivedEnd.toNat e = 0 := by
        rw [BitVec.le_def, hbegin, hend] at hlt
        unfold entryCount
        omega
      have hfit' : ∀ ρ, (acc ρ).toNat + ((es.filter (·.relayer = ρ)).map
          (entryCount receivedStart.toNat receivedEnd.toNat)).sum < 2 ^ 64 := by
        intro ρ
        have := hfit ρ
        omega
      obtain ⟨out, hout, hspec⟩ := rewardsLoop_spec hfit'
      refine ⟨out, hout, fun ρ => ?_⟩
      rw [hspec ρ, hzero, ite_self, Nat.zero_add]

/-- Summed over a set of relayers that holds the relayer of every entry, the relayers' counts are
the counts of all the entries. The induction is on the entries. -/
theorem sum_filter_relayer (f : UnrewardedRelayer R → Nat) {S : Finset R} :
    ∀ {rels : List (UnrewardedRelayer R)}, (∀ e ∈ rels, e.relayer ∈ S) →
      ∑ ρ ∈ S, ((rels.filter (·.relayer = ρ)).map f).sum = (rels.map f).sum
  | [], _ => by simp
  | e :: es, hS => by
    have hes : ∀ e' ∈ es, e'.relayer ∈ S := fun e' he' => hS e' (List.mem_cons_of_mem _ he')
    simp only [sum_map_filter_cons, Finset.sum_add_distrib, Finset.sum_ite_eq,
      if_pos (hS e List.mem_cons_self), sum_filter_relayer f hes, List.map_cons, List.sum_cons]

end Loop

/-! ## The rewards -/

/-- What the rewards of a confirmation are, for the entries `rels` and the range
`receivedStart..=receivedEnd`. -/
structure RewardsCounted [DecidableEq R] (rels : List (UnrewardedRelayer R))
    (receivedStart receivedEnd : MessageNonce) (rewards : R → MessageNonce) : Prop where
  /-- Each relayer gets the nonces of the range that its entries delivered. -/
  each : ∀ relayer, (rewards relayer).toNat =
    (deliveredIn rels (·.relayer = relayer) receivedStart.toNat receivedEnd.toNat).card
  /-- The rewards add up to the nonces of the range from the first entry to the last. -/
  total : ∀ front ∈ rels.head?, ∀ back ∈ rels.getLast?,
    ∑ relayer ∈ (rels.map (·.relayer)).toFinset, (rewards relayer).toNat =
      (Finset.Icc receivedStart.toNat receivedEnd.toNat ∩
        Finset.Icc front.messages.begin.toNat back.messages.«end».toNat).card
  /-- So they add up to at most the size of the range. -/
  within : ∑ relayer ∈ (rels.map (·.relayer)).toFinset, (rewards relayer).toNat ≤
    receivedEnd.toNat + 1 - receivedStart.toNat
  /-- A relayer without entries gets nothing. -/
  absent : ∀ relayer, relayer ∉ rels.map (·.relayer) → rewards relayer = 0

/-- Entries that pass `ensure_unrewarded_relayers_are_correct` split the nonces from the first
entry's start. -/
theorem exists_covers_of_ensure {latest : MessageNonce} {rels : List (UnrewardedRelayer R)}
    (h : ensureUnrewardedRelayersAreCorrect latest rels = .ok ()) :
    ∃ stop, Covers ((rels.head?.map fun e => e.messages.begin.toNat).getD 0) stop rels := by
  cases rels with
  | nil => exact ⟨0, rfl⟩
  | cons e es =>
    obtain ⟨-, stop, hcov⟩ := covers_of_ensureRelayersLoop latest h e rfl
    exact ⟨stop, hcov⟩

/-- **What `calc_relayers_rewards` counts.** For entries that pass the source's check and a range
whose delivered nonces are fewer than `2^64`, the rewards are computed, and each relayer gets the
nonces of the range its entries delivered, they add up to the nonces of the range between the
first entry's begin and the last entry's end, and a relayer without entries gets nothing. -/
theorem calcRelayersRewards_counts [DecidableEq R] {latest : MessageNonce}
    {rels : List (UnrewardedRelayer R)} {receivedStart receivedEnd : MessageNonce}
    (hrels : ensureUnrewardedRelayersAreCorrect latest rels = .ok ())
    (hfit : (deliveredIn rels (fun _ => True) receivedStart.toNat receivedEnd.toNat).card < 2 ^ 64) :
    ∃ rewards, calcRelayersRewards rels receivedStart receivedEnd = some rewards ∧
      RewardsCounted rels receivedStart receivedEnd rewards := by
  obtain ⟨stop, hcov⟩ := exists_covers_of_ensure hrels
  have hcard : ∀ (p : UnrewardedRelayer R → Prop) [DecidablePred p],
      (deliveredIn rels p receivedStart.toNat receivedEnd.toNat).card =
        ((rels.filter p).map (entryCount receivedStart.toNat receivedEnd.toNat)).sum :=
    fun p _ => card_deliveredIn p _ _ hcov
  -- a relayer's nonces are among all the delivered ones
  have hsub : ∀ relayer, deliveredIn rels (·.relayer = relayer) receivedStart.toNat
      receivedEnd.toNat ⊆ deliveredIn rels (fun _ => True) receivedStart.toNat receivedEnd.toNat := by
    intro relayer n hn
    obtain ⟨hn, e, he, -, hin⟩ := Finset.mem_filter.mp hn
    exact Finset.mem_filter.mpr ⟨hn, e, he, trivial, hin⟩
  have h0 : (0 : MessageNonce).toNat = 0 := rfl
  have hfit' : ∀ relayer, ((fun _ => 0 : R → MessageNonce) relayer).toNat +
      ((rels.filter (·.relayer = relayer)).map
        (entryCount receivedStart.toNat receivedEnd.toNat)).sum < 2 ^ 64 := by
    intro relayer
    show (0 : MessageNonce).toNat + _ < _
    rw [h0, Nat.zero_add, ← hcard]
    exact lt_of_le_of_lt (Finset.card_le_card (hsub relayer)) hfit
  obtain ⟨rewards, hloop, hspec⟩ := rewardsLoop_spec hfit'
  have heach : ∀ relayer, (rewards relayer).toNat =
      (deliveredIn rels (·.relayer = relayer) receivedStart.toNat receivedEnd.toNat).card := by
    intro relayer
    rw [hspec, hcard, h0, Nat.zero_add]
  -- the rewards of the relayers add up to the nonces all the entries delivered
  have hsum : ∑ relayer ∈ (rels.map (·.relayer)).toFinset, (rewards relayer).toNat =
      (deliveredIn rels (fun _ => True) receivedStart.toNat receivedEnd.toNat).card := by
    have hS : ∀ e ∈ rels, e.relayer ∈ (rels.map (·.relayer)).toFinset :=
      fun e he => List.mem_toFinset.mpr (List.mem_map_of_mem he)
    simp only [heach, hcard, sum_filter_relayer _ hS]
    simp
  refine ⟨rewards, hloop, heach, ?_, ?_, ?_⟩
  · intro front hfront back hback
    have hstop : stop = back.messages.«end».toNat + 1 := by
      rw [← covers_getLast hcov, hback]
      rfl
    have hstart : (rels.head?.map fun e => e.messages.begin.toNat).getD 0 =
        front.messages.begin.toNat := by
      rw [hfront]
      rfl
    rw [hsum]
    congr 1
    ext n
    simp only [deliveredIn, true_and, Finset.mem_filter, Finset.mem_inter, Finset.mem_Icc,
      hcov.mem_iff, hstart, hstop]
    omega
  · rw [hsum, ← Nat.card_Icc]
    exact Finset.card_filter_le _ _
  · intro relayer habsent
    apply BitVec.eq_of_toNat_eq
    rw [heach, hcard, List.filter_eq_nil_iff.mpr]
    · rfl
    · intro e he hrel
      exact habsent (List.mem_map.mpr ⟨e, he, of_decide_eq_true hrel⟩)

/-- Three entries, relayer `1` owning two of them apart, and a range that cuts into the first and
the last. -/
def rewardEntries : List (UnrewardedRelayer Nat) := [⟨1, ⟨1, 2⟩⟩, ⟨2, ⟨3, 3⟩⟩, ⟨1, ⟨4, 5⟩⟩]

/-- On `rewardEntries` and the range `2..=4`, the rewards are counted for each relayer. -/
theorem calcRelayersRewards_counts_of_entries :
    ensureUnrewardedRelayersAreCorrect 5 rewardEntries = .ok () ∧
      (deliveredIn rewardEntries (fun _ => True) (2 : MessageNonce).toNat
        (4 : MessageNonce).toNat).card < 2 ^ 64 ∧
      ∃ rewards, calcRelayersRewards rewardEntries 2 4 = some rewards ∧
        RewardsCounted rewardEntries 2 4 rewards :=
  ⟨rfl, by decide, calcRelayersRewards_counts
    (rfl : ensureUnrewardedRelayersAreCorrect 5 rewardEntries = .ok ()) (by decide)⟩

/-- One entry of relayer `0` that holds every `u64` nonce. -/
def allNoncesEntry : List (UnrewardedRelayer Nat) := [⟨0, ⟨0, BitVec.allOnes 64⟩⟩]

/-- The entry passes the source's check, and counting its `2^64` nonces overflows. -/
theorem calcRelayersRewards_overflows :
    ensureUnrewardedRelayersAreCorrect (BitVec.allOnes 64) allNoncesEntry = .ok () ∧
      calcRelayersRewards allNoncesEntry 0 (BitVec.allOnes 64) = none :=
  ⟨rfl, rfl⟩

end Cumulus.BridgeMessages
