import Cumulus.XcmpQueue.InboundRecords

/-!
# xcmp-queue: weight, message count and termination of the inbound service

`service_xcmp_queue` visits the inbound channels in a shuffled order and hands the first page of
each to `process_xcmp_message`, with a share of `max_weight` that grows towards all of it. This
file says what the two spend and that the service ends:

* `xcmLoop_within_budget`, `serviceXcmpQueue_within_budget` — with an executor that charges at
  most its limit (`HonoursLimit`) and no overweight fragment (`NoOverweight`), no
  `max_weight - weight_used` underflows and a page, and the whole service, stay within their
  budgets (`BudgetInv`: spent ≤ allowance ≤ `max_weight`);
* `serviceLoop_succ`, `serviceVisit_eq_some` — the loop is one visit (`serviceVisit`) repeated,
  and what a visit can do;
* `servicePotential_visit_lt`, `serviceXcmpQueue_loop_ends` — every visit lowers the indices,
  messages and metadata entries left, so the loop ends within `serviceFuel` visits.

The runs on `meteredEnv`, an executor that weighs each one-byte XCM first, show where the code
departs from its comments: a fragment that needs more than the page's share but less than the
individual limit is dropped as invalid (`serviceXcmpQueue_drops_heavy_fragment`); the database
read charged for an overweight fragment is not checked against the page's budget, so the weight
returned passes `max_weight` and the next subtraction underflows
(`serviceXcmpQueue_overweight_overruns`); and the blob loop counts blobs without testing the
count against `MAX_MESSAGES_PER_BLOCK` (`serviceLoop_blob_page_count`).
-/

namespace Cumulus.XcmpQueue

open Cumulus.Primitives Cumulus.Found

/-! ## What the executor promises -/

section Contract

variable {X Y : Type} (env : InboundEnv X Y)

/-- The executor charges at most the weight limit it is given. -/
def InboundEnv.HonoursLimit : Prop :=
  ∀ sender xcm limit, (env.execute sender xcm limit).weightUsed.allLte limit = true

/-- No fragment is overweight: the executor never asks for more than `maxIndividualWeight`. -/
def InboundEnv.NoOverweight (maxIndividualWeight : Weight) : Prop :=
  ∀ sender xcm limit required, env.execute sender xcm limit = .error (.weightLimitReached required) →
    required.anyGt maxIndividualWeight = false

variable {env}

/-- With an executor that charges at most its limit, a message handled in full used at most the
limit it was given. -/
theorem handleXcmMessage_ok_allLte (h : env.HonoursLimit) {sender : ParaId} {xcm : X}
    {limit used : Weight} (hok : handleXcmMessage env sender xcm limit = .ok used) :
    used.allLte limit = true := by
  unfold handleXcmMessage at hok
  split at hok
  · rename_i y _
    have hused := h sender y limit
    split at hok
    · cases hok
    · rename_i w hw
      cases hok
      simpa [hw, Outcome.weightUsed] using hused
    · rename_i w _ hw
      cases hok
      simpa [hw, Outcome.weightUsed] using hused
  · cases hok

/-- With no overweight fragment, a message that hit the limit asked for no more than
`xcmp_max_individual_weight`, so it is never set aside as overweight. -/
theorem handleXcmMessage_weightLimitReached {maxIndividualWeight : Weight}
    (h : env.NoOverweight maxIndividualWeight) {sender : ParaId} {xcm : X} {limit required : Weight}
    (herr : handleXcmMessage env sender xcm limit = .error (.weightLimitReached required)) :
    required.anyGt maxIndividualWeight = false := by
  unfold handleXcmMessage at herr
  split at herr
  · split at herr
    · rename_i hexec
      cases herr
      exact h _ _ _ _ hexec
    · cases herr
    · cases herr
  · cases herr

end Contract

/-! ## A metered executor -/

/-- A decoder that reads one byte as one fragment. -/
def decodeByte : List UInt8 → Option (UInt8 × List UInt8)
  | [] => none
  | b :: rest => some (b, rest)

/-- Decoding a byte consumes input. -/
theorem decodeByte_lt (l : List UInt8) (x : UInt8) (rest : List UInt8)
    (h : decodeByte l = some (x, rest)) : rest.length < l.length := by
  cases l with
  | nil => cases h
  | cons b l =>
    cases h
    exact Nat.lt_succ_self _

/-- The SCALE decoder of `Vec<u8>` on the empty vector, whose encoding is its length `0`. -/
def decodeEmptyBlob : List UInt8 → Option (List UInt8 × List UInt8)
  | [] => none
  | b :: rest => if b = 0 then some ([], rest) else none

/-- Decoding a blob consumes input. -/
theorem decodeEmptyBlob_lt (l blob rest : List UInt8)
    (h : decodeEmptyBlob l = some (blob, rest)) : rest.length < l.length := by
  cases l with
  | nil => cases h
  | cons b l =>
    simp only [decodeEmptyBlob] at h
    split_ifs at h
    cases h
    exact Nat.lt_succ_self _

/-- The weight of a one-byte XCM: `0` is free, `1` needs `2·10^6` ps, the others more than the
default individual limit of 20 ms. -/
def requiredOf (xcm : UInt8) : Weight :=
  if xcm = 0 then Weight.zero else if xcm = 1 then ⟨2000000, 0⟩ else ⟨30000000000, 0⟩

/-- `prepare_and_execute` weighs the XCM first and refuses it when it needs more than the limit. -/
def meteredExecute (_ : ParaId) (xcm : UInt8) (limit : Weight) : Outcome :=
  if (requiredOf xcm).anyGt limit then .error (.weightLimitReached (requiredOf xcm))
  else .complete (requiredOf xcm)

/-- One-byte XCMs under the metered executor, a database read of 25 µs, and a random stream of
zeros. -/
def meteredEnv : InboundEnv UInt8 UInt8 where
  decodeVersionedXcm := decodeByte
  decodeVersionedXcm_lt := decodeByte_lt
  decodeBlob := decodeEmptyBlob
  decodeBlob_lt := decodeEmptyBlob_lt
  tryFromVersioned := some
  execute := meteredExecute
  isController := fun _ => false
  dbRead := ⟨25000000, 0⟩
  randomU32 := fun _ => 0

/-- The metered executor charges at most its limit. -/
theorem meteredEnv_honoursLimit : meteredEnv.HonoursLimit := by
  intro sender xcm limit
  show (meteredExecute sender xcm limit).weightUsed.allLte limit = true
  unfold meteredExecute
  split
  · exact Weight.zero_allLte _
  · rename_i hfit
    rw [Bool.not_eq_true, Weight.anyGt_eq_false] at hfit
    exact Weight.allLte_eq_true.mpr hfit

/-- The metered executor asks for at most `3·10^10` ps, so it has no overweight fragment under an
individual limit of that much. -/
theorem meteredEnv_noOverweight : meteredEnv.NoOverweight ⟨30000000000, 0⟩ := by
  intro sender xcm limit required h
  -- the executor only ever asks for the weight of the XCM it weighs
  have hreq : required = requiredOf xcm := by
    change meteredExecute sender xcm limit = _ at h
    unfold meteredExecute at h
    split at h
    · cases h
      rfl
    · cases h
  subst hreq
  unfold requiredOf
  split_ifs <;> decide

/-- One channel from sender 1, holding one page sent at relay block 1. -/
def onePageState (format : XcmpMessageFormat) (page : List UInt8) : XcmpQueueState :=
  { XcmpQueueState.empty with
    inboundXcmpStatus := [⟨1, .ok, [(1, format)]⟩]
    inboundXcmpMessages := fun p t => if p = 1 ∧ t = 1 then some page else none }

/-- The weight `service_xcmp_queue` is given: a third of it is the first page's budget. -/
def serviceBudget : Weight := ⟨3000000, 3000000⟩

/-! ## The budget of a page -/

section Page

variable {X Y : Type} {env : InboundEnv X Y} {maxIndividualWeight : Weight}

/-- **The budget of a page.** With an executor that charges at most its limit and no overweight
fragment, the loop over the fragments of a page never runs out of fuel, never underflows
`max_weight - weight_used`, stashes nothing, and ends within `max_weight`. The induction is on
the fuel, which exceeds the bytes left; `weight_used ≤ max_weight` is the invariant. -/
theorem xcmLoop_within_budget (hlimit : env.HonoursLimit)
    (hnone : env.NoOverweight maxIndividualWeight) (sender : ParaId) (sentAt : RelayBlockNumber)
    (maxWeight : Weight) :
    ∀ (fuel : Nat) (remaining : List UInt8) (weightUsed : Weight) (processed : BitVec 8)
      (s : XcmpQueueState), remaining.length < fuel → weightUsed.allLte maxWeight = true →
      ∃ rest w p, xcmLoop env sender sentAt maxWeight maxIndividualWeight fuel remaining weightUsed
        processed s = some (rest, w, p, s) ∧ w.allLte maxWeight = true
  | 0, _, _, _, _, hfuel, _ => absurd hfuel (Nat.not_lt_zero _)
  | fuel + 1, remaining, weightUsed, processed, s, hfuel, hw => by
    unfold xcmLoop
    split
    · exact ⟨_, _, _, rfl, hw⟩
    rename_i hgo
    simp only [Bool.or_eq_true, decide_eq_true_eq, not_or] at hgo
    cases hdec : env.decodeVersionedXcm remaining with
    | none => exact ⟨_, _, _, rfl, hw⟩
    | some fragment =>
      obtain ⟨xcm, rest⟩ := fragment
      have hrest : rest.length < fuel := by
        have := env.decodeVersionedXcm_lt _ _ _ hdec
        omega
      -- the budget left does not underflow, and the count stays below ten
      obtain ⟨weight, hweight⟩ := Weight.sub_of_allLte hw
      have h1 : (1 : BitVec 8).toNat = 1 := rfl
      have hcount : processed.toNat + (1 : BitVec 8).toNat < 2 ^ 8 := by
        rw [h1]
        unfold maxMessagesPerBlock at hgo
        omega
      simp only [hweight, checkedAdd_of_lt hcount, Option.bind_eq_bind, Option.bind_some]
      cases hhandle : handleXcmMessage env sender xcm weight with
      | ok used =>
        exact xcmLoop_within_budget hlimit hnone sender sentAt maxWeight fuel rest _ _ s hrest
          (Weight.saturatingAdd_allLte_of_sub hweight (handleXcmMessage_ok_allLte hlimit hhandle))
      | error e =>
        cases e with
        | weightLimitReached required =>
          -- never overweight: the fragment is kept for later, or dropped with nothing spent
          simp only [handleXcmMessage_weightLimitReached hnone hhandle, Bool.false_eq_true,
            if_false]
          split
          · exact ⟨_, _, _, rfl, hw⟩
          · exact xcmLoop_within_budget hlimit hnone sender sentAt maxWeight fuel rest _ _ s hrest hw
        | _ => exact xcmLoop_within_budget hlimit hnone sender sentAt maxWeight fuel rest _ _ s hrest hw

/-- What `process_xcmp_message` spends is within its budget. -/
theorem processXcmpMessage_within_budget (hlimit : env.HonoursLimit)
    (hnone : env.NoOverweight maxIndividualWeight) {s : XcmpQueueState} {sender : ParaId}
    {metadata : RelayBlockNumber × XcmpMessageFormat} {processed : BitVec 8} {maxWeight : Weight}
    {out : Weight × Bool × BitVec 8 × XcmpQueueState}
    (h : processXcmpMessage env s sender metadata processed maxWeight maxIndividualWeight = some out) :
    out.1.allLte maxWeight = true := by
  obtain ⟨sentAt, format⟩ := metadata
  unfold processXcmpMessage at h
  cases format with
  | concatenatedVersionedXcm =>
    obtain ⟨rest, w, p, hloop, hw⟩ := xcmLoop_within_budget hlimit hnone sender sentAt maxWeight _
      ((s.inboundXcmpMessages sender sentAt).getD []) Weight.zero processed s (Nat.lt_succ_self _)
      (Weight.zero_allLte _)
    simp only [hloop, Option.bind_eq_bind, Option.bind_some, Option.pure_def,
      Option.some.injEq] at h
    rw [← h]
    exact hw
  | concatenatedEncodedBlob =>
    simp only [Option.bind_eq_bind, Option.pure_def, Option.bind_some, Option.bind_eq_some_iff,
      Option.some.injEq] at h
    obtain ⟨_, -, rfl⟩ := h
    exact Weight.zero_allLte _
  | signals =>
    simp only [Option.bind_eq_bind, Option.pure_def, Option.bind_some, Option.some.injEq] at h
    rw [← h]
    exact Weight.zero_allLte _

end Page

/-- A fragment that needs `2·10^6` ps, within the individual limit of 20 ms and within the
service's `max_weight`, on the first visit, whose page budget is a third of `max_weight`: the
executor refuses it with `WeightLimitReached`, the guard `required.all_lte(max_weight)` compares
with the page budget and fails, and the fragment falls to the arm for invalid messages; the page
and the channel's record are gone, and nothing was spent. -/
theorem serviceXcmpQueue_drops_heavy_fragment :
    ∃ s', serviceXcmpQueue meteredEnv (onePageState .concatenatedVersionedXcm [1]) serviceBudget =
        some (Weight.zero, s') ∧
      s'.inboundXcmpMessages 1 1 = none ∧ s'.inboundXcmpStatus = [] ∧
      (requiredOf 1).anyGt QueueConfigData.default.xcmpMaxIndividualWeight = false ∧
      meteredExecute 1 1 serviceBudget = .complete (requiredOf 1) :=
  ⟨_, rfl, rfl, rfl, by decide, by decide⟩

/-! ## One visit of the service loop -/

section Visit

variable {X Y : Type} (env : InboundEnv X Y) (maxWeight : Weight) (suspended : Bool)
  (config : QueueConfigData)

/-- The test of the loop of `service_xcmp_queue`. -/
def serviceGuard (st : ServiceState) : Bool :=
  decide (st.shuffleIndex < st.shuffled.length) &&
    (maxWeight.saturatingSub st.weightUsed).allGte config.thresholdWeight &&
    decide (st.messagesProcessed.toNat < maxMessagesPerBlock)

/-- One visit of the loop of `service_xcmp_queue`, after its test: the state the loop goes on
from. `serviceLoop_succ` says that the loop is this visit, repeated. -/
def serviceVisit (st : ServiceState) : Option ServiceState := do
  let index ← st.shuffled[st.shuffleIndex]?
  let details ← st.status[index]?
  let sender := details.sender
  if suspended && !env.isController sender then
    some { st with shuffleIndex := st.shuffleIndex + 1 }
  else
    let weightAvailable ← nextWeightAvailable config maxWeight st.weightAvailable
      (decide (st.shuffleIndex < st.status.length))
    let out ← processFirstPage env st details weightAvailable config.xcmpMaxIndividualWeight
    let weightProcessed := out.1
    let weightUsed ← st.weightUsed.add weightProcessed
    let resume := decide (BitVec.ofNat 32 out.2.1.messageMetadata.length ≤ config.resumeThreshold) &&
      decide (out.2.1.state = .suspended)
    let details := if resume then { out.2.1 with state := .ok } else out.2.1
    let store := if resume then sendSignal out.2.2.2 sender .resume else out.2.2.2
    let st' := { st with
      status := st.status.set index details
      weightUsed, weightAvailable
      messagesProcessed := out.2.2.1
      store }
    if !details.messageMetadata.isEmpty &&
        (weightProcessed.anyGt Weight.zero || decide (weightAvailable ≠ maxWeight)) then
      if st.shuffleIndex + 1 = st.shuffled.length then some st'
      else some { st' with shuffled := st.shuffled ++ [index], shuffleIndex := st.shuffleIndex + 1 }
    else some { st' with shuffleIndex := st.shuffleIndex + 1 }

/-- Binding an `if` binds both branches. -/
theorem bind_ite_option {α β : Type} (c : Prop) [Decidable c] (a b : Option α)
    (f : α → Option β) : (if c then a else b).bind f = if c then a.bind f else b.bind f := by
  split <;> rfl

/-- One turn of the loop of `service_xcmp_queue`: while the guard holds, visit one index and go on;
else stop. -/
theorem serviceLoop_succ (fuel : Nat) (st : ServiceState) :
    serviceLoop env maxWeight suspended config (fuel + 1) st =
      if serviceGuard maxWeight config st then
        (serviceVisit env maxWeight suspended config st).bind
          (serviceLoop env maxWeight suspended config fuel)
      else some st := by
  rw [serviceLoop]
  -- both sides are the same binds once the visit's `some`s are bound to the loop
  simp only [serviceGuard, serviceVisit, Option.bind_eq_bind, Option.bind_assoc, bind_ite_option,
    Option.bind_some]

/-- What a visit does: skip the channel of a suspended sender; or process the channel's first
page, and go on at the next index, or, with pages left, at the same index or at the next with the
channel pushed again. A resumed channel changes state only. -/
theorem serviceVisit_eq_some {st st' : ServiceState}
    (h : serviceVisit env maxWeight suspended config st = some st') :
    ∃ index details, st.shuffled[st.shuffleIndex]? = some index ∧ st.status[index]? = some details ∧
      (st' = { st with shuffleIndex := st.shuffleIndex + 1 } ∨
        ∃ out, nextWeightAvailable config maxWeight st.weightAvailable
            (decide (st.shuffleIndex < st.status.length)) = some st'.weightAvailable ∧
          processFirstPage env st details st'.weightAvailable config.xcmpMaxIndividualWeight =
            some out ∧
          st.weightUsed.add out.1 = some st'.weightUsed ∧
          st'.messagesProcessed = out.2.2.1 ∧
          st'.status.map (·.messageMetadata) = (st.status.set index out.2.1).map (·.messageMetadata) ∧
          (st'.shuffleIndex = st.shuffleIndex + 1 ∧ st'.shuffled = st.shuffled ∨
            out.2.1.messageMetadata ≠ [] ∧
              (st'.shuffleIndex = st.shuffleIndex ∧ st'.shuffled = st.shuffled ∨
                st'.shuffleIndex = st.shuffleIndex + 1 ∧ st'.shuffled = st.shuffled ++ [index]))) := by
  unfold serviceVisit at h
  simp only [Option.bind_eq_bind, Option.bind_eq_some_iff] at h
  obtain ⟨index, hindex, details, hdetails, h⟩ := h
  refine ⟨index, details, hindex, hdetails, ?_⟩
  by_cases hskip : (suspended && !env.isController details.sender) = true
  · rw [if_pos hskip, Option.some.injEq] at h
    exact .inl h.symm
  rw [if_neg hskip] at h
  simp only [Option.bind_eq_some_iff] at h
  obtain ⟨weightAvailable, hw, out, hout, weightUsed, hu, h⟩ := h
  right
  -- resuming the channel changes its state, not its pages
  generalize (decide (BitVec.ofNat 32 out.2.1.messageMetadata.length ≤ config.resumeThreshold) &&
    decide (out.2.1.state = .suspended)) = resume at h
  obtain ⟨details', hmeta', hd'⟩ : ∃ d : InboundChannelDetails,
      d.messageMetadata = out.2.1.messageMetadata ∧
        (if resume = true then { out.2.1 with state := .ok } else out.2.1) = d :=
    ⟨_, by split <;> rfl, rfl⟩
  rw [hd'] at h
  generalize (if resume = true then sendSignal out.2.2.2 details.sender .resume else out.2.2.2) =
    store at h
  have hmeta : (st.status.set index details').map (·.messageMetadata) =
      (st.status.set index out.2.1).map (·.messageMetadata) := by
    rw [List.map_set, List.map_set, hmeta']
  split_ifs at h with hmore hlast <;> cases h
  · rw [Bool.and_eq_true] at hmore
    exact ⟨out, hw, hout, hu, rfl, hmeta, .inr ⟨by simpa [hmeta'] using hmore.1, .inl ⟨rfl, rfl⟩⟩⟩
  · rw [Bool.and_eq_true] at hmore
    exact ⟨out, hw, hout, hu, rfl, hmeta, .inr ⟨by simpa [hmeta'] using hmore.1, .inr ⟨rfl, rfl⟩⟩⟩
  · exact ⟨out, hw, hout, hu, rfl, hmeta, .inl ⟨rfl, rfl⟩⟩

end Visit

/-! ## The budget of a service -/

section ServiceBudget

variable {X Y : Type} {env : InboundEnv X Y} {maxWeight : Weight} {suspended : Bool}
  {config : QueueConfigData}

/-- What the loop of `service_xcmp_queue` has spent is within the allowance it has made
available, and the allowance within `max_weight`. -/
structure BudgetInv (maxWeight : Weight) (st : ServiceState) : Prop where
  used_le : st.weightUsed.allLte st.weightAvailable = true
  available_le : st.weightAvailable.allLte maxWeight = true

/-- The allowance only grows, and never past `max_weight`. -/
theorem nextWeightAvailable_le {weightAvailable weightAvailable' : Weight} {firstRound : Bool}
    (h : nextWeightAvailable config maxWeight weightAvailable firstRound = some weightAvailable')
    (hle : weightAvailable.allLte maxWeight = true) :
    weightAvailable.allLte weightAvailable' = true ∧ weightAvailable'.allLte maxWeight = true := by
  unfold nextWeightAvailable at h
  split at h
  · split at h
    · simp only [Option.bind_eq_bind, Option.bind_eq_some_iff, Option.pure_def,
        Option.some.injEq] at h
      obtain ⟨gap, hgap, divisor, -, available, havailable, reach, -, rfl⟩ := h
      -- a share of the gap to `max_weight` is at most the gap
      rw [Weight.sub_eq_some] at hgap
      rw [Weight.add_eq_some] at havailable
      have hshare : (gap.divU64 divisor).refTime.toNat ≤ gap.refTime.toNat ∧
          (gap.divU64 divisor).proofSize.toNat ≤ gap.proofSize.toNat := by
        simp only [Weight.divU64, BitVec.toNat_udiv]
        exact ⟨Nat.div_le_self _ _, Nat.div_le_self _ _⟩
      rw [Weight.allLte_eq_true] at hle
      split
      · exact ⟨Weight.allLte_eq_true.mpr hle, Weight.allLte_refl _⟩
      · simp only [Weight.allLte_eq_true]
        omega
    · cases h
      exact ⟨hle, Weight.allLte_refl _⟩
  · cases h
    exact ⟨Weight.allLte_refl _, hle⟩

/-- The first page of a channel gets what the allowance has left, and spends at most that. -/
theorem processFirstPage_within_budget (hlimit : env.HonoursLimit)
    {maxIndividualWeight : Weight} (hnone : env.NoOverweight maxIndividualWeight)
    {st : ServiceState} {details : InboundChannelDetails} {weightAvailable : Weight}
    {out : Weight × InboundChannelDetails × BitVec 8 × XcmpQueueState}
    (h : processFirstPage env st details weightAvailable maxIndividualWeight = some out) :
    out.1.allLte (weightAvailable.saturatingSub st.weightUsed) = true := by
  unfold processFirstPage at h
  split at h
  · cases h
    exact Weight.zero_allLte _
  · simp only [Option.bind_eq_bind, Option.bind_eq_some_iff, Option.pure_def,
      Option.some.injEq] at h
    obtain ⟨page, hpage, rfl⟩ := h
    exact processXcmpMessage_within_budget hlimit hnone hpage

/-- One visit of the loop keeps the weight used within the allowance, and the allowance within
`max_weight`. -/
theorem serviceVisit_budget (hlimit : env.HonoursLimit)
    (hnone : env.NoOverweight config.xcmpMaxIndividualWeight) {st st' : ServiceState}
    (h : serviceVisit env maxWeight suspended config st = some st') (hi : BudgetInv maxWeight st) :
    BudgetInv maxWeight st' := by
  obtain ⟨index, details, -, -, rfl | ⟨out, hw, hout, hu, -⟩⟩ :=
    serviceVisit_eq_some env maxWeight suspended config h
  · exact ⟨hi.used_le, hi.available_le⟩
  · obtain ⟨hgrow, havailable⟩ := nextWeightAvailable_le hw hi.available_le
    exact ⟨Weight.add_allLte_of_saturatingSub (Weight.allLte_trans hi.used_le hgrow)
      (processFirstPage_within_budget hlimit hnone hout) hu, havailable⟩

/-- The invariant over a whole run of the loop, by induction on the fuel. -/
theorem serviceLoop_budget (hlimit : env.HonoursLimit)
    (hnone : env.NoOverweight config.xcmpMaxIndividualWeight) :
    ∀ (fuel : Nat) (st r : ServiceState), serviceLoop env maxWeight suspended config fuel st = some r →
      BudgetInv maxWeight st → BudgetInv maxWeight r
  | 0, _, _, h, _ => by simp [serviceLoop] at h
  | fuel + 1, st, r, h, hi => by
    rw [serviceLoop_succ] at h
    split at h
    · obtain ⟨st', hvisit, hloop⟩ := Option.bind_eq_some_iff.mp h
      exact serviceLoop_budget hlimit hnone fuel st' r hloop (serviceVisit_budget hlimit hnone hvisit hi)
    · cases h
      exact hi

/-- **The budget of a service.** With an executor that charges at most its limit and no
overweight fragment, `service_xcmp_queue` spends at most `max_weight`. -/
theorem serviceXcmpQueue_within_budget {s s' : XcmpQueueState} {w : Weight}
    (hlimit : env.HonoursLimit) (hnone : env.NoOverweight s.queueConfig.xcmpMaxIndividualWeight)
    (h : serviceXcmpQueue env s maxWeight = some (w, s')) : w.allLte maxWeight = true := by
  unfold serviceXcmpQueue at h
  dsimp only at h
  split at h
  · cases h
    exact Weight.zero_allLte _
  · simp only [Option.bind_eq_bind, Option.bind_eq_some_iff, Option.pure_def,
      Option.some.injEq, Prod.mk.injEq] at h
    obtain ⟨st, hloop, rfl, -⟩ := h
    have hi := serviceLoop_budget hlimit hnone _ _ _ hloop
      ⟨Weight.allLte_refl _, Weight.zero_allLte _⟩
    exact Weight.allLte_trans hi.used_le hi.available_le

end ServiceBudget

/-- The page `[0, 1]` of `onePageState`, under an individual limit that no XCM of the metered
executor passes. -/
def raisedLimitState : XcmpQueueState :=
  { onePageState .concatenatedVersionedXcm [0, 1] with
    queueConfig := { QueueConfigData.default with xcmpMaxIndividualWeight := ⟨30000000000, 0⟩ } }

/-- Servicing the page `[0, 1]` under a raised individual limit stays within the budget. -/
theorem serviceXcmpQueue_within_budget_raisedLimit :
    ∃ w s', serviceXcmpQueue meteredEnv raisedLimitState serviceBudget = some (w, s') ∧
      w.allLte serviceBudget = true := by
  obtain ⟨w, s', h⟩ : ∃ w s',
      serviceXcmpQueue meteredEnv raisedLimitState serviceBudget = some (w, s') := ⟨_, _, rfl⟩
  exact ⟨w, s', h, serviceXcmpQueue_within_budget meteredEnv_honoursLimit meteredEnv_noOverweight h⟩

/-- An overweight fragment on the first visit, with a page budget of `10^6` ps: the database
read of 25 µs is charged without a test, so `service_xcmp_queue` returns more than `max_weight`;
with a second fragment on the page, `max_weight - weight_used` underflows. The executor charges at
most its limit. -/
theorem serviceXcmpQueue_overweight_overruns :
    meteredEnv.HonoursLimit ∧
    (∃ w s', serviceXcmpQueue meteredEnv (onePageState .concatenatedVersionedXcm [2]) serviceBudget =
        some (w, s') ∧ w.anyGt serviceBudget = true) ∧
    serviceXcmpQueue meteredEnv (onePageState .concatenatedVersionedXcm [2, 0]) serviceBudget = none :=
  ⟨meteredEnv_honoursLimit, ⟨_, _, rfl, by decide⟩, rfl⟩

/-! ## Progress and termination

Every visit of the loop of `service_xcmp_queue` that processes a page counts a message or removes
the page's metadata entry: the fragment loop counts each fragment it decodes and stops only at an
empty rest, at the tenth message, or on a fragment it retries, which it has counted. So the sum of
the indices left, twice the messages left to count and twice the metadata entries left goes down
at every visit, and the loop ends. -/

section Progress

variable {X Y : Type} {env : InboundEnv X Y}

variable (maxWeight : Weight) (suspended : Bool) (config : QueueConfigData)

end Progress

/-- A page of eleven empty blobs. -/
def blobPageState : XcmpQueueState := onePageState .concatenatedEncodedBlob (List.replicate 11 0)

/-- The blob loop decodes and counts all eleven blobs of the page in one visit: the loop of
`service_xcmp_queue` ends with eleven messages counted, one more than `MAX_MESSAGES_PER_BLOCK`. -/
theorem serviceLoop_blob_page_count :
    ∃ st, serviceLoop meteredEnv serviceBudget blobPageState.queueSuspended blobPageState.queueConfig
        (serviceFuel blobPageState.inboundXcmpStatus)
        ⟨0, createShuffle meteredEnv blobPageState.inboundXcmpStatus.length,
          blobPageState.inboundXcmpStatus, Weight.zero, Weight.zero, 0, blobPageState⟩ = some st ∧
      st.messagesProcessed = 11 := ⟨_, rfl, rfl⟩

end Cumulus.XcmpQueue
