import Cumulus.ParachainSystem.Finalize

/-!
# parachain-system: a block, phase by phase

The spec lemmas of the phases of `executeBlock`, each saying which storage items the phase
writes and with what, so that the invariants of the segment and of the message queue chains are
proved from these lemmas and never from the definitions:

* `replaceLastHead_map` — `on_initialize` changes no ancestor's bandwidth or signal;
* `maybeDropIncludedAncestors_spec` — a prefix of the segment is dropped and subtracted from the
  tracker, and the rest fits the capacity;
* `applyGoAhead_spec`, `applyCalls_frame` — the go-ahead signal and the calls of the block write
  only the pending validation code and the pending upward messages;
* `processInboundDownwardMessages_spec`, `processInboundHorizontalMessages_spec` — the message
  queue chains and what is passed to the handlers;
* `setValidationData_spec` and `executeBlock_spec` — a block as the sequence of its phases.
-/

namespace Cumulus.ParachainSystem

open Cumulus.Primitives Cumulus.Found

variable {P H : Type}

/-! ## `on_initialize` -/

/-- Recording the parent's head changes nothing else of the ancestors. -/
theorem replaceLastHead_map {α : Type} (f : Ancestor P → α) (parentHash : P)
    (hf : ∀ a : Ancestor P, f { a with paraHeadHash := some parentHash } = f a) :
    ∀ seg : List (Ancestor P), (replaceLastHead parentHash seg).map f = seg.map f
  | [] => rfl
  | [a] => by simp [replaceLastHead, hf]
  | a :: b :: rest => by
    change f a :: (replaceLastHead parentHash (b :: rest)).map f = f a :: (b :: rest).map f
    rw [replaceLastHead_map f parentHash hf (b :: rest)]

/-- `on_initialize`'s edit of the segment keeps its length. -/
theorem length_replaceLastHead (parentHash : P) (seg : List (Ancestor P)) :
    (replaceLastHead parentHash seg).length = seg.length := by
  simpa using congrArg List.length (replaceLastHead_map (fun _ => ()) parentHash (fun _ => rfl) seg)

/-- `on_initialize`'s edit of the segment leaves it empty exactly when it was. -/
theorem replaceLastHead_eq_nil_iff (parentHash : P) :
    ∀ seg : List (Ancestor P), replaceLastHead parentHash seg = [] ↔ seg = []
  | [] => Iff.rfl
  | [a] => by simp [replaceLastHead]
  | a :: b :: rest => by simp [replaceLastHead]

/-- `on_initialize` records the parent's head on the last ancestor. -/
theorem replaceLastHead_append_singleton (parentHash : P) (a : Ancestor P) :
    ∀ earlier : List (Ancestor P), replaceLastHead parentHash (earlier ++ [a]) =
      earlier ++ [{ a with paraHeadHash := some parentHash }]
  | [] => rfl
  | [_] => rfl
  | b :: c :: rest => by
    change b :: replaceLastHead parentHash ((c :: rest) ++ [a]) = b :: ((c :: rest) ++ _)
    rw [replaceLastHead_append_singleton parentHash a (c :: rest)]

/-! ## Dropping the included ancestors -/

/-- When every ancestor has its head, the search for the included head is `position`. -/
theorem includedPosition_of_heads [DecidableEq P] (included : P) :
    ∀ {l : List (Ancestor P)}, (∀ a ∈ l, a.paraHeadHash.isSome) →
      includedPosition included l =
        some (l.findIdx? fun a => decide (a.paraHeadHash = some included))
  | [], _ => rfl
  | a :: rest, h => by
    obtain ⟨x, hx⟩ := Option.isSome_iff_exists.mp (h a List.mem_cons_self)
    have hrest := includedPosition_of_heads included fun b hb => h b (List.mem_cons_of_mem a hb)
    simp only [includedPosition, hx, List.findIdx?_cons, Option.some.injEq, decide_eq_true_eq]
    split_ifs with hxi
    · rfl
    · rw [hrest]
      rfl

/-- `maybe_drop_included_ancestors` drops a prefix of the segment, subtracting it from the tracker
when it is not empty, and the rest leaves room for this block. -/
theorem maybeDropIncludedAncestors_spec [DecidableEq P] {s s' : SystemState P H}
    {relayState : RelayChainState P H} {capacity : UnincludedSegmentCapacity} {parentHash : P}
    (h : maybeDropIncludedAncestors s relayState capacity parentHash = some s') :
    ∃ n aggregated, s' = { s with
        unincludedSegment := s.unincludedSegment.drop n
        aggregatedUnincludedSegment := aggregated } ∧
      ((s.unincludedSegment.take n = [] ∧ aggregated = s.aggregatedUnincludedSegment) ∨
        ∃ T T', s.aggregatedUnincludedSegment = some T ∧
          subtractAncestors T (s.unincludedSegment.take n) = some T' ∧ aggregated = some T') ∧
      BitVec.ofNat 32 (s.unincludedSegment.drop n).length < capacity.get := by
  unfold maybeDropIncludedAncestors at h
  extract_lets cont at h
  -- the arms of the match on the included head share the rest of the function
  have key : ∀ includedHead, cont includedHead = some s' → ∃ n aggregated, s' = { s with
        unincludedSegment := s.unincludedSegment.drop n
        aggregatedUnincludedSegment := aggregated } ∧
      ((s.unincludedSegment.take n = [] ∧ aggregated = s.aggregatedUnincludedSegment) ∨
        ∃ T T', s.aggregatedUnincludedSegment = some T ∧
          subtractAncestors T (s.unincludedSegment.take n) = some T' ∧ aggregated = some T') ∧
      BitVec.ofNat 32 (s.unincludedSegment.drop n).length < capacity.get := by
    intro includedHead hx
    unfold cont at hx
    obtain ⟨idx, -, hx⟩ := Option.bind_eq_some_iff.mp hx
    extract_lets n dropped rest jp at hx
    -- both ways of computing the new tracker end in the capacity check
    have hjp : ∀ aggregated, jp aggregated = some s' →
        s' = { s with unincludedSegment := rest, aggregatedUnincludedSegment := aggregated } ∧
        BitVec.ofNat 32 rest.length < capacity.get := by
      intro aggregated hagg
      unfold jp at hagg
      split_ifs at hagg with hcap
      exact ⟨(Option.some.inj hagg).symm, hcap⟩
    split_ifs at hx with hnil
    · obtain ⟨aggregated, hagg, hx⟩ := Option.bind_eq_some_iff.mp hx
      obtain ⟨rfl, hcap⟩ := hjp aggregated hx
      exact ⟨n, aggregated, rfl, .inl ⟨hnil, (Option.some.inj hagg).symm⟩, hcap⟩
    · -- the dropped part is not empty: the tracker must be there
      obtain ⟨T, hT, hx⟩ := Option.bind_eq_some_iff.mp hx
      obtain ⟨T', hT', hx⟩ := Option.bind_eq_some_iff.mp hx
      obtain ⟨rfl, hcap⟩ := hjp (some T') hx
      exact ⟨n, some T', rfl, .inr ⟨T, T', hT, hT', rfl⟩, hcap⟩
  split at h
  · split_ifs at h
    · exact key _ h
    · cases h
  · exact key _ h
  · exact key _ h
  · cases h

/-! ## The go-ahead signal and the calls -/

/-- Applying a go-ahead signal changes only the pending validation code. -/
theorem applyGoAhead_spec {s s' : SystemState P H} {signal signalInSegment : Option UpgradeGoAhead}
    (h : applyGoAhead s signal signalInSegment = some s') :
    ∃ code, s' = { s with pendingValidationCode := code } := by
  unfold applyGoAhead at h
  split at h
  · exact ⟨s.pendingValidationCode, (Option.some.inj h).symm⟩
  · split_ifs at h
    exact ⟨none, (Option.some.inj h).symm⟩
  · exact ⟨none, (Option.some.inj h).symm⟩
  · exact ⟨s.pendingValidationCode, (Option.some.inj h).symm⟩

/-- A sent upward message joins the end of the pending upward messages, and nothing else changes. -/
theorem sendUpwardMessage_eq_ok {s s' : SystemState P H} {message : List UInt8}
    (h : sendUpwardMessage s message = .ok s') :
    s' = { s with pendingUpwardMessages := s.pendingUpwardMessages ++ [message] } := by
  unfold sendUpwardMessage at h
  split at h
  · split_ifs at h
    exact (Except.ok.inj h).symm
  · exact (Except.ok.inj h).symm

/-- A scheduled upgrade sets the pending validation code, and nothing else changes. -/
theorem scheduleCodeUpgrade_eq_ok {s s' : SystemState P H} {code : List UInt8}
    (h : scheduleCodeUpgrade s code = .ok s') :
    s' = { s with pendingValidationCode := some code } := by
  unfold scheduleCodeUpgrade at h
  split_ifs at h
  split at h
  · contradiction
  · split_ifs at h
    exact (Except.ok.inj h).symm

/-- A call writes only the pending upward messages and the pending validation code. -/
theorem applyCall_frame (s : SystemState P H) :
    ∀ call : SystemCall, ∃ up code, applyCall s call = { s with
      pendingUpwardMessages := up
      pendingValidationCode := code }
  | .sendUpwardMessage message => by
    cases h : sendUpwardMessage s message with
    | ok s' =>
      simp only [applyCall, h, sendUpwardMessage_eq_ok h]
      exact ⟨_, s.pendingValidationCode, rfl⟩
    | error e =>
      simp only [applyCall, h]
      exact ⟨s.pendingUpwardMessages, s.pendingValidationCode, rfl⟩
  | .scheduleCodeUpgrade code => by
    cases h : scheduleCodeUpgrade s code with
    | ok s' =>
      simp only [applyCall, h, scheduleCodeUpgrade_eq_ok h]
      exact ⟨s.pendingUpwardMessages, _, rfl⟩
    | error e =>
      simp only [applyCall, h]
      exact ⟨s.pendingUpwardMessages, s.pendingValidationCode, rfl⟩

/-- The calls of a block change only the pending upward messages and the pending validation code. -/
theorem applyCalls_frame (calls : List SystemCall) :
    ∀ s : SystemState P H, ∃ up code, calls.foldl applyCall s = { s with
      pendingUpwardMessages := up
      pendingValidationCode := code } := by
  induction calls with
  | nil => exact fun s => ⟨s.pendingUpwardMessages, s.pendingValidationCode, rfl⟩
  | cons call calls ih =>
    intro s
    obtain ⟨up, code, hcall⟩ := applyCall_frame s call
    obtain ⟨up', code', hcalls⟩ := ih (applyCall s call)
    refine ⟨up', code', ?_⟩
    rw [List.foldl_cons, hcalls, hcall]

/-! ## Inbound messages -/

/-- The downward messages: all of them are passed and folded into the chain, unless their count
as a `u32` is `0`; either way the chain must reach the relay chain's head. -/
theorem processInboundDownwardMessages_spec [DecidableEq H] {hs : HashScheme H}
    {s s' : SystemState P H} {expected : H} {messages passed : List InboundDownwardMessage}
    (h : processInboundDownwardMessages hs s expected messages = some (s', passed)) :
    s' = { s with
      lastDmqMqcHead := passed.foldl (fun c m => c.extendDownward hs m) s.lastDmqMqcHead
      processedDownwardMessages := BitVec.ofNat 32 messages.length } ∧
    (passed = messages ∨ (passed = [] ∧ BitVec.ofNat 32 messages.length = 0)) ∧
    (passed.foldl (fun c m => c.extendDownward hs m) s.lastDmqMqcHead).head = expected := by
  unfold processInboundDownwardMessages at h
  dsimp only at h
  by_cases hcount : BitVec.ofNat 32 messages.length = 0
  · rw [if_neg (not_not.mpr hcount)] at h
    dsimp only at h
    split_ifs at h with hhead
    obtain ⟨rfl, rfl⟩ := Prod.mk.inj (Option.some.inj h)
    exact ⟨rfl, .inr ⟨rfl, hcount⟩, hhead⟩
  · rw [if_pos hcount] at h
    dsimp only at h
    split_ifs at h with hhead
    obtain ⟨rfl, rfl⟩ := Prod.mk.inj (Option.some.inj h)
    exact ⟨rfl, .inl rfl, hhead⟩

/-- The horizontal messages: every sender has an ingress channel, the messages are passed in
dispatch order, each ingress channel's head is checked, and the watermark is stored. -/
theorem processInboundHorizontalMessages_spec [DecidableEq H] {hs : HashScheme H}
    {s s' : SystemState P H} {ingress : List (ParaId × AbridgedHrmpChannel H)}
    {horizontal : SortedMap ParaId (List InboundHrmpMessage)} {relayParentNumber : RelayBlockNumber}
    {passed : List (ParaId × InboundHrmpMessage)}
    (h : processInboundHorizontalMessages hs s ingress horizontal relayParentNumber =
      some (s', passed)) :
    passed = (flattenHorizontal horizontal).insertionSort dispatchedBefore ∧
    (∀ e ∈ horizontal.entries, (binarySearchByKey ingress e.1 Prod.fst).isOk = true) ∧
    checkIngress hs s.lastHrmpMqcHeads ingress (extendRunning hs s.lastHrmpMqcHeads passed .empty) =
      some s'.lastHrmpMqcHeads ∧
    s' = { s with
      lastHrmpMqcHeads := s'.lastHrmpMqcHeads
      hrmpWatermark := (hrmpWatermarkLoop none passed).getD relayParentNumber } := by
  unfold processInboundHorizontalMessages at h
  split_ifs at h with hall
  dsimp only at h
  split at h
  · cases h
  · rename_i running hrunning
    obtain ⟨rfl, rfl⟩ := Prod.mk.inj (Option.some.inj h)
    exact ⟨rfl, fun e he => List.all_eq_true.mp hall e he, hrunning, rfl⟩

/-! ## `set_validation_data` -/

section Validation

variable [DecidableEq P] [DecidableEq H] {hs : HashScheme H} {cfg : SystemConfig}

/-- `set_validation_data`, phase by phase: the checks, the drop of the included ancestors, the
go-ahead signal, the relay chain's data, then the downward and the horizontal messages. -/
theorem setValidationData_spec {s s₁ : SystemState P H} {data : ParachainInherentData P H}
    {capacity : UnincludedSegmentCapacity} {parentHash : P} {received : InboundRecord}
    (h : setValidationData hs cfg s data capacity parentHash = some (s₁, received)) :
    s.validationData = none ∧
    cfg.checkAssociatedRelayNumber data.validationData.relayParentNumber
      s.lastRelayChainBlockNumber = true ∧
    ∃ sDrop sSig sDown,
      maybeDropIncludedAncestors
        { s with lastRelayChainBlockNumber := data.validationData.relayParentNumber }
        data.relayChainState capacity parentHash = some sDrop ∧
      signalMatchesSegment data.relayChainState.upgradeGoAheadSignal
        (sDrop.aggregatedUnincludedSegment.bind (·.consumedGoAheadSignal)) = true ∧
      applyGoAhead sDrop data.relayChainState.upgradeGoAheadSignal
        (sDrop.aggregatedUnincludedSegment.bind (·.consumedGoAheadSignal)) = some sSig ∧
      processInboundDownwardMessages hs
        { sSig with
          upgradeRestrictionSignal := data.relayChainState.upgradeRestrictionSignal
          upgradeGoAhead := data.relayChainState.upgradeGoAheadSignal
          validationData := some data.validationData
          relevantMessagingState := some data.relayChainState.messagingState
          hostConfiguration := some data.relayChainState.hostConfiguration }
        data.relayChainState.messagingState.dmqMqcHead data.downwardMessages =
        some (sDown, received.downward) ∧
      processInboundHorizontalMessages hs sDown data.relayChainState.messagingState.ingressChannels
        data.horizontalMessages data.validationData.relayParentNumber =
        some (s₁, received.horizontal) ∧
      received.ingress = data.relayChainState.messagingState.ingressChannels.map Prod.fst := by
  unfold setValidationData at h
  dsimp only at h
  split_ifs at h with hvd
  case pos => cases h
  obtain ⟨_, ⟨⟩, h⟩ := Option.bind_eq_some_iff.mp h
  split_ifs at h with hcheck
  case neg => cases h
  obtain ⟨_, ⟨⟩, h⟩ := Option.bind_eq_some_iff.mp h
  obtain ⟨sDrop, hdrop, h⟩ := Option.bind_eq_some_iff.mp h
  split_ifs at h with hsig
  case neg => cases h
  obtain ⟨_, ⟨⟩, h⟩ := Option.bind_eq_some_iff.mp h
  obtain ⟨sSig, hgo, h⟩ := Option.bind_eq_some_iff.mp h
  obtain ⟨⟨sDown, downward⟩, hdown, h⟩ := Option.bind_eq_some_iff.mp h
  obtain ⟨⟨s₂, horizontal⟩, hhor, h⟩ := Option.bind_eq_some_iff.mp h
  obtain ⟨rfl, rfl⟩ := Prod.mk.inj (Option.some.inj h)
  exact ⟨by simpa using hvd, hcheck, sDrop, sSig, sDown, hdrop, hsig, hgo, hdown, hhor, rfl⟩

/-- The storage `set_validation_data` leaves: the segment as the drop left it, the relay chain's
data, the message queue chains and the watermark of the dispatched messages. -/
theorem setValidationData_eq {s s₁ : SystemState P H} {data : ParachainInherentData P H}
    {capacity : UnincludedSegmentCapacity} {parentHash : P} {received : InboundRecord}
    (h : setValidationData hs cfg s data capacity parentHash = some (s₁, received)) :
    ∃ sDrop code dmqHead hrmpHeads,
      maybeDropIncludedAncestors
        { s with lastRelayChainBlockNumber := data.validationData.relayParentNumber }
        data.relayChainState capacity parentHash = some sDrop ∧
      received.horizontal = (flattenHorizontal data.horizontalMessages).insertionSort
        dispatchedBefore ∧
      s₁ = { sDrop with
        pendingValidationCode := code
        upgradeRestrictionSignal := data.relayChainState.upgradeRestrictionSignal
        upgradeGoAhead := data.relayChainState.upgradeGoAheadSignal
        validationData := some data.validationData
        relevantMessagingState := some data.relayChainState.messagingState
        hostConfiguration := some data.relayChainState.hostConfiguration
        lastDmqMqcHead := dmqHead
        processedDownwardMessages := BitVec.ofNat 32 data.downwardMessages.length
        lastHrmpMqcHeads := hrmpHeads
        hrmpWatermark := (hrmpWatermarkLoop none received.horizontal).getD
          data.validationData.relayParentNumber } := by
  obtain ⟨-, -, sDrop, sSig, sDown, hdrop, -, hgo, hdown, hhor, -⟩ := setValidationData_spec h
  obtain ⟨code, rfl⟩ := applyGoAhead_spec hgo
  obtain ⟨rfl, -, -⟩ := processInboundDownwardMessages_spec hdown
  obtain ⟨hpassed, -, -, hs₁⟩ := processInboundHorizontalMessages_spec hhor
  exact ⟨sDrop, code, _, s₁.lastHrmpMqcHeads, hdrop, hpassed, hs₁⟩

/-! ## A block -/

/-- A block is `on_initialize`, the inherent, the calls and `on_finalize`, whose part after the
inherent is the preparation of the ancestor and its append. -/
theorem executeBlock_spec {s s' : SystemState P H} {b : BlockInput P H} {received : InboundRecord}
    (h : executeBlock hs cfg s b = some (s', received)) :
    ∃ s₁ f, setValidationData hs cfg (onInitialize s b.parentHash) b.inherent b.capacity
        b.parentHash = some (s₁, received) ∧
      prepareAncestor
        { b.calls.foldl applyCall s₁ with upgradeRestrictionSignal := none, upgradeGoAhead := none }
        b.inherent.relayChainState.hostConfiguration b.inherent.relayChainState.messagingState
        s₁.upgradeGoAhead b.source = some f ∧
      appendAncestor f = some s' := by
  unfold executeBlock at h
  obtain ⟨⟨s₁, received'⟩, hset, h⟩ := Option.bind_eq_some_iff.mp h
  obtain ⟨s₂, hfin, h⟩ := Option.bind_eq_some_iff.mp h
  obtain ⟨rfl, rfl⟩ := Prod.mk.inj (Option.some.inj h)
  -- after the inherent, the relay chain's data is in place for `on_finalize`
  obtain ⟨-, -, sDrop, sSig, sDown, -, -, -, hdown, hhor, -⟩ := setValidationData_spec hset
  obtain ⟨rfl, -, -⟩ := processInboundDownwardMessages_spec hdown
  obtain ⟨-, -, -, hs₁⟩ := processInboundHorizontalMessages_spec hhor
  obtain ⟨up, code, hcalls⟩ := applyCalls_frame b.calls s₁
  have hvd : (b.calls.foldl applyCall s₁).validationData = some b.inherent.validationData := by
    rw [hcalls, hs₁]
  have hhost : (b.calls.foldl applyCall s₁).hostConfiguration =
      some b.inherent.relayChainState.hostConfiguration := by
    rw [hcalls, hs₁]
  have hms : (b.calls.foldl applyCall s₁).relevantMessagingState =
      some b.inherent.relayChainState.messagingState := by
    rw [hcalls, hs₁]
  have hgo : (b.calls.foldl applyCall s₁).upgradeGoAhead = s₁.upgradeGoAhead := by
    rw [hcalls]
  rw [onFinalize_eq hvd hhost hms, hgo] at hfin
  obtain ⟨f, hf, happ⟩ := Option.bind_eq_some_iff.mp hfin
  exact ⟨s₁, f, hset, hf, happ⟩

/-- A block, with the calls as what they write and the append as the tracker it makes. -/
theorem executeBlock_eq {s s' : SystemState P H} {b : BlockInput P H} {received : InboundRecord}
    (h : executeBlock hs cfg s b = some (s', received)) :
    ∃ s₁ up code f T',
      setValidationData hs cfg (onInitialize s b.parentHash) b.inherent b.capacity
        b.parentHash = some (s₁, received) ∧
      prepareAncestor
        { s₁ with
          pendingUpwardMessages := up
          pendingValidationCode := code
          upgradeRestrictionSignal := none
          upgradeGoAhead := none }
        b.inherent.relayChainState.hostConfiguration b.inherent.relayChainState.messagingState
        s₁.upgradeGoAhead b.source = some f ∧
      (f.state.aggregatedUnincludedSegment.getD .default).append f.ancestor f.watermark
        f.limits = some (.ok T') ∧
      s' = { f.state with
        aggregatedUnincludedSegment := some T'
        unincludedSegment := f.state.unincludedSegment ++ [f.ancestor] } := by
  obtain ⟨s₁, f, hset, hf, happ⟩ := executeBlock_spec h
  obtain ⟨up, code, hcalls⟩ := applyCalls_frame b.calls s₁
  rw [hcalls] at hf
  obtain ⟨T', hT', rfl⟩ := appendAncestor_eq_some happ
  exact ⟨s₁, up, code, f, T', hset, hf, hT', rfl⟩

/-- What a block does to the segment: `on_initialize` records the parent's head, the included
prefix is dropped leaving room under the capacity, and the block joins without its head. -/
theorem executeBlock_unincludedSegment {s s' : SystemState P H} {b : BlockInput P H}
    {received : InboundRecord} (hsrc : b.source.Respects)
    (hsorted :
      (b.inherent.relayChainState.messagingState.egressChannels.map Prod.fst).Pairwise (· < ·))
    (h : executeBlock hs cfg s b = some (s', received)) :
    ∃ n a, s'.unincludedSegment = (replaceLastHead b.parentHash s.unincludedSegment).drop n ++ [a] ∧
      a.paraHeadHash = none ∧
      BitVec.ofNat 32 ((replaceLastHead b.parentHash s.unincludedSegment).drop n).length <
        b.capacity.get := by
  obtain ⟨s₁, up, code, f, T', hset, hf, -, rfl⟩ := executeBlock_eq h
  obtain ⟨sDrop, code₁, dmqHead, hrmpHeads, hdrop, -, hs₁⟩ := setValidationData_eq hset
  obtain ⟨n, aggregated, hsDrop, -, hcap⟩ := maybeDropIncludedAncestors_spec hdrop
  have hms : s₁.relevantMessagingState = some b.inherent.relayChainState.messagingState := by
    rw [hs₁]
  have hp : Prepared { s₁ with
      pendingUpwardMessages := up
      pendingValidationCode := code
      upgradeRestrictionSignal := none
      upgradeGoAhead := none } b.inherent.relayChainState.messagingState s₁.upgradeGoAhead f :=
    prepareAncestor_spec hms hsorted hsrc hf
  obtain ⟨ms', up', pending, hstate⟩ := hp.state
  refine ⟨n, f.ancestor, ?_, hp.paraHeadHash, hcap⟩
  rw [hstate, hs₁, hsDrop]
  rfl

end Validation

end Cumulus.ParachainSystem
