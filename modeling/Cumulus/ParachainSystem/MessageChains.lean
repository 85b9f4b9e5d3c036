import Cumulus.ParachainSystem.SegmentInvariant
import Cumulus.Found.HashChain

/-!
# parachain-system: the message queue chains over a run

The pallet keeps a message queue chain (MQC) for the downward queue, `LastDmqMqcHead`, and one
for each ingress channel, `LastHrmpMqcHeads`; every block must bring them to the heads the relay
chain states. This file follows the chains over a run:

* `HashScheme.Binding` — what is assumed of `BlakeTwo256`: `hash_of` injective on the tuples of
  a chain step and on payloads, and never the zero head; then a chain from the empty one binds
  its messages (`foldl_extendDownward_inj`, `foldl_extendHrmp_inj`, from `Found.HashChain`);
* `processInboundHorizontalMessages_heads` — after a block a sender has a chain exactly when it
  has an ingress channel; the chain is its chain of the last block, or the empty one, extended
  with the messages the block passed from it, and it reaches the channel's head;
  `executeBlock_chains` says the same of a block, with the downward chain;
* `ChainsTrack` — the run invariant: the downward chain folds every downward message the run
  passed, and a sender's chain folds its messages since its channel last appeared among the
  ingress channels (`openSince`); `chainsTrack_of_reachable`;
* `messageQueueChains_sound` — with a binding hash, after every block the messages the run passed
  are exactly those whose chains reach the relay chain's heads; `hrmpChain_restarts_on_reopen`:
  for a channel that closed and opened again these are the messages since it opened, not all of
  them.
-/

namespace Cumulus.Primitives

variable {H : Type}

/-- What is assumed of `BlakeTwo256`: `hash_of` is injective on the tuples
`(prev_head, sent_at, hash(data))` and on payloads, and no chain step yields the zero head. -/
structure HashScheme.Binding (hs : HashScheme H) : Prop where
  hashOf_inj : ∀ a n d a' n' d', hs.hashOf a n d = hs.hashOf a' n' d' → a = a' ∧ n = n' ∧ d = d'
  hashData_inj : Function.Injective hs.hashData
  hashOf_ne_zero : ∀ a n d, hs.hashOf a n d ≠ hs.zero

namespace MessageQueueChain

variable {hs : HashScheme H}

/-- With a binding hash, extending by a downward message determines the chain and the message. -/
theorem extendDownward_inj (hb : hs.Binding) {c c' : MessageQueueChain H}
    {m m' : InboundDownwardMessage} (h : c.extendDownward hs m = c'.extendDownward hs m') :
    c = c' ∧ m = m' := by
  obtain ⟨hc, hn, hd⟩ := hb.hashOf_inj _ _ _ _ _ _ (congrArg head h)
  exact ⟨congrArg mk hc, by rw [InboundDownwardMessage.mk.injEq]; exact ⟨hn, hb.hashData_inj hd⟩⟩

/-- With a binding hash, extending by a horizontal message determines the chain and the message. -/
theorem extendHrmp_inj (hb : hs.Binding) {c c' : MessageQueueChain H}
    {m m' : InboundHrmpMessage} (h : c.extendHrmp hs m = c'.extendHrmp hs m') :
    c = c' ∧ m = m' := by
  obtain ⟨hc, hn, hd⟩ := hb.hashOf_inj _ _ _ _ _ _ (congrArg head h)
  exact ⟨congrArg mk hc, by rw [InboundHrmpMessage.mk.injEq]; exact ⟨hn, hb.hashData_inj hd⟩⟩

/-- With a binding hash, a chain extended by a downward message is not the empty chain. -/
theorem extendDownward_ne_empty (hb : hs.Binding) (c : MessageQueueChain H)
    (m : InboundDownwardMessage) : c.extendDownward hs m ≠ .empty hs :=
  fun he => hb.hashOf_ne_zero _ _ _ (congrArg head he)

/-- With a binding hash, a chain extended by a horizontal message is not the empty chain. -/
theorem extendHrmp_ne_empty (hb : hs.Binding) (c : MessageQueueChain H)
    (m : InboundHrmpMessage) : c.extendHrmp hs m ≠ .empty hs :=
  fun he => hb.hashOf_ne_zero _ _ _ (congrArg head he)

/-- **A downward head binds its messages.** -/
theorem foldl_extendDownward_inj (hb : hs.Binding) {l l' : List InboundDownwardMessage}
    (h : (l.foldl (MessageQueueChain.extendDownward hs) (.empty hs)).head =
      (l'.foldl (MessageQueueChain.extendDownward hs) (.empty hs)).head) : l = l' :=
  Found.HashChain.eq_of_foldl_eq (fun _ _ _ _ => extendDownward_inj hb)
    (extendDownward_ne_empty hb) (congrArg mk h)

/-- **An HRMP head binds its messages.** -/
theorem foldl_extendHrmp_inj (hb : hs.Binding) {l l' : List InboundHrmpMessage}
    (h : (l.foldl (MessageQueueChain.extendHrmp hs) (.empty hs)).head =
      (l'.foldl (MessageQueueChain.extendHrmp hs) (.empty hs)).head) : l = l' :=
  Found.HashChain.eq_of_foldl_eq (fun _ _ _ _ => extendHrmp_inj hb)
    (extendHrmp_ne_empty hb) (congrArg mk h)

end MessageQueueChain

end Cumulus.Primitives

namespace Cumulus.ParachainSystem

open Cumulus.Primitives Cumulus.Found

variable {P H : Type}

/-! ## What a run passed -/

/-- The messages from `sender` among the dispatched ones, in dispatch order. -/
def sentBy (sender : ParaId) (passed : List (ParaId × InboundHrmpMessage)) :
    List InboundHrmpMessage :=
  (passed.filter (·.1 == sender)).map (·.2)

/-- The downward messages a run passed to `DmpMessageHandler`, block after block. -/
def downwardPassed (history : List InboundRecord) : List InboundDownwardMessage :=
  history.flatMap (·.downward)

/-- The messages from `sender` a run passed to `XcmpMessageHandler`, block after block. -/
def hrmpPassed (sender : ParaId) (history : List InboundRecord) : List InboundHrmpMessage :=
  history.flatMap fun record => sentBy sender record.horizontal

/-- The senders with an ingress channel at the relay parent of the last block. -/
def lastIngress (history : List InboundRecord) : List ParaId :=
  (history.getLast?.map (·.ingress)).getD []

/-- The blocks since the channel from `sender` last appeared among the ingress channels: the
longest run of last blocks whose relay parent had it. -/
def openSince (sender : ParaId) (history : List InboundRecord) : List InboundRecord :=
  (history.reverse.takeWhile fun record => sender ∈ record.ingress).reverse

/-- The messages of `sender` in a cons: the head is one when it is from `sender`. -/
theorem sentBy_cons (sender q : ParaId) (m : InboundHrmpMessage)
    (rest : List (ParaId × InboundHrmpMessage)) :
    sentBy sender ((q, m) :: rest) = if q = sender then m :: sentBy sender rest
      else sentBy sender rest := by
  by_cases hq : q = sender <;> simp [sentBy, hq]

/-- A block's record adds its downward messages at the end of those passed. -/
theorem downwardPassed_concat (history : List InboundRecord) (record : InboundRecord) :
    downwardPassed (history ++ [record]) = downwardPassed history ++ record.downward := by
  simp [downwardPassed]

/-- A block's record adds the horizontal messages it passed from `sender` at the end of those
passed. -/
theorem hrmpPassed_concat (sender : ParaId) (history : List InboundRecord)
    (record : InboundRecord) :
    hrmpPassed sender (history ++ [record]) =
      hrmpPassed sender history ++ sentBy sender record.horizontal := by
  simp [hrmpPassed]

/-- The last ingress list is that of the last block. -/
theorem lastIngress_concat (history : List InboundRecord) (record : InboundRecord) :
    lastIngress (history ++ [record]) = record.ingress := by
  simp [lastIngress]

/-- A block whose relay parent has the channel extends the blocks since it opened; any other
block closes it. -/
theorem openSince_concat (sender : ParaId) (history : List InboundRecord)
    (record : InboundRecord) :
    openSince sender (history ++ [record]) =
      if sender ∈ record.ingress then openSince sender history ++ [record] else [] := by
  unfold openSince
  rw [List.reverse_append, List.reverse_singleton, List.singleton_append, List.takeWhile_cons]
  by_cases h : sender ∈ record.ingress <;> simp [h]

/-- A sender that is not among the last ingress channels has no open channel since. -/
theorem openSince_eq_nil {sender : ParaId} {history : List InboundRecord}
    (h : sender ∉ lastIngress history) : openSince sender history = [] := by
  rcases List.eq_nil_or_concat history with rfl | ⟨init, record, rfl⟩
  · rfl
  · rw [List.concat_eq_append, lastIngress_concat] at h
    rw [List.concat_eq_append, openSince_concat, if_neg h]

/-! ## The chains of a block -/

section Heads

variable (hs : HashScheme H) (last : SortedMap ParaId (MessageQueueChain H))

/-- Writing a sender's running chain back changes no running chain. -/
theorem runningHead_insert_runningHead (running : SortedMap ParaId (MessageQueueChain H))
    (q p : ParaId) :
    runningHead hs last (running.insert q (runningHead hs last running q)) p =
      runningHead hs last running p := by
  by_cases hp : p = q
  · subst hp
    simp [runningHead]
  · simp [runningHead, SortedMap.get?_insert_of_ne _ _ hp]

/-- The loop over the dispatched messages extends each sender's running chain with its messages,
in dispatch order. -/
theorem runningHead_extendRunning :
    ∀ (passed : List (ParaId × InboundHrmpMessage)) (running : SortedMap ParaId (MessageQueueChain H))
      (p : ParaId),
      runningHead hs last (extendRunning hs last passed running) p =
        (sentBy p passed).foldl (MessageQueueChain.extendHrmp hs) (runningHead hs last running p)
  | [], _, _ => rfl
  | (q, m) :: rest, running, p => by
    rw [extendRunning, runningHead_extendRunning rest, sentBy_cons]
    by_cases hq : q = p
    · subst hq
      simp [runningHead]
    · simp [runningHead, SortedMap.get?_insert_of_ne _ _ (Ne.symm hq), hq]

/-- The running chain of a sender that passed no message is unchanged. -/
theorem extendRunning_get?_of_not_mem :
    ∀ {passed : List (ParaId × InboundHrmpMessage)} {running : SortedMap ParaId (MessageQueueChain H)}
      {p : ParaId}, p ∉ passed.map Prod.fst →
      (extendRunning hs last passed running).get? p = running.get? p
  | [], _, _, _ => rfl
  | (q, m) :: rest, running, p, hp => by
    rw [List.map_cons, List.mem_cons, not_or] at hp
    rw [extendRunning, extendRunning_get?_of_not_mem hp.2, SortedMap.get?_insert_of_ne _ _ hp.1]

/-- The final loop checks each ingress channel's head against its sender's running chain and
writes the chain back, so that a channel that received nothing keeps its chain. -/
theorem checkIngress_spec [DecidableEq H] :
    ∀ {ingress : List (ParaId × AbridgedHrmpChannel H)}
      {running m' : SortedMap ParaId (MessageQueueChain H)},
      checkIngress hs last ingress running = some m' →
      (∀ p, m'.get? p = if p ∈ ingress.map Prod.fst then some (runningHead hs last running p)
        else running.get? p) ∧
      ∀ p ch, (p, ch) ∈ ingress → (runningHead hs last running p).head = ch.mqcHead.getD hs.zero
  | [], running, m', h => by
    cases h
    exact ⟨fun p => by simp, fun p ch hmem => absurd hmem List.not_mem_nil⟩
  | (q, ch) :: rest, running, m', h => by
    unfold checkIngress at h
    dsimp only at h
    split_ifs at h with hq
    obtain ⟨hget, hheads⟩ := checkIngress_spec h
    simp only [runningHead_insert_runningHead] at hget hheads
    refine ⟨fun p => ?_, fun p ch' hmem => ?_⟩
    · rw [hget p]
      by_cases hp : p = q
      · subst hp
        split_ifs <;> simp_all
      · simp only [List.map_cons, List.mem_cons, hp, false_or,
          SortedMap.get?_insert_of_ne _ _ hp]
    · rcases List.mem_cons.mp hmem with heq | hmem
      · obtain ⟨rfl, rfl⟩ := Prod.mk.inj heq
        exact hq
      · exact hheads p ch' hmem

/-- **The chains of the horizontal messages.** A sender has a chain after the block exactly when
it has an ingress channel: its chain of the last block, or the empty one, extended with the
messages passed from it; that chain reaches the channel's head. -/
theorem processInboundHorizontalMessages_heads [DecidableEq H] {s s' : SystemState P H}
    {ingress : List (ParaId × AbridgedHrmpChannel H)}
    {horizontal : SortedMap ParaId (List InboundHrmpMessage)} {relayParentNumber : RelayBlockNumber}
    {passed : List (ParaId × InboundHrmpMessage)}
    (h : processInboundHorizontalMessages hs s ingress horizontal relayParentNumber =
      some (s', passed)) :
    (∀ p, s'.lastHrmpMqcHeads.get? p = if p ∈ ingress.map Prod.fst then
      some ((sentBy p passed).foldl (MessageQueueChain.extendHrmp hs)
        ((s.lastHrmpMqcHeads.get? p).getD (.empty hs))) else none) ∧
    ∀ p ch, (p, ch) ∈ ingress →
      ((sentBy p passed).foldl (MessageQueueChain.extendHrmp hs)
        ((s.lastHrmpMqcHeads.get? p).getD (.empty hs))).head = ch.mqcHead.getD hs.zero := by
  obtain ⟨hpassed, hall, hcheck, -⟩ := processInboundHorizontalMessages_spec h
  obtain ⟨hget, hheads⟩ := checkIngress_spec hs _ hcheck
  -- the `assert!` on the senders: every dispatched message has an ingress channel
  have hsenders : ∀ p, p ∉ ingress.map Prod.fst → p ∉ passed.map Prod.fst := by
    intro p hp hmem
    obtain ⟨⟨q, m⟩, hqm, rfl⟩ := List.mem_map.mp hmem
    rw [hpassed] at hqm
    have hflat := (List.perm_insertionSort dispatchedBefore _).mem_iff.mp hqm
    obtain ⟨⟨q', messages⟩, hentry, hm⟩ := List.mem_flatMap.mp hflat
    obtain ⟨m', -, heq⟩ := List.mem_map.mp hm
    obtain ⟨rfl, -⟩ := Prod.mk.inj heq
    exact hp (mem_of_binarySearchByKey_isOk (hall _ hentry))
  refine ⟨fun p => ?_, fun p ch hmem => ?_⟩
  · rw [hget p, runningHead_extendRunning]
    split_ifs with hp
    · rfl
    · rw [extendRunning_get?_of_not_mem hs _ (hsenders p hp)]
      rfl
  · have hhead := hheads p ch hmem
    rwa [runningHead_extendRunning] at hhead

end Heads

/-! ## The invariant -/

section Invariant

variable {hs : HashScheme H}

/-- **The chains track what the run passed.** The downward chain folds every downward message
the run passed; a sender has a chain exactly when it had an ingress channel at the last relay
parent, and the chain folds its messages since that channel last appeared. -/
structure ChainsTrack (hs : HashScheme H) (r : SystemRun P H) : Prop where
  downward : r.state.lastDmqMqcHead =
    (downwardPassed r.history).foldl (MessageQueueChain.extendDownward hs) (.empty hs)
  horizontal : ∀ p, r.state.lastHrmpMqcHeads.get? p =
    if p ∈ lastIngress r.history then
      some ((hrmpPassed p (openSince p r.history)).foldl (MessageQueueChain.extendHrmp hs)
        (.empty hs))
    else none

/-- Genesis satisfies the message-chain invariant. -/
theorem ChainsTrack.genesis (hs : HashScheme H) :
    ChainsTrack hs (SystemRun.genesis hs : SystemRun P H) :=
  ⟨rfl, fun _ => by simp [lastIngress, SystemRun.genesis, SystemState.genesis]⟩

/-- The chain a block starts from for a sender: the run's chain since the channel opened. -/
theorem ChainsTrack.getD_get? {r : SystemRun P H} (ht : ChainsTrack hs r) (p : ParaId) :
    (r.state.lastHrmpMqcHeads.get? p).getD (.empty hs) =
      (hrmpPassed p (openSince p r.history)).foldl (MessageQueueChain.extendHrmp hs) (.empty hs) := by
  rw [ht.horizontal p]
  split_ifs with hp
  · rfl
  · rw [openSince_eq_nil hp]
    rfl

end Invariant

/-! ## Blocks and runs -/

section Run

variable [DecidableEq P] [DecidableEq H] {hs : HashScheme H} {cfg : SystemConfig}

/-- **The chains of a block.** The downward chain is the last one extended with the downward
messages passed, and reaches the relay chain's head; the HRMP chains are those of
`processInboundHorizontalMessages_heads`. Nothing else in the block touches them. -/
theorem executeBlock_chains {s s' : SystemState P H} {b : BlockInput P H}
    {received : InboundRecord} (h : executeBlock hs cfg s b = some (s', received)) :
    let ms := b.inherent.relayChainState.messagingState
    s'.lastDmqMqcHead =
      received.downward.foldl (MessageQueueChain.extendDownward hs) s.lastDmqMqcHead ∧
    s'.lastDmqMqcHead.head = ms.dmqMqcHead ∧
    received.ingress = ms.ingressChannels.map Prod.fst ∧
    (∀ p, s'.lastHrmpMqcHeads.get? p = if p ∈ received.ingress then
      some ((sentBy p received.horizontal).foldl (MessageQueueChain.extendHrmp hs)
        ((s.lastHrmpMqcHeads.get? p).getD (.empty hs))) else none) ∧
    ∀ p ch, (p, ch) ∈ ms.ingressChannels →
      ((sentBy p received.horizontal).foldl (MessageQueueChain.extendHrmp hs)
        ((s.lastHrmpMqcHeads.get? p).getD (.empty hs))).head = ch.mqcHead.getD hs.zero := by
  intro ms
  obtain ⟨s₁, up, code, f, T', hset, hf, -, rfl⟩ := executeBlock_eq h
  obtain ⟨-, -, sDrop, sSig, sDown, hdrop, -, hgo, hdown, hhor, hing⟩ := setValidationData_spec hset
  obtain ⟨n, aggregated, rfl, -⟩ := maybeDropIncludedAncestors_spec hdrop
  obtain ⟨code', rfl⟩ := applyGoAhead_spec hgo
  obtain ⟨rfl, -, hhead⟩ := processInboundDownwardMessages_spec hdown
  obtain ⟨hget, hheads⟩ := processInboundHorizontalMessages_heads hs hhor
  obtain ⟨-, -, -, hs₁⟩ := processInboundHorizontalMessages_spec hhor
  obtain ⟨⟨ms', up', pending, hfs⟩, -, -⟩ := prepareAncestor_frame (by rw [hs₁]) hf
  -- the calls and `on_finalize` write neither chain
  have hdmq : s₁.lastDmqMqcHead =
      received.downward.foldl (MessageQueueChain.extendDownward hs) s.lastDmqMqcHead := by
    rw [hs₁]
    rfl
  refine ⟨by rw [hfs]; exact hdmq, by rw [hfs, hdmq]; exact hhead, hing, fun p => ?_, hheads⟩
  rw [hfs, hing]
  exact hget p

/-- **The step.** A block extends the chains with exactly what it passed. -/
theorem ChainsTrack.systemStep {r r' : SystemRun P H} {b : BlockInput P H}
    (ht : ChainsTrack hs r) (h : systemStep hs cfg r b = some r') : ChainsTrack hs r' := by
  obtain ⟨⟨s', received⟩, hexec, rfl⟩ := Option.map_eq_some_iff.mp h
  obtain ⟨hdmq, -, -, hget, -⟩ := executeBlock_chains hexec
  refine ⟨?_, fun p => ?_⟩
  · change s'.lastDmqMqcHead = _
    rw [downwardPassed_concat, List.foldl_append, ← ht.downward]
    exact hdmq
  · change s'.lastHrmpMqcHeads.get? p = _
    rw [hget p, lastIngress_concat, openSince_concat]
    split_ifs with hp
    · rw [hrmpPassed_concat, List.foldl_append, ← ht.getD_get? p]
    · rfl

/-- Every reachable state satisfies the message-chain invariant. -/
theorem chainsTrack_of_reachable {r : SystemRun P H}
    (hr : Reachable (systemStep hs cfg) (SystemRun.genesis hs) r) : ChainsTrack hs r :=
  @Reachable.invariant _ _ (systemStep hs cfg) _ _ (ChainsTrack hs) (ChainsTrack.genesis hs)
    (fun _ _ _ ht h => ht.systemStep h) hr

/-- **The message queue chains are sound.** With a binding hash, after every block of a run from
genesis the downward messages the run passed are exactly the messages whose chain from the empty
one reaches the relay chain's downward head, and for each ingress channel the messages passed
from its sender since the channel last appeared are exactly those whose chain reaches the
channel's head: none is skipped, repeated, reordered or changed. -/
theorem messageQueueChains_sound (hb : hs.Binding) {r r' : SystemRun P H} {b : BlockInput P H}
    (hr : Reachable (systemStep hs cfg) (SystemRun.genesis hs) r)
    (hstep : systemStep hs cfg r b = some r') :
    (∀ l : List InboundDownwardMessage,
      (l.foldl (MessageQueueChain.extendDownward hs) (.empty hs)).head =
          b.inherent.relayChainState.messagingState.dmqMqcHead ↔
        l = downwardPassed r'.history) ∧
    ∀ p ch, (p, ch) ∈ b.inherent.relayChainState.messagingState.ingressChannels →
      ∀ l : List InboundHrmpMessage,
        (l.foldl (MessageQueueChain.extendHrmp hs) (.empty hs)).head = ch.mqcHead.getD hs.zero ↔
          l = hrmpPassed p (openSince p r'.history) := by
  have ht := chainsTrack_of_reachable hr
  have ht' := ht.systemStep hstep
  obtain ⟨⟨s', received⟩, hexec, rfl⟩ := Option.map_eq_some_iff.mp hstep
  obtain ⟨-, hhead, hing, -, hheads⟩ := executeBlock_chains hexec
  refine ⟨fun l => ?_, fun p ch hmem l => ?_⟩
  · -- the run's chain reaches the head, and the head binds the chain
    have hrun : s'.lastDmqMqcHead = _ := ht'.downward
    rw [← hhead, hrun]
    exact ⟨MessageQueueChain.foldl_extendDownward_inj hb, fun h => h ▸ rfl⟩
  · have hp : p ∈ received.ingress := hing ▸ List.mem_map.mpr ⟨_, hmem, rfl⟩
    have hchain : (hrmpPassed p (openSince p (r.history ++ [received]))).foldl
        (MessageQueueChain.extendHrmp hs) (.empty hs) =
        (sentBy p received.horizontal).foldl (MessageQueueChain.extendHrmp hs)
          ((r.state.lastHrmpMqcHeads.get? p).getD (.empty hs)) := by
      rw [openSince_concat, if_pos hp, hrmpPassed_concat, List.foldl_append, ht.getD_get? p]
    rw [← hheads p ch hmem, ← hchain]
    exact ⟨MessageQueueChain.foldl_extendHrmp_inj hb, fun h => h ▸ rfl⟩

end Run

/-! ## A channel that closes and opens again -/

/-- The term model of the hash: a hash is the expression that made it, so it binds. -/
inductive FreeHash where
  | zero
  | data (bytes : List UInt8)
  | link (prev : FreeHash) (sentAt : RelayBlockNumber) (dataHash : FreeHash)
  deriving DecidableEq

/-- The hash scheme of the term model. -/
def freeHash : HashScheme FreeHash := ⟨.zero, .link, .data⟩

/-- The free hash scheme binds its inputs. -/
theorem freeHash_binding : freeHash.Binding where
  hashOf_inj _ _ _ _ _ _ h := by
    cases h
    exact ⟨rfl, rfl, rfl⟩
  hashData_inj _ _ h := by
    cases h
    rfl
  hashOf_ne_zero _ _ _ h := by cases h

/-- An ingress channel whose chain has the head `mqcHead`. -/
def channelWith (mqcHead : Option FreeHash) : AbridgedHrmpChannel FreeHash :=
  ⟨10, 100, 10, 0, 0, mqcHead⟩

/-- A block at relay parent `n` whose relay chain has the ingress channels `ingress`, bringing
the downward messages `downward` and the horizontal messages `horizontal`; the downward head is
that of the one message `⟨1, [3]⟩`. -/
def chainBlock (n : RelayBlockNumber) (ingress : List (ParaId × AbridgedHrmpChannel FreeHash))
    (downward : List InboundDownwardMessage)
    (horizontal : SortedMap ParaId (List InboundHrmpMessage)) : BlockInput Nat FreeHash where
  parentHash := n.toNat
  inherent :=
    ⟨⟨n⟩, ⟨some 0, none, none, exampleHostConfiguration,
      ⟨.link .zero 1 (.data [3]), ⟨0, 0⟩, ingress, []⟩⟩, downward, horizontal⟩
  capacity := .value 5 (by simp)
  calls := []
  source := silentSource

/-- Para 5 has a channel and sends one message on it; the downward message comes too. -/
def openBlock : BlockInput Nat FreeHash :=
  chainBlock 1 [(5, channelWith (some (.link .zero 1 (.data [0]))))] [⟨1, [3]⟩]
    (.ofList [(5, [⟨1, [0]⟩])])

/-- The channel is closed. -/
def closeBlock : BlockInput Nat FreeHash := chainBlock 2 [] [] .empty

/-- The channel is open again, with the empty chain. -/
def reopenBlock : BlockInput Nat FreeHash := chainBlock 3 [(5, channelWith none)] [] .empty

/-- **The chain of a reopened channel restarts.** Para 5 sent a message on a channel that then
closed and opened again; the relay chain states the empty chain for the new channel and the
block passes, but the messages from para 5 over the whole run do not fold to that head. -/
theorem hrmpChain_restarts_on_reopen :
    ∃ r r' : SystemRun Nat FreeHash,
      Reachable (systemStep freeHash .anyRelayNumber) (SystemRun.genesis freeHash) r ∧
      systemStep freeHash .anyRelayNumber r reopenBlock = some r' ∧
      (5, channelWith none) ∈ reopenBlock.inherent.relayChainState.messagingState.ingressChannels ∧
      ((hrmpPassed 5 r'.history).foldl (MessageQueueChain.extendHrmp freeHash)
        (.empty freeHash)).head ≠ (channelWith none).mqcHead.getD freeHash.zero := by
  have hr := Reachable.of_runSteps (rfl : runSteps (systemStep freeHash .anyRelayNumber)
    (SystemRun.genesis freeHash) [openBlock, closeBlock] = some _)
  exact ⟨_, _, hr, rfl, List.mem_singleton_self _, by decide⟩

/-- The reopened channel's chain is the chain of the messages since it opened: none. -/
theorem messageQueueChains_sound_reopen :
    freeHash.Binding ∧ ∃ r r' : SystemRun Nat FreeHash,
      Reachable (systemStep freeHash .anyRelayNumber) (SystemRun.genesis freeHash) r ∧
      systemStep freeHash .anyRelayNumber r reopenBlock = some r' ∧
      (∀ l : List InboundDownwardMessage,
        (l.foldl (MessageQueueChain.extendDownward freeHash) (.empty freeHash)).head =
            reopenBlock.inherent.relayChainState.messagingState.dmqMqcHead ↔
          l = downwardPassed r'.history) ∧
      ∀ p ch, (p, ch) ∈ reopenBlock.inherent.relayChainState.messagingState.ingressChannels →
        ∀ l : List InboundHrmpMessage,
          (l.foldl (MessageQueueChain.extendHrmp freeHash) (.empty freeHash)).head =
              ch.mqcHead.getD freeHash.zero ↔
            l = hrmpPassed p (openSince p r'.history) := by
  have hr := Reachable.of_runSteps (rfl : runSteps (systemStep freeHash .anyRelayNumber)
    (SystemRun.genesis freeHash) [openBlock, closeBlock] = some _)
  exact ⟨freeHash_binding, _, _, hr, rfl, messageQueueChains_sound freeHash_binding hr rfl⟩

end Cumulus.ParachainSystem
