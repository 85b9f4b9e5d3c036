import Mathlib.Data.List.Perm.Subperm
import Cumulus.Found.SortedMap
import Cumulus.Found.Run

/-!
# PoV recovery

A parachain block whose candidate is pending availability on the relay chain, but which never
reached this node, is recovered from the relay chain's availability store and imported.
`PoVRecovery` keeps

* `candidates` — the pending candidates by block hash, each with its number, its parent and the
  flag `waitingRecovery`, which the source documents as "true iff a block is either queued to be
  recovered or recovery is currently in progress";
* `recoveryQueue` — the hashes to recover, first in first out: every push also starts a delay,
  and each delay that expires takes the front hash;
* `activeCandidates` and `recoveries` — `ActiveCandidateRecovery`: the hashes being recovered,
  and one recovery in flight per start, which complete in any order;
* `waitingForParent` — recovered blocks whose parent is still being recovered, as
  `(parent, block)` pairs in push order (the source's map from a parent hash to a vector of
  blocks; a block is named by its hash, which is its candidate's);
* `candidatesInRetry` — the hashes whose recovery failed once and was queued again;
* `imported` — the hashes handed to the import queue, in order.

`run` is a loop over six event streams, so the model is one step function over `Event`. The
block status a handler asks of the parachain client is an argument of the event whose handler
asks it. The loops of `recover`, `reset_candidate` and `import_block` carry fuel, with a lemma
each that more fuel changes nothing (`recoverLoop_add`, `drainWaiting_add`); so the handlers' loops
end within the fuel they are given (`povRecovery_loops_end`).

Source: `client/pov-recovery/src/lib.rs`, `client/pov-recovery/src/active_candidate_recovery.rs`
-/

namespace Cumulus.PovRecovery

open Cumulus.Found

/-- `BlockStatus` as `recover` and `handle_candidate_recovered` read it: `Ok(Unknown)`, another
`Ok` status, or `Err`. -/
inductive BlockStatus where
  | unknown
  | known
  | error
  deriving DecidableEq, Repr

/-- `RecoveryKind`: recover the block only, or its unknown ancestors too. -/
inductive RecoveryKind where
  | simple
  | full
  deriving DecidableEq, Repr

/-- What a recovered `AvailableData` gives: a PoV that fails to decompress, block data that fails
to decode, or a block with this parent hash. -/
inductive RecoveredPov (H : Type) where
  | decompressFailed
  | decodeFailed
  | block (parent : H)
  deriving DecidableEq, Repr

/-- An outstanding block candidate; its receipt and session index, which only the recovery
message reads, are left out. -/
structure Candidate (H : Type) where
  blockNumber : Nat
  parentHash : H
  /-- Lazy recovery has been submitted. -/
  waitingRecovery : Bool
  deriving DecidableEq, Repr

variable {H : Type} [LinearOrder H]

/-- The state of the PoV recovery; the client, the import queue and the streams are the events'
side. -/
structure PoVRecovery (H : Type) [LinearOrder H] where
  candidates : SortedMap H (Candidate H)
  recoveryQueue : List H
  activeCandidates : List H
  recoveries : List H
  waitingForParent : List (H × H)
  candidatesInRetry : List H
  imported : List H

/-- `HashSet::insert` on a list without repeats. -/
def setInsert (s : List H) (hash : H) : List H := if hash ∈ s then s else s ++ [hash]

/-- A hash inserted into a set is in it, with the hashes it held. -/
theorem mem_setInsert {s : List H} {hash x : H} : x ∈ setInsert s hash ↔ x = hash ∨ x ∈ s := by
  unfold setInsert
  split
  · next h =>
    constructor
    · exact Or.inr
    · rintro (rfl | hx)
      · exact h
      · exact hx
  · rw [List.mem_append, List.mem_singleton, or_comm]

/-- `waiting_for_parent.remove(&parent)`: the blocks waiting for `parent`, in push order, and the
pairs of the other parents. -/
def removeWaiting (waitingForParent : List (H × H)) (parent : H) : List H × List (H × H) :=
  ((waitingForParent.filter (·.1 = parent)).map Prod.snd, waitingForParent.filter (·.1 ≠ parent))

/-- Removing the waiting children of a parent splits the list. -/
theorem length_removeWaiting (waitingForParent : List (H × H)) (parent : H) :
    (removeWaiting waitingForParent parent).1.length +
      (removeWaiting waitingForParent parent).2.length = waitingForParent.length := by
  simp only [removeWaiting, List.length_map, decide_not]
  exact (List.length_eq_length_filter_add _).symm

/-- A removed waiting child was waiting. -/
theorem mem_of_mem_removeWaiting {waitingForParent : List (H × H)} {parent : H} {e : H × H}
    (h : e ∈ (removeWaiting waitingForParent parent).2) : e ∈ waitingForParent :=
  List.mem_of_mem_filter h

/-- The worklist loop of `reset_candidate` and of `import_block`: take the next hash off the
worklist, record it in `drained`, and `remove` the blocks waiting for it, which `merge` puts on
the worklist. -/
def drainWaiting (merge : List H → List H → List H) :
    Nat → List (H × H) → List H → List H → List (H × H) × List H
  | 0, waitingForParent, _, drained => (waitingForParent, drained)
  | _ + 1, waitingForParent, [], drained => (waitingForParent, drained)
  | fuel + 1, waitingForParent, hash :: worklist, drained =>
    drainWaiting merge fuel (removeWaiting waitingForParent hash).2
      (merge (removeWaiting waitingForParent hash).1 worklist) (drained ++ [hash])

/-! ## The fuel of the loops -/

section drain

variable {merge : List H → List H → List H}

/-- Fuel for the worklist and the stored blocks together is enough: each turn takes one hash off
the worklist and moves the blocks waiting for it there, so one more turn changes nothing. -/
theorem drainWaiting_succ (hmerge : ∀ a b, (merge a b).length = a.length + b.length)
    {fuel : Nat} {waitingForParent : List (H × H)} {worklist drained : List H}
    (hfuel : worklist.length + waitingForParent.length ≤ fuel) :
    drainWaiting merge (fuel + 1) waitingForParent worklist drained =
      drainWaiting merge fuel waitingForParent worklist drained := by
  induction fuel generalizing waitingForParent worklist drained with
  | zero =>
    have hnil : worklist = [] := List.eq_nil_of_length_eq_zero (by omega)
    subst hnil
    rfl
  | succ fuel ih =>
    cases worklist with
    | nil => rfl
    | cons hash worklist =>
      have hlen := length_removeWaiting waitingForParent hash
      simp only [drainWaiting]
      apply ih
      rw [hmerge]
      simp only [List.length_cons] at hfuel
      omega

/-- With fuel for the worklist and the waiting children, more fuel changes nothing. -/
theorem drainWaiting_add (hmerge : ∀ a b, (merge a b).length = a.length + b.length)
    {fuel : Nat} {waitingForParent : List (H × H)} {worklist drained : List H}
    (hfuel : worklist.length + waitingForParent.length ≤ fuel) (n : Nat) :
    drainWaiting merge (fuel + n) waitingForParent worklist drained =
      drainWaiting merge fuel waitingForParent worklist drained := by
  induction n with
  | zero => rfl
  | succ n ih =>
    rw [← Nat.add_assoc, drainWaiting_succ hmerge (by omega), ih]

/-- The loop only removes stored blocks. -/
theorem mem_of_mem_drainWaiting {fuel : Nat} {waitingForParent : List (H × H)}
    {worklist drained : List H} {e : H × H}
    (h : e ∈ (drainWaiting merge fuel waitingForParent worklist drained).1) :
    e ∈ waitingForParent := by
  induction fuel generalizing waitingForParent worklist drained with
  | zero => exact h
  | succ fuel ih =>
    cases worklist with
    | nil => exact h
    | cons hash worklist => exact mem_of_mem_removeWaiting (ih h)

end drain

namespace PoVRecovery

/-- `PoVRecovery::new`: nothing pending. -/
def new : PoVRecovery H := ⟨.empty, [], [], [], [], [], []⟩

/-- `RecoveryQueue::push_recovery`: the hash goes to the back of the queue. -/
def pushRecovery (s : PoVRecovery H) (hash : H) : PoVRecovery H :=
  { s with recoveryQueue := s.recoveryQueue ++ [hash] }

/-- Block is no longer waiting for recovery.
Source: `PoVRecovery::clear_waiting_recovery` -/
def clearWaitingRecovery (s : PoVRecovery H) (blockHash : H) : PoVRecovery H :=
  match s.candidates.get? blockHash with
  | some candidate =>
    { s with candidates := s.candidates.insert blockHash { candidate with waitingRecovery := false } }
  | none => s

/-- Drop the candidates that a finalized block of `blockNumber` makes obsolete.
Source: `PoVRecovery::handle_block_finalized` -/
def handleBlockFinalized (s : PoVRecovery H) (blockNumber : Nat) : PoVRecovery H :=
  { s with candidates := s.candidates.filter fun _ pc => blockNumber < pc.blockNumber }

/-- Start the recovery of a candidate that is still waiting for it.
Source: `PoVRecovery::recover_candidate`, `ActiveCandidateRecovery::recover_candidate` -/
def recoverCandidate (s : PoVRecovery H) (blockHash : H) : PoVRecovery H :=
  match s.candidates.get? blockHash with
  | some candidate =>
    if candidate.waitingRecovery then
      { s with activeCandidates := setInsert s.activeCandidates blockHash,
               recoveries := s.recoveries ++ [blockHash] }
    else s
  | none => s

/-- Clear `waiting_for_parent` and `waiting_recovery` for the candidate with `hash`; the blocks
waiting for it, and for those in turn, are dropped.
Source: `PoVRecovery::reset_candidate` -/
def resetCandidate (s : PoVRecovery H) (hash : H) : PoVRecovery H :=
  -- `blocks_to_delete` is a stack: the last child pushed is popped first
  let drained := drainWaiting (fun childs blocksToDelete => childs.reverse ++ blocksToDelete)
    (s.waitingForParent.length + 1) s.waitingForParent [hash] []
  clearWaitingRecovery { s with waitingForParent := drained.1 } hash

/-- Import `block`, and the blocks waiting for it in turn.
Source: `PoVRecovery::import_block` -/
def importBlock (s : PoVRecovery H) (block : H) : PoVRecovery H :=
  -- `blocks` is a queue: the blocks waiting for a parent come after those already queued
  let drained := drainWaiting (fun waiting blocks => blocks ++ waiting)
    (s.waitingForParent.length + 1) s.waitingForParent [block] []
  { s with waitingForParent := drained.1, imported := s.imported ++ drained.2 }

/-- Handle a completed recovery of `blockHash`.
Source: `PoVRecovery::handle_candidate_recovered` -/
def handleCandidateRecovered (s : PoVRecovery H) (status : H → BlockStatus) (blockHash : H) :
    Option (RecoveredPov H) → PoVRecovery H
  | none =>
    if blockHash ∈ s.candidatesInRetry then
      -- unable to recover the block after the retry
      { s with candidatesInRetry := s.candidatesInRetry.erase blockHash }.resetCandidate blockHash
    else { s with candidatesInRetry := setInsert s.candidatesInRetry blockHash }.pushRecovery blockHash
  | some availableData =>
    let s := { s with candidatesInRetry := s.candidatesInRetry.erase blockHash }
    match availableData with
    | .decompressFailed => s.resetCandidate blockHash
    | .decodeFailed => s.resetCandidate blockHash
    | .block parent =>
      match status parent with
      | .unknown =>
        -- wait for the parent if it is queued or being recovered
        if (s.candidates.get? parent).any (·.waitingRecovery) then
          { s with waitingForParent := s.waitingForParent ++ [(parent, blockHash)] }
        else s.resetCandidate blockHash
      | .known => s.importBlock blockHash
      | .error => s.resetCandidate blockHash

/-- The loop of `recover` at `hash`, with `toRecover` marked so far: the hashes to queue when it
breaks, `none` when it returns. -/
def recoverLoop (status : H → BlockStatus) (kind : RecoveryKind) :
    Nat → PoVRecovery H → H → List H → PoVRecovery H × Option (List H)
  | 0, s, _, toRecover => (s, some toRecover)
  | fuel + 1, s, hash, toRecover =>
    match s.candidates.get? hash with
    -- never announced as a candidate
    | none => (s, none)
    | some candidate =>
      match status hash with
      | .unknown =>
        if candidate.waitingRecovery then (s, some toRecover)
        else
          let marked := { candidate with waitingRecovery := true }
          let s := { s with candidates := s.candidates.insert hash marked }
          match kind with
          | .simple => (s, some (toRecover ++ [hash]))
          | .full => recoverLoop status kind fuel s candidate.parentHash (toRecover ++ [hash])
      | .known => (s, some toRecover)
      | .error => (toRecover.foldl clearWaitingRecovery s, none)

/-- Attempts an explicit recovery of one or more blocks: the hashes marked are queued, the last
marked (the oldest ancestor) first.
Source: `PoVRecovery::recover` -/
def recover (s : PoVRecovery H) (status : H → BlockStatus) (hash : H) (kind : RecoveryKind) :
    PoVRecovery H :=
  match recoverLoop status kind (s.candidates.entries.length + 1) s hash [] with
  | (s, some toRecover) => { s with recoveryQueue := s.recoveryQueue ++ toRecover.reverse }
  | (s, none) => s

/-- Handle a new pending candidate, whose header gives `hash`, `blockNumber` and `parentHash`;
`finalizedNumber` is the client's finalized number. A header that fails to decode changes nothing.
Source: `PoVRecovery::handle_pending_candidate` -/
def handlePendingCandidate (s : PoVRecovery H) (status : H → BlockStatus) (hash : H)
    (blockNumber : Nat) (parentHash : H) (finalizedNumber : Nat) : PoVRecovery H :=
  if blockNumber ≤ finalizedNumber then s
  else if (s.candidates.get? hash).isSome then s
  else
    { s with candidates := s.candidates.insert hash ⟨blockNumber, parentHash, false⟩ }.recover
      status hash .simple

/-! ## The walk of `recover` -/

/-- `clear_waiting_recovery` changes only the candidates. -/
theorem clearWaitingRecovery_frame (s : PoVRecovery H) (blockHash : H) :
    ∃ candidates, s.clearWaitingRecovery blockHash = { s with candidates := candidates } := by
  unfold clearWaitingRecovery
  split
  · exact ⟨_, rfl⟩
  · exact ⟨s.candidates, rfl⟩

/-- `clear_waiting_recovery` leaves every other candidate. -/
theorem get?_clearWaitingRecovery_of_ne (s : PoVRecovery H) {blockHash x : H}
    (h : x ≠ blockHash) :
    (s.clearWaitingRecovery blockHash).candidates.get? x = s.candidates.get? x := by
  unfold clearWaitingRecovery
  split
  · exact SortedMap.get?_insert_of_ne _ _ h
  · rfl

/-- Clearing several recoveries changes only the candidates. -/
theorem foldl_clearWaitingRecovery_frame (s : PoVRecovery H) (hashes : List H) :
    ∃ candidates, hashes.foldl clearWaitingRecovery s = { s with candidates := candidates } := by
  induction hashes generalizing s with
  | nil => exact ⟨s.candidates, rfl⟩
  | cons x hashes ih =>
    obtain ⟨candidates, hcs⟩ := clearWaitingRecovery_frame s x
    obtain ⟨candidates', hcs'⟩ := ih (s.clearWaitingRecovery x)
    refine ⟨candidates', ?_⟩
    rw [List.foldl_cons, hcs', hcs]

/-- Clearing several recoveries leaves the candidates not cleared. -/
theorem get?_foldl_clearWaitingRecovery (s : PoVRecovery H) {hashes : List H} {x : H}
    (hx : x ∉ hashes) :
    (hashes.foldl clearWaitingRecovery s).candidates.get? x = s.candidates.get? x := by
  induction hashes generalizing s with
  | nil => rfl
  | cons y hashes ih =>
    rw [List.foldl_cons, ih _ fun h => hx (List.mem_cons_of_mem _ h),
      get?_clearWaitingRecovery_of_ne _ fun h => hx (List.mem_cons.mpr (.inl h))]

section walk

variable {status : H → BlockStatus} {kind : RecoveryKind}

/-- The walk of `recover` writes the candidates only. -/
theorem recoverLoop_frame (fuel : Nat) (s : PoVRecovery H) (hash : H) (toRecover : List H) :
    ∃ candidates,
      (recoverLoop status kind fuel s hash toRecover).1 = { s with candidates := candidates } := by
  induction fuel generalizing s hash toRecover with
  | zero => exact ⟨s.candidates, rfl⟩
  | succ fuel ih =>
    simp only [recoverLoop]
    split
    · exact ⟨s.candidates, rfl⟩
    · split
      · split
        · exact ⟨s.candidates, rfl⟩
        · split
          · exact ⟨_, rfl⟩
          · exact ih _ _ _
      · exact ⟨s.candidates, rfl⟩
      · exact foldl_clearWaitingRecovery_frame s toRecover

/-- The walk of `recover` leaves a candidate that is already waiting as it is, and does not mark
it for the queue. -/
theorem recoverLoop_of_waiting {fuel : Nat} {s : PoVRecovery H} {hash x : H}
    {toRecover : List H} {c : Candidate H} (hc : s.candidates.get? x = some c)
    (hw : c.waitingRecovery = true) (hx : x ∉ toRecover) :
    (recoverLoop status kind fuel s hash toRecover).1.candidates.get? x = some c ∧
      ∀ l, (recoverLoop status kind fuel s hash toRecover).2 = some l → x ∉ l := by
  induction fuel generalizing s hash toRecover with
  | zero => exact ⟨hc, fun l hl => Option.some.inj hl ▸ hx⟩
  | succ fuel ih =>
    simp only [recoverLoop]
    split
    · exact ⟨hc, fun l hl => by cases hl⟩
    · next candidate hh =>
      split
      · split
        · exact ⟨hc, fun l hl => Option.some.inj hl ▸ hx⟩
        · next hcw =>
          -- the walk marks `hash`, which is not `x`: `x` was waiting already
          have hne : x ≠ hash := by
            rintro rfl
            rw [hc, Option.some.injEq] at hh
            exact hcw (hh ▸ hw)
          have hc' : (s.candidates.insert hash
              { candidate with waitingRecovery := true }).get? x = some c := by
            rw [SortedMap.get?_insert_of_ne _ _ hne, hc]
          have hx' : x ∉ toRecover ++ [hash] := by simp [hx, hne]
          split
          · exact ⟨hc', fun l hl => Option.some.inj hl ▸ hx'⟩
          · exact ih hc' hx'
      · exact ⟨hc, fun l hl => Option.some.inj hl ▸ hx⟩
      · exact ⟨(get?_foldl_clearWaitingRecovery s hx).trans hc, fun l hl => by cases hl⟩

/-- What the walk of `recover` keeps: the hashes it marked are marked candidates, each once, and
every candidate is one of `keys`. -/
structure WalkInv (s : PoVRecovery H) (toRecover keys : List H) : Prop where
  nodup : toRecover.Nodup
  marked : ∀ x ∈ toRecover, ∃ c, s.candidates.get? x = some c ∧ c.waitingRecovery = true
  mem_keys : ∀ k c, s.candidates.get? k = some c → k ∈ keys

/-- Marking an unmarked candidate keeps the walk's invariant. -/
theorem WalkInv.mark {s : PoVRecovery H} {toRecover keys : List H} {hash : H}
    {candidate : Candidate H} (hinv : WalkInv s toRecover keys)
    (hc : s.candidates.get? hash = some candidate) (hw : candidate.waitingRecovery = false) :
    WalkInv { s with candidates := (s.candidates.insert hash
      { candidate with waitingRecovery := true }) } (toRecover ++ [hash]) keys := by
  have hnot : hash ∉ toRecover := fun hmem => by
    obtain ⟨c, hc', hw'⟩ := hinv.marked hash hmem
    rw [hc, Option.some.injEq] at hc'
    rw [← hc', hw] at hw'
    cases hw'
  refine ⟨?_, ?_, ?_⟩
  · exact hinv.nodup.append (List.nodup_singleton hash) (List.disjoint_singleton.mpr hnot)
  · intro x hx
    by_cases hxh : x = hash
    · subst hxh
      exact ⟨_, SortedMap.get?_insert_self _ _ _, rfl⟩
    · rw [SortedMap.get?_insert_of_ne _ _ hxh]
      exact hinv.marked x (by simpa [hxh] using hx)
  · intro k c hk
    by_cases hkh : k = hash
    · subst hkh
      exact hinv.mem_keys _ _ hc
    · rw [SortedMap.get?_insert_of_ne _ _ hkh] at hk
      exact hinv.mem_keys k c hk

/-- Fuel for more turns than there are candidates is enough: each turn but the last marks a
candidate that was not marked, so one more turn changes nothing. -/
theorem recoverLoop_succ {keys : List H} {fuel : Nat} {s : PoVRecovery H} {hash : H}
    {toRecover : List H} (hinv : WalkInv s toRecover keys)
    (hfuel : keys.length < fuel + toRecover.length) :
    recoverLoop status kind (fuel + 1) s hash toRecover =
      recoverLoop status kind fuel s hash toRecover := by
  induction fuel generalizing s hash toRecover with
  | zero =>
    -- the marked hashes are distinct candidates, so there are no more of them than `keys`
    have hsub : toRecover ⊆ keys := fun x hx => by
      obtain ⟨c, hc, -⟩ := hinv.marked x hx
      exact hinv.mem_keys x c hc
    have hle := (List.subperm_of_subset hinv.nodup hsub).length_le
    omega
  | succ fuel ih =>
    rw [recoverLoop.eq_2 status kind s hash toRecover (fuel + 1),
      recoverLoop.eq_2 status kind s hash toRecover fuel]
    split
    · rfl
    · next candidate hh =>
      split
      · split
        · rfl
        · next hw =>
          split
          · rfl
          · apply ih (hinv.mark hh (Bool.eq_false_iff.mpr hw))
            simp only [List.length_append, List.length_singleton]
            omega
      · rfl
      · rfl

/-- `recover`'s fuel, one more than the number of candidates, is enough. -/
theorem recoverLoop_add (s : PoVRecovery H) (hash : H) (n : Nat) :
    recoverLoop status kind (s.candidates.entries.length + 1 + n) s hash [] =
      recoverLoop status kind (s.candidates.entries.length + 1) s hash [] := by
  have hinv : WalkInv s [] (s.candidates.entries.map Prod.fst) := by
    refine ⟨List.nodup_nil, fun x hx => absurd hx List.not_mem_nil, fun k c hk => ?_⟩
    exact List.mem_map.mpr ⟨(k, c), SortedMap.mem_entries_iff.mpr hk, rfl⟩
  induction n with
  | zero => rfl
  | succ n ih =>
    rw [← Nat.add_assoc, recoverLoop_succ hinv (by simp; omega), ih]

end walk

/-- **The loops of the handlers end.** The walk of `recover` up the parents ends within one turn
more than there are candidates, and the worklists of `reset_candidate` and `import_block` within
one more than there are blocks waiting for a parent: more fuel changes nothing. -/
theorem povRecovery_loops_end (s : PoVRecovery H) (status : H → BlockStatus)
    (kind : RecoveryKind) (hash : H) (n : Nat) :
    recoverLoop status kind (s.candidates.entries.length + 1 + n) s hash [] =
      recoverLoop status kind (s.candidates.entries.length + 1) s hash [] ∧
    drainWaiting (fun childs blocksToDelete => childs.reverse ++ blocksToDelete)
        (s.waitingForParent.length + 1 + n) s.waitingForParent [hash] [] =
      drainWaiting (fun childs blocksToDelete => childs.reverse ++ blocksToDelete)
        (s.waitingForParent.length + 1) s.waitingForParent [hash] [] ∧
    drainWaiting (fun waiting blocks => blocks ++ waiting)
        (s.waitingForParent.length + 1 + n) s.waitingForParent [hash] [] =
      drainWaiting (fun waiting blocks => blocks ++ waiting)
        (s.waitingForParent.length + 1) s.waitingForParent [hash] [] := by
  -- both worklists merge by concatenation, which adds the lengths
  have hstack : ∀ a b : List H, (a.reverse ++ b).length = a.length + b.length := by
    intro a b
    simp
  have hqueue : ∀ a b : List H, (b ++ a).length = a.length + b.length := by
    intro a b
    simp [Nat.add_comm]
  have hfuel : [hash].length + s.waitingForParent.length ≤ s.waitingForParent.length + 1 := by
    simp [Nat.add_comm]
  exact ⟨recoverLoop_add s hash n, drainWaiting_add hstack hfuel n, drainWaiting_add hqueue hfuel n⟩

end PoVRecovery

/-- An event of `run`'s loop. -/
inductive Event (H : Type) where
  /-- A candidate of the para pending availability, with its block's hash, number and parent,
  and the client's finalized number. -/
  | pendingCandidate (hash : H) (blockNumber : Nat) (parentHash : H) (finalizedNumber : Nat)
      (status : H → BlockStatus)
  /-- A `RecoveryRequest` from the recovery channel. -/
  | recoveryRequest (hash : H) (kind : RecoveryKind) (status : H → BlockStatus)
  /-- An import notification. -/
  | imported (hash : H)
  /-- A finality notification. -/
  | finalized (blockNumber : Nat)
  /-- A recovery delay expires: `next_recovery` yields the front of the queue. -/
  | recoveryDelay
  /-- A recovery completes: `wait_for_recovery` yields its hash and what it recovered. -/
  | recovered (hash : H) (availableData : Option (RecoveredPov H)) (status : H → BlockStatus)

namespace PoVRecovery

/-- One turn of `run`'s loop; `none` for an event that cannot happen in the state. -/
def step (s : PoVRecovery H) : Event H → Option (PoVRecovery H)
  | .pendingCandidate hash blockNumber parentHash finalizedNumber status =>
    some (s.handlePendingCandidate status hash blockNumber parentHash finalizedNumber)
  | .recoveryRequest hash kind status => some (s.recover status hash kind)
  | .imported hash => some (s.clearWaitingRecovery hash)
  | .finalized blockNumber => some (s.handleBlockFinalized blockNumber)
  | .recoveryDelay =>
    -- one delay runs for each queued hash, so a delay expires only while the queue is not empty
    match s.recoveryQueue with
    | [] => none
    | nextToRecover :: recoveryQueue =>
      some ({ s with recoveryQueue := recoveryQueue }.recoverCandidate nextToRecover)
  | .recovered hash availableData status =>
    -- only a recovery in flight completes
    if hash ∈ s.recoveries then
      some ({ s with recoveries := s.recoveries.erase hash,
                     activeCandidates := s.activeCandidates.erase hash }.handleCandidateRecovered
        status hash availableData)
    else none

end PoVRecovery

end Cumulus.PovRecovery
