import Mathlib.Data.Nat.Basic
import Cumulus.PovRecovery.Recovery

/-!
# Stranded PoV-recovery candidates

The source documents `waiting_recovery` as "true iff a block is either queued to be recovered or
recovery is currently in progress". `RecoveryTracked s hash` says where such a recovery is: the
hash is queued, being recovered, or its block waits for a parent that waits for recovery itself;
`NoCandidateStuck s` says it of every candidate marked waiting.

Two handlers leave a candidate marked with nothing under way for it:

* `recover` with `RecoveryKind::Full` marks the unknown candidates it walks through and returns,
  queueing none of them, when it reaches a hash that is not a candidate (the parent of the oldest
  unknown candidate, once it is finalized or if it was never pending);
* `reset_candidate` drops the blocks that wait for the candidate it resets, but clears the flag
  of that candidate only.

`Stranded s hash c` is that situation. No handler but the import notification of the candidate
and the finality of its number undoes it (`Stranded.step`), so it lasts along every run of the
other events (`Stranded.of_run`). `fullRecovery_strands_candidate` and
`resetCandidate_strands_child` reach it from `new`.
-/

namespace Cumulus.PovRecovery

open Cumulus.Found

variable {H : Type} [LinearOrder H]

/-- The events that spare a candidate of number `blockNumber`: all but its import notification
and the finality of its number. -/
def Event.Spares (hash : H) (blockNumber : Nat) : Event H → Prop
  | .imported x => x ≠ hash
  | .finalized n => n < blockNumber
  | _ => True

namespace PoVRecovery

/-- Where the recovery of a candidate is: queued, started, or its block waiting for a parent that
waits for recovery itself. -/
def RecoveryTracked (s : PoVRecovery H) (hash : H) : Prop :=
  hash ∈ s.recoveryQueue ∨ hash ∈ s.activeCandidates ∨
    ∃ parent, (parent, hash) ∈ s.waitingForParent ∧
      ∃ pc, s.candidates.get? parent = some pc ∧ pc.waitingRecovery = true

/-- The recovery of every candidate waiting for one is tracked. -/
def NoCandidateStuck (s : PoVRecovery H) : Prop :=
  ∀ hash c, s.candidates.get? hash = some c → c.waitingRecovery = true → s.RecoveryTracked hash

/-- Candidate `c` of `hash` waits for a recovery that nothing will start: it is neither queued
nor being recovered, and no recovered block of it waits for a parent. -/
structure Stranded (s : PoVRecovery H) (hash : H) (c : Candidate H) : Prop where
  candidate : s.candidates.get? hash = some c
  waiting : c.waitingRecovery = true
  not_queued : hash ∉ s.recoveryQueue
  not_active : hash ∉ s.activeCandidates
  not_recovering : hash ∉ s.recoveries
  not_waiting_for_parent : ∀ parent, (parent, hash) ∉ s.waitingForParent

section stranded

variable {s s' : PoVRecovery H} {hash : H} {c : Candidate H}

/-- A stranded candidate is stuck. -/
theorem Stranded.not_noCandidateStuck (h : s.Stranded hash c) : ¬ s.NoCandidateStuck := by
  intro hall
  rcases hall hash c h.candidate h.waiting with hq | ha | ⟨parent, hp, -⟩
  · exact h.not_queued hq
  · exact h.not_active ha
  · exact h.not_waiting_for_parent parent hp

/-- A state that keeps the candidate and adds none of its hash to the queues keeps it stranded. -/
theorem Stranded.of_frame (h : s.Stranded hash c)
    (hc : s'.candidates.get? hash = s.candidates.get? hash)
    (hq : hash ∈ s'.recoveryQueue → hash ∈ s.recoveryQueue)
    (ha : hash ∈ s'.activeCandidates → hash ∈ s.activeCandidates)
    (hr : hash ∈ s'.recoveries → hash ∈ s.recoveries)
    (hw : ∀ parent, (parent, hash) ∈ s'.waitingForParent → (parent, hash) ∈ s.waitingForParent) :
    s'.Stranded hash c :=
  ⟨hc.trans h.candidate, h.waiting, fun h' => h.not_queued (hq h'),
    fun h' => h.not_active (ha h'), fun h' => h.not_recovering (hr h'),
    fun parent h' => h.not_waiting_for_parent parent (hw parent h')⟩

/-- A candidate stays stranded when its entry is kept. -/
theorem Stranded.withCandidates (h : s.Stranded hash c) {candidates : SortedMap H (Candidate H)}
    (hc : candidates.get? hash = s.candidates.get? hash) :
    ({ s with candidates := candidates } : PoVRecovery H).Stranded hash c :=
  h.of_frame hc id id id fun _ => id

/-- Clearing another candidate's recovery leaves a candidate stranded. -/
theorem Stranded.clearWaitingRecovery (h : s.Stranded hash c) {blockHash : H}
    (hne : hash ≠ blockHash) : (s.clearWaitingRecovery blockHash).Stranded hash c := by
  obtain ⟨candidates, hcs⟩ := clearWaitingRecovery_frame s blockHash
  have hget := get?_clearWaitingRecovery_of_ne s hne
  rw [hcs] at hget ⊢
  exact h.withCandidates hget

/-- Finalizing a block below a stranded candidate leaves it stranded. -/
theorem Stranded.handleBlockFinalized (h : s.Stranded hash c) {blockNumber : Nat}
    (hn : blockNumber < c.blockNumber) : (s.handleBlockFinalized blockNumber).Stranded hash c := by
  apply h.withCandidates
  rw [SortedMap.get?_filter, h.candidate]
  simp [hn]

/-- Queueing another recovery leaves a candidate stranded. -/
theorem Stranded.pushRecovery (h : s.Stranded hash c) {x : H} (hne : hash ≠ x) :
    (s.pushRecovery x).Stranded hash c :=
  h.of_frame rfl (fun hq => by simpa [PoVRecovery.pushRecovery, hne] using hq) id id fun _ => id

/-- `recover` leaves a stranded candidate as it is: its walk stops at it, and queues only what it
marked. -/
theorem Stranded.recover (h : s.Stranded hash c) (status : H → BlockStatus) (x : H)
    (kind : RecoveryKind) : (s.recover status x kind).Stranded hash c := by
  unfold PoVRecovery.recover
  obtain ⟨candidates, hcs⟩ :=
    @recoverLoop_frame _ _ status kind (s.candidates.entries.length + 1) s x []
  obtain ⟨hget, hnot⟩ := @recoverLoop_of_waiting _ _ status kind
    (s.candidates.entries.length + 1) s x hash [] c h.candidate h.waiting List.not_mem_nil
  generalize recoverLoop status kind (s.candidates.entries.length + 1) s x [] = r at hcs hget hnot
  obtain ⟨s₁, toRecover⟩ := r
  dsimp only at hcs hget hnot
  subst hcs
  cases toRecover with
  | none => exact h.withCandidates (hget.trans h.candidate.symm)
  | some toRecover =>
    dsimp only
    refine h.of_frame (hget.trans h.candidate.symm) (fun hq => ?_) id id fun _ => id
    rcases List.mem_append.mp hq with hq | hq
    · exact hq
    · exact absurd (List.mem_reverse.mp hq) (hnot toRecover rfl)

/-- A pending candidate announced leaves a candidate stranded. -/
theorem Stranded.handlePendingCandidate (h : s.Stranded hash c) (status : H → BlockStatus)
    (x : H) (blockNumber : Nat) (parentHash : H) (finalizedNumber : Nat) :
    (s.handlePendingCandidate status x blockNumber parentHash finalizedNumber).Stranded hash c := by
  unfold PoVRecovery.handlePendingCandidate
  split
  · exact h
  split
  · exact h
  · next hnew =>
    -- the new candidate is not the stranded one, which is present
    have hne : hash ≠ x := by
      rintro rfl
      rw [h.candidate] at hnew
      exact hnew rfl
    exact (h.withCandidates (SortedMap.get?_insert_of_ne _ _ hne)).recover status x .simple

/-- Recovering another candidate leaves a candidate stranded. -/
theorem Stranded.recoverCandidate (h : s.Stranded hash c) {blockHash : H}
    (hne : hash ≠ blockHash) : (s.recoverCandidate blockHash).Stranded hash c := by
  unfold PoVRecovery.recoverCandidate
  split
  · split
    · refine h.of_frame rfl id (fun ha => ?_) (fun hr => ?_) fun _ => id
      · exact (mem_setInsert.mp ha).resolve_left hne
      · simpa [hne] using hr
    · exact h
  · exact h

/-- Resetting another candidate leaves a candidate stranded. -/
theorem Stranded.resetCandidate (h : s.Stranded hash c) {x : H} (hne : hash ≠ x) :
    (s.resetCandidate x).Stranded hash c := by
  unfold PoVRecovery.resetCandidate
  refine Stranded.clearWaitingRecovery ?_ hne
  exact h.of_frame rfl id id id fun _ hp => mem_of_mem_drainWaiting hp

/-- Importing a block leaves a candidate stranded. -/
theorem Stranded.importBlock (h : s.Stranded hash c) (block : H) :
    (s.importBlock block).Stranded hash c :=
  h.of_frame rfl id id id fun _ hp => mem_of_mem_drainWaiting hp

/-- A recovery of another candidate leaves a candidate stranded. -/
theorem Stranded.handleCandidateRecovered (h : s.Stranded hash c) (status : H → BlockStatus)
    {blockHash : H} (hne : hash ≠ blockHash) (availableData : Option (RecoveredPov H)) :
    (s.handleCandidateRecovered status blockHash availableData).Stranded hash c := by
  have hretry : ∀ candidatesInRetry : List H,
      ({ s with candidatesInRetry := candidatesInRetry } : PoVRecovery H).Stranded hash c :=
    fun _ => h.of_frame rfl id id id fun _ => id
  cases availableData with
  | none =>
    simp only [PoVRecovery.handleCandidateRecovered]
    split
    · exact (hretry _).resetCandidate hne
    · exact (hretry _).pushRecovery hne
  | some availableData =>
    cases availableData with
    | decompressFailed => exact (hretry _).resetCandidate hne
    | decodeFailed => exact (hretry _).resetCandidate hne
    | block parent =>
      simp only [PoVRecovery.handleCandidateRecovered]
      split
      · split
        · -- the block waits for its parent under its own hash, not the stranded one
          refine h.of_frame rfl id id id fun p hp => ?_
          simpa [hne] using hp
        · exact (hretry _).resetCandidate hne
      · exact (hretry _).importBlock blockHash
      · exact (hretry _).resetCandidate hne

/-- **One event.** Every event but the candidate's import notification and the finality of its
number keeps a stranded candidate stranded. -/
theorem Stranded.step (h : s.Stranded hash c) {e : Event H} (he : e.Spares hash c.blockNumber)
    (hs : s.step e = some s') : s'.Stranded hash c := by
  cases e with
  | pendingCandidate x blockNumber parentHash finalizedNumber status =>
    cases hs
    exact h.handlePendingCandidate status x blockNumber parentHash finalizedNumber
  | recoveryRequest x kind status =>
    cases hs
    exact h.recover status x kind
  | imported x =>
    cases hs
    exact h.clearWaitingRecovery (Ne.symm he)
  | finalized blockNumber =>
    cases hs
    exact h.handleBlockFinalized he
  | recoveryDelay =>
    simp only [PoVRecovery.step] at hs
    split at hs
    · cases hs
    · next nextToRecover recoveryQueue hq =>
      cases hs
      -- the front of the queue is not the stranded candidate, which is not queued
      have hne : hash ≠ nextToRecover := by
        rintro rfl
        exact h.not_queued (hq ▸ List.mem_cons_self)
      refine Stranded.recoverCandidate ?_ hne
      exact h.of_frame rfl (fun hmem => hq ▸ List.mem_cons_of_mem _ hmem) id id fun _ => id
  | recovered x availableData status =>
    simp only [PoVRecovery.step] at hs
    split at hs
    · next hx =>
      cases hs
      -- only a recovery in flight completes, and the stranded candidate has none
      have hne : hash ≠ x := by
        rintro rfl
        exact h.not_recovering hx
      refine Stranded.handleCandidateRecovered ?_ status hne availableData
      exact h.of_frame rfl id List.mem_of_mem_erase List.mem_of_mem_erase fun _ => id
    · cases hs

/-- **Every run.** A stranded candidate stays stranded along every run that neither imports it
nor finalizes its number. -/
theorem Stranded.of_run (h : s.Stranded hash c) {events : List (Event H)}
    (he : ∀ e ∈ events, e.Spares hash c.blockNumber)
    (hrun : runSteps PoVRecovery.step s events = some s') : s'.Stranded hash c :=
  @runSteps_invariant_of_forall _ _ PoVRecovery.step s s' events
    (fun e => e.Spares hash c.blockNumber) (fun s => s.Stranded hash c) h
    (fun _ _ _ he hs hstep => hs.step he hstep) he hrun

end stranded

/-! ## Runs that strand a candidate -/

/-- The client's view in the runs below: block `0`, the last finalized one, is known, and the
candidates' blocks are not. -/
def knownGenesis (hash : Nat) : BlockStatus := if hash = 0 then .known else .unknown

/-- Candidate `1`, a child of `0`, is announced; its recovery fails, and fails again after the
retry, which resets it; then a `Full` request for it walks to `0`, which is not a candidate. -/
def retryThenFullRequest : List (Event Nat) :=
  [.pendingCandidate 1 1 0 0 knownGenesis, .recoveryDelay, .recovered 1 none knownGenesis,
    .recoveryDelay, .recovered 1 none knownGenesis, .recoveryRequest 1 .full knownGenesis]

/-- After `retryThenFullRequest`, candidate `1` is stranded, and stays stuck under every run of
events that spares it. -/
theorem fullRecovery_strands_candidate :
    ∃ s, runSteps PoVRecovery.step PoVRecovery.new retryThenFullRequest = some s ∧
      s.Stranded 1 ⟨1, 0, true⟩ ∧
      ∀ events s', (∀ e ∈ events, e.Spares 1 1) → runSteps PoVRecovery.step s events = some s' →
        ¬ s'.NoCandidateStuck := by
  let s : PoVRecovery Nat := ⟨SortedMap.empty.insert 1 ⟨1, 0, true⟩, [], [], [], [], [], []⟩
  have hs : s.Stranded 1 ⟨1, 0, true⟩ :=
    ⟨rfl, rfl, List.not_mem_nil, List.not_mem_nil, List.not_mem_nil, fun _ => List.not_mem_nil⟩
  exact ⟨s, rfl, hs, fun _ _ he hrun => (hs.of_run he hrun).not_noCandidateStuck⟩

/-- Candidates `1` and `2`, `2` a child of `1`, are announced and both recoveries start; `2`'s
block comes first and waits for `1`, whose recovery fails twice and resets it. -/
def parentResetRun : List (Event Nat) :=
  [.pendingCandidate 1 1 0 0 knownGenesis, .pendingCandidate 2 2 1 0 knownGenesis,
    .recoveryDelay, .recoveryDelay, .recovered 2 (some (.block 1)) knownGenesis,
    .recovered 1 none knownGenesis, .recoveryDelay, .recovered 1 none knownGenesis]

/-- After `parentResetRun`, candidate `2` is stranded, and stays stuck under every run of events
that spares it. -/
theorem resetCandidate_strands_child :
    ∃ s, runSteps PoVRecovery.step PoVRecovery.new parentResetRun = some s ∧
      s.Stranded 2 ⟨2, 1, true⟩ ∧
      ∀ events s', (∀ e ∈ events, e.Spares 2 2) → runSteps PoVRecovery.step s events = some s' →
        ¬ s'.NoCandidateStuck := by
  let s : PoVRecovery Nat :=
    ⟨(SortedMap.empty.insert 1 ⟨1, 0, false⟩).insert 2 ⟨2, 1, true⟩, [], [], [], [], [], []⟩
  have hs : s.Stranded 2 ⟨2, 1, true⟩ :=
    ⟨rfl, rfl, List.not_mem_nil, List.not_mem_nil, List.not_mem_nil, fun _ => List.not_mem_nil⟩
  exact ⟨s, rfl, hs, fun _ _ he hrun => (hs.of_run he hrun).not_noCandidateStuck⟩

end PoVRecovery

end Cumulus.PovRecovery
