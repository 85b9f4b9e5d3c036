import Cumulus.BridgeGrandpa.Pallet
import Cumulus.Found.HashRing
import Cumulus.Found.Run
import Cumulus.HeaderChain.Strict

/-!
# What the GRANDPA light client keeps

* `insertHeader_eq_some`, `tryEnactAuthorityChange_eq_ok`, `submitFinalityProof_eq_ok`,
  `palletInitialize_eq_ok` — what each step of an import does, guards included;
* `Imported cfg s log` — the storage `s` is that of the imported headers `log`: their numbers
  increase, the last one is the best finalized header, the hash ring is the ring of their hashes
  (`ringOf` of the library), and `ImportedHeaders` holds the data of the headers whose hashes are in
  the ring;
* `Imported.dispatch`, `Imported.runSteps` — every call keeps it, with the header it imports
  appended (`importLog`), provided headers of different numbers have different hashes
  (`HashBindsNumber`);
* `grandpaLightClient_invariant` — what a run from the empty storage keeps.
-/

namespace Cumulus.BridgeGrandpa

open Cumulus.Found
open Cumulus.HeaderChain (HeaderId GrandpaJustification)

variable {H A S Acc : Type} {M : Nat} (cfg : GrandpaConfig H A S)

/-! ## What each step does -/

section steps

variable [DecidableEq H] {s s' : GrandpaStorage H A Acc M} {header : BridgedHeader H A}

/-- An insertion stores the header with the library's `insertPrune` and writes the ring. -/
theorem insertHeader_eq_some {hash : H} (h : insertHeader cfg s header hash = some s') :
    0 < cfg.headersToKeep ∧
      s' = { s with
        bestFinalized := some ⟨header.number, hash⟩
        importedHeaders := insertPrune s.importedHeaders (s.importedHashes s.importedHashesPointer)
          hash header.build
        importedHashes := Function.update s.importedHashes s.importedHashesPointer (some hash)
        importedHashesPointer := (s.importedHashesPointer + 1) % cfg.headersToKeep } := by
  unfold insertHeader at h
  split_ifs at h with hK
  refine ⟨Nat.pos_of_ne_zero hK, ?_⟩
  dsimp only at h
  rcases hpruning : s.importedHashes s.importedHashesPointer with _ | pruned
  · rw [hpruning] at h
    cases h
    rfl
  · rw [hpruning] at h
    cases h
    rfl

/-- A stored authority set that `try_new` builds holds the given authorities and set id. -/
theorem StoredAuthoritySet.tryNew_eq_some {authorities : List (A × BitVec 64)} {setId : BitVec 64}
    {authoritySet : StoredAuthoritySet A M}
    (h : StoredAuthoritySet.tryNew authorities setId = some authoritySet) :
    authoritySet.authorities = authorities ∧ authoritySet.setId = setId := by
  unfold StoredAuthoritySet.tryNew at h
  split_ifs at h
  cases h
  exact ⟨rfl, rfl⟩

omit [DecidableEq H] in
/-- **What an enactment does**: there is no forced change; a scheduled change, of zero delay,
replaces the authority set with its authorities and the next set id; without one nothing
changes. -/
theorem tryEnactAuthorityChange_eq_ok {setId : BitVec 64}
    {maybeNewAuthoritySet : Option (StoredAuthoritySet A M)}
    (h : tryEnactAuthorityChange s header setId = .ok (s', maybeNewAuthoritySet)) :
    findForcedChange header.digest = none ∧
      s' = { s with currentAuthoritySet := s'.currentAuthoritySet } ∧
      maybeNewAuthoritySet.isSome = (findScheduledChange header.digest).isSome ∧
      (∀ change, findScheduledChange header.digest = some change →
        change.delay = 0 ∧ s'.currentAuthoritySet.authorities = change.nextAuthorities ∧
          s'.currentAuthoritySet.setId = setId + 1) ∧
      (findScheduledChange header.digest = none → s' = s) := by
  unfold tryEnactAuthorityChange at h
  split_ifs at h with hforced
  have hnone : findForcedChange header.digest = none := Option.not_isSome_iff_eq_none.mp hforced
  rcases hscheduled : findScheduledChange header.digest with _ | change
  · rw [hscheduled] at h
    cases h
    exact ⟨hnone, rfl, rfl, fun _ h => (nomatch h), fun _ => rfl⟩
  · rw [hscheduled] at h
    dsimp only at h
    split_ifs at h with hdelay
    rcases hnew : StoredAuthoritySet.tryNew change.nextAuthorities (setId + 1) with _ | next
    · rw [hnew] at h
      cases h
    · rw [hnew] at h
      cases h
      obtain ⟨hauthorities, hsetId⟩ := StoredAuthoritySet.tryNew_eq_some hnew
      refine ⟨hnone, rfl, rfl, fun c hc => ?_, fun h => nomatch h⟩
      cases hc
      exact ⟨not_not.mp hdelay, hauthorities, hsetId⟩

omit [DecidableEq H] in
/-- A header that passes the obsolete check is newer than the best finalized header, which exists.
-/
theorem checkObsolete_eq_ok {number : Nat} (h : checkObsolete s number = .ok ()) :
    ∃ best, s.bestFinalized = some best ∧ best.number < number := by
  unfold checkObsolete at h
  rcases hbest : s.bestFinalized with _ | best
  · rw [hbest] at h
    cases h
  · rw [hbest] at h
    dsimp only at h
    split_ifs at h with hle
    exact ⟨best, rfl, Nat.lt_of_not_le hle⟩

/-- **What an accepted submission went through**: the pallet runs and the origin is signed, the
header is newer than the best finalized one, the current authority set justified it, the change it
schedules was enacted, the fee is waived exactly for a change while free headers remain and the
call fits the estimates, and the header was inserted. -/
theorem submitFinalityProof_eq_ok [DecidableEq A] {origin : Origin Acc}
    {justification : GrandpaJustification H A S} {pays : Pays}
    (h : submitFinalityProof cfg s origin header justification = some (.ok (s', pays))) :
    s.palletOperatingMode = .normal ∧ (∃ who, origin = .signed who) ∧
      (∃ best, s.bestFinalized = some best ∧ best.number < header.number) ∧
      verifyJustification cfg justification (cfg.hash header) header.number
        s.currentAuthoritySet = some (.ok ()) ∧
      ∃ s₁ maybeNewAuthoritySet,
        tryEnactAuthorityChange s header s.currentAuthoritySet.setId =
          .ok (s₁, maybeNewAuthoritySet) ∧
        (pays = .no ↔ maybeNewAuthoritySet.isSome ∧ 0 < s₁.freeMandatoryHeadersRemaining ∧
          fitsLimits cfg header justification = true) ∧
        insertHeader cfg { s₁ with
          freeMandatoryHeadersRemaining := if pays = .no then s₁.freeMandatoryHeadersRemaining - 1
            else s₁.freeMandatoryHeadersRemaining } header (cfg.hash header) = some s' := by
  unfold submitFinalityProof at h
  by_cases hhalted : s.palletOperatingMode = .halted
  · rw [if_pos hhalted] at h
    cases h
  rw [if_neg hhalted] at h
  have hmode : s.palletOperatingMode = .normal := by
    cases hm : s.palletOperatingMode
    · rfl
    · exact absurd hm hhalted
  -- an unsigned origin is rejected
  cases origin with
  | root => cases h
  | none => cases h
  | signed who =>
  dsimp only at h
  rcases hobsolete : checkObsolete s header.number with e | ⟨⟩
  · rw [hobsolete] at h
    cases h
  rw [hobsolete] at h
  obtain ⟨verdict, hverify, h⟩ := Option.bind_eq_some_iff.mp h
  cases verdict with
  | error e => cases h
  | ok u =>
    rcases henact : tryEnactAuthorityChange s header s.currentAuthoritySet.setId with
      e | ⟨s₁, maybeNewAuthoritySet⟩
    · rw [henact] at h
      cases h
    rw [henact] at h
    obtain ⟨s₂, hinsert, hok⟩ := Option.map_eq_some_iff.mp h
    cases hok
    refine ⟨hmode, ⟨who, rfl⟩, checkObsolete_eq_ok hobsolete, hverify, s₁,
      maybeNewAuthoritySet,
      rfl, ?_⟩
    -- the fee is waived exactly when the refund conditions hold
    have hconditions : (maybeNewAuthoritySet.isSome &&
        decide (s₁.freeMandatoryHeadersRemaining > 0) && fitsLimits cfg header justification) =
          true ↔ maybeNewAuthoritySet.isSome ∧ 0 < s₁.freeMandatoryHeadersRemaining ∧
            fitsLimits cfg header justification = true := by
      simp only [Bool.and_eq_true, decide_eq_true_eq, and_assoc]
    revert hconditions hinsert
    generalize (maybeNewAuthoritySet.isSome && decide (s₁.freeMandatoryHeadersRemaining > 0) &&
      fitsLimits cfg header justification) = refund
    intro hinsert hconditions
    cases refund with
    | false =>
      simp only [Bool.false_eq_true, if_false, reduceCtorEq, false_iff] at hinsert hconditions ⊢
      exact ⟨hconditions, hinsert⟩
    | true =>
      simp only [if_true] at hinsert hconditions ⊢
      exact ⟨iff_of_true trivial (hconditions.mp trivial), hinsert⟩

/-- An initialization found no best finalized header, and stored the initial header and the
authority set. -/
theorem palletInitialize_eq_ok [DecidableEq Acc] {origin : Origin Acc}
    {initData : InitializationData H A}
    (h : palletInitialize cfg s origin initData = some (.ok s')) :
    s.bestFinalized = none ∧ ∃ authoritySet s₁,
      StoredAuthoritySet.tryNew initData.authorityList initData.setId = some authoritySet ∧
      insertHeader cfg
        { s with
          initialHash := some (cfg.hash initData.header)
          importedHashesPointer := 0 }
        initData.header (cfg.hash initData.header) = some s₁ ∧
      s' = { s₁ with
        currentAuthoritySet := authoritySet
        palletOperatingMode := initData.operatingMode } := by
  unfold palletInitialize at h
  by_cases horigin : ensureOwnerOrRoot s origin = false
  · rw [horigin] at h
    cases h
  rw [if_neg (by simpa using horigin)] at h
  by_cases hinitialized : s.bestFinalized.isSome = true
  · rw [if_pos hinitialized] at h
    cases h
  rw [if_neg hinitialized] at h
  refine ⟨Option.not_isSome_iff_eq_none.mp hinitialized, ?_⟩
  unfold initializeBridge at h
  rcases hnew : StoredAuthoritySet.tryNew initData.authorityList initData.setId with
    _ | authoritySet
  · rw [hnew] at h
    cases h
  rw [hnew] at h
  obtain ⟨s₁, hinsert, hok⟩ := Option.map_eq_some_iff.mp h
  cases hok
  exact ⟨authoritySet, s₁, rfl, hinsert, rfl⟩

omit [DecidableEq H] in
/-- A successful `set_owner` changes only the owner. -/
theorem setOwner_eq_ok [DecidableEq Acc] {origin : Origin Acc} {maybeOwner : Option Acc}
    (h : setOwner s origin maybeOwner = .ok s') : s' = { s with palletOwner := maybeOwner } := by
  unfold setOwner at h
  split_ifs at h
  cases h
  rfl

omit [DecidableEq H] in
/-- A successful `set_operating_mode` changes only the operating mode. -/
theorem setOperatingMode_eq_ok [DecidableEq Acc] {origin : Origin Acc}
    {operatingMode : BasicOperatingMode} (h : setOperatingMode s origin operatingMode = .ok s') :
    s' = { s with palletOperatingMode := operatingMode } := by
  unfold setOperatingMode at h
  split_ifs at h
  cases h
  rfl

end steps

/-! ## The imported headers -/

/-- Headers of different numbers have different hashes: a header's hash binds its number, as the
hash of its encoding does. -/
def HashBindsNumber (hash : BridgedHeader H A → H) : Prop :=
  ∀ header₁ header₂, hash header₁ = hash header₂ → header₁.number = header₂.number

/-- The storage is that of the imported headers `log`, in order: their numbers increase, the last
one is the best finalized header, the ring holds the hashes of the last `HeadersToKeep` ones at
their index modulo `HeadersToKeep`, and `ImportedHeaders` holds the data of a header exactly for
the hashes in the ring. -/
structure Imported (s : GrandpaStorage H A Acc M) (log : List (BridgedHeader H A)) : Prop where
  increasing : (log.map BridgedHeader.number).Pairwise (· < ·)
  best : s.bestFinalized = log.getLast?.map fun header => ⟨header.number, cfg.hash header⟩
  ring : s.importedHashes = ringOf cfg.headersToKeep (log.map cfg.hash)
  pointer : s.importedHashesPointer = log.length % cfg.headersToKeep
  keys : RingKeys s.importedHeaders s.importedHashes
  data : ∀ y stored, s.importedHeaders y = some stored →
    ∃ header ∈ log, cfg.hash header = y ∧ stored = header.build
  kept : log ≠ [] → 0 < cfg.headersToKeep

section imported

variable {cfg} {s s' : GrandpaStorage H A Acc M} {log : List (BridgedHeader H A)}

/-- The empty storage is that of no imported header. -/
theorem imported_empty : Imported cfg (GrandpaStorage.empty : GrandpaStorage H A Acc M) [] where
  increasing := List.Pairwise.nil
  best := rfl
  ring := rfl
  pointer := (Nat.zero_mod _).symm
  keys := fun y => by simp [GrandpaStorage.empty]
  data := fun _ _ h => nomatch h
  kept := fun h => absurd rfl h

/-- A call that writes none of the header items keeps the invariant. -/
theorem Imported.congr (himp : Imported cfg s log) (hbest : s'.bestFinalized = s.bestFinalized)
    (hhashes : s'.importedHashes = s.importedHashes)
    (hpointer : s'.importedHashesPointer = s.importedHashesPointer)
    (hheaders : s'.importedHeaders = s.importedHeaders) : Imported cfg s' log where
  increasing := himp.increasing
  best := hbest.trans himp.best
  ring := hhashes.trans himp.ring
  pointer := hpointer.trans himp.pointer
  keys := hheaders ▸ hhashes ▸ himp.keys
  data := hheaders ▸ himp.data
  kept := himp.kept

/-- No header was imported exactly when there is no best finalized header. -/
theorem Imported.eq_nil_iff (himp : Imported cfg s log) : log = [] ↔ s.bestFinalized = none := by
  rw [himp.best, Option.map_eq_none_iff, List.getLast?_eq_none_iff]

/-- Every imported header is numbered at most as the best finalized one. -/
theorem Imported.number_le_best (himp : Imported cfg s log) {best : HeaderId H}
    (hbest : s.bestFinalized = some best) : ∀ old ∈ log, old.number ≤ best.number := by
  rw [himp.best] at hbest
  obtain ⟨last, hlast, rfl⟩ := Option.map_eq_some_iff.mp hbest
  obtain ⟨init, rfl⟩ := List.getLast?_eq_some_iff.mp hlast
  have hincreasing := himp.increasing
  rw [List.map_append, List.pairwise_append] at hincreasing
  intro old hold
  rcases List.mem_append.mp hold with hold | hold
  · exact Nat.le_of_lt (hincreasing.2.2 _ (List.mem_map_of_mem hold) _
      (List.mem_map_of_mem (List.mem_singleton_self last)))
  · rw [List.mem_singleton.mp hold]

/-- Distinct imported headers have distinct hashes, since their numbers increase. -/
theorem Imported.nodup_hashes (hhash : HashBindsNumber cfg.hash) (himp : Imported cfg s log) :
    (log.map cfg.hash).Nodup := by
  have hincreasing := List.pairwise_map.mp himp.increasing
  exact List.pairwise_map.mpr
    (hincreasing.imp fun hlt heq => absurd (hhash _ _ heq) (Nat.ne_of_lt hlt))

/-- No hash is in two slots of the ring. -/
theorem Imported.ring_injective (hhash : HashBindsNumber cfg.hash) [DecidableEq H]
    (himp : Imported cfg s log) : RingInjective s.importedHashes := by
  rw [himp.ring]
  cases log with
  | nil => exact fun _ _ _ hi => nomatch hi
  | cons header log =>
    exact ringInjective_ringOf (himp.kept (List.cons_ne_nil _ _)) (himp.nodup_hashes hhash)

/-- **An insertion of a newer header keeps the invariant**: the library's ring lemmas apply, the
new hash being in no slot. -/
theorem Imported.insertHeader (hhash : HashBindsNumber cfg.hash) [DecidableEq H]
    (himp : Imported cfg s log) {header : BridgedHeader H A}
    (hnewer : ∀ old ∈ log, old.number < header.number)
    (h : Cumulus.BridgeGrandpa.insertHeader cfg s header (cfg.hash header) = some s') :
    Imported cfg s' (log ++ [header]) := by
  obtain ⟨hK, rfl⟩ := insertHeader_eq_some cfg h
  -- the new hash is that of no imported header, so it is in no slot
  have hfresh : ∀ i, s.importedHashes i ≠ some (cfg.hash header) := by
    intro i hi
    rw [himp.ring] at hi
    obtain ⟨old, hold, hhashes⟩ := List.mem_map.mp (mem_of_ringOf_eq_some hK hi)
    exact Nat.ne_of_lt (hnewer old hold) (hhash _ _ hhashes)
  have hinjective : RingInjective s.importedHashes := himp.ring_injective hhash
  refine ⟨?_, ?_, ?_, ?_, ?_, ?_, fun _ => hK⟩
  · rw [List.map_append, List.pairwise_append]
    exact ⟨himp.increasing, List.pairwise_singleton _ _, fun a ha b hb =>
      List.mem_singleton.mp hb ▸
        (List.mem_map.mp ha).elim fun old hold => hold.2 ▸ hnewer old hold.1⟩
  · simp
  · rw [himp.ring, himp.pointer, List.map_append, List.map_singleton, ringOf_append_singleton,
      List.length_map]
  · rw [himp.pointer, List.length_append, List.length_singleton, Nat.mod_add_mod]
  · exact himp.keys.insertPrune hinjective hfresh s.importedHashesPointer header.build
  · intro y stored hy
    rcases eq_or_of_insertPrune_eq_some hy with ⟨rfl, rfl⟩ | hold
    · exact ⟨header, List.mem_append_right _ (List.mem_singleton_self header), rfl, rfl⟩
    · obtain ⟨old, hmem, hhash, hstored⟩ := himp.data y stored hold
      exact ⟨old, List.mem_append_left _ hmem, hhash, hstored⟩

/-- The slots of the ring are below `HeadersToKeep`. -/
theorem Imported.ring_lt (himp : Imported cfg s log) :
    ∀ i y, s.importedHashes i = some y → i < cfg.headersToKeep := by
  intro i y hi
  rw [himp.ring] at hi
  cases log with
  | nil => cases hi
  | cons header log => exact lt_of_ringOf_eq_some (himp.kept (List.cons_ne_nil _ _)) hi

/-- **The best finalized header is stored**, and the pointer is a slot. -/
theorem Imported.best_stored (himp : Imported cfg s log) {best : HeaderId H}
    (hbest : s.bestFinalized = some best) :
    (s.importedHeaders best.hash).isSome ∧ s.importedHashesPointer < cfg.headersToKeep := by
  have hlog := himp.best
  rw [hbest] at hlog
  obtain ⟨last, hlast, rfl⟩ := Option.map_eq_some_iff.mp hlog.symm
  have hK := himp.kept (List.ne_nil_of_mem (List.mem_of_getLast? hlast))
  -- the last header is among the last `HeadersToKeep`, so its hash is in the ring
  have hwindow : cfg.hash last ∈ window cfg.headersToKeep (log.map cfg.hash) := by
    rw [window_map]
    exact List.mem_map_of_mem (mem_window_of_getLast? hK hlast)
  obtain ⟨i, hi⟩ := (mem_window_iff hK).mp hwindow
  rw [← himp.ring] at hi
  refine ⟨(himp.keys _).mpr ⟨i, hi⟩, ?_⟩
  rw [himp.pointer]
  exact Nat.mod_lt _ hK

/-- The hashes in the ring are those of the last `HeadersToKeep` imported headers. -/
theorem Imported.mem_slots_iff (himp : Imported cfg s log) (y : H) :
    y ∈ slots cfg.headersToKeep s.importedHashes ↔
      y ∈ window cfg.headersToKeep (log.map cfg.hash) := by
  rw [Cumulus.Found.mem_slots_iff himp.ring_lt]
  cases log with
  | nil => simp [himp.ring, ringOf_nil, window]
  | cons header log =>
    rw [himp.ring, mem_window_iff (himp.kept (List.cons_ne_nil _ _))]

/-- **The data of each of the last `HeadersToKeep` imported headers is stored under its hash.** -/
theorem Imported.get_window (hhash : HashBindsNumber cfg.hash) (himp : Imported cfg s log)
    {header : BridgedHeader H A} (hheader : header ∈ window cfg.headersToKeep log) :
    s.importedHeaders (cfg.hash header) = some header.build := by
  have hmem : header ∈ log := List.mem_of_mem_drop hheader
  have hin : cfg.hash header ∈ slots cfg.headersToKeep s.importedHashes := by
    rw [himp.mem_slots_iff, window_map]
    exact List.mem_map_of_mem hheader
  obtain ⟨i, hi⟩ := (Cumulus.Found.mem_slots_iff himp.ring_lt).mp hin
  obtain ⟨stored, hstored⟩ := Option.isSome_iff_exists.mp ((himp.keys _).mpr ⟨i, hi⟩)
  obtain ⟨other, hother, hhashes, rfl⟩ := himp.data _ stored hstored
  -- two imported headers of one number are one header
  have hnodup : (log.map BridgedHeader.number).Nodup :=
    himp.increasing.imp fun hlt => Nat.ne_of_lt hlt
  rw [hstored, List.inj_on_of_nodup_map hnodup hother hmem (hhash _ _ hhashes)]

/-- **The stored header data is exactly that of the last `HeadersToKeep` imported headers.** -/
theorem Imported.stored_iff (hhash : HashBindsNumber cfg.hash) (himp : Imported cfg s log)
    (y : H) (stored : StoredHeaderData H) :
    s.importedHeaders y = some stored ↔
      ∃ header ∈ window cfg.headersToKeep log, cfg.hash header = y ∧ stored = header.build := by
  constructor
  · intro hy
    obtain ⟨header, hmem, hhashes, rfl⟩ := himp.data y stored hy
    -- the hash is in the ring, so some header of the window has it, and it is this one
    have hslot : y ∈ window cfg.headersToKeep (log.map cfg.hash) := by
      rw [← himp.mem_slots_iff, Cumulus.Found.mem_slots_iff himp.ring_lt]
      exact (himp.keys y).mp (Option.isSome_iff_exists.mpr ⟨_, hy⟩)
    rw [window_map] at hslot
    obtain ⟨other, hother, hotherHash⟩ := List.mem_map.mp hslot
    have hnodup : (log.map BridgedHeader.number).Nodup :=
      himp.increasing.imp fun hlt => Nat.ne_of_lt hlt
    have hsame : other = header := List.inj_on_of_nodup_map hnodup
      (List.mem_of_mem_drop hother) hmem (hhash _ _ (hotherHash.trans hhashes.symm))
    exact ⟨header, hsame ▸ hother, hhashes, rfl⟩
  · rintro ⟨header, hheader, rfl, rfl⟩
    exact himp.get_window hhash hheader

end imported

/-! ## Runs -/

section runs

variable [DecidableEq H] [DecidableEq A] [DecidableEq Acc]

/-- The header a call imports when it succeeds: the finality target of a submission, the initial
header of an initialization. -/
def GrandpaCall.importedHeader? : GrandpaCall H A S Acc → Option (BridgedHeader H A)
  | .submitFinalityProof _ finalityTarget _ => some finalityTarget
  | .init _ initData => some initData.header
  | _ => none

/-- The headers a run of calls imports, in order. -/
def importLog :
    GrandpaStorage H A Acc M → List (GrandpaCall H A S Acc) → List (BridgedHeader H A)
  | _, [] => []
  | s, call :: calls =>
    match dispatch cfg s call with
    | some (.ok (s', _)) => call.importedHeader?.toList ++ importLog s' calls
    | some (.error _) => importLog s calls
    | none => []

variable {cfg} {s s' : GrandpaStorage H A Acc M} {log : List (BridgedHeader H A)}

omit [DecidableEq H] [DecidableEq A] [DecidableEq Acc] in
/-- A call that is not a submission pays its fee. -/
theorem eq_ok_of_map_pays {ε α : Type} {x : Except ε α} {a : α} {pays : Pays}
    (h : x.map (·, Pays.yes) = .ok (a, pays)) : x = .ok a := by
  cases x with
  | error e => cases h
  | ok a' =>
    cases h
    rfl

/-- **Every call keeps the invariant**, with the header it imports appended. -/
theorem Imported.dispatch (hhash : HashBindsNumber cfg.hash) (himp : Imported cfg s log)
    {call : GrandpaCall H A S Acc} {pays : Pays}
    (h : Cumulus.BridgeGrandpa.dispatch cfg s call = some (.ok (s', pays))) :
    Imported cfg s' (log ++ call.importedHeader?.toList) := by
  cases call with
  | submitFinalityProof origin header justification =>
    obtain ⟨-, -, ⟨best, hbest, hlt⟩, -, s₁, maybeNewAuthoritySet, henact, -, hinsert⟩ :=
      submitFinalityProof_eq_ok cfg h
    -- the enactment writes the authority set only
    obtain ⟨-, hs₁, -⟩ := tryEnactAuthorityChange_eq_ok henact
    have himp₁ : Imported cfg s₁ log :=
      himp.congr (by rw [hs₁]) (by rw [hs₁]) (by rw [hs₁]) (by rw [hs₁])
    exact (himp₁.congr (by rfl) (by rfl) (by rfl) (by rfl)).insertHeader hhash
      (fun old hold => Nat.lt_of_le_of_lt (himp.number_le_best hbest old hold) hlt) hinsert
  | init origin initData =>
    obtain ⟨result, hinit, hok⟩ := Option.map_eq_some_iff.mp h
    obtain ⟨hnone, authoritySet, s₁, -, hinsert, rfl⟩ :=
      palletInitialize_eq_ok cfg (hinit.trans (congrArg some (eq_ok_of_map_pays hok)))
    obtain rfl := himp.eq_nil_iff.mpr hnone
    -- the pointer was already at the first slot
    have hpointer : s.importedHashesPointer = 0 := himp.pointer.trans (Nat.zero_mod _)
    have himp₀ : Imported cfg { s with
        initialHash := some (cfg.hash initData.header)
        importedHashesPointer := 0 } [] :=
      himp.congr (by rfl) (by rfl) hpointer.symm (by rfl)
    have himp₁ := himp₀.insertHeader hhash (fun _ hold => absurd hold List.not_mem_nil) hinsert
    exact himp₁.congr (by rfl) (by rfl) (by rfl) (by rfl)
  | setOwner origin newOwner =>
    obtain rfl := setOwner_eq_ok (eq_ok_of_map_pays (Option.some.inj h))
    show Imported cfg _ (log ++ [])
    rw [List.append_nil]
    exact himp.congr (by rfl) (by rfl) (by rfl) (by rfl)
  | setOperatingMode origin operatingMode =>
    obtain rfl := setOperatingMode_eq_ok (eq_ok_of_map_pays (Option.some.inj h))
    show Imported cfg _ (log ++ [])
    rw [List.append_nil]
    exact himp.congr (by rfl) (by rfl) (by rfl) (by rfl)
  | onInitialize =>
    cases h
    show Imported cfg _ (log ++ [])
    rw [List.append_nil]
    exact himp.congr (by rfl) (by rfl) (by rfl) (by rfl)
  | onFinalize =>
    cases h
    show Imported cfg _ (log ++ [])
    rw [List.append_nil]
    exact himp.congr (by rfl) (by rfl) (by rfl) (by rfl)

/-- **What an accepted submission does**: the header is newer than the best finalized one and
becomes it, the authority set in force justified it, it carries no forced change, and the change it
schedules, of zero delay, becomes the authority set with the next set id; without one the set
stays. -/
theorem dispatch_submitFinalityProof_eq_ok {origin : Origin Acc} {header : BridgedHeader H A}
    {justification : GrandpaJustification H A S} {pays : Pays}
    (h : Cumulus.BridgeGrandpa.dispatch cfg s (.submitFinalityProof origin header justification) =
      some (.ok (s', pays))) :
    (∃ best, s.bestFinalized = some best ∧ best.number < header.number) ∧
      s'.bestFinalized = some ⟨header.number, cfg.hash header⟩ ∧
      verifyJustification cfg justification (cfg.hash header) header.number
        s.currentAuthoritySet = some (.ok ()) ∧
      findForcedChange header.digest = none ∧
      (∀ change, findScheduledChange header.digest = some change →
        change.delay = 0 ∧ s'.currentAuthoritySet.authorities = change.nextAuthorities ∧
          s'.currentAuthoritySet.setId = s.currentAuthoritySet.setId + 1) ∧
      (findScheduledChange header.digest = none →
        s'.currentAuthoritySet = s.currentAuthoritySet) := by
  obtain ⟨-, -, hnewer, hverify, s₁, maybeNewAuthoritySet, henact, -, hinsert⟩ :=
    submitFinalityProof_eq_ok cfg h
  obtain ⟨-, rfl⟩ := insertHeader_eq_some cfg hinsert
  obtain ⟨hforced, -, -, hchange, hnochange⟩ := tryEnactAuthorityChange_eq_ok henact
  refine ⟨hnewer, rfl, hverify, hforced, hchange, fun hnone => ?_⟩
  show s₁.currentAuthoritySet = s.currentAuthoritySet
  rw [hnochange hnone]

/-- After the initialization, only a submission changes the best finalized header or the authority
set. -/
theorem dispatch_eq_ok_of_not_submit (hinit : s.bestFinalized.isSome = true)
    {call : GrandpaCall H A S Acc} {pays : Pays}
    (hcall : ∀ origin header justification,
      call ≠ .submitFinalityProof origin header justification)
    (h : Cumulus.BridgeGrandpa.dispatch cfg s call = some (.ok (s', pays))) :
    s'.bestFinalized = s.bestFinalized ∧ s'.currentAuthoritySet = s.currentAuthoritySet := by
  cases call with
  | submitFinalityProof origin header justification =>
    exact absurd rfl (hcall origin header justification)
  | init origin initData =>
    -- a second initialization is refused
    obtain ⟨result, hresult, hok⟩ := Option.map_eq_some_iff.mp h
    obtain ⟨hnone, -⟩ :=
      palletInitialize_eq_ok cfg (hresult.trans (congrArg some (eq_ok_of_map_pays hok)))
    rw [hnone] at hinit
    cases hinit
  | setOwner origin newOwner =>
    obtain rfl := setOwner_eq_ok (eq_ok_of_map_pays (Option.some.inj h))
    exact ⟨rfl, rfl⟩
  | setOperatingMode origin operatingMode =>
    obtain rfl := setOperatingMode_eq_ok (eq_ok_of_map_pays (Option.some.inj h))
    exact ⟨rfl, rfl⟩
  | onInitialize =>
    cases h
    exact ⟨rfl, rfl⟩
  | onFinalize =>
    cases h
    exact ⟨rfl, rfl⟩

/-- **Every run keeps the invariant**, with the headers it imports appended. -/
theorem Imported.runSteps (hhash : HashBindsNumber cfg.hash) (himp : Imported cfg s log)
    {calls : List (GrandpaCall H A S Acc)} (hrun : runSteps (grandpaStep cfg) s calls = some s') :
    Imported cfg s' (log ++ importLog cfg s calls) := by
  induction calls generalizing s log with
  | nil =>
    cases hrun
    simpa [importLog] using himp
  | cons call calls ih =>
    rw [runSteps_cons] at hrun
    obtain ⟨s₁, hstep, hrest⟩ := Option.bind_eq_some_iff.mp hrun
    unfold grandpaStep at hstep
    rcases hdispatch : Cumulus.BridgeGrandpa.dispatch cfg s call with _ | result
    · rw [hdispatch] at hstep
      cases hstep
    rw [hdispatch] at hstep
    cases result with
    | error e =>
      -- a failed call is rolled back
      cases hstep
      simp only [importLog, hdispatch]
      exact ih himp hrest
    | ok result =>
      obtain ⟨s₂, pays⟩ := result
      cases hstep
      simp only [importLog, hdispatch]
      rw [← List.append_assoc]
      exact ih (himp.dispatch hhash hdispatch) hrest

end runs

/-! ## The light client's invariant -/

section invariant

variable [DecidableEq H] [DecidableEq A] [DecidableEq Acc]

/-- **The light client's state invariant.** Let the hash of a header bind its number. After any
run of calls from the empty storage, with `log` the headers it imported in order: their numbers
increase and the last one is the best finalized header, whose data is stored; the pointer is a
slot; the stored headers are exactly the hashes of the ring, at most `HeadersToKeep` distinct ones,
the hashes of the last `HeadersToKeep` imported headers, whose data they hold. An accepted
submission imports a newer header that the authority set in force justified; its first GRANDPA log
is no forced change, and a scheduled change there, of zero delay, becomes the authority set with
the next (wrapping) set id, while without one the set stays. After the initialization no other
call moves the best header or the set, and a failed call changes no storage. -/
theorem grandpaLightClient_invariant (hhash : HashBindsNumber cfg.hash)
    {calls : List (GrandpaCall H A S Acc)} {s : GrandpaStorage H A Acc M}
    (hrun : runSteps (grandpaStep cfg) .empty calls = some s) :
    let log := importLog cfg (.empty : GrandpaStorage H A Acc M) calls
    (log.map BridgedHeader.number).Pairwise (· < ·) ∧
    s.bestFinalized = log.getLast?.map (fun header => ⟨header.number, cfg.hash header⟩) ∧
    (∀ best, s.bestFinalized = some best →
      (s.importedHeaders best.hash).isSome ∧ s.importedHashesPointer < cfg.headersToKeep) ∧
    (∀ y, (s.importedHeaders y).isSome ↔ y ∈ slots cfg.headersToKeep s.importedHashes) ∧
    (slots cfg.headersToKeep s.importedHashes).Nodup ∧
    (slots cfg.headersToKeep s.importedHashes).length ≤ cfg.headersToKeep ∧
    (∀ y, y ∈ slots cfg.headersToKeep s.importedHashes ↔
      y ∈ window cfg.headersToKeep (log.map cfg.hash)) ∧
    (∀ header ∈ window cfg.headersToKeep log,
      s.importedHeaders (cfg.hash header) = some header.build) ∧
    (∀ (s₀ s₁ : GrandpaStorage H A Acc M) origin header justification pays,
      dispatch cfg s₀ (.submitFinalityProof origin header justification) =
        some (.ok (s₁, pays)) →
      (∃ best, s₀.bestFinalized = some best ∧ best.number < header.number) ∧
      s₁.bestFinalized = some ⟨header.number, cfg.hash header⟩ ∧
      verifyJustification cfg justification (cfg.hash header) header.number
        s₀.currentAuthoritySet = some (.ok ()) ∧
      findForcedChange header.digest = none ∧
      (∀ change, findScheduledChange header.digest = some change →
        change.delay = 0 ∧ s₁.currentAuthoritySet.authorities = change.nextAuthorities ∧
          s₁.currentAuthoritySet.setId = s₀.currentAuthoritySet.setId + 1) ∧
      (findScheduledChange header.digest = none →
        s₁.currentAuthoritySet = s₀.currentAuthoritySet)) ∧
    (∀ (s₀ s₁ : GrandpaStorage H A Acc M) call pays, s₀.bestFinalized.isSome →
      (∀ origin header justification,
        call ≠ .submitFinalityProof origin header justification) →
      dispatch cfg s₀ call = some (.ok (s₁, pays)) →
      s₁.bestFinalized = s₀.bestFinalized ∧
        s₁.currentAuthoritySet = s₀.currentAuthoritySet) ∧
    (∀ (s₀ : GrandpaStorage H A Acc M) call e,
      dispatch cfg s₀ call = some (.error e) → grandpaStep cfg s₀ call = some s₀) := by
  intro log
  have himp : Imported cfg s log := by
    have himp₀ : Imported cfg (.empty : GrandpaStorage H A Acc M) [] := imported_empty
    simpa using himp₀.runSteps hhash hrun
  refine ⟨himp.increasing, himp.best, fun best hbest => himp.best_stored hbest, fun y => ?_,
    nodup_slots (himp.ring_injective hhash), length_slots_le _ _, himp.mem_slots_iff,
    fun header hheader => himp.get_window hhash hheader,
    fun s₀ s₁ _ _ _ _ h => dispatch_submitFinalityProof_eq_ok h,
    fun s₀ s₁ _ _ hinit hcall h => dispatch_eq_ok_of_not_submit hinit hcall h,
    fun s₀ call e h => ?_⟩
  · rw [himp.keys y, Cumulus.Found.mem_slots_iff himp.ring_lt]
  · -- the runtime rolls back the storage of a failed call
    simp [grandpaStep, h]

end invariant

open Cumulus.HeaderChain (threeVoters signatureVerdict) in
/-- Two headers kept, one free header a block; the hash of a header is its number plus five, and
every authority list gives the three voters of weight one of the verifier's tests. -/
def twoHeadersConfig : GrandpaConfig Nat Nat Bool :=
  ⟨2, 1, fun header => header.number + 5, fun _ => some threeVoters.voterSet, signatureVerdict, 8,
    fun _ _ => Primitives.Weight.zero, fun _ => 0, fun _ => 0, fun _ => 100⟩

/-- The hash of `twoHeadersConfig` binds a header's number. -/
theorem hashBindsNumber_twoHeadersConfig : HashBindsNumber twoHeadersConfig.hash := by
  intro header₁ header₂ h
  simp only [twoHeadersConfig] at h
  omega

/-- A justification of header `n`, of hash `n + 5`, signed by authorities `0` and `1`. -/
def votesFor (n : Nat) : GrandpaJustification Nat Nat Bool :=
  ⟨1, ⟨n + 5, n, [⟨⟨n + 5, n⟩, true, 0⟩, ⟨⟨n + 5, n⟩, true, 1⟩]⟩, []⟩

/-- The initialization with header `0` and an empty authority set of id `setId`. -/
def genesisInit (setId : BitVec 64) : GrandpaCall Nat Nat Bool Nat :=
  .init .root ⟨⟨0, 0, []⟩, [], setId, .normal⟩

/-- A submission of header `n` with the given digest. -/
def submitHeader (n : Nat) (digest : List (DigestItem Nat)) : GrandpaCall Nat Nat Bool Nat :=
  .submitFinalityProof (.signed 7) ⟨n, n, digest⟩ (votesFor n)

/-- Header `1` schedules a change and header `2`, in the next block, prunes the initial one. -/
def threeImports : List (GrandpaCall Nat Nat Bool Nat) :=
  [genesisInit 0, submitHeader 1 [.grandpa (.scheduledChange ⟨[(0, 1)], 0⟩)], .onInitialize,
    submitHeader 2 []]

/-- After three imports into a ring of two, the best header is the last one, the first header's hash
is pruned and the ring pointer is in range. -/
theorem grandpaLightClient_invariant_threeImports :
    HashBindsNumber twoHeadersConfig.hash ∧
    ∃ s : GrandpaStorage Nat Nat Nat 4,
      runSteps (grandpaStep twoHeadersConfig) .empty threeImports = some s ∧
      s.bestFinalized = some ⟨2, 7⟩ ∧ s.currentAuthoritySet.setId = 1 ∧
      s.importedHeaders 5 = none ∧ (s.importedHeaders 7).isSome ∧
      s.importedHashesPointer < 2 := by
  have hrun : runSteps (grandpaStep twoHeadersConfig)
      (.empty : GrandpaStorage Nat Nat Nat 4) threeImports = some _ := rfl
  obtain ⟨-, -, hstored, -⟩ :=
    grandpaLightClient_invariant twoHeadersConfig hashBindsNumber_twoHeadersConfig hrun
  exact ⟨hashBindsNumber_twoHeadersConfig, _, hrun, rfl, rfl, rfl, hstored ⟨2, 7⟩ rfl⟩

/-- Only the first GRANDPA log of a digest is read. A header whose scheduled change is followed by
a forced change is imported, although `submit_finality_proof` documents that a header with a
forced change fails the call; a header whose scheduled change follows a pause is imported with the
authority set kept, although `find_scheduled_change` documents that it finds the first GRANDPA log
that is a scheduled change. -/
theorem grandpaLightClient_later_logs_ignored :
    (∃ s : GrandpaStorage Nat Nat Nat 4, runSteps (grandpaStep twoHeadersConfig) .empty
        [genesisInit 0, submitHeader 1 [.grandpa (.scheduledChange ⟨[], 0⟩),
          .grandpa (.forcedChange 0 ⟨[], 0⟩)]] = some s ∧
      s.bestFinalized = some ⟨1, 6⟩ ∧ s.currentAuthoritySet.setId = 1) ∧
    (∃ s : GrandpaStorage Nat Nat Nat 4, runSteps (grandpaStep twoHeadersConfig) .empty
        [genesisInit 0, submitHeader 1 [.grandpa (.pause 0),
          .grandpa (.scheduledChange ⟨[], 0⟩)]] = some s ∧
      s.bestFinalized = some ⟨1, 6⟩ ∧ s.currentAuthoritySet.setId = 0) :=
  ⟨⟨_, rfl, rfl, rfl⟩, ⟨_, rfl, rfl, rfl⟩⟩

end Cumulus.BridgeGrandpa
