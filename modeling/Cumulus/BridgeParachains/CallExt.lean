import Cumulus.Primitives.Core
import Cumulus.BridgeParachains.Heads

/-!
# The parachains pallet's checks for transaction extensions

`call_ext.rs` gives the runtime's transaction extensions two checks of a `submit_parachain_heads`
call that updates a single parachain. Before the call is included,
`check_obsolete_submit_parachain_heads` rejects it as `Stale` when the pallet's own `is_obsolete`
says that its head is no better than the best one; after the call ran, `was_successful` tells
whether the head is now the parachain's best one, read at the call's relay block. The relayer
refund extension of the bridge hub rewards a relayer on that answer.

* `SubmitCall.oneEntrySubmitParachainHeadsInfo` — what the extension reads of a call;
* `checkObsoleteSubmitParachainHeads`, `wasSuccessful` — the two checks;
* `submitStep_oneEntry` — what a one-entry call does to the storage: nothing, or the update of
  its parachain with the head its proof holds;
* `wasSuccessful_submitStep` — for a call that the check admits, once the runtime has run it,
  `was_successful` holds exactly when the call changed the parachain's best head, and then the
  proof held a head of the named hash that the pallet tracks, at an imported relay block.
-/

namespace Cumulus.BridgeParachains

open Cumulus.Primitives

variable {P Head PH D RH : Type} [DecidableEq P] [DecidableEq PH]
variable (cfg : ParachainsConfig P Head PH D)

/-! ## The checks -/

/-- The update of a call with one single parachain entry.
Source: `CallSubType::one_entry_submit_parachain_heads_info` -/
def SubmitCall.oneEntrySubmitParachainHeadsInfo (call : SubmitCall RH P PH Head) :
    Option (SubmitParachainHeadsInfo P PH) :=
  match call.parachains with
  | [(paraId, paraHeadHash)] => some ⟨call.atRelayBlock.1, paraId, paraHeadHash⟩
  | _ => none

/-- The update of a call with one single parachain entry, if the entry is for `paraId`.
Source: `CallSubType::submit_parachain_heads_info_for` -/
def SubmitCall.submitParachainHeadsInfoFor (call : SubmitCall RH P PH Head) (paraId : P) :
    Option (SubmitParachainHeadsInfo P PH) :=
  call.oneEntrySubmitParachainHeadsInfo.filter fun update => update.paraId = paraId

/-- Validate a call so that transactions with outdated heads are not "mined": only calls that
update a single parachain are checked, and an obsolete head is `Stale`.
Source: `CallSubType::check_obsolete_submit_parachain_heads` -/
def checkObsoleteSubmitParachainHeads (s : ParachainsStorage P PH D)
    (call : SubmitCall RH P PH Head) : Except InvalidTransaction Unit :=
  match call.oneEntrySubmitParachainHeadsInfo with
  | none => .ok ()
  | some update => if isObsolete s update then .error .stale else .ok ()

/-- Check if the call was successfully executed: the parachain's best head is the call's head,
read at the call's relay block.
Source: `SubmitParachainHeadsHelper::was_successful` -/
def wasSuccessful (s : ParachainsStorage P PH D) (update : SubmitParachainHeadsInfo P PH) : Bool :=
  match s.parasInfo update.paraId with
  | some storedBestHead =>
    storedBestHead.bestHeadHash = ⟨update.atRelayBlockNumber, update.paraHeadHash⟩
  | none => false

/-! ## One-entry calls -/

section oneEntry

variable {s s' : ParachainsStorage P PH D} {call : SubmitCall RH P PH Head}
variable {update : SubmitParachainHeadsInfo P PH}

omit [DecidableEq P] [DecidableEq PH] in
/-- The update of a one-entry call is its single entry, read at the call's relay block. -/
theorem oneEntrySubmitParachainHeadsInfo_eq_some
    (h : call.oneEntrySubmitParachainHeadsInfo = some update) :
    call.parachains = [(update.paraId, update.paraHeadHash)] ∧
      call.atRelayBlock.1 = update.atRelayBlockNumber := by
  unfold SubmitCall.oneEntrySubmitParachainHeadsInfo at h
  split at h
  · rename_i paraId paraHeadHash hparachains
    cases h
    exact ⟨hparachains, rfl⟩
  · cases h

omit [DecidableEq P] in
/-- A head that is not obsolete is read at a later relay block than the best head, with another
hash. -/
theorem newer_of_isObsolete_eq_false (h : isObsolete s update = false) {info : ParaInfo PH}
    (hinfo : s.parasInfo update.paraId = some info) :
    info.bestHeadHash.atRelayBlockNumber < update.atRelayBlockNumber ∧
      info.bestHeadHash.headHash ≠ update.paraHeadHash := by
  simp only [isObsolete, hinfo, Bool.or_eq_false_iff, decide_eq_false_iff_not] at h
  exact ⟨Nat.lt_of_not_le h.1, h.2⟩

omit [DecidableEq P] in
/-- Before a head that is not obsolete is imported, the check after the call fails for it. -/
theorem wasSuccessful_of_isObsolete_eq_false (h : isObsolete s update = false) :
    wasSuccessful s update = false := by
  unfold wasSuccessful
  split
  · rename_i info hinfo
    have hnewer := (newer_of_isObsolete_eq_false h hinfo).1
    simp only [decide_eq_false_iff_not]
    rintro hbest
    rw [hbest] at hnewer
    exact Nat.lt_irrefl _ hnewer
  · rfl

/-- **What a one-entry call does to the storage**: nothing (it failed and was rolled back, or its
head was skipped or refused), or the update of its parachain with a head that its proof holds
with the named hash and that the pallet tracks, read at an imported relay block of the number the
call names. -/
theorem submitStep_oneEntry {p : P} {hash : PH} (hparachains : call.parachains = [(p, hash)])
    (hstep : submitStep cfg s call = some s') :
    s' = s ∨ ∃ head data s₁ artifacts, call.proof.readHead p = .ok (some head) ∧
      hash = cfg.headHash head ∧ cfg.tryBuild p head = some data ∧
      call.env.importedHeaders call.atRelayBlock.2 = some call.atRelayBlock.1 ∧
      updateParachainHead cfg s p (s.parasInfo p) call.atRelayBlock.1 data hash =
        some (.ok (s₁, artifacts)) ∧
      s' = { s₁ with parasInfo := Function.update s₁.parasInfo p (some artifacts.bestHead) } := by
  obtain ⟨result, hsubmit, hs'⟩ := Option.map_eq_some_iff.mp hstep
  cases result with
  | error e =>
    cases hs'
    exact .inl rfl
  | ok result =>
    obtain ⟨s₁, w⟩ := result
    cases hs'
    obtain ⟨himported, w₀, hfold⟩ := submitParachainHeads_eq_ok cfg hsubmit
    -- the loop runs one turn, over the one entry
    rw [hparachains] at hfold
    simp only [List.foldlM_cons, List.foldlM_nil, Option.bind_eq_bind, Option.pure_def,
      Option.bind_fun_some] at hfold
    rcases submitParachainHeadsStep_eq_some cfg hfold with hsame | ⟨head, data, s₂, artifacts,
      hread, hhash, hdata, hupdate, hs₁⟩
    · exact .inl hsame
    · exact .inr ⟨head, data, s₂, artifacts, hread, hhash, hdata, himported, hupdate, hs₁⟩

/-- **The extension's checks agree with the pallet.** For a call updating a single parachain that
the check before inclusion admits, once the runtime has run it (a failure rolled back),
`was_successful` holds exactly when the call changed the parachain's best head; and then the
call's proof held a head of the named hash that the pallet tracks, read at an imported relay block
of the number the call names. So the refund extension rewards a relayer for this call exactly
when the pallet imported its head. -/
theorem wasSuccessful_submitStep (hinfo : call.oneEntrySubmitParachainHeadsInfo = some update)
    (hadmitted : checkObsoleteSubmitParachainHeads s call = .ok ())
    (hstep : submitStep cfg s call = some s') :
    (wasSuccessful s' update = true ↔ s'.parasInfo update.paraId ≠ s.parasInfo update.paraId) ∧
    (wasSuccessful s' update = true → ∃ head data,
      call.proof.readHead update.paraId = .ok (some head) ∧
      cfg.headHash head = update.paraHeadHash ∧ cfg.tryBuild update.paraId head = some data ∧
      call.env.importedHeaders call.atRelayBlock.2 = some update.atRelayBlockNumber) := by
  obtain ⟨hparachains, hat⟩ := oneEntrySubmitParachainHeadsInfo_eq_some hinfo
  have hfresh : isObsolete s update = false := by
    unfold checkObsoleteSubmitParachainHeads at hadmitted
    rw [hinfo] at hadmitted
    dsimp only at hadmitted
    split_ifs at hadmitted with hobsolete
    exact Bool.eq_false_iff.mpr hobsolete
  have hbefore := wasSuccessful_of_isObsolete_eq_false hfresh
  rcases submitStep_oneEntry cfg hparachains hstep with rfl | ⟨head, data, s₁, artifacts,
    hread, hhash, hdata, himported, hupdate, hs'⟩
  · -- nothing changed, and the head was not the best one before
    simp only [hbefore, Bool.false_eq_true, ne_eq, not_true_eq_false, iff_self,
      false_implies, and_self]
  · -- the head became the best one, read at the call's relay block
    rw [hat] at hupdate himported
    have hbest : s'.parasInfo update.paraId = some ⟨⟨update.atRelayBlockNumber,
        update.paraHeadHash⟩, (nextImportedHashPosition (s.parasInfo update.paraId) + 1) %
          cfg.headsToKeep⟩ := by
      rw [hs']
      exact (updateParachainHead_items_self cfg hupdate).1
    have hafter : wasSuccessful s' update = true := by
      simp only [wasSuccessful, hbest, decide_true]
    refine ⟨iff_of_true hafter fun hsame => ?_, fun _ => ⟨head, data, hread, hhash.symm, hdata,
      himported⟩⟩
    have hnow : wasSuccessful s update = true := by
      rw [← hafter]
      simp only [wasSuccessful, hsame]
    rw [hbefore] at hnow
    exact Bool.false_ne_true hnow

end oneEntry

/-- The first head of parachain `0`, read at relay block `1`, into the empty storage. -/
theorem wasSuccessful_submitStep_countingCall :
    (countingCall 1).oneEntrySubmitParachainHeadsInfo = some ⟨1, 0, 1⟩ ∧
    checkObsoleteSubmitParachainHeads (.empty : ParachainsStorage Nat Nat Nat) (countingCall 1) =
      .ok () ∧
    let s' := (submitStep twoHeadsConfig .empty (countingCall 1)).getD .empty
    submitStep twoHeadsConfig .empty (countingCall 1) = some s' ∧
    (wasSuccessful s' ⟨1, 0, 1⟩ = true ↔
      s'.parasInfo 0 ≠ (ParachainsStorage.empty : ParachainsStorage Nat Nat Nat).parasInfo 0) ∧
    (wasSuccessful s' ⟨1, 0, 1⟩ = true → ∃ head data,
      (countingCall 1).proof.readHead 0 = .ok (some head) ∧ twoHeadsConfig.headHash head = 1 ∧
      twoHeadsConfig.tryBuild 0 head = some data ∧
      (countingCall 1).env.importedHeaders (countingCall 1).atRelayBlock.2 = some 1) := by
  have hinfo : (countingCall 1).oneEntrySubmitParachainHeadsInfo = some ⟨1, 0, 1⟩ := rfl
  have hadmitted : checkObsoleteSubmitParachainHeads
      (.empty : ParachainsStorage Nat Nat Nat) (countingCall 1) = .ok () := rfl
  exact ⟨hinfo, hadmitted, rfl, wasSuccessful_submitStep twoHeadsConfig hinfo hadmitted rfl⟩

end Cumulus.BridgeParachains
