import Cumulus.BridgeParachains.Pallet
import Cumulus.Found.HashRing
import Cumulus.Found.Run

/-!
# The parachain heads the pallet keeps

`update_parachain_head` writes the new head's hash into the ring slot at the next position and
stores its data before it prunes the head that slot held, so the data of a parachain's heads
follows its ring only if the new hash is in no slot. The obsolescence check gives that: a head is
imported only when read at a later relay block than the best one and with another hash, and every
hash of the ring is of a head the parachain had no later than the best one (`HeadsSeen`). If a
parachain's head never returns to a hash it left (`NoReturn`), the new hash is fresh
(`HeadsSeen.fresh`), and `RingKeys.insertPrune` of the hash ring library keeps the store.

* `updateParachainHead_eq_ok`, `submitParachainHeadsStep_eq_some` — what one update and one turn
  of the loop do;
* `HeadsStored`, `HeadsSeen` — the invariant of one parachain's items, kept by an accepted head;
* `headsKept_submitParachainHeadsStep` … `headsKept_runSteps` — the invariant of every parachain,
  through the loop, a call and a run;
* `submitParachainHeads_keeps_heads` — what a run keeps, as `ParasInfo`, `ImportedParaHeads` and
  `ImportedParaHashes` show it.
-/

namespace Cumulus.BridgeParachains

open Cumulus.Primitives Cumulus.Found

variable {P Head PH D RH : Type} [DecidableEq P] [DecidableEq PH]
variable (cfg : ParachainsConfig P Head PH D)

/-! ## One update -/

/-- A head that `update_parachain_head` accepts is not obsolete; it becomes the best head, its hash
is written in the next ring slot, and its data replaces the data of the hash the slot held. -/
theorem updateParachainHead_eq_ok {s s' : ParachainsStorage P PH D} {p : P}
    {stored : Option (ParaInfo PH)} {n : Nat} {data : D} {hash : PH}
    {artifacts : UpdateParachainHeadArtifacts PH}
    (h : updateParachainHead cfg s p stored n data hash = some (.ok (s', artifacts))) :
    isObsolete s ⟨n, p, hash⟩ = false ∧ 0 < cfg.headsToKeep ∧
      artifacts.bestHead =
        ⟨⟨n, hash⟩, (nextImportedHashPosition stored + 1) % cfg.headsToKeep⟩ ∧
      s'.parasInfo = s.parasInfo ∧
      s'.importedParaHashes =
        updateDouble s.importedParaHashes p (nextImportedHashPosition stored) (some hash) ∧
      s'.importedParaHeads = Function.update s.importedParaHeads p
        (insertPrune (s.importedParaHeads p)
          (s.importedParaHashes p (nextImportedHashPosition stored)) hash data) := by
  unfold updateParachainHead at h
  by_cases hobs : isObsolete s ⟨n, p, hash⟩ = true
  · simp [hobs] at h
  by_cases hsize : cfg.encodedSize data > cfg.maxParaHeadDataSize
  · simp [hobs, hsize] at h
  by_cases hK : cfg.headsToKeep = 0
  · simp [hobs, hsize, hK] at h
  simp only [hobs, hsize, hK, if_false, Bool.false_eq_true] at h
  have hpos : 0 < cfg.headsToKeep := Nat.pos_of_ne_zero hK
  rcases hprune : s.importedParaHashes p (nextImportedHashPosition stored) with _ | o <;>
    simp only [hprune, Option.some.injEq, Except.ok.injEq, Prod.mk.injEq] at h <;>
    obtain ⟨rfl, rfl⟩ := h
  · exact ⟨by simpa using hobs, hpos, rfl, rfl, rfl, rfl⟩
  · -- the pruned head is dropped after the new one is stored
    refine ⟨by simpa using hobs, hpos, rfl, rfl, rfl, ?_⟩
    simp only [updateDouble, Function.update_self, Function.update_idem, insertPrune]

/-- The items of the updated parachain after an accepted update. -/
theorem updateParachainHead_items_self {s s₁ : ParachainsStorage P PH D} {p : P} {n : Nat}
    {data : D} {hash : PH} {artifacts : UpdateParachainHeadArtifacts PH}
    (h : updateParachainHead cfg s p (s.parasInfo p) n data hash = some (.ok (s₁, artifacts))) :
    Function.update s₁.parasInfo p (some artifacts.bestHead) p =
        some ⟨⟨n, hash⟩, (nextImportedHashPosition (s.parasInfo p) + 1) % cfg.headsToKeep⟩ ∧
      s₁.importedParaHeads p = insertPrune (s.importedParaHeads p)
        (s.importedParaHashes p (nextImportedHashPosition (s.parasInfo p))) hash data ∧
      s₁.importedParaHashes p =
        Function.update (s.importedParaHashes p) (nextImportedHashPosition (s.parasInfo p))
          (some hash) := by
  obtain ⟨-, -, hbest, -, hhashes, hheads⟩ := updateParachainHead_eq_ok cfg h
  rw [Function.update_self, hbest, hheads, hhashes, Function.update_self, updateDouble_self]
  exact ⟨rfl, rfl, rfl⟩

/-- An accepted update stores data within `MaxParaHeadDataSize`. -/
theorem updateParachainHead_size_le {s s' : ParachainsStorage P PH D} {p : P}
    {stored : Option (ParaInfo PH)} {n : Nat} {data : D} {hash : PH}
    {artifacts : UpdateParachainHeadArtifacts PH}
    (h : updateParachainHead cfg s p stored n data hash = some (.ok (s', artifacts))) :
    cfg.encodedSize data ≤ cfg.maxParaHeadDataSize := by
  unfold updateParachainHead at h
  by_contra hsize
  have hbig : cfg.encodedSize data > cfg.maxParaHeadDataSize := Nat.lt_of_not_le hsize
  -- an oversized head is refused, obsolete or not
  by_cases hobsolete : isObsolete s ⟨n, p, hash⟩ = true
  · simp [hobsolete] at h
  · simp [hobsolete, hbig] at h

/-- A head is accepted for `p` at relay block `n`: it is newer than the best head, with another
hash, and becomes the best head; the items of the other parachains do not change. -/
structure HeadAccepted (s s' : ParachainsStorage P PH D) (n : Nat) (p : P) (hash : PH) :
    Prop where
  newer : ∀ info, s.parasInfo p = some info →
    info.bestHeadHash.atRelayBlockNumber < n ∧ info.bestHeadHash.headHash ≠ hash
  best : ∃ pos, s'.parasInfo p = some ⟨⟨n, hash⟩, pos⟩
  frame : ∀ q, q ≠ p → s'.parasInfo q = s.parasInfo q ∧
    s'.importedParaHeads q = s.importedParaHeads q ∧
    s'.importedParaHashes q = s.importedParaHashes q

/-- An accepted update, with the best head recorded, is a head accepted by the pallet. -/
theorem headAccepted_of_update {s s₁ : ParachainsStorage P PH D} {p : P} {n : Nat}
    {data : D} {hash : PH} {artifacts : UpdateParachainHeadArtifacts PH}
    (h : updateParachainHead cfg s p (s.parasInfo p) n data hash = some (.ok (s₁, artifacts))) :
    HeadAccepted s { s₁ with parasInfo := Function.update s₁.parasInfo p (some artifacts.bestHead) }
      n p hash := by
  obtain ⟨hobs, -, -, hinfo, hhashes, hheads⟩ := updateParachainHead_eq_ok cfg h
  refine ⟨fun info hi => ?_, ⟨_, (updateParachainHead_items_self cfg h).1⟩, fun q hq => ?_⟩
  · simpa [isObsolete, hi] using hobs
  · dsimp only
    refine ⟨?_, ?_, ?_⟩
    · rw [Function.update_of_ne hq, hinfo]
    · rw [hheads, Function.update_of_ne hq]
    · rw [hhashes, updateDouble_of_ne _ hq]

/-! ## One turn of the loop -/

/-- What one turn of the loop leaves: the storage as it was, or the storage after the update of a
head that the proof reads with the hash the relayer names and that the data builder accepts. -/
theorem submitParachainHeadsStep_eq_some {n : Nat} {proof : ParaHeadsProof P Head}
    {s s' : ParachainsStorage P PH D} {w w' : Weight} {p : P} {hash : PH}
    (h : submitParachainHeadsStep cfg n proof (s, w) (p, hash) = some (s', w')) :
    s' = s ∨ ∃ head data s₁ artifacts, proof.readHead p = .ok (some head) ∧
      hash = cfg.headHash head ∧ cfg.tryBuild p head = some data ∧
      updateParachainHead cfg s p (s.parasInfo p) n data hash = some (.ok (s₁, artifacts)) ∧
      s' = { s₁ with parasInfo := Function.update s₁.parasInfo p (some artifacts.bestHead) } := by
  simp only [submitParachainHeadsStep] at h
  split at h
  · rename_i head hread
    split_ifs at h with hhash
    · cases h
      exact .inl rfl
    split at h
    · cases h
      exact .inl rfl
    rename_i data hdata
    obtain ⟨r, hr, hmap⟩ := Option.map_eq_some_iff.mp h
    cases r with
    | error e =>
      cases e
      cases hmap
      exact .inl rfl
    | ok r =>
      obtain ⟨s₁, artifacts⟩ := r
      cases hmap
      exact .inr ⟨head, data, s₁, artifacts, hread, not_not.mp hhash, hdata, hr, rfl⟩
  · cases h
    exact .inl rfl

/-- A head that the proof does not hold, whose hash is not the one the call names, that does not
build (an untracked parachain) or whose data is larger than `MaxParaHeadDataSize`, changes
nothing. -/
theorem submitParachainHeadsStep_skips {n : Nat} {proof : ParaHeadsProof P Head}
    {s s' : ParachainsStorage P PH D} {w w' : Weight} {p : P} {hash : PH}
    (h : submitParachainHeadsStep cfg n proof (s, w) (p, hash) = some (s', w'))
    (hskip : ∀ head data, proof.readHead p = .ok (some head) → hash = cfg.headHash head →
      cfg.tryBuild p head = some data → cfg.encodedSize data > cfg.maxParaHeadDataSize) :
    s' = s := by
  rcases submitParachainHeadsStep_eq_some cfg h with hsame | ⟨head, data, s₁, artifacts, hread,
    hhash, hdata, hupdate, -⟩
  · exact hsame
  · have hfits := updateParachainHead_size_le cfg hupdate
    exact absurd (hskip head data hread hhash hdata) (Nat.not_lt.mpr hfits)

/-! ## What the pallet keeps of a parachain -/

/-- The relay chain never takes a parachain back to a head hash it left: a head hash that the
parachain has at two relay blocks is its head hash at every relay block between them. -/
def NoReturn (headHash : Head → PH) (headAt : Nat → P → Option Head) : Prop :=
  ∀ p n₁ n₂ n₃ h₁ h₂ h₃, n₁ < n₂ → n₂ < n₃ → headAt n₁ p = some h₁ → headAt n₂ p = some h₂ →
    headAt n₃ p = some h₃ → headHash h₁ = headHash h₃ → headHash h₂ = headHash h₁

/-- The storage proof of a call reads the parachain heads of the relay block it names, at that
block's number. -/
def SubmitCall.ReadsRelayChain (headAt : Nat → P → Option Head)
    (call : SubmitCall RH P PH Head) : Prop :=
  ∀ number, call.env.importedHeaders call.atRelayBlock.2 = some number →
    ∀ p head, call.proof.readHead p = .ok (some head) → headAt number p = some head

section kept

variable {info : Option (ParaInfo PH)} {heads : PH → Option D} {ring : Nat → Option PH}

/-- What the pallet keeps of one parachain, from its best head `info`, the data of its heads and
its ring of head hashes: the ring has slots `0 .. HeadsToKeep - 1` and no hash twice, and the
heads stored are those of the ring; before the first head the ring is empty, after it the next
position is a slot and the best hash is in the ring. -/
structure HeadsStored (info : Option (ParaInfo PH)) (heads : PH → Option D)
    (ring : Nat → Option PH) : Prop where
  ring_lt : ∀ i hash, ring i = some hash → i < cfg.headsToKeep
  ring_injective : RingInjective ring
  keys : RingKeys heads ring
  unset : info = none → ∀ i, ring i = none
  next_lt : ∀ b, info = some b → b.nextImportedHashPosition < cfg.headsToKeep
  best_mem : ∀ b, info = some b → ∃ i, ring i = some b.bestHeadHash.headHash

/-- The hashes of the ring are of heads the parachain had (`seen m` at relay block `m`): the best
one at the relay block it was read at, every other one there or at an earlier relay block. -/
structure HeadsSeen (seen : Nat → Option Head) (info : Option (ParaInfo PH))
    (ring : Nat → Option PH) : Prop where
  best : ∀ b, info = some b → ∃ head, seen b.bestHeadHash.atRelayBlockNumber = some head ∧
    cfg.headHash head = b.bestHeadHash.headHash
  others : ∀ b, info = some b → ∀ i hash, ring i = some hash →
    ∃ m head, m ≤ b.bestHeadHash.atRelayBlockNumber ∧ seen m = some head ∧ cfg.headHash head = hash

omit [DecidableEq P] [DecidableEq PH] in
/-- The ring position of a parachain with stored heads is in range. -/
theorem HeadsStored.nextImportedHashPosition_lt (hs : HeadsStored cfg info heads ring)
    (hK : 0 < cfg.headsToKeep) : nextImportedHashPosition info < cfg.headsToKeep := by
  cases info with
  | none => exact hK
  | some b => exact hs.next_lt b rfl

omit [DecidableEq P] [DecidableEq PH] in
/-- **A newer head's hash is in no slot.** A head read at relay block `n`, later than the best
one and with another hash, cannot have the hash of a head kept: that head was seen no later than
the best one, so the parachain would have come back to it. -/
theorem HeadsSeen.fresh {headAt : Nat → P → Option Head} {p : P}
    (hreturn : NoReturn cfg.headHash headAt) (hs : HeadsStored cfg info heads ring)
    (hseen : HeadsSeen cfg (fun m => headAt m p) info ring) {n : Nat} {head : Head}
    (hhead : headAt n p = some head)
    (hnewer : ∀ b, info = some b →
      b.bestHeadHash.atRelayBlockNumber < n ∧ b.bestHeadHash.headHash ≠ cfg.headHash head) :
    ∀ i, ring i ≠ some (cfg.headHash head) := by
  intro i hi
  rcases hinfo : info with _ | b
  · rw [hs.unset hinfo i] at hi
    cases hi
  obtain ⟨hlt, hne⟩ := hnewer b hinfo
  obtain ⟨hb, hbAt, hbHash⟩ := hseen.best b hinfo
  obtain ⟨m, hm, hle, hmAt, hmHash⟩ := hseen.others b hinfo i _ hi
  rcases Nat.lt_or_eq_of_le hle with hlt' | rfl
  · -- the best head lies between the kept head and the new one, which share a hash
    have hback := hreturn p m _ n hm hb head hlt' hlt hmAt hbAt hhead hmHash
    exact hne (hbHash.symm.trans (hback.trans hmHash))
  · -- the kept head was read at the best head's relay block: it is the best head
    have hbm : hb = hm := Option.some.inj (hbAt.symm.trans hmAt)
    subst hbm
    exact hne (hbHash.symm.trans hmHash)

omit [DecidableEq P] in
/-- An accepted head keeps what is stored: it goes into the slot of the next position, as the only
copy of its hash, and the head that slot held is dropped. -/
theorem HeadsStored.update {hash : PH} (hs : HeadsStored cfg info heads ring)
    (hfresh : ∀ i, ring i ≠ some hash) (hK : 0 < cfg.headsToKeep) (n : Nat) (data : D) :
    HeadsStored cfg (some ⟨⟨n, hash⟩, (nextImportedHashPosition info + 1) % cfg.headsToKeep⟩)
      (insertPrune heads (ring (nextImportedHashPosition info)) hash data)
      (Function.update ring (nextImportedHashPosition info) (some hash)) where
  ring_lt i hash' hi := by
    rw [Function.update_apply] at hi
    split_ifs at hi with hpos
    · rw [hpos]
      exact hs.nextImportedHashPosition_lt cfg hK
    · exact hs.ring_lt i hash' hi
  ring_injective := hs.ring_injective.update hfresh _
  keys := hs.keys.insertPrune hs.ring_injective hfresh _ data
  unset h := by cases h
  next_lt b hb := by
    cases hb
    exact Nat.mod_lt _ hK
  best_mem b hb := by
    cases hb
    exact ⟨_, Function.update_self _ _ _⟩

omit [DecidableEq P] [DecidableEq PH] in
/-- An accepted head keeps the ring seen: the new head at the relay block it is read at, the
others no later than the old best head, which is older than the new one. -/
theorem HeadsSeen.update {seen : Nat → Option Head} (hs : HeadsStored cfg info heads ring)
    (hseen : HeadsSeen cfg seen info ring) {n : Nat} {head : Head} (hhead : seen n = some head)
    (hnewer : ∀ b, info = some b → b.bestHeadHash.atRelayBlockNumber < n) (pos pos' : Nat) :
    HeadsSeen cfg seen (some ⟨⟨n, cfg.headHash head⟩, pos'⟩)
      (Function.update ring pos (some (cfg.headHash head))) where
  best b hb := by
    cases hb
    exact ⟨head, hhead, rfl⟩
  others b hb i hash hi := by
    cases hb
    rw [Function.update_apply] at hi
    split_ifs at hi with hpos
    · cases hi
      exact ⟨n, head, le_rfl, hhead, rfl⟩
    rcases hinfo : info with _ | b
    · rw [hs.unset hinfo i] at hi
      cases hi
    obtain ⟨m, head', hle, hm, hhash⟩ := hseen.others b hinfo i hash hi
    exact ⟨m, head', le_trans hle (hnewer b hinfo).le, hm, hhash⟩

end kept

/-- The invariant of the pallet's heads storage: every parachain's heads are kept and seen. -/
def HeadsKept (headAt : Nat → P → Option Head) (s : ParachainsStorage P PH D) : Prop :=
  ∀ p, HeadsStored cfg (s.parasInfo p) (s.importedParaHeads p) (s.importedParaHashes p) ∧
    HeadsSeen cfg (fun m => headAt m p) (s.parasInfo p) (s.importedParaHashes p)

omit [DecidableEq P] [DecidableEq PH] in
/-- The empty storage keeps the heads of every relay chain. -/
theorem headsKept_empty (headAt : Nat → P → Option Head) :
    HeadsKept cfg headAt (ParachainsStorage.empty : ParachainsStorage P PH D) := by
  intro p
  refine ⟨⟨?_, ?_, ?_, ?_, ?_, ?_⟩, ⟨?_, ?_⟩⟩
  · intro i hash h
    cases h
  · intro i i' y h
    cases h
  · intro y
    constructor
    · intro h
      cases h
    · rintro ⟨_, h⟩
      cases h
  · intro _ i
    rfl
  all_goals
    intro b h
    cases h

section run

variable {headAt : Nat → P → Option Head} (hreturn : NoReturn cfg.headHash headAt)
include hreturn

/-- **One turn of the loop keeps the heads.** A turn that reads the heads of relay block `n`
either changes nothing or updates one parachain, whose new head is fresh for its ring. -/
theorem headsKept_submitParachainHeadsStep {n : Nat} {proof : ParaHeadsProof P Head}
    (hreads : ∀ p head, proof.readHead p = .ok (some head) → headAt n p = some head)
    {acc acc' : ParachainsStorage P PH D × Weight} {entry : P × PH}
    (hkept : HeadsKept cfg headAt acc.1)
    (h : submitParachainHeadsStep cfg n proof acc entry = some acc') :
    HeadsKept cfg headAt acc'.1 := by
  obtain ⟨s, w⟩ := acc
  obtain ⟨s', w'⟩ := acc'
  obtain ⟨p, hash⟩ := entry
  rcases submitParachainHeadsStep_eq_some cfg h with rfl | ⟨head, data, s₁, artifacts, hread,
    rfl, -, hupd, rfl⟩
  · exact hkept
  have hhead := hreads p head hread
  have hacc := headAccepted_of_update cfg hupd
  intro q
  by_cases hq : q = p
  · subst hq
    obtain ⟨hstored, hseen⟩ := hkept q
    have hfresh := hseen.fresh cfg hreturn hstored hhead hacc.newer
    obtain ⟨-, hK, -⟩ := updateParachainHead_eq_ok cfg hupd
    obtain ⟨hinfo, hheads, hhashes⟩ := updateParachainHead_items_self cfg hupd
    dsimp only
    rw [hinfo, hheads, hhashes]
    exact ⟨hstored.update cfg hfresh hK n data,
      hseen.update cfg hstored hhead (fun b hb => (hacc.newer b hb).1) _ _⟩
  · -- another parachain's items are those it had
    obtain ⟨hinfo, hheads, hhashes⟩ := hacc.frame q hq
    rw [hinfo, hheads, hhashes]
    exact hkept q

/-- The loop over the listed parachains keeps the heads. -/
theorem headsKept_foldlM {n : Nat} {proof : ParaHeadsProof P Head}
    (hreads : ∀ p head, proof.readHead p = .ok (some head) → headAt n p = some head)
    {parachains : List (P × PH)} {s s' : ParachainsStorage P PH D} {w w' : Weight}
    (hkept : HeadsKept cfg headAt s)
    (h : parachains.foldlM (submitParachainHeadsStep cfg n proof) (s, w) = some (s', w')) :
    HeadsKept cfg headAt s' := by
  rw [foldlM_eq_runSteps] at h
  exact @runSteps_invariant _ _ _ _ _ _ (fun acc => HeadsKept cfg headAt acc.1) hkept
    (fun _ _ _ hacc hstep => headsKept_submitParachainHeadsStep cfg hreturn hreads hacc hstep) h

omit hreturn in
/-- A successful call ran the loop from the storage it was given, over the heads of an imported
relay block whose number the call names. -/
theorem submitParachainHeads_eq_ok {env : SubmitEnv RH} {s s' : ParachainsStorage P PH D}
    {atRelayBlock : Nat × RH} {parachains : List (P × PH)} {proof : ParaHeadsProof P Head}
    {w : Weight}
    (h : submitParachainHeads cfg env s atRelayBlock parachains proof = some (.ok (s', w))) :
    env.importedHeaders atRelayBlock.2 = some atRelayBlock.1 ∧ ∃ w₀,
      parachains.foldlM (submitParachainHeadsStep cfg atRelayBlock.1 proof) (s, w₀) =
        some (s', w) := by
  unfold submitParachainHeads at h
  dsimp only at h
  -- the mode and origin checks
  split at h
  · cases h
  split at h
  · cases h
  -- the relay block is imported, with the number the call names
  split at h
  · cases h
  rename_i number hnumber
  split at h
  · cases h
  rename_i hne
  split at h
  · cases h
  obtain ⟨acc, hacc, hres⟩ := Option.map_eq_some_iff.mp h
  split at hres
  · cases hres
    exact ⟨by rw [hnumber, not_not.mp hne], _, hacc⟩
  · cases hres

/-- A call keeps the heads: a failed one is rolled back, a successful one ran the loop. -/
theorem headsKept_submitStep {call : SubmitCall RH P PH Head}
    (hcall : call.ReadsRelayChain headAt) {s s' : ParachainsStorage P PH D}
    (hkept : HeadsKept cfg headAt s) (h : submitStep cfg s call = some s') :
    HeadsKept cfg headAt s' := by
  obtain ⟨r, hr, rfl⟩ := Option.map_eq_some_iff.mp h
  cases r with
  | error e => exact hkept
  | ok r =>
    obtain ⟨s₁, w⟩ := r
    obtain ⟨hnumber, w₀, hloop⟩ := submitParachainHeads_eq_ok cfg hr
    exact headsKept_foldlM cfg hreturn (hcall _ hnumber) hkept hloop

/-- Every run of calls keeps the heads, from the storage of a pallet that has imported nothing. -/
theorem headsKept_runSteps {calls : List (SubmitCall RH P PH Head)}
    (hcalls : ∀ c ∈ calls, c.ReadsRelayChain headAt) {s : ParachainsStorage P PH D}
    (h : runSteps (submitStep cfg) .empty calls = some s) : HeadsKept cfg headAt s :=
  runSteps_invariant_of_forall (headsKept_empty cfg headAt)
    (fun _ _ _ hcall hkept hstep => headsKept_submitStep cfg hreturn hcall hkept hstep) hcalls h

end run

/-! ## The heads the pallet keeps -/

/-- **The heads the pallet keeps.** If no parachain's head returns to a hash it left, then after
any run of calls, each reading the heads of the relay block it names: a parachain with a best head
has a next position in its ring and the best head's data; its stored heads are exactly the hashes
of its ring, at most `HeadsToKeep` distinct ones. And each head the loop meets is accepted (read
later than the best head, with another hash, and made the best head, no other parachain changing)
or changes nothing; it changes nothing when the proof does not hold it, when its hash is not the
one the call names, when it does not build (an untracked parachain) or when its data is larger
than `MaxParaHeadDataSize`. -/
theorem submitParachainHeads_keeps_heads {headAt : Nat → P → Option Head}
    (hreturn : NoReturn cfg.headHash headAt) {calls : List (SubmitCall RH P PH Head)}
    (hcalls : ∀ c ∈ calls, c.ReadsRelayChain headAt) {s : ParachainsStorage P PH D}
    (hrun : runSteps (submitStep cfg) .empty calls = some s) :
    (∀ p info, s.parasInfo p = some info →
      info.nextImportedHashPosition < cfg.headsToKeep ∧ (bestParachainHead s p).isSome) ∧
    (∀ p hash, (s.importedParaHeads p hash).isSome ↔
      hash ∈ slots cfg.headsToKeep (s.importedParaHashes p)) ∧
    (∀ p, (slots cfg.headsToKeep (s.importedParaHashes p)).Nodup ∧
      (slots cfg.headsToKeep (s.importedParaHashes p)).length ≤ cfg.headsToKeep) ∧
    (∀ (s₀ s₁ : ParachainsStorage P PH D) n proof w w' p hash,
      submitParachainHeadsStep cfg n proof (s₀, w) (p, hash) = some (s₁, w') →
        (s₁ = s₀ ∨ HeadAccepted s₀ s₁ n p hash) ∧
        ((∀ head data, proof.readHead p = .ok (some head) → hash = cfg.headHash head →
          cfg.tryBuild p head = some data → cfg.encodedSize data > cfg.maxParaHeadDataSize) →
          s₁ = s₀)) := by
  have hkept := headsKept_runSteps cfg hreturn hcalls hrun
  refine ⟨fun p info hinfo => ?_, fun p hash => ?_, fun p => ?_, ?_⟩
  · obtain ⟨hstored, -⟩ := hkept p
    obtain ⟨i, hi⟩ := hstored.best_mem info hinfo
    refine ⟨hstored.next_lt info hinfo, ?_⟩
    rw [bestParachainHead, hinfo, Option.bind_some]
    exact (hstored.keys _).mpr ⟨i, hi⟩
  · obtain ⟨hstored, -⟩ := hkept p
    rw [hstored.keys hash, mem_slots_iff hstored.ring_lt]
  · obtain ⟨hstored, -⟩ := hkept p
    exact ⟨nodup_slots hstored.ring_injective, length_slots_le _ _⟩
  · intro s₀ s₁ n proof w w' p hash h
    refine ⟨?_, submitParachainHeadsStep_skips cfg h⟩
    rcases submitParachainHeadsStep_eq_some cfg h with rfl | ⟨_, _, _, _, -, -, -, hupd, rfl⟩
    · exact .inl rfl
    · exact .inr (headAccepted_of_update cfg hupd)

/-- A parachain whose head at each relay block is the block's number. -/
def countingHeads (n : Nat) (_ : Nat) : Option Nat := some n

/-- The counting relay chain never returns to a head it left. -/
theorem noReturn_countingHeads : NoReturn id countingHeads := by
  intro p n₁ n₂ n₃ h₁ h₂ h₃ h12 h23 e₁ _ e₃ heq
  cases e₁
  cases e₃
  exact absurd heq (by simp only [id]; omega)

/-- Two heads kept, of at most eight bytes; a head is its own hash and data. -/
def twoHeadsConfig : ParachainsConfig Nat Nat Nat Nat :=
  ⟨2, 8, id, fun _ head => some head, fun _ => 1, fun _ _ => Weight.zero, Weight.zero,
    Weight.zero⟩

/-- A call at relay block `n`, whose proof reads head `n` of parachain `0`. -/
def countingCall (n : Nat) : SubmitCall Nat Nat Nat Nat :=
  ⟨⟨false, true, some⟩, (n, n), [(0, n)], ⟨0, true, fun _ => .ok (some n), fun _ => true⟩⟩

/-- Each counting call reads the heads of the counting relay chain. -/
theorem countingCall_readsRelayChain (n : Nat) :
    (countingCall n).ReadsRelayChain countingHeads := by
  intro number hnumber p head hhead
  cases hnumber
  cases hhead
  rfl

/-- Three counting calls into a ring of two: the last two hashes are kept, the first is pruned, and
every step keeps the heads or accepts one. -/
theorem submitParachainHeads_keeps_heads_countingCalls :
    NoReturn id countingHeads ∧
    (∀ c ∈ (List.range' 1 3).map countingCall, c.ReadsRelayChain countingHeads) ∧
    ∃ s, runSteps (submitStep twoHeadsConfig) .empty ((List.range' 1 3).map countingCall) = some s ∧
      s.importedParaHashes 0 0 = some 3 ∧ s.importedParaHashes 0 1 = some 2 ∧
      s.importedParaHeads 0 1 = none ∧
    ((∀ p info, s.parasInfo p = some info →
      info.nextImportedHashPosition < twoHeadsConfig.headsToKeep ∧
        (bestParachainHead s p).isSome) ∧
    (∀ p hash, (s.importedParaHeads p hash).isSome ↔
      hash ∈ slots twoHeadsConfig.headsToKeep (s.importedParaHashes p)) ∧
    (∀ p, (slots twoHeadsConfig.headsToKeep (s.importedParaHashes p)).Nodup ∧
      (slots twoHeadsConfig.headsToKeep (s.importedParaHashes p)).length ≤
        twoHeadsConfig.headsToKeep) ∧
    (∀ (s₀ s₁ : ParachainsStorage Nat Nat Nat) n proof w w' p hash,
      submitParachainHeadsStep twoHeadsConfig n proof (s₀, w) (p, hash) = some (s₁, w') →
        (s₁ = s₀ ∨ HeadAccepted s₀ s₁ n p hash) ∧
        ((∀ head data, proof.readHead p = .ok (some head) → hash = twoHeadsConfig.headHash head →
          twoHeadsConfig.tryBuild p head = some data →
            twoHeadsConfig.encodedSize data > twoHeadsConfig.maxParaHeadDataSize) →
          s₁ = s₀))) := by
  have hcalls : ∀ c ∈ (List.range' 1 3).map countingCall, c.ReadsRelayChain countingHeads := by
    intro c hc
    obtain ⟨n, -, rfl⟩ := List.mem_map.mp hc
    exact countingCall_readsRelayChain n
  exact ⟨noReturn_countingHeads, hcalls, _, rfl, rfl, rfl, rfl,
    submitParachainHeads_keeps_heads twoHeadsConfig noReturn_countingHeads hcalls rfl⟩

end Cumulus.BridgeParachains
