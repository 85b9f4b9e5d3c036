import Cumulus.ConsensusCommon.LevelMonitor
import Cumulus.Found.Run

/-!
# What the level monitor removes

`enforce_limit n` only asks the backend to remove descendants-or-self of blocks of level `n` other
than the best block, and forgets every block it removes (`enforceLimit_pruned`, over every monitor
reached from `LevelMonitor::new` by imports). It rests on:

* `treeRoute_spec` — a route leads from its common block down to descendants of it;
* `findTarget_spec` — a target is a block of the level, not the best block, and the best block is
  not on the route to its freshest leaf;
* `Pruned` — what a sequence of removals confined below a level's non-best blocks keeps, with one
  lemma per removal function, each from the one below;
* `LevelsNumbered` — every block is filed under its number, kept by every import.

The check of `find_target` looks only at the route to the target's freshest leaf, while
`remove_target` removes the routes to all its leaves: `enforceLimit_removes_best` is a run of
imports after which `enforce_limit` removes the best block and its parent.
-/

namespace Cumulus.ConsensusCommon

open Cumulus.Found

variable {H : Type} [DecidableEq H]

/-- `a` is an ancestor-or-self of `b` by the parent links. -/
def IsAncestor (parent : H → Option H) (a b : H) : Prop :=
  Relation.ReflTransGen (fun x y => parent y = some x) a b

/-! ## Routes -/

namespace Blockchain

/-- A route that starts at `target` and leads to descendants of it, each block with its number:
what `remove_target` needs of the routes it removes. -/
structure RouteFrom (c : Blockchain H) (target : H) (route : TreeRoute H) : Prop where
  common : route.commonBlock.hash = target
  enacted : ∀ e ∈ route.enacted, IsAncestor c.parent target e.hash ∧ e.number = c.number e.hash

/-- The walk up from `hash` to `ancestor` succeeds only when `ancestor` is an ancestor of `hash`,
and lists descendants of `ancestor` with their numbers. -/
theorem routeUp_spec {c : Blockchain H} {ancestor : H} {fuel : Nat} {hash : H}
    {enacted : List (HashAndNumber H)} (h : c.routeUp ancestor fuel hash = some enacted) :
    IsAncestor c.parent ancestor hash ∧
      ∀ e ∈ enacted, IsAncestor c.parent ancestor e.hash ∧ e.number = c.number e.hash := by
  induction fuel generalizing hash enacted with
  | zero => cases h
  | succ fuel ih =>
    simp only [routeUp] at h
    split_ifs at h with hmem heq
    · subst heq
      cases h
      exact ⟨Relation.ReflTransGen.refl, fun e he => absurd he List.not_mem_nil⟩
    · obtain ⟨p, hp, hroute⟩ := Option.bind_eq_some_iff.mp h
      obtain ⟨rest, hrest, rfl⟩ := Option.map_eq_some_iff.mp hroute
      obtain ⟨hanc, hall⟩ := ih hrest
      -- one parent link from `p` down to `hash`
      have hhash : IsAncestor c.parent ancestor hash := Relation.ReflTransGen.tail hanc hp
      refine ⟨hhash, fun e he => ?_⟩
      rcases List.mem_append.mp he with he | he
      · exact hall e he
      · rw [List.mem_singleton] at he
        subst he
        exact ⟨hhash, rfl⟩

/-- A route the backend answers runs from `src` down its descendants. -/
theorem treeRoute_spec {c : Blockchain H} {src dst : H} {route : TreeRoute H}
    (h : c.treeRoute src dst = some route) : c.RouteFrom src route := by
  obtain ⟨enacted, hup, rfl⟩ := Option.map_eq_some_iff.mp h
  exact ⟨rfl, (routeUp_spec hup).2⟩

end Blockchain

/-! ## The target -/

namespace LevelMonitor

variable {m : LevelMonitor H} {number : Nat} {leaves : List H} {invalidated : List Nat}

/-- The route of a candidate runs from the candidate block to its freshest leaf. -/
theorem candidateInfo_spec {assigned : List Nat} {blkHash : H} {ti : TargetInfo H}
    (h : m.candidateInfo number leaves assigned invalidated blkHash = some ti) :
    m.backend.RouteFrom blkHash ti.freshestRoute := by
  obtain ⟨_, leaf, _, -, hleaf, -⟩ := List.findSome?_eq_some_iff.mp h
  split at hleaf
  · cases hleaf
    exact ⟨rfl, fun e he => absurd he List.not_mem_nil⟩
  · obtain ⟨route, hroute, rfl⟩ := Option.map_eq_some_iff.mp hleaf
    exact Blockchain.treeRoute_spec hroute

/-- The loop of `find_target` returns the target it starts with or a candidate it accepts: a
block of the level other than the best block, whose route does not contain the best block. -/
theorem findTargetLoop_spec {P : TargetInfo H → Prop} {level : List H} {assigned : List Nat}
    {targetInfo : Option (TargetInfo H)} {ti : TargetInfo H}
    (hcand : ∀ blk ∈ level, blk ≠ m.backend.bestHash → ∀ assigned ti,
      m.candidateInfo number leaves assigned invalidated blk = some ti →
      (∀ e ∈ ti.freshestRoute.enacted, e.hash ≠ m.backend.bestHash) → P ti)
    (hinit : ∀ t, targetInfo = some t → P t)
    (h : m.findTargetLoop number leaves invalidated level assigned targetInfo = some ti) :
    P ti := by
  induction level generalizing assigned targetInfo with
  | nil => exact hinit ti h
  | cons blk level ih =>
    have hrest := fun b hb => hcand b (List.mem_cons_of_mem blk hb)
    simp only [findTargetLoop] at h
    split_ifs at h with hbest
    · exact ih hrest hinit h
    · split at h
      · exact ih hrest hinit h
      · rename_i candidate hc
        -- the candidate is accepted only when the best block is not on its route
        have haccept : (∀ e ∈ candidate.freshestRoute.enacted, e.hash ≠ m.backend.bestHash) →
            P candidate :=
          hcand blk List.mem_cons_self hbest assigned candidate hc
        split_ifs at h with hless hzero
        · cases h
          simp only [Bool.and_eq_true, List.all_eq_true, decide_eq_true_eq] at hless
          exact haccept hless.2
        · simp only [Bool.and_eq_true, List.all_eq_true, decide_eq_true_eq] at hless
          refine ih hrest (fun t ht => ?_) h
          cases ht
          exact haccept hless.2
        · exact ih hrest hinit h

/-- What `find_target` guarantees of a target of level `number`: it is a block of the level other
than the best block, its route leads to descendants of it, and the best block is not on that
route. -/
def IsTarget (m : LevelMonitor H) (number : Nat) (target : TargetInfo H) : Prop :=
  ∃ T ∈ m.levels number, T ≠ m.backend.bestHash ∧ m.backend.RouteFrom T target.freshestRoute ∧
    ∀ e ∈ target.freshestRoute.enacted, e.hash ≠ m.backend.bestHash

/-- A target `find_target` returns satisfies what the search guarantees. -/
theorem findTarget_spec {target : TargetInfo H}
    (h : m.findTarget number leaves invalidated = some target) : m.IsTarget number target :=
  findTargetLoop_spec
    (fun blk hblk hbest _ _ hc hnot => ⟨blk, hblk, hbest, candidateInfo_spec hc, hnot⟩)
    (fun _ ht => by cases ht) h

end LevelMonitor

/-! ## Removals confined below a level -/

/-- Every block of the monitor is filed in the level of its number. -/
def LevelMonitor.LevelsNumbered (m : LevelMonitor H) : Prop :=
  ∀ k, ∀ h ∈ m.levels k, m.backend.number h = k

/-- A removal `remove_target` may ask for on level `number` of `m`: a descendant-or-self of a
block of the level other than the best block, with its own number. -/
def LevelMonitor.Allowed (m : LevelMonitor H) (number : Nat) (entry : HashAndNumber H) : Prop :=
  (∃ T ∈ m.levels number, T ≠ m.backend.bestHash ∧ IsAncestor m.backend.parent T entry.hash) ∧
    entry.number = m.backend.number entry.hash

/-- `m'` follows `m` by removals allowed on level `number` of `m`: the backend's tree and best block
are kept, blocks and levels only shrink, freshness is only dropped, every request names a
descendant-or-self of a non-best block of the level, and every block removed is forgotten. -/
structure Pruned (number : Nat) (m m' : LevelMonitor H) : Prop where
  parent : m'.backend.parent = m.backend.parent
  blockNumber : m'.backend.number = m.backend.number
  best : m'.backend.bestHash = m.backend.bestHash
  blocks : ∀ h ∈ m'.backend.blocks, h ∈ m.backend.blocks
  levels : ∀ k, ∀ h ∈ m'.levels k, h ∈ m.levels k
  freshness : ∀ h, m'.freshness h = m.freshness h ∨ m'.freshness h = none
  requests : ∃ new, m'.backend.removeRequests = m.backend.removeRequests ++ new ∧
    ∀ h ∈ new, ∃ T ∈ m.levels number, T ≠ m.backend.bestHash ∧ IsAncestor m.backend.parent T h
  forgotten : ∀ h ∈ m.backend.blocks, h ∉ m'.backend.blocks →
    m'.freshness h = none ∧ h ∉ m'.levels (m.backend.number h)

namespace Pruned

variable {number : Nat} {m₁ m₂ m₃ : LevelMonitor H}

omit [DecidableEq H] in
/-- Removing nothing is allowed. -/
theorem refl (number : Nat) (m : LevelMonitor H) : Pruned number m m :=
  ⟨rfl, rfl, rfl, fun _ h => h, fun _ _ h => h, fun _ => Or.inl rfl,
    ⟨[], (List.append_nil _).symm, fun _ h => absurd h List.not_mem_nil⟩,
    fun _ h h' => absurd h h'⟩

/-- Allowed removals after allowed removals are allowed. -/
theorem trans (h₁ : Pruned number m₁ m₂) (h₂ : Pruned number m₂ m₃) : Pruned number m₁ m₃ := by
  obtain ⟨new₁, hreq₁, hnew₁⟩ := h₁.requests
  obtain ⟨new₂, hreq₂, hnew₂⟩ := h₂.requests
  refine ⟨h₂.parent.trans h₁.parent, h₂.blockNumber.trans h₁.blockNumber, h₂.best.trans h₁.best,
    fun h hh => h₁.blocks h (h₂.blocks h hh), fun k h hh => h₁.levels k h (h₂.levels k h hh),
    fun h => ?_, ⟨new₁ ++ new₂, by rw [hreq₂, hreq₁, List.append_assoc], fun h hh => ?_⟩,
    fun h hh hh₃ => ?_⟩
  · rcases h₂.freshness h with h₂f | h₂f
    · rw [h₂f]
      exact h₁.freshness h
    · exact Or.inr h₂f
  · rcases List.mem_append.mp hh with hh | hh
    · exact hnew₁ h hh
    · -- a request of the second leg names a block of the level as it was after the first
      obtain ⟨T, hT, hbest, hanc⟩ := hnew₂ h hh
      exact ⟨T, h₁.levels number T hT, h₁.best ▸ hbest, h₁.parent ▸ hanc⟩
  · by_cases hh₂ : h ∈ m₂.backend.blocks
    · have := h₂.forgotten h hh₂ hh₃
      rwa [h₁.blockNumber] at this
    · obtain ⟨hfresh, hlevel⟩ := h₁.forgotten h hh hh₂
      refine ⟨?_, fun hl => hlevel (h₂.levels _ h hl)⟩
      rcases h₂.freshness h with h₂f | h₂f
      · rw [h₂f, hfresh]
      · exact h₂f

omit [DecidableEq H] in
/-- Every block filed in a level keeps its number. -/
theorem levelsNumbered (hm : Pruned number m₁ m₂) (h₁ : m₁.LevelsNumbered) :
    m₂.LevelsNumbered := by
  intro k h hh
  rw [hm.blockNumber]
  exact h₁ k h (hm.levels k h hh)

end Pruned

namespace LevelMonitor

variable {number : Nat} {m₀ m : LevelMonitor H}

/-- **One removal.** An allowed `remove_leaf` keeps the monitor pruned from where it started. -/
theorem pruned_removeLeaf {entry : HashAndNumber H} (hm : Pruned number m₀ m)
    (he : m₀.Allowed number entry) : Pruned number m₀ (m.removeLeaf entry).2 := by
  obtain ⟨new, hreq, hnew⟩ := hm.requests
  have hreq' : ∃ new, m.backend.removeRequests ++ [entry.hash] =
      m₀.backend.removeRequests ++ new ∧ ∀ h ∈ new, ∃ T ∈ m₀.levels number,
        T ≠ m₀.backend.bestHash ∧ IsAncestor m₀.backend.parent T h := by
    refine ⟨new ++ [entry.hash], by rw [hreq, List.append_assoc], fun h hh => ?_⟩
    rcases List.mem_append.mp hh with hh | hh
    · exact hnew h hh
    · rw [List.mem_singleton] at hh
      subst hh
      exact he.1
  by_cases hleaf : m.backend.isLeaf entry.hash
  · simp only [removeLeaf, Blockchain.removeLeafBlock, hleaf, if_true]
    refine ⟨hm.parent, hm.blockNumber, hm.best, fun h hh => ?_, fun k h hh => ?_, fun h => ?_,
      hreq', fun h hh hh' => ?_⟩
    · simp only [List.mem_filter] at hh
      exact hm.blocks h hh.1
    · simp only [Function.update_apply] at hh
      split_ifs at hh with hk
      · subst hk
        exact hm.levels _ h (List.mem_filter.mp hh).1
      · exact hm.levels k h hh
    · simp only [Function.update_apply]
      split_ifs
      · exact Or.inr rfl
      · exact hm.freshness h
    · simp only [List.mem_filter, decide_eq_true_eq, not_and, not_not] at hh'
      simp only [Function.update_apply]
      by_cases hhm : h ∈ m.backend.blocks
      · -- removed now: it is the entry, forgotten under its own number
        obtain rfl := hh' hhm
        simp [← he.2]
      · obtain ⟨hfresh, hlevel⟩ := hm.forgotten h hh hhm
        refine ⟨by split_ifs <;> simp [hfresh], fun hl => hlevel ?_⟩
        split_ifs at hl with hk
        · rw [hk]
          exact (List.mem_filter.mp hl).1
        · exact hl
  · simp only [removeLeaf, Blockchain.removeLeafBlock, hleaf]
    exact ⟨hm.parent, hm.blockNumber, hm.best, hm.blocks, hm.levels, hm.freshness, hreq',
      hm.forgotten⟩

/-- Removals along a route, each allowed, from the leaf up to the first that fails. -/
theorem pruned_removeRoute {entries : List (HashAndNumber H)} (hm : Pruned number m₀ m)
    (he : ∀ e ∈ entries, m₀.Allowed number e) : Pruned number m₀ (m.removeRoute entries) := by
  induction entries generalizing m with
  | nil => exact hm
  | cons entry entries ih =>
    have hstep := pruned_removeLeaf hm (he entry List.mem_cons_self)
    rcases hr : m.removeLeaf entry with ⟨removed, m'⟩
    rw [hr] at hstep
    simp only [removeRoute, hr]
    cases removed
    · exact hstep
    · exact ih hstep fun e h => he e (List.mem_cons_of_mem entry h)

omit [DecidableEq H] in
/-- The blocks of a route from a block of the level other than the best block are allowed
removals. -/
theorem allowed_of_routeFrom {T : H} (hT : T ∈ m₀.levels number)
    (hbest : T ≠ m₀.backend.bestHash) (hm : Pruned number m₀ m) {route : TreeRoute H}
    (hroute : m.backend.RouteFrom T route) : ∀ e ∈ route.enacted.reverse, m₀.Allowed number e := by
  intro e he
  obtain ⟨hanc, hnum⟩ := hroute.enacted e (List.mem_reverse.mp he)
  rw [hm.parent] at hanc
  rw [hm.blockNumber] at hnum
  exact ⟨⟨T, hT, hbest, hanc⟩, hnum⟩

/-- The removal of a leaf's route keeps the removals allowed. -/
theorem pruned_removeLeafRoute {T : H} (hT : T ∈ m₀.levels number)
    (hbest : T ≠ m₀.backend.bestHash) {acc : LevelMonitor H × List Nat} (leaf : H × Nat)
    (hm : Pruned number m₀ acc.1) : Pruned number m₀ (removeLeafRoute T acc leaf).1 := by
  unfold removeLeafRoute
  split_ifs
  · exact hm
  · split
    · rename_i route hroute
      exact pruned_removeRoute hm
        (allowed_of_routeFrom hT hbest hm (Blockchain.treeRoute_spec hroute))
    · exact hm

/-- **One target removed.** `remove_target` on a target of `find_target` removes only blocks allowed
on the level. -/
theorem pruned_removeTarget (hnum : m.LevelsNumbered) {target : TargetInfo H}
    (ht : m.IsTarget number target) (leaves : List H) (invalidated : List Nat) :
    Pruned number m (m.removeTarget target number leaves invalidated).1 := by
  obtain ⟨T, hT, hbest, hroute, -⟩ := ht
  -- the route to the freshest leaf first
  have hfreshest := pruned_removeRoute (Pruned.refl number m)
    (allowed_of_routeFrom hT hbest (Pruned.refl number m) hroute)
  -- then the routes to the less fresh leaves
  have hless := @foldl_invariant _ _ (removeLeafRoute T)
    (m.removeRoute target.freshestRoute.enacted.reverse, target.freshestLeafIdx :: invalidated)
    (leaves.zipIdx.take target.freshestLeafIdx).reverse (fun _ => True)
    (fun acc => Pruned number m acc.1) hfreshest
    (fun _ leaf _ hacc => pruned_removeLeafRoute hT hbest leaf hacc) (fun _ _ => trivial)
  unfold removeTarget
  dsimp only
  rw [hroute.common]
  -- and the target last, filed under the level's number
  exact pruned_removeLeaf hless
    ⟨⟨T, hT, hbest, Relation.ReflTransGen.refl⟩, (hnum number T hT).symm⟩

/-- The removal loop keeps the removals allowed. -/
theorem pruned_removeLoop (leaves : List H) (count : Nat) (invalidated : List Nat)
    (hnum : m.LevelsNumbered) : Pruned number m (removeLoop number leaves count m invalidated) := by
  induction count generalizing m invalidated with
  | zero => exact Pruned.refl number m
  | succ count ih =>
    unfold removeLoop
    split
    · exact Pruned.refl number m
    · rename_i target htarget
      have h₁ := pruned_removeTarget hnum (findTarget_spec htarget) leaves invalidated
      split
      rename_i m' inv' heq
      rw [heq] at h₁
      exact h₁.trans (ih inv' (h₁.levelsNumbered hnum))

/-- `enforce_limit` makes only allowed removals. -/
theorem pruned_enforceLimit (hnum : m.LevelsNumbered) (number : Nat) :
    Pruned number m (m.enforceLimit number) := by
  unfold enforceLimit
  dsimp only
  split_ifs
  · exact Pruned.refl number m
  · exact pruned_removeLoop _ _ _ hnum

/-! ## Every import files blocks under their numbers -/

variable {m' : LevelMonitor H}

/-- Recording a block in the level of its number keeps the levels numbered. -/
theorem levelsNumbered_record {hash : H} (fresh : Nat) (hm : m.LevelsNumbered)
    (hnum : m.backend.number hash = number) : (m.record number hash fresh).LevelsNumbered := by
  intro k h hh
  simp only [record, Function.update_apply] at hh
  split_ifs at hh with hk
  · subst hk
    rcases List.mem_insert_iff.mp hh with rfl | hh
    · exact hnum
    · exact hm _ h hh
  · exact hm k h hh

/-- Dropping a level keeps the levels numbered. -/
theorem levelsNumbered_cleanupLevel (hm : m.LevelsNumbered) (number : Nat) :
    (m.cleanupLevel number).LevelsNumbered := by
  intro k h hh
  simp only [cleanupLevel, Function.update_apply] at hh
  split_ifs at hh
  · exact absurd hh List.not_mem_nil
  · exact hm k h hh

/-- Dropping levels keeps the levels numbered. -/
theorem levelsNumbered_foldl_cleanupLevel (hm : m.LevelsNumbered) (f : Nat → Nat)
    (numbers : List Nat) :
    (numbers.foldl (fun m i => m.cleanupLevel (f i)) m).LevelsNumbered :=
  foldl_invariant hm (fun _ i _ hm' => levelsNumbered_cleanupLevel hm' (f i)) (fun _ _ => trivial)

/-- `block_imported` keeps the levels numbered. -/
theorem levelsNumbered_blockImported {hash : H} (hm : m.LevelsNumbered)
    (hnum : m.backend.number hash = number) : (m.blockImported number hash).LevelsNumbered := by
  have hrec : ({ m.record number hash (m.importCounter + 1) with
      importCounter := m.importCounter + 1 } : LevelMonitor H).LevelsNumbered :=
    levelsNumbered_record (m.importCounter + 1) hm hnum
  unfold blockImported
  dsimp only
  -- whether the block is recorded, and whether the levels below the finalized block are dropped
  split_ifs
  · intro k h hh
    dsimp only at hh
    exact levelsNumbered_foldl_cleanupLevel hrec _ _ k h hh
  · exact hrec
  · intro k h hh
    dsimp only at hh
    exact levelsNumbered_foldl_cleanupLevel hm _ _ k h hh
  · exact hm

/-- Importing a block does not change the numbers of blocks. -/
theorem Blockchain.number_of_importBlock {c c' : Blockchain H} {hash : H} {setBest : Bool}
    (h : c.importBlock hash setBest = some c') : c'.number = c.number := by
  unfold Blockchain.importBlock at h
  by_cases hmem : hash ∈ c.blocks
  · rw [if_pos hmem] at h
    cases h
  · rw [if_neg hmem] at h
    rcases hp : c.parent hash with _ | p
    · simp only [hp] at h
      cases h
    · simp only [hp] at h
      by_cases hpm : p ∈ c.blocks
      · rw [if_pos hpm, Option.some.injEq] at h
        rw [← h]
      · rw [if_neg hpm] at h
        cases h

/-- A block import keeps the levels numbered. -/
theorem levelsNumbered_importBlock (hm : m.LevelsNumbered) (hash : H) (initialSync : Bool) :
    (m.importBlock hash initialSync).LevelsNumbered := by
  have hlimit := pruned_enforceLimit hm (m.backend.number hash)
  have he := hlimit.levelsNumbered hm
  unfold importBlock
  dsimp only
  split
  · rename_i backend hb
    have hnum := Blockchain.number_of_importBlock hb
    refine levelsNumbered_blockImported (fun k h hh => ?_) ?_
    · show backend.number h = k
      rw [hnum]
      exact he k h hh
    · show backend.number hash = m.backend.number hash
      rw [hnum, hlimit.blockNumber]
  · exact he

/-- The walk of `restore` keeps the levels numbered. -/
theorem levelsNumbered_restoreBranch {fuel : Nat} {hash : H}
    (h : m.restoreBranch fuel hash = some m') (hm : m.LevelsNumbered) : m'.LevelsNumbered := by
  induction fuel generalizing m hash with
  | zero =>
    cases h
    exact hm
  | succ fuel ih =>
    have hrec : (m.record (m.backend.number hash) hash (m.backend.number hash)).LevelsNumbered :=
      levelsNumbered_record (m.backend.number hash) hm rfl
    simp only [restoreBranch] at h
    split_ifs at h
    · cases h
      exact hm
    · cases h
      exact hrec
    · split at h
      · split_ifs at h
        exact ih h hrec
      · cases h

/-- The walks of `restore` over all leaves keep the levels numbered. -/
theorem levelsNumbered_foldlM_restoreBranch (leaves : List H) {acc : LevelMonitor H}
    (h : leaves.foldlM (fun m leaf =>
      restoreBranch { m with importCounter := max m.importCounter (m.backend.number leaf) }
        (m.backend.number leaf + 1) leaf) acc = some m') (hm : acc.LevelsNumbered) :
    m'.LevelsNumbered := by
  induction leaves generalizing acc with
  | nil =>
    cases h
    exact hm
  | cons leaf leaves ih =>
    rw [List.foldlM_cons] at h
    obtain ⟨acc', hacc', h⟩ := Option.bind_eq_some_iff.mp h
    exact ih h (levelsNumbered_restoreBranch hacc' hm)

/-- `restore` keeps the levels numbered. -/
theorem levelsNumbered_restore (hm : m.LevelsNumbered) (h : m.restore = some m') :
    m'.LevelsNumbered := by
  unfold restore at h
  exact levelsNumbered_foldlM_restoreBranch _ h hm

/-- A new monitor has numbered levels. -/
theorem levelsNumbered_new {levelLimit : Nat} {backend : Blockchain H}
    (h : new levelLimit backend = some m) : m.LevelsNumbered :=
  levelsNumbered_restore (fun _ _ hh => absurd hh List.not_mem_nil) h

/-- **What `enforce_limit` removes.** On every monitor reached from `LevelMonitor::new` by imports,
`enforce_limit n` asks the backend to remove only descendants-or-self of blocks of level `n` other
than the best block, keeps the best block as the backend's best block, and forgets every block it
removes. -/
theorem enforceLimit_pruned {levelLimit : Nat} {backend : Blockchain H} {m₀ : LevelMonitor H}
    (h₀ : new levelLimit backend = some m₀) (imports : List (H × Bool)) (number : Nat) :
    let m := imports.foldl (fun m i => m.importBlock i.1 i.2) m₀
    Pruned number m (m.enforceLimit number) := by
  intro m
  have hm : m.LevelsNumbered := foldl_invariant (levelsNumbered_new h₀)
    (fun m' i _ hm' => levelsNumbered_importBlock hm' i.1 i.2) (fun _ _ => trivial)
  exact pruned_enforceLimit hm number

/-- Genesis `0` is finalized, `1` and `4` are its children, and `2` and `3` the children of `1`. -/
def forkedChain : Blockchain Nat where
  parent := fun | 1 => some 0 | 2 => some 1 | 3 => some 1 | 4 => some 0 | _ => none
  number := fun | 1 => 1 | 2 => 2 | 3 => 2 | 4 => 1 | _ => 0
  blocks := [0]
  bestHash := 0
  finalizedNumber := 0
  removeRequests := []

/-- On the fork above, after three imports, `enforce_limit 1` stays within what it may remove. -/
theorem enforceLimit_pruned_forkedChain :
    ∃ m₀, new 1 forkedChain = some m₀ ∧
      let m := [(1, true), (2, true), (3, false)].foldl (fun m i => m.importBlock i.1 i.2) m₀
      Pruned 1 m (m.enforceLimit 1) := by
  obtain ⟨m₀, h₀⟩ : ∃ m₀, new 1 forkedChain = some m₀ := ⟨_, rfl⟩
  exact ⟨m₀, h₀, enforceLimit_pruned h₀ [(1, true), (2, true), (3, false)] 1⟩

/-- With a limit of one block per level, `1` and `2` are imported during the initial sync, so `2`
is the best block, and `3`, a child of `1` imported later, is fresher than `2`. Importing `4` at
height one makes `enforce_limit 1` pick `1`, since the best block is not on the route to its
freshest leaf `3`, and ask to remove `3`, the best block `2` and its parent `1`: the backend is
left without its best block. -/
theorem enforceLimit_removes_best :
    ∃ m₀, new 1 forkedChain = some m₀ ∧
      let m := [(1, true), (2, true), (3, false)].foldl (fun m i => m.importBlock i.1 i.2) m₀
      m.backend.bestHash = 2 ∧ IsAncestor m.backend.parent 1 2 ∧ 1 ∈ m.levels 1 ∧
        (m.enforceLimit 1).backend.removeRequests = m.backend.removeRequests ++ [3, 2, 1] ∧
        (m.importBlock 4 false).backend.blocks = [0, 4] ∧
        (m.importBlock 4 false).backend.bestHash = 2 := by
  refine ⟨_, rfl, ?_⟩
  intro m
  exact ⟨by decide, Relation.ReflTransGen.single (by decide), by decide, by decide, by decide,
    by decide⟩

end LevelMonitor

end Cumulus.ConsensusCommon
