import Cumulus.ConsensusCommon.ParentSearch

/-!
# What the parent search returns

The search returns each block at most once, and exactly the blocks the documentation of
`find_potential_parents` describes (`findPotentialParents_spec`): the included block; the
pending block, when it is a child of the included block and `max_depth` is at least one; and a
block whose parent is returned and within `max_depth - 1` of the included block, and whose digest
names a relay parent of the relay ancestry `A`; of those, only the ones on the pending block's
branch when `ignore_alternative_branches` is set.

* `RelayPath` and `InRelayAncestry` — the relay ancestry `A` as the documentation gives it, and
  `mem_relayAncestry_iff`, that the walk of step 1 records exactly `A`;
* `Below` — the place of a block in the local tree: its depth below the included block, and
  whether its branch is the pending block's; `IsBlockTree` — the local blocks form a tree;
* `Reached` — what every entry the search pushes satisfies, with `Reached.unique`: two reached
  entries with one hash are one entry;
* the search is `Worklist.run`, so it emits the pre-order traversal of the entries reached from
  the included block (`Worklist.run_eq_flatMap_preorder`), each at most once
  (`Worklist.nodup_preorder`).
-/

namespace Cumulus.ConsensusCommon

open Cumulus.Found

variable {H RH R S D : Type}

/-! ## The relay ancestry -/

section ancestry

variable {relayClient : RelayChainInterface RH R S D} {session : S} {relayParent : RH}

/-- `a`, with `header`, is `k` parent steps above `relayParent`; every block from `relayParent`
to `a` has a header and the session `session` for its children, and none before `a` is block
1. -/
inductive RelayPath (relayClient : RelayChainInterface RH R S D) (session : S) (relayParent : RH) :
    Nat → RH → RelayHeader RH R → Prop
  | start {header : RelayHeader RH R} : relayClient.header relayParent = some header →
      relayClient.sessionIndexForChild relayParent = session →
      RelayPath relayClient session relayParent 0 relayParent header
  | step {k : Nat} {a : RH} {header parentHeader : RelayHeader RH R} :
      RelayPath relayClient session relayParent k a header → header.number ≠ 1 →
      relayClient.header header.parentHash = some parentHeader →
      relayClient.sessionIndexForChild header.parentHash = session →
      RelayPath relayClient session relayParent (k + 1) header.parentHash parentHeader

/-- The relay ancestry `A`: the relay parent and its ancestors, at most `ancestryLookback + 1`
blocks, stopping before the first block whose session differs from the relay parent's and after
block number 1, with their state roots. -/
def InRelayAncestry (relayClient : RelayChainInterface RH R S D) (relayParent : RH)
    (ancestryLookback : Nat) (a : RH) (root : R) : Prop :=
  ∃ k ≤ ancestryLookback, ∃ header,
    RelayPath relayClient (relayClient.sessionIndexForChild relayParent) relayParent k a header ∧
      root = header.stateRoot

/-- The block `k` parent steps above the relay parent, and its header, are unique. -/
theorem RelayPath.unique {k : Nat} {a a' : RH} {header header' : RelayHeader RH R}
    (h : RelayPath relayClient session relayParent k a header)
    (h' : RelayPath relayClient session relayParent k a' header') : a = a' ∧ header = header' := by
  induction h generalizing a' header' with
  | start hheader _ =>
    cases h' with
    | start hheader' _ =>
      rw [hheader, Option.some.injEq] at hheader'
      exact ⟨rfl, hheader'⟩
  | step _ _ hparent _ ih =>
    cases h' with
    | step hprev' _ hparent' _ =>
      obtain ⟨-, rfl⟩ := ih hprev'
      rw [hparent, Option.some.injEq] at hparent'
      exact ⟨rfl, hparent'⟩

/-- A path `k` steps long passes every step below `k`. -/
theorem RelayPath.exists_of_le {k i : Nat} {a : RH} {header : RelayHeader RH R}
    (h : RelayPath relayClient session relayParent k a header) (hi : i ≤ k) :
    ∃ a' header', RelayPath relayClient session relayParent i a' header' := by
  induction h with
  | start hheader hsession => exact ⟨_, _, (Nat.le_zero.mp hi) ▸ RelayPath.start hheader hsession⟩
  | @step k _ _ _ hprev hnum hparent hsession ih =>
    rcases Nat.lt_or_ge i (k + 1) with hlt | hge
    · exact ih (Nat.lt_succ_iff.mp hlt)
    · exact ⟨_, _, (Nat.le_antisymm hi hge) ▸ RelayPath.step hprev hnum hparent hsession⟩

/-- Where no path is `j + 1` steps long, every path is at most `j` steps long. -/
theorem RelayPath.le_of_stop {j k : Nat} {a : RH} {header : RelayHeader RH R}
    (hstop : ∀ a' header', ¬ RelayPath relayClient session relayParent (j + 1) a' header')
    (h : RelayPath relayClient session relayParent k a header) : k ≤ j := by
  by_contra hk
  obtain ⟨a', header', h'⟩ := h.exists_of_le (Nat.succ_le_of_lt (Nat.lt_of_not_le hk))
  exact hstop a' header' h'

variable [DecidableEq S]

/-- The walk after the block `prev`, `j` steps above the relay parent, records the blocks of the
paths up to `j + remaining` steps. -/
theorem mem_ancestryLoop {j remaining : Nat} {prev : RH} {prevHeader : RelayHeader RH R}
    {ancestry : List (RH × R)} (hprev : RelayPath relayClient session relayParent j prev prevHeader)
    (hnum : prevHeader.number ≠ 1)
    (hanc : ∀ a root, (a, root) ∈ ancestry ↔ ∃ k ≤ j, ∃ header,
      RelayPath relayClient session relayParent k a header ∧ root = header.stateRoot)
    (a : RH) (root : R) :
    (a, root) ∈ ancestryLoop relayClient remaining prevHeader.parentHash (some session) ancestry ↔
      ∃ k ≤ j + remaining, ∃ header,
        RelayPath relayClient session relayParent k a header ∧ root = header.stateRoot := by
  induction remaining generalizing j prev prevHeader ancestry with
  | zero => exact hanc a root
  | succ remaining ih =>
    -- where the walk stops at `j`, no path goes further
    have hstop : (∀ a' header', ¬ RelayPath relayClient session relayParent (j + 1) a' header') →
        ((∃ k ≤ j, ∃ header, RelayPath relayClient session relayParent k a header ∧
          root = header.stateRoot) ↔
        ∃ k ≤ j + (remaining + 1), ∃ header,
          RelayPath relayClient session relayParent k a header ∧ root = header.stateRoot) := by
      intro hnone
      constructor
      · rintro ⟨k, hk, header, hpath, hroot⟩
        exact ⟨k, by omega, header, hpath, hroot⟩
      · rintro ⟨k, -, header, hpath, hroot⟩
        exact ⟨k, hpath.le_of_stop hnone, header, hpath, hroot⟩
    simp only [ancestryLoop]
    cases hheader : relayClient.header prevHeader.parentHash with
    | none =>
      rw [← hstop fun a' header' hpath => ?_]
      · exact hanc a root
      · cases hpath with
        | step hprev' _ hparent _ =>
          obtain ⟨-, rfl⟩ := hprev.unique hprev'
          rw [hheader] at hparent
          cases hparent
    | some header =>
      dsimp only
      by_cases hsession : relayClient.sessionIndexForChild prevHeader.parentHash = session
      · have hnext : RelayPath relayClient session relayParent (j + 1) prevHeader.parentHash header :=
          .step hprev hnum hheader hsession
        -- the ancestry now holds the blocks of the paths up to `j + 1` steps
        have hanc' : ∀ a root, (a, root) ∈ ancestry ++ [(prevHeader.parentHash, header.stateRoot)] ↔
            ∃ k ≤ j + 1, ∃ header, RelayPath relayClient session relayParent k a header ∧
              root = header.stateRoot := by
          intro a root
          rw [List.mem_append, hanc, List.mem_singleton, Prod.mk.injEq]
          constructor
          · rintro (⟨k, hk, h, hpath, hroot⟩ | ⟨rfl, rfl⟩)
            · exact ⟨k, by omega, h, hpath, hroot⟩
            · exact ⟨j + 1, Nat.le_refl _, header, hnext, rfl⟩
          · rintro ⟨k, hk, h, hpath, hroot⟩
            rcases Nat.lt_or_ge k (j + 1) with hlt | hge
            · exact Or.inl ⟨k, Nat.lt_succ_iff.mp hlt, h, hpath, hroot⟩
            · obtain rfl : k = j + 1 := Nat.le_antisymm hk hge
              obtain ⟨rfl, rfl⟩ := hnext.unique hpath
              exact Or.inr ⟨rfl, hroot⟩
        rw [if_neg (by simp [hsession])]
        by_cases hone : header.number = 1
        · rw [if_pos hone, hanc']
          constructor
          · rintro ⟨k, hk, h, hpath, hroot⟩
            exact ⟨k, by omega, h, hpath, hroot⟩
          · rintro ⟨k, -, h, hpath, hroot⟩
            -- block 1 ends every path
            refine ⟨k, hpath.le_of_stop fun a' header' hpath' => ?_, h, hpath, hroot⟩
            cases hpath' with
            | step hprev' hnum' _ _ =>
              obtain ⟨-, rfl⟩ := hnext.unique hprev'
              exact hnum' hone
        · rw [if_neg hone, Option.getD_some, ih hnext hone hanc']
          constructor
          · rintro ⟨k, hk, h, hpath, hroot⟩
            exact ⟨k, by omega, h, hpath, hroot⟩
          · rintro ⟨k, hk, h, hpath, hroot⟩
            exact ⟨k, by omega, h, hpath, hroot⟩
      · rw [if_pos (by simp [Ne.symm hsession])]
        rw [← hstop fun a' header' hpath => ?_]
        · exact hanc a root
        · cases hpath with
          | step hprev' _ hparent hsession' =>
            obtain ⟨-, rfl⟩ := hprev.unique hprev'
            exact hsession hsession'

/-- **Step 1 records `A`.** -/
theorem mem_relayAncestry_iff (relayClient : RelayChainInterface RH R S D) (relayParent : RH)
    (ancestryLookback : Nat) (a : RH) (root : R) :
    (a, root) ∈ relayAncestry relayClient relayParent ancestryLookback ↔
      InRelayAncestry relayClient relayParent ancestryLookback a root := by
  unfold relayAncestry InRelayAncestry
  simp only [ancestryLoop]
  cases hheader : relayClient.header relayParent with
  | none =>
    simp only [List.not_mem_nil, false_iff]
    rintro ⟨k, -, header, hpath, -⟩
    obtain ⟨a', header', hstart⟩ := hpath.exists_of_le (Nat.zero_le k)
    cases hstart with
    | start hheader' _ =>
      rw [hheader] at hheader'
      cases hheader'
  | some header =>
    dsimp only
    have hstart : RelayPath relayClient (relayClient.sessionIndexForChild relayParent)
        relayParent 0 relayParent header := .start hheader rfl
    have hanc : ∀ a root, (a, root) ∈ ([] ++ [(relayParent, header.stateRoot)] : List (RH × R)) ↔
        ∃ k ≤ 0, ∃ h, RelayPath relayClient (relayClient.sessionIndexForChild relayParent)
          relayParent k a h ∧ root = h.stateRoot := by
      intro a root
      rw [List.nil_append, List.mem_singleton, Prod.mk.injEq]
      constructor
      · rintro ⟨rfl, rfl⟩
        exact ⟨0, Nat.le_refl _, header, hstart, rfl⟩
      · rintro ⟨k, hk, h, hpath, hroot⟩
        obtain rfl : k = 0 := Nat.le_zero.mp hk
        obtain ⟨rfl, rfl⟩ := hstart.unique hpath
        exact ⟨rfl, hroot⟩
    rw [if_neg (by simp)]
    by_cases hone : header.number = 1
    · rw [if_pos hone, hanc]
      constructor
      · rintro ⟨k, hk, h, hpath, hroot⟩
        exact ⟨k, by omega, h, hpath, hroot⟩
      · rintro ⟨k, -, h, hpath, hroot⟩
        -- the relay parent is block 1: the path ends there
        refine ⟨k, hpath.le_of_stop fun a' header' hpath' => ?_, h, hpath, hroot⟩
        cases hpath' with
        | step hprev' hnum' _ _ =>
          obtain ⟨-, rfl⟩ := hstart.unique hprev'
          exact hnum' hone
    · rw [if_neg hone, Option.getD_none, mem_ancestryLoop hstart hone hanc, Nat.zero_add]

end ancestry

/-! ## The local tree -/

/-- The local blocks form a tree numbered from its root: no block lists a child twice, a block is
a child of at most one block, and a child is numbered one above its parent. -/
structure IsBlockTree (backend : Backend H RH R) : Prop where
  nodup_children : ∀ p, (backend.children p).Nodup
  parent_unique : ∀ p p' c, c ∈ backend.children p → c ∈ backend.children p' → p = p'
  numbered : ∃ number : H → Nat, ∀ p c, c ∈ backend.children p → number c = number p + 1

section tree

variable [DecidableEq H] {backend : Backend H RH R} {included : H} {pending : Option H}

/-- `h` is `d` levels below the included block in the local tree, each block below it with a
stored header; `aligned` says whether its branch is the pending block's, which is decided at
depth one and inherited below. -/
inductive Below (backend : Backend H RH R) (included : H) (pending : Option H) :
    H → Nat → Bool → Prop
  | included : Below backend included pending included 0 true
  | first {c : H} {header : ParaHeader RH R} : c ∈ backend.children included →
      backend.header c = some header → Below backend included pending c 1 (pending.all (· = c))
  | deeper {p : H} {d : Nat} {aligned : Bool} {c : H} {header : ParaHeader RH R} :
      Below backend included pending p (d + 1) aligned → c ∈ backend.children p →
      backend.header c = some header → Below backend included pending c (d + 2) aligned

/-- A block `d` levels below the included block has its number plus `d`. -/
theorem Below.number {number : H → Nat}
    (hnum : ∀ p c, c ∈ backend.children p → number c = number p + 1) {h : H} {d : Nat}
    {aligned : Bool} (hb : Below backend included pending h d aligned) :
    number h = number included + d := by
  induction hb with
  | included => rfl
  | first hc _ => rw [hnum _ _ hc]
  | deeper _ hc _ ih =>
    rw [hnum _ _ hc, ih]
    rfl

/-- In a tree a block has one place. -/
theorem Below.unique (htree : IsBlockTree backend) {h : H} {d d' : Nat} {aligned aligned' : Bool}
    (hb : Below backend included pending h d aligned)
    (hb' : Below backend included pending h d' aligned') : d = d' ∧ aligned = aligned' := by
  obtain ⟨number, hnum⟩ := htree.numbered
  have hd : d = d' := by
    have := hb.number hnum
    have := hb'.number hnum
    omega
  subst hd
  refine ⟨rfl, ?_⟩
  induction hb generalizing aligned' with
  | included =>
    cases hb' with
    | included => rfl
  | first =>
    cases hb' with
    | first => rfl
  | deeper _ hc _ ih =>
    cases hb' with
    | deeper hp' hc' _ =>
      obtain rfl := htree.parent_unique _ _ _ hc hc'
      exact ih hp'

end tree

/-! ## What the documentation says is returned -/

/-- The digest of `header` names a relay parent of the ancestry, by hash or by state root. -/
def NamesAncestry (inAncestry : RH → R → Prop) (header : ParaHeader RH R) : Prop :=
  (∃ rp, header.relayParent = some rp ∧ ∃ root, inAncestry rp root) ∨
    ∃ root, header.relayParentStorageRoot = some root ∧ ∃ rp, inAncestry rp root

/-- A block `h` is returned, given the blocks `returned`: if the search skips other branches,
only on the pending block's branch; and it is the included block, or the pending block as a
child of the included block with `max_depth` at least one, or a child of a returned block
`max_depth - 1` or fewer levels below the included block whose digest names a relay parent of
the ancestry. -/
def Returned [DecidableEq H] (params : ParentSearchParams RH) (backend : Backend H RH R)
    (inAncestry : RH → R → Prop) (included : H) (pending : Option H) (returned : List H)
    (h : H) : Prop :=
  (params.ignoreAlternativeBranches = false ∨ ∃ d, Below backend included pending h d true) ∧
    (h = included ∨
      (1 ≤ params.maxDepth ∧ pending = some h ∧ h ∈ backend.children included ∧
        (backend.header h).isSome) ∨
      ∃ p ∈ returned,
        (∃ d aligned, Below backend included pending p d aligned ∧ d + 1 ≤ params.maxDepth) ∧
          h ∈ backend.children p ∧
          ∃ header, backend.header h = some header ∧ NamesAncestry inAncestry header)

/-! ## The entries the search reaches -/

section search

variable [DecidableEq H] {params : ParentSearchParams RH} {backend : Backend H RH R}
  {rpAncestry : List (RH × R)} {pending : Option H} {included : H}
  {includedHeader : ParaHeader RH R}

/-- The entries of the children of an entry are its stored children one level deeper, aligned as the
source computes. -/
theorem mem_childEntries {entry y : PotentialParent H RH R} :
    y ∈ childEntries params backend pending entry ↔
      y.hash ∈ backend.children entry.hash ∧ backend.header y.hash = some y.header ∧
        y.depth = entry.depth + 1 ∧
        y.alignedWithPending = (entry.alignedWithPending &&
          if entry.depth + 1 = 1 then pending.all (· = y.hash) else true) ∧
        (params.ignoreAlternativeBranches = true → y.alignedWithPending = true) := by
  unfold childEntries
  rw [List.mem_filterMap]
  constructor
  · rintro ⟨child, hchild, hy⟩
    dsimp only at hy
    by_cases hkeep : (params.ignoreAlternativeBranches && !(entry.alignedWithPending &&
        if entry.depth + 1 = 1 then pending.all (· = child) else true)) = true
    · rw [if_pos hkeep] at hy
      cases hy
    · rw [if_neg hkeep] at hy
      obtain ⟨header, hheader, rfl⟩ := Option.map_eq_some_iff.mp hy
      refine ⟨hchild, hheader, rfl, rfl, fun hignore => ?_⟩
      rw [hignore] at hkeep
      revert hkeep
      cases (entry.alignedWithPending &&
        if entry.depth + 1 = 1 then pending.all (· = child) else true) <;> simp
  · obtain ⟨hash, header, depth, aligned⟩ := y
    rintro ⟨hchild, hheader, hdepth, haligned, hignore⟩
    dsimp only at hchild hheader hdepth haligned hignore
    refine ⟨hash, hchild, ?_⟩
    dsimp only
    rw [hdepth, haligned, if_neg fun h => ?_, hheader, Option.map_some]
    cases hi : params.ignoreAlternativeBranches
    · rw [hi] at h
      cases h
    · rw [hi, ← haligned, hignore hi] at h
      cases h

/-- What an entry the search reaches from the included block satisfies: it is in its place of
the tree, with the stored header below the root, and aligned if the search skips the other
branches. -/
structure Reached (params : ParentSearchParams RH) (backend : Backend H RH R) (included : H)
    (includedHeader : ParaHeader RH R) (pending : Option H) (y : PotentialParent H RH R) :
    Prop where
  below : Below backend included pending y.hash y.depth y.alignedWithPending
  root : y.depth = 0 → y = includedEntry included includedHeader
  header : y.depth ≠ 0 → backend.header y.hash = some y.header
  aligned : params.ignoreAlternativeBranches = true → y.alignedWithPending = true

/-- A child of a reached entry is one level further below the included block. -/
theorem Reached.below_child {x : PotentialParent H RH R}
    (hx : Reached params backend included includedHeader pending x) {c : H}
    {header : ParaHeader RH R} (hc : c ∈ backend.children x.hash)
    (hheader : backend.header c = some header) :
    Below backend included pending c (x.depth + 1) (x.alignedWithPending &&
      if x.depth + 1 = 1 then pending.all (· = c) else true) := by
  cases hd : x.depth with
  | zero =>
    -- the child of the root decides its alignment
    obtain rfl := hx.root hd
    exact Below.first hc hheader
  | succ d =>
    have hbelow := hx.below
    rw [hd] at hbelow
    rw [if_neg (by omega), Bool.and_true]
    exact Below.deeper hbelow hc hheader

/-- Two entries the search reaches with one hash are one entry. -/
theorem Reached.unique (htree : IsBlockTree backend) {y₁ y₂ : PotentialParent H RH R}
    (h₁ : Reached params backend included includedHeader pending y₁)
    (h₂ : Reached params backend included includedHeader pending y₂) (hhash : y₁.hash = y₂.hash) :
    y₁ = y₂ := by
  have hb₂ := h₂.below
  rw [← hhash] at hb₂
  obtain ⟨hd, ha⟩ := h₁.below.unique htree hb₂
  by_cases h0 : y₁.depth = 0
  · rw [h₁.root h0, h₂.root (hd ▸ h0)]
  · have hheader : y₁.header = y₂.header := by
      have e₁ := h₁.header h0
      rw [hhash, h₂.header (hd ▸ h0), Option.some.injEq] at e₁
      exact e₁.symm
    obtain ⟨hash₁, header₁, depth₁, aligned₁⟩ := y₁
    obtain ⟨hash₂, header₂, depth₂, aligned₂⟩ := y₂
    dsimp only at hhash hd ha hheader
    rw [hhash, hd, ha, hheader]

variable [DecidableEq RH] [DecidableEq R]

/-- The search goes on from a potential parent within the depth bound, to its children's entries. -/
theorem mem_searchNext {entry y : PotentialParent H RH R} :
    y ∈ searchNext params backend rpAncestry pending entry ↔
      isPotential rpAncestry pending entry = true ∧ entry.depth + 1 ≤ params.maxDepth ∧
        y ∈ childEntries params backend pending entry := by
  unfold searchNext
  -- the guard is the negation of the first two conjuncts
  have hguard : (!isPotential rpAncestry pending entry ||
      decide (params.maxDepth < entry.depth + 1)) = true ↔
      ¬(isPotential rpAncestry pending entry = true ∧ entry.depth + 1 ≤ params.maxDepth) := by
    rw [Bool.or_eq_true, Bool.not_eq_true', decide_eq_true_eq, ← Nat.not_le,
      Bool.eq_false_iff, ← not_and_or]
  by_cases h : isPotential rpAncestry pending entry = true ∧ entry.depth + 1 ≤ params.maxDepth
  · rw [if_neg (mt hguard.mp (not_not_intro h)), List.mem_reverse]
    exact ⟨fun hy => ⟨h.1, h.2, hy⟩, fun hy => hy.2.2⟩
  · rw [if_pos (hguard.mpr h)]
    exact ⟨fun hy => absurd hy List.not_mem_nil, fun hy => absurd ⟨hy.1, hy.2.1⟩ h⟩

/-- Every entry the search reaches from the included block is reached. -/
theorem reached_of_reach {y : PotentialParent H RH R}
    (h : Worklist.Reach (searchNext params backend rpAncestry pending)
      (includedEntry included includedHeader) y) :
    Reached params backend included includedHeader pending y := by
  induction h with
  | refl => exact ⟨Below.included, fun _ => rfl, fun h => absurd rfl h, fun _ => rfl⟩
  | tail _ hxy ih =>
    obtain ⟨-, -, hchild⟩ := mem_searchNext.mp hxy
    obtain ⟨hc, hheader, hdepth, haligned, hignore⟩ := mem_childEntries.mp hchild
    refine ⟨?_, fun h => by omega, fun _ => hheader, hignore⟩
    rw [hdepth, haligned]
    exact ih.below_child hc hheader

/-- Each step of the search goes one level down. -/
theorem depth_le_of_reach {x y : PotentialParent H RH R}
    (h : Worklist.Reach (searchNext params backend rpAncestry pending) x y) :
    x.depth ≤ y.depth ∧ (x.depth = y.depth → x = y) := by
  induction h with
  | refl => exact ⟨Nat.le_refl _, fun _ => rfl⟩
  | tail _ hyz ih =>
    obtain ⟨-, -, hchild⟩ := mem_searchNext.mp hyz
    have hdepth := (mem_childEntries.mp hchild).2.2.1
    exact ⟨by omega, fun h => by omega⟩

/-- Two entries of one depth whose trees share an entry are one entry: the search visits a tree. -/
theorem eq_of_reach_common (htree : IsBlockTree backend) {z₁ z₂ w : PotentialParent H RH R}
    (hz₁ : Worklist.Reach (searchNext params backend rpAncestry pending)
      (includedEntry included includedHeader) z₁)
    (hz₂ : Worklist.Reach (searchNext params backend rpAncestry pending)
      (includedEntry included includedHeader) z₂)
    (hdepth : z₁.depth = z₂.depth)
    (h₁ : Worklist.Reach (searchNext params backend rpAncestry pending) z₁ w)
    (h₂ : Worklist.Reach (searchNext params backend rpAncestry pending) z₂ w) : z₁ = z₂ := by
  induction h₁ with
  | refl => exact ((depth_le_of_reach h₂).2 hdepth.symm).symm
  | @tail w' w h₁ hstep ih =>
    rcases Relation.ReflTransGen.cases_tail h₂ with rfl | ⟨w'', h₂', hstep'⟩
    · exact (depth_le_of_reach (Relation.ReflTransGen.tail h₁ hstep)).2 hdepth
    · -- `w` has one parent, so the two last steps come from one entry
      have hc := (mem_childEntries.mp (mem_searchNext.mp hstep).2.2).1
      have hc' := (mem_childEntries.mp (mem_searchNext.mp hstep').2.2).1
      have hw : w' = w'' :=
        Reached.unique htree (reached_of_reach (hz₁.trans h₁)) (reached_of_reach (hz₂.trans h₂'))
          (htree.parent_unique _ _ _ hc hc')
      subst hw
      exact ih h₂'

/-- The turn of an entry emits its hash if it is a potential parent. -/
theorem mem_map_searchOut {y : PotentialParent H RH R} {h : H} :
    h ∈ (searchOut rpAncestry pending y).map (·.hash) ↔
      isPotential rpAncestry pending y = true ∧ y.hash = h := by
  unfold searchOut
  by_cases hpot : isPotential rpAncestry pending y = true
  · simp [hpot, eq_comm]
  · simp [hpot]

/-- A potential parent is the pending block at depth one, the included block, or a block whose relay
parent is in the allowed ancestry. -/
theorem isPotential_iff {y : PotentialParent H RH R} :
    isPotential rpAncestry pending y = true ↔
      (y.depth = 1 ∧ pending = some y.hash) ∨ y.depth = 0 ∨
        NamesAncestry (fun a root => (a, root) ∈ rpAncestry) y.header := by
  simp only [isPotential, NamesAncestry, Bool.or_eq_true, Bool.and_eq_true, beq_iff_eq,
    Option.any_eq_true, List.any_eq_true, decide_eq_true_eq, Prod.exists, or_assoc]
  constructor
  · rintro (⟨h1, x, hx, rfl⟩ | h0 | ⟨rp, hrp, a, root, hmem, rfl⟩ | ⟨root, hroot, a, root', hmem, rfl⟩)
    · exact Or.inl ⟨h1, hx⟩
    · exact Or.inr (Or.inl h0)
    · exact Or.inr (Or.inr (Or.inl ⟨a, hrp, root, hmem⟩))
    · exact Or.inr (Or.inr (Or.inr ⟨root', hroot, a, hmem⟩))
  · rintro (⟨h1, hx⟩ | h0 | ⟨rp, hrp, root, hmem⟩ | ⟨root, hroot, rp, hmem⟩)
    · exact Or.inl ⟨h1, y.hash, hx, rfl⟩
    · exact Or.inr (Or.inl h0)
    · exact Or.inr (Or.inr (Or.inl ⟨rp, hrp, rp, root, hmem, rfl⟩))
    · exact Or.inr (Or.inr (Or.inr ⟨root, hroot, rp, root, hmem, rfl⟩))

/-- The hashes the search emits are the documented ones, given that it emits those of the
potential parents it reaches. -/
theorem mem_returned_iff (htree : IsBlockTree backend) {returned : List H}
    (hmem : ∀ h, h ∈ returned ↔ ∃ y, Worklist.Reach (searchNext params backend rpAncestry pending)
      (includedEntry included includedHeader) y ∧ isPotential rpAncestry pending y = true ∧
        y.hash = h) (h : H) :
    h ∈ returned ↔
      Returned params backend (fun a root => (a, root) ∈ rpAncestry) included pending returned h := by
  rw [hmem]
  constructor
  · rintro ⟨y, hy, hpot, rfl⟩
    have hr := reached_of_reach hy
    refine ⟨?_, ?_⟩
    · cases hi : params.ignoreAlternativeBranches
      · exact Or.inl rfl
      · exact Or.inr ⟨y.depth, hr.aligned hi ▸ hr.below⟩
    rcases Relation.ReflTransGen.cases_tail hy with rfl | ⟨x, hx, hxy⟩
    · exact Or.inl rfl
    obtain ⟨hxpot, hxdepth, hchild⟩ := mem_searchNext.mp hxy
    obtain ⟨hc, hheader, hdepth, -, -⟩ := mem_childEntries.mp hchild
    rcases isPotential_iff.mp hpot with ⟨h1, hpend⟩ | h0 | hnames
    · -- the pending block, a child of the included block
      obtain rfl := (reached_of_reach hx).root (by omega)
      refine Or.inr (Or.inl ⟨hxdepth, hpend, hc, ?_⟩)
      rw [hheader]
      rfl
    · omega
    · exact Or.inr (Or.inr ⟨x.hash, (hmem x.hash).mpr ⟨x, hx, hxpot, rfl⟩,
        ⟨x.depth, x.alignedWithPending, (reached_of_reach hx).below, hxdepth⟩, hc, y.header,
        hheader, hnames⟩)
  · rintro ⟨halign, hincluded | ⟨hdepth, hpend, hc, hheader⟩ |
      ⟨p, hp, ⟨d, aligned, hbp, hd⟩, hc, header, hheader, hnames⟩⟩
    · -- the included block
      subst hincluded
      exact ⟨includedEntry h includedHeader, Relation.ReflTransGen.refl,
        isPotential_iff.mpr (Or.inr (Or.inl rfl)), rfl⟩
    · -- the pending block, pushed as a child of the included block
      obtain ⟨header, hheader⟩ := Option.isSome_iff_exists.mp hheader
      have hy : (⟨h, header, 1, true⟩ : PotentialParent H RH R) ∈
          searchNext params backend rpAncestry pending (includedEntry included includedHeader) := by
        refine mem_searchNext.mpr ⟨isPotential_iff.mpr (Or.inr (Or.inl rfl)), hdepth,
          mem_childEntries.mpr ⟨hc, hheader, rfl, ?_, fun _ => rfl⟩⟩
        simp [includedEntry, hpend]
      exact ⟨_, Relation.ReflTransGen.single hy, isPotential_iff.mpr (Or.inl ⟨rfl, hpend⟩), rfl⟩
    · -- a child of a returned block, pushed from its entry
      obtain ⟨x, hx, hxpot, rfl⟩ := (hmem p).mp hp
      have hr := reached_of_reach hx
      obtain ⟨rfl, -⟩ := hr.below.unique htree hbp
      have hbelow := hr.below_child hc hheader
      have hign : params.ignoreAlternativeBranches = true →
          (x.alignedWithPending && if x.depth + 1 = 1 then pending.all (· = h) else true) = true :=
        fun hi => by
          rcases halign with hf | ⟨d', hb'⟩
          · rw [hi] at hf
            cases hf
          · exact (hbelow.unique htree hb').2
      have hy : (⟨h, header, x.depth + 1, _⟩ : PotentialParent H RH R) ∈
          searchNext params backend rpAncestry pending x :=
        mem_searchNext.mpr ⟨hxpot, hd, mem_childEntries.mpr ⟨hc, hheader, rfl, rfl, hign⟩⟩
      exact ⟨_, Relation.ReflTransGen.tail hx hy, isPotential_iff.mpr (Or.inr (Or.inr hnames)),
        rfl⟩

omit [DecidableEq H] [DecidableEq RH] [DecidableEq R] in
/-- A child's entry has the child's hash. -/
theorem hash_of_mem_childEntry {child : H} {depth : Nat} {aligned : Bool}
    {y : PotentialParent H RH R}
    (h : y ∈ (if params.ignoreAlternativeBranches && !aligned then none
      else (backend.header child).map fun header => (⟨child, header, depth, aligned⟩ :
        PotentialParent H RH R))) : y.hash = child := by
  split at h
  · cases h
  · obtain ⟨header, -, rfl⟩ := Option.map_eq_some_iff.mp h
    rfl

/-- **The search.** It returns each block at most once, and the blocks of the documentation. -/
theorem search_spec (htree : IsBlockTree backend) :
    let next := searchNext params backend rpAncestry pending
    let root := includedEntry included includedHeader
    let returned := (Worklist.run (searchOut rpAncestry pending) next
      (Worklist.size next (params.maxDepth + 2) root) [root] []).map (·.hash)
    returned.Nodup ∧ ∀ h, h ∈ returned ↔
      Returned params backend (fun a root => (a, root) ∈ rpAncestry) included pending returned h := by
  intro next root returned
  -- an entry ranks by its room above `max_depth`, and each push goes one level down
  have hrank : ∀ x, ∀ y ∈ next x, params.maxDepth + 1 - y.depth < params.maxDepth + 1 - x.depth := by
    intro x y hy
    obtain ⟨-, hdepth, hchild⟩ := mem_searchNext.mp hy
    have := (mem_childEntries.mp hchild).2.2.1
    omega
  have hroot : params.maxDepth + 1 - root.depth < params.maxDepth + 2 := by
    simp only [root, includedEntry]
    omega
  have hret : returned = Worklist.preorder (fun y => (searchOut rpAncestry pending y).map (·.hash))
      next (params.maxDepth + 2) root := by
    rw [← Worklist.map_preorder]
    show (Worklist.run _ _ _ [root] []).map _ = _
    rw [Worklist.run_eq_flatMap_preorder hrank (fun x hx => List.mem_singleton.mp hx ▸ hroot)
      (by simp), List.nil_append, List.flatMap_singleton]
  have hmem : ∀ h, h ∈ returned ↔ ∃ y, Worklist.Reach next root y ∧
      isPotential rpAncestry pending y = true ∧ y.hash = h := by
    intro h
    rw [hret, Worklist.mem_preorder_iff hrank hroot]
    simp only [mem_map_searchOut]
  refine ⟨?_, mem_returned_iff htree hmem⟩
  rw [hret]
  refine Worklist.nodup_preorder hrank hroot (fun y _ => ?_) (fun y _ => ?_) ?_ ?_
  · show ((searchOut rpAncestry pending y).map (·.hash)).Nodup
    unfold searchOut
    split <;> simp
  · -- the children of a block are distinct blocks
    show (searchNext params backend rpAncestry pending y).Nodup
    unfold searchNext
    split
    · exact List.nodup_nil
    · rw [List.nodup_reverse]
      unfold childEntries
      refine List.Nodup.filterMap (fun a a' b hb hb' => ?_) (htree.nodup_children _)
      exact (hash_of_mem_childEntry hb).symm.trans (hash_of_mem_childEntry hb')
  · -- two reached entries emitting one hash are one entry
    intro y z b hy hz hby hbz
    obtain ⟨-, rfl⟩ := mem_map_searchOut.mp hby
    obtain ⟨-, hzb⟩ := mem_map_searchOut.mp hbz
    exact Reached.unique htree (reached_of_reach hy) (reached_of_reach hz) hzb.symm
  · intro y z₁ z₂ w hy hz₁ hz₂ hw₁ hw₂
    have hd₁ := (mem_childEntries.mp (mem_searchNext.mp hz₁).2.2).2.2.1
    have hd₂ := (mem_childEntries.mp (mem_searchNext.mp hz₂).2.2).2.2.1
    exact eq_of_reach_common htree (hy.tail hz₁) (hy.tail hz₂) (hd₁.trans hd₂.symm) hw₁ hw₂

end search

/-! ## `find_potential_parents` -/

/-- **`find_potential_parents` computes the documented set.** Over a local tree the result holds
no block twice; and when the para's included head decodes, a block is returned exactly when the
documentation says so, against the relay ancestry `A`. -/
theorem findPotentialParents_spec [DecidableEq H] [DecidableEq RH] [DecidableEq R]
    [DecidableEq S] [DecidableEq D] {backend : Backend H RH R} (htree : IsBlockTree backend)
    (params : ParentSearchParams RH) (relayClient : RelayChainInterface RH R S D)
    (decodeHead : D → Option (H × ParaHeader RH R)) :
    let returned := (findPotentialParents params backend relayClient decodeHead).map (·.hash)
    returned.Nodup ∧ ∀ includedHead included includedHeader,
      relayClient.persistedValidationData params.relayParent .timedOut = some includedHead →
      decodeHead includedHead = some (included, includedHeader) →
      ∀ h, h ∈ returned ↔ Returned params backend
        (InRelayAncestry relayClient params.relayParent params.ancestryLookback) included
        (pendingHash relayClient decodeHead params.relayParent includedHead) returned h := by
  intro returned
  -- the walk of step 1 records `A`
  have hA : (fun a root =>
      (a, root) ∈ relayAncestry relayClient params.relayParent params.ancestryLookback) =
      InRelayAncestry relayClient params.relayParent params.ancestryLookback := by
    funext a root
    exact propext (mem_relayAncestry_iff relayClient params.relayParent params.ancestryLookback
      a root)
  cases hpvd : relayClient.persistedValidationData params.relayParent .timedOut with
  | none =>
    have hnil : returned = [] := by simp [returned, findPotentialParents, hpvd]
    rw [hnil]
    exact ⟨List.nodup_nil, fun _ _ _ h => by cases h⟩
  | some includedHead =>
    cases hdec : decodeHead includedHead with
    | none =>
      have hnil : returned = [] := by simp [returned, findPotentialParents, hpvd, hdec]
      rw [hnil]
      refine ⟨List.nodup_nil, fun _ _ _ h hd => ?_⟩
      cases h
      rw [hdec] at hd
      cases hd
    | some head =>
      obtain ⟨included, includedHeader⟩ := head
      have hs := @search_spec H RH R _ params backend
        (relayAncestry relayClient params.relayParent params.ancestryLookback)
        (pendingHash relayClient decodeHead params.relayParent includedHead) included
        includedHeader _ _ htree
      have hret : returned = (Worklist.run (searchOut (relayAncestry relayClient params.relayParent
          params.ancestryLookback) (pendingHash relayClient decodeHead params.relayParent
            includedHead)) (searchNext params backend (relayAncestry relayClient
              params.relayParent params.ancestryLookback) (pendingHash relayClient decodeHead
                params.relayParent includedHead)) (Worklist.size (searchNext params backend
                  (relayAncestry relayClient params.relayParent params.ancestryLookback)
                  (pendingHash relayClient decodeHead params.relayParent includedHead))
                  (params.maxDepth + 2) (includedEntry included includedHeader))
                [includedEntry included includedHeader] []).map (·.hash) := by
        simp only [returned, findPotentialParents, hpvd, hdec]
      rw [hret]
      refine ⟨hs.1, fun includedHead' included' includedHeader' hpvd' hdec' => ?_⟩
      obtain rfl := Option.some.inj hpvd'
      obtain ⟨rfl, rfl⟩ := Prod.mk.inj (Option.some.inj (hdec.symm.trans hdec'))
      rw [← hA]
      exact hs.2

/-- A local tree: block `0` with the children `1` and `2`, and `3` a child of `1`. -/
def sampleChildren : Nat → List Nat
  | 0 => [1, 2]
  | 1 => [3]
  | _ => []

/-- The local backend of `sampleChildren`; every block names relay parent `7`. -/
def sampleBackend : Backend Nat Nat Nat := ⟨sampleChildren, fun _ => some ⟨some 7, none⟩⟩

/-- The sample backend is a block tree. -/
theorem isBlockTree_sampleBackend : IsBlockTree sampleBackend where
  nodup_children p := by
    rcases p with _ | _ | p <;> simp [sampleBackend, sampleChildren]
  parent_unique p p' c hp hp' := by
    rcases p with _ | _ | p <;> rcases p' with _ | _ | p' <;>
      simp [sampleBackend, sampleChildren] at hp hp' <;> omega
  numbered := by
    refine ⟨fun h => if h = 0 then 0 else if h = 3 then 2 else 1, fun p c hc => ?_⟩
    rcases p with _ | _ | p
    · rcases (by simpa [sampleBackend, sampleChildren] using hc : c = 1 ∨ c = 2) with rfl | rfl <;>
        rfl
    · obtain rfl : c = 3 := by simpa [sampleBackend, sampleChildren] using hc
      rfl
    · simp [sampleBackend, sampleChildren] at hc

/-- A relay chain where block `7` is its own relay parent's ancestry, and the para's included
head decodes to block `0`. -/
def sampleRelayChain : RelayChainInterface Nat Nat Nat Nat :=
  ⟨fun _ => some ⟨6, 2, 0⟩, fun _ => 0, fun _ _ => some 0⟩

/-- On the sample backend, the parents found are distinct. -/
theorem findPotentialParents_spec_sample :
    IsBlockTree sampleBackend ∧
      ((findPotentialParents ⟨7, 0, 2, false⟩ sampleBackend sampleRelayChain
        fun _ => some (0, ⟨none, none⟩)).map (·.hash)).Nodup :=
  ⟨isBlockTree_sampleBackend,
    (findPotentialParents_spec isBlockTree_sampleBackend ⟨7, 0, 2, false⟩ sampleRelayChain
      fun _ => some (0, ⟨none, none⟩)).1⟩

end Cumulus.ConsensusCommon
