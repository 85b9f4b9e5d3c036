import Cumulus.HeaderChain.Justification
import Mathlib.Logic.Relation

/-!
# The ancestry walk

What `AncestryChain.ancestry` returns, by the parent links of the ancestry headers
(`ParentOf`):

* `ancestryLoop_sound` — a route found from a precommit's target leads up to the commit target,
  through the headers of the route, when every header visited before does (`VisitedReachBase`,
  kept by marking a found route, `VisitedReachBase.markRouteAsVisited`);
* `ancestryLoop_fuel` — the walk's fuel never runs out before it ends: with more fuel than
  unvisited headers off the route it gives one answer;
* `ancestry_restrict` — removing headers that the found route does not go through
  (`AncestryChain.restrict`) leaves the route found, as the optimizer's removal needs;
* `ancestry_ne_none` — without a cycle of parent links, the walk ends; there is none when the
  hashes bind the headers' numbers (`acyclic_of_hashesBindNumbers`).
-/

namespace Cumulus.HeaderChain

open Relation

variable {H A S : Type} [DecidableEq H]

/-- The parent of `x` among the ancestry headers is `y`. -/
def ParentOf (parents : H → Option H) (x y : H) : Prop := parents x = some y

/-- Every header that an earlier route visited leads up to the base. -/
def AncestryChain.VisitedReachBase (chain : AncestryChain H) : Prop :=
  ∀ h, (chain.parents h).isSome → h ∉ chain.unvisited →
    ReflTransGen (ParentOf chain.parents) h chain.base.hash

/-- No header leads up to itself. -/
def Acyclic (parents : H → Option H) : Prop :=
  ∀ h, ¬ TransGen (ParentOf parents) h h

/-- The hashes bind the headers' numbers: `number` gives the number of the header of each hash,
and the parent of an ancestry header, whose hash the header's own hash covers, is numbered below
it. A collision-resistant header hash gives this for every list of real headers, since
`votes_ancestries` is keyed by header hash. -/
def HashesBindNumbers (number : H → ℕ) (votesAncestries : List (AncestryHeader H)) : Prop :=
  ∀ header ∈ votesAncestries, number header.parentHash < number header.hash

variable {chain : AncestryChain H}

@[simp] theorem parents_markRouteAsVisited (route : List H) :
    (chain.markRouteAsVisited route).parents = chain.parents := rfl

@[simp] theorem mem_unvisited_markRouteAsVisited {route : List H} {h : H} :
    h ∈ (chain.markRouteAsVisited route).unvisited ↔ h ∈ chain.unvisited ∧ h ∉ route := by
  simp only [AncestryChain.markRouteAsVisited]
  generalize chain.unvisited = unvisited
  induction route generalizing unvisited with
  | nil => simp
  | cons x route ih =>
    rw [List.foldl_cons, ih, Finset.mem_erase, List.mem_cons, not_or]
    tauto

/-! ## The chain of a justification -/

section new

variable {votesAncestries : List (AncestryHeader H)}

/-- Inserting the same headers into two maps that agree at `h` gives maps that agree at `h`. -/
theorem foldl_update_parents_congr {g g' : H → Option H} {h : H} (hg : g h = g' h) :
    votesAncestries.foldl insertParent g h = votesAncestries.foldl insertParent g' h := by
  induction votesAncestries generalizing g g' with
  | nil => exact hg
  | cons ancestor votesAncestries ih =>
    apply ih
    by_cases hh : h = ancestor.hash
    · rw [insertParent, insertParent, hh, Function.update_self, Function.update_self]
    · rw [insertParent, insertParent, Function.update_of_ne hh, Function.update_of_ne hh, hg]

/-- A hash has a parent entry exactly when it is the hash of an ancestry header. -/
theorem ancestryParents_isSome {h : H} :
    (ancestryParents votesAncestries h).isSome ↔ h ∈ votesAncestries.map (·.hash) := by
  unfold ancestryParents
  suffices hg : ∀ g : H → Option H, (votesAncestries.foldl insertParent g h).isSome ↔
      h ∈ votesAncestries.map (·.hash) ∨ (g h).isSome by
    simpa using hg fun _ => none
  induction votesAncestries with
  | nil => simp
  | cons ancestor votesAncestries ih =>
    intro g
    rw [List.foldl_cons, ih]
    by_cases hh : h = ancestor.hash <;> simp [insertParent, hh]

/-- A parent link comes from an ancestry header of that hash and parent. -/
theorem exists_of_ancestryParents_eq_some {h p : H}
    (hp : ancestryParents votesAncestries h = some p) :
    ∃ header ∈ votesAncestries, header.hash = h ∧ header.parentHash = p := by
  unfold ancestryParents at hp
  suffices hg : ∀ g : H → Option H, votesAncestries.foldl insertParent g h = some p →
      (∃ header ∈ votesAncestries, header.hash = h ∧ header.parentHash = p) ∨ g h = some p by
    rcases hg _ hp with hfound | hnone
    · exact hfound
    · cases hnone
  clear hp
  induction votesAncestries with
  | nil => exact fun g hg => .inr hg
  | cons ancestor votesAncestries ih =>
    intro g hg
    rcases ih _ hg with ⟨header, hmem, hheader⟩ | hinserted
    · exact .inl ⟨header, List.mem_cons_of_mem _ hmem, hheader⟩
    · by_cases hh : h = ancestor.hash
      · -- the link was inserted by this header
        rw [insertParent, hh, Function.update_self] at hinserted
        cases hinserted
        exact .inl ⟨ancestor, List.mem_cons_self, hh.symm, rfl⟩
      · rw [insertParent, Function.update_of_ne hh] at hinserted
        exact .inr hinserted

/-- **Ancestry headers whose hashes bind their numbers have no cycle**: every parent link lowers
the number, so no chain of links leads back. -/
theorem acyclic_of_hashesBindNumbers {number : H → ℕ}
    (hnumbers : HashesBindNumbers number votesAncestries) :
    Acyclic (ancestryParents votesAncestries) := by
  have hlower : ∀ x y, ParentOf (ancestryParents votesAncestries) x y → number y < number x := by
    intro x y hxy
    obtain ⟨header, hmem, rfl, rfl⟩ := exists_of_ancestryParents_eq_some hxy
    exact hnumbers header hmem
  have hdescend : ∀ x y, TransGen (ParentOf (ancestryParents votesAncestries)) x y →
      number y < number x := by
    intro x y hxy
    induction hxy with
    | single hparent => exact hlower _ _ hparent
    | tail _ hparent ih => exact (hlower _ _ hparent).trans ih
  intro h hcycle
  exact Nat.lt_irrefl _ (hdescend h h hcycle)

/-- The parents of the headers outside `U` are those of all the headers, outside `U`. -/
theorem ancestryParents_filter (U : Finset H) :
    ancestryParents (votesAncestries.filter fun header => header.hash ∉ U) =
      fun h => if h ∈ U then none else ancestryParents votesAncestries h := by
  unfold ancestryParents
  suffices hg : ∀ g : H → Option H,
      (votesAncestries.filter fun header => header.hash ∉ U).foldl insertParent g =
        fun h => if h ∈ U then g h else votesAncestries.foldl insertParent g h by
    exact hg _
  induction votesAncestries with
  | nil =>
    intro g
    funext h
    split_ifs <;> rfl
  | cons ancestor votesAncestries ih =>
    intro g
    funext h
    by_cases hkeep : ancestor.hash ∈ U
    · -- a dropped header changes the parents of its hash only, which is in `U`
      rw [List.filter_cons_of_neg (by simpa using hkeep), ih, List.foldl_cons]
      by_cases hh : h ∈ U
      · simp only [hh, if_true]
      · have hne : h ≠ ancestor.hash := fun e => hh (e ▸ hkeep)
        simp only [hh, if_false]
        exact foldl_update_parents_congr (Function.update_of_ne hne _ _).symm
    · rw [List.filter_cons_of_pos (by simpa using hkeep), List.foldl_cons, ih, List.foldl_cons]
      by_cases hh : h ∈ U
      · have hne : h ≠ ancestor.hash := fun e => hkeep (e ▸ hh)
        simp only [hh, if_true]
        exact Function.update_of_ne hne _ _
      · simp only [hh, if_false]

@[simp] theorem mem_unvisited_new {justification : GrandpaJustification H A S} {h : H} :
    h ∈ (AncestryChain.new justification).unvisited ↔
      h ∈ justification.votesAncestries.map (·.hash) :=
  List.mem_toFinset

/-- No header of a new chain is visited. -/
theorem visitedReachBase_new (justification : GrandpaJustification H A S) :
    (AncestryChain.new justification).VisitedReachBase := fun _ hparent hvisited =>
  absurd (mem_unvisited_new.mpr (ancestryParents_isSome.mp hparent)) hvisited

end new

/-! ## One step of the walk -/

section step

variable {fuel : Nat} {cur parent : H} {route : List H}

/-- The walk ends with its route when it reaches the base. -/
theorem ancestryLoop_of_base (hbase : cur = chain.base.hash) :
    ancestryLoop chain (fuel + 1) cur route = some (some route) := by
  rw [ancestryLoop, if_pos hbase]

/-- The walk fails when it reaches a header with no known parent. -/
theorem ancestryLoop_of_parent_none (hbase : cur ≠ chain.base.hash)
    (hparent : chain.parents cur = none) : ancestryLoop chain (fuel + 1) cur route = some none := by
  rw [ancestryLoop, if_neg hbase, hparent]

/-- The walk ends with its route when it reaches an already visited header. -/
theorem ancestryLoop_of_visited (hbase : cur ≠ chain.base.hash)
    (hparent : chain.parents cur = some parent) (hcur : cur ∉ chain.unvisited) :
    ancestryLoop chain (fuel + 1) cur route = some (some route) := by
  rw [ancestryLoop, if_neg hbase, hparent]
  exact if_pos hcur

/-- Back at a header of the route: the source walks the cycle forever. -/
theorem ancestryLoop_of_mem_route (hbase : cur ≠ chain.base.hash)
    (hparent : chain.parents cur = some parent) (hcur : cur ∈ chain.unvisited)
    (hroute : cur ∈ route) : ancestryLoop chain (fuel + 1) cur route = none := by
  rw [ancestryLoop, if_neg hbase, hparent]
  simp only [hcur, not_true_eq_false, if_false, hroute, if_true]

/-- The walk from `cur` goes on from its parent, once `cur` is pushed on the route. -/
theorem ancestryLoop_succ_of_unvisited (hbase : cur ≠ chain.base.hash)
    (hparent : chain.parents cur = some parent) (hcur : cur ∈ chain.unvisited)
    (hroute : cur ∉ route) :
    ancestryLoop chain (fuel + 1) cur route = ancestryLoop chain fuel parent (route ++ [cur]) := by
  rw [ancestryLoop, if_neg hbase, hparent]
  simp only [hcur, not_true_eq_false, if_false, hroute]

end step

/-! ## What a found route says -/

/-- A found route extends the route the walk starts with. -/
theorem ancestryLoop_extends_route {fuel : Nat} {cur : H} {route r : List H}
    (h : ancestryLoop chain fuel cur route = some (some r)) : route <+: r := by
  induction fuel generalizing cur route with
  | zero => cases h
  | succ fuel ih =>
    by_cases hbase : cur = chain.base.hash
    · rw [ancestryLoop_of_base hbase] at h
      cases h
      exact List.prefix_refl _
    rcases hparent : chain.parents cur with _ | parent
    · rw [ancestryLoop_of_parent_none hbase hparent] at h
      cases h
    by_cases hcur : cur ∈ chain.unvisited
    · by_cases hroute : cur ∈ route
      · rw [ancestryLoop_of_mem_route hbase hparent hcur hroute] at h
        cases h
      rw [ancestryLoop_succ_of_unvisited hbase hparent hcur hroute] at h
      exact (List.prefix_append _ _).trans (ih h)
    · rw [ancestryLoop_of_visited hbase hparent hcur] at h
      cases h
      exact List.prefix_refl _

/-- **A found route leads up to the base.** If every visited header leads up to the base, a route
found from `cur` does too, and every header pushed on it is an unvisited one between `cur` and the
base. -/
theorem ancestryLoop_sound (hvis : chain.VisitedReachBase) {fuel : Nat} {cur : H}
    {route r : List H} (h : ancestryLoop chain fuel cur route = some (some r)) :
    ReflTransGen (ParentOf chain.parents) cur chain.base.hash ∧ ∃ pushed, r = route ++ pushed ∧
      ∀ x ∈ pushed, ReflTransGen (ParentOf chain.parents) cur x ∧
        ReflTransGen (ParentOf chain.parents) x chain.base.hash ∧ x ∈ chain.unvisited := by
  induction fuel generalizing cur route with
  | zero => cases h
  | succ fuel ih =>
    by_cases hbase : cur = chain.base.hash
    · rw [ancestryLoop_of_base hbase] at h
      cases h
      exact ⟨hbase ▸ ReflTransGen.refl, [], by simp, by simp⟩
    rcases hparent : chain.parents cur with _ | parent
    · rw [ancestryLoop_of_parent_none hbase hparent] at h
      cases h
    by_cases hcur : cur ∈ chain.unvisited
    · by_cases hroute : cur ∈ route
      · rw [ancestryLoop_of_mem_route hbase hparent hcur hroute] at h
        cases h
      rw [ancestryLoop_succ_of_unvisited hbase hparent hcur hroute] at h
      obtain ⟨hreach, pushed, rfl, hpushed⟩ := ih h
      have hstep : ParentOf chain.parents cur parent := hparent
      refine ⟨ReflTransGen.head hstep hreach, cur :: pushed, by simp, ?_⟩
      intro x hx
      rcases List.mem_cons.mp hx with rfl | hx
      · exact ⟨ReflTransGen.refl, ReflTransGen.head hstep hreach, hcur⟩
      · obtain ⟨hcx, hxb, hxu⟩ := hpushed x hx
        exact ⟨ReflTransGen.head hstep hcx, hxb, hxu⟩
    · -- a visited header: the earlier route that visited it leads up to the base
      rw [ancestryLoop_of_visited hbase hparent hcur] at h
      cases h
      exact ⟨hvis cur (by rw [hparent]; rfl) hcur, [], by simp, by simp⟩

/-- A precommit with a route is no older than the base, and leads up to it through the route. -/
theorem ancestry_sound (hvis : chain.VisitedReachBase) {targetHash : H} {targetNumber : Nat}
    {r : List H} (h : chain.ancestry targetHash targetNumber = some (some r)) :
    chain.base.number ≤ targetNumber ∧
      ReflTransGen (ParentOf chain.parents) targetHash chain.base.hash ∧
      ∀ x ∈ r, ReflTransGen (ParentOf chain.parents) targetHash x ∧
        ReflTransGen (ParentOf chain.parents) x chain.base.hash ∧ x ∈ chain.unvisited := by
  unfold AncestryChain.ancestry at h
  split_ifs at h with hnumber
  · cases h
  obtain ⟨hreach, pushed, rfl, hpushed⟩ := ancestryLoop_sound hvis h
  exact ⟨Nat.le_of_not_lt hnumber, hreach, fun x hx => hpushed x (by simpa using hx)⟩

/-- Marking the headers of a route that leads up to the base keeps every visited header leading
up to it. -/
theorem AncestryChain.VisitedReachBase.markRouteAsVisited (hvis : chain.VisitedReachBase)
    {route : List H}
    (hroute : ∀ x ∈ route, ReflTransGen (ParentOf chain.parents) x chain.base.hash) :
    (chain.markRouteAsVisited route).VisitedReachBase := by
  intro h hparent hvisited
  rw [mem_unvisited_markRouteAsVisited, not_and_or, not_not] at hvisited
  rcases hvisited with hvisited | hroute'
  · exact hvis h hparent hvisited
  · exact hroute h hroute'

/-! ## Fuel -/

/-- Pushing an unvisited header off the route leaves fewer unvisited headers off the route. -/
theorem card_unvisited_off_route_lt {s : Finset H} {route : List H} {x : H} (hx : x ∈ s)
    (hroute : x ∉ route) :
    (s.filter (· ∉ route ++ [x])).card < (s.filter (· ∉ route)).card := by
  apply Finset.card_lt_card
  refine Finset.ssubset_iff_of_subset (fun y hy => ?_) |>.mpr ⟨x, ?_, ?_⟩
  · simp only [Finset.mem_filter, List.mem_append, not_or] at hy ⊢
    exact ⟨hy.1, hy.2.1⟩
  · exact Finset.mem_filter.mpr ⟨hx, hroute⟩
  · simp

/-- **The fuel never runs out first.** With more fuel than unvisited headers off the route, the
walk gives one answer, whatever the fuel: each header it pushes is an unvisited one off the route,
and coming back to the route ends it. -/
theorem ancestryLoop_fuel {cur : H} {route : List H} {fuel fuel' : Nat}
    (hfuel : (chain.unvisited.filter (· ∉ route)).card < fuel)
    (hfuel' : (chain.unvisited.filter (· ∉ route)).card < fuel') :
    ancestryLoop chain fuel cur route = ancestryLoop chain fuel' cur route := by
  induction fuel generalizing fuel' cur route with
  | zero => cases hfuel
  | succ fuel ih =>
    obtain ⟨fuel', rfl⟩ : ∃ n, fuel' = n + 1 := ⟨fuel' - 1, by omega⟩
    by_cases hbase : cur = chain.base.hash
    · rw [ancestryLoop_of_base hbase, ancestryLoop_of_base hbase]
    rcases hparent : chain.parents cur with _ | parent
    · rw [ancestryLoop_of_parent_none hbase hparent, ancestryLoop_of_parent_none hbase hparent]
    by_cases hcur : cur ∈ chain.unvisited
    · by_cases hroute : cur ∈ route
      · rw [ancestryLoop_of_mem_route hbase hparent hcur hroute,
          ancestryLoop_of_mem_route hbase hparent hcur hroute]
      have hlt := card_unvisited_off_route_lt hcur hroute
      rw [ancestryLoop_succ_of_unvisited hbase hparent hcur hroute,
        ancestryLoop_succ_of_unvisited hbase hparent hcur hroute]
      exact ih (by omega) (by omega)
    · rw [ancestryLoop_of_visited hbase hparent hcur, ancestryLoop_of_visited hbase hparent hcur]

/-! ## Removing headers off the found routes -/

/-- The chain without the headers of `U`. -/
def AncestryChain.restrict (chain : AncestryChain H) (U : Finset H) : AncestryChain H :=
  ⟨chain.base, fun h => if h ∈ U then none else chain.parents h, chain.unvisited \ U⟩

@[simp] theorem base_restrict (U : Finset H) : (chain.restrict U).base = chain.base := rfl

/-- A walk that goes through no header of `U`, all of them unvisited, finds the same route
without them. -/
theorem ancestryLoop_restrict {U : Finset H} (hU : U ⊆ chain.unvisited) {fuel : Nat} {cur : H}
    {route r : List H} (h : ancestryLoop chain fuel cur route = some (some r))
    (hr : ∀ x ∈ r, x ∉ U) : ancestryLoop (chain.restrict U) fuel cur route = some (some r) := by
  induction fuel generalizing cur route with
  | zero => cases h
  | succ fuel ih =>
    have hbase' : (chain.restrict U).base = chain.base := base_restrict U
    by_cases hbase : cur = chain.base.hash
    · rw [ancestryLoop_of_base hbase] at h
      rw [ancestryLoop_of_base (hbase' ▸ hbase), h]
    rcases hparent : chain.parents cur with _ | parent
    · rw [ancestryLoop_of_parent_none hbase hparent] at h
      cases h
    by_cases hcur : cur ∈ chain.unvisited
    · by_cases hroute : cur ∈ route
      · rw [ancestryLoop_of_mem_route hbase hparent hcur hroute] at h
        cases h
      rw [ancestryLoop_succ_of_unvisited hbase hparent hcur hroute] at h
      -- the header is pushed on the route, so it is not one of `U`
      have hcurU : cur ∉ U := hr cur ((ancestryLoop_extends_route h).subset (by simp))
      have hparent' : (chain.restrict U).parents cur = some parent := by
        simp only [AncestryChain.restrict, hcurU, if_false, hparent]
      have hcur' : cur ∈ (chain.restrict U).unvisited := Finset.mem_sdiff.mpr ⟨hcur, hcurU⟩
      rw [ancestryLoop_succ_of_unvisited (hbase' ▸ hbase) hparent' hcur' hroute]
      exact ih h
    · rw [ancestryLoop_of_visited hbase hparent hcur] at h
      have hcurU : cur ∉ U := fun hU' => hcur (hU hU')
      have hparent' : (chain.restrict U).parents cur = some parent := by
        simp only [AncestryChain.restrict, hcurU, if_false, hparent]
      have hcur' : cur ∉ (chain.restrict U).unvisited := fun h' =>
        hcur (Finset.mem_sdiff.mp h').1
      rw [ancestryLoop_of_visited (hbase' ▸ hbase) hparent' hcur', h]

/-- **Removing unused headers keeps a found route.** -/
theorem ancestry_restrict {U : Finset H} (hU : U ⊆ chain.unvisited) {targetHash : H}
    {targetNumber : Nat} {r : List H}
    (h : chain.ancestry targetHash targetNumber = some (some r)) (hr : ∀ x ∈ r, x ∉ U) :
    (chain.restrict U).ancestry targetHash targetNumber = some (some r) := by
  unfold AncestryChain.ancestry at h ⊢
  split_ifs at h with hnumber
  · cases h
  have hcard : (chain.unvisited \ U).card ≤ chain.unvisited.card :=
    Finset.card_le_card Finset.sdiff_subset
  rw [base_restrict, if_neg hnumber, ← ancestryLoop_restrict hU h hr]
  refine ancestryLoop_fuel ?_ ?_ <;>
    simp only [AncestryChain.restrict, List.not_mem_nil, not_false_eq_true, Finset.filter_true]
  · omega
  · omega

/-- The chain of a justification without the headers of `U` is the chain without them. -/
theorem new_filter_votesAncestries (justification : GrandpaJustification H A S) (U : Finset H) :
    AncestryChain.new { justification with
        votesAncestries := justification.votesAncestries.filter fun header => header.hash ∉ U } =
      (AncestryChain.new justification).restrict U := by
  simp only [AncestryChain.new, AncestryChain.restrict, ancestryParents_filter]
  congr 1
  ext h
  simp only [List.mem_toFinset, List.mem_map, List.mem_filter, decide_eq_true_eq,
    Finset.mem_sdiff]
  constructor
  · rintro ⟨a, ⟨ha, hU⟩, rfl⟩
    exact ⟨⟨a, ha, rfl⟩, hU⟩
  · rintro ⟨⟨a, ha, rfl⟩, hU⟩
    exact ⟨a, ⟨ha, hU⟩, rfl⟩

/-! ## Walks that end -/

/-- **Without a cycle of parent links the walk ends.** Every header on the route leads up to the
current one, so coming back to the route would be a cycle. -/
theorem ancestryLoop_ne_none (hacyclic : Acyclic chain.parents) {fuel : Nat} {cur : H}
    {route : List H} (hpath : ∀ x ∈ route, TransGen (ParentOf chain.parents) x cur)
    (hfuel : (chain.unvisited.filter (· ∉ route)).card < fuel) :
    ancestryLoop chain fuel cur route ≠ none := by
  induction fuel generalizing cur route with
  | zero => cases hfuel
  | succ fuel ih =>
    by_cases hbase : cur = chain.base.hash
    · simp [ancestryLoop, hbase]
    rcases hparent : chain.parents cur with _ | parent
    · simp [ancestryLoop, hbase, hparent]
    by_cases hcur : cur ∈ chain.unvisited
    · by_cases hroute : cur ∈ route
      · exact absurd (hpath cur hroute) (hacyclic cur)
      have hstep : ParentOf chain.parents cur parent := hparent
      rw [ancestryLoop_succ_of_unvisited hbase hparent hcur hroute]
      refine ih (fun x hx => ?_) (by have := card_unvisited_off_route_lt hcur hroute; omega)
      rcases List.mem_append.mp hx with hx | hx
      · exact (hpath x hx).tail hstep
      · rw [List.mem_singleton.mp hx]
        exact TransGen.single hstep
    · simp [ancestryLoop, hbase, hparent, hcur]

/-- On acyclic parent links, the ancestry walk never runs out of fuel. -/
theorem ancestry_ne_none (hacyclic : Acyclic chain.parents) (targetHash : H)
    (targetNumber : Nat) : chain.ancestry targetHash targetNumber ≠ none := by
  unfold AncestryChain.ancestry
  split_ifs
  · exact Option.some_ne_none _
  · exact ancestryLoop_ne_none hacyclic (fun _ h => absurd h List.not_mem_nil) (by simp)

end Cumulus.HeaderChain
