import Mathlib.Logic.Relation
import Mathlib.Data.List.Nodup
import Mathlib.Algebra.GroupWithZero.Nat

/-!
# Depth-first search with a stack

`run out next` is the loop that pops the top item of a stack, emits `out x` and pushes `next x`,
the first of them on top. Where a `rank` decreases along `next`, the loop explores the tree of
each item in pre-order:

* `run_eq_flatMap_preorder` — with fuel for `size` pops, the loop emits `preorder` of each item
  of the stack in turn;
* `mem_preorder_iff` — the traversal emits the outputs of the items `Reach`ed by `next`;
* `nodup_preorder` — it emits nothing twice when no two children of a reached item reach a common
  item and no two reached items emit a common value.
-/

namespace Cumulus.Found.Worklist

variable {α β γ : Type*}

/-- The stack loop: pop `x`, emit `out x`, push `next x`. -/
def run (out : α → List β) (next : α → List α) : Nat → List α → List β → List β
  | 0, _, acc => acc
  | _ + 1, [], acc => acc
  | fuel + 1, x :: stack, acc => run out next fuel (next x ++ stack) (acc ++ out x)

/-- The pre-order traversal of the tree of `x`, `k` levels deep. -/
def preorder (out : α → List β) (next : α → List α) : Nat → α → List β
  | 0, _ => []
  | k + 1, x => out x ++ (next x).flatMap (preorder out next k)

/-- The items of the tree of `x`, `k` levels deep: the pops `run` makes for it. -/
def size (next : α → List α) : Nat → α → Nat
  | 0, _ => 0
  | k + 1, x => ((next x).map (size next k)).sum + 1

/-- `y` is in the tree of `x`. -/
def Reach (next : α → List α) : α → α → Prop := Relation.ReflTransGen fun u v => v ∈ next u

variable {out : α → List β} {next : α → List α} {rank : α → Nat}

/-- Mapping the output of a traversal is traversing with the mapped outputs. -/
theorem map_preorder (f : β → γ) (k : Nat) (x : α) :
    (preorder out next k x).map f = preorder (fun y => (out y).map f) next k x := by
  induction k generalizing x with
  | zero => rfl
  | succ k ih =>
    simp only [preorder, List.map_append, List.map_flatMap, ih]

/-- When every child has a smaller rank, everything in the tree of `x` has a rank at most that of
`x`. -/
theorem rank_le_of_reach (hrank : ∀ x, ∀ y ∈ next x, rank y < rank x) {x y : α}
    (h : Reach next x y) : rank y ≤ rank x := by
  induction h with
  | refl => exact Nat.le_refl _
  | tail _ hyz ih => exact Nat.le_trans (Nat.le_of_lt (hrank _ _ hyz)) ih

/-- Levels below the rank of `x` add nothing to its traversal. -/
theorem preorder_succ (hrank : ∀ x, ∀ y ∈ next x, rank y < rank x) {k : Nat} {x : α}
    (hx : rank x < k) :
    preorder out next (k + 1) x = preorder out next k x := by
  induction k generalizing x with
  | zero => omega
  | succ k ih =>
    simp only [preorder]
    congr 1
    apply List.flatMap_congr
    intro y hy
    have hy := hrank x y hy
    exact ih (by omega)

/-- A level beyond the rank of `x` adds no item to its tree. -/
theorem size_succ (hrank : ∀ x, ∀ y ∈ next x, rank y < rank x) {k : Nat} {x : α}
    (hx : rank x < k) : size next (k + 1) x = size next k x := by
  induction k generalizing x with
  | zero => omega
  | succ k ih =>
    simp only [size]
    congr 2
    apply List.map_congr_left
    intro y hy
    have hy := hrank x y hy
    exact ih (by omega)

/-- **The loop is the traversal.** With fuel for the pops of the trees of the stack, the loop
emits the traversal of each item of the stack in turn. -/
theorem run_eq_flatMap_preorder (hrank : ∀ x, ∀ y ∈ next x, rank y < rank x)
    {K fuel : Nat} {stack : List α} {acc : List β}
    (hK : ∀ x ∈ stack, rank x < K) (hfuel : (stack.map (size next K)).sum ≤ fuel) :
    run out next fuel stack acc = acc ++ stack.flatMap (preorder out next K) := by
  induction fuel generalizing stack acc with
  | zero =>
    cases stack with
    | nil => simp [run]
    | cons x stack =>
      -- the top item takes a pop
      obtain ⟨k, rfl⟩ : ∃ k, K = k + 1 := ⟨K - 1, by have := hK x List.mem_cons_self; omega⟩
      simp [size] at hfuel
  | succ fuel ih =>
    cases stack with
    | nil => simp [run]
    | cons x stack =>
      have hx := hK x List.mem_cons_self
      obtain ⟨k, rfl⟩ : ∃ k, K = k + 1 := ⟨K - 1, by omega⟩
      -- the children of `x` rank below `k`, so one level less changes nothing for them
      have hnext : ∀ y ∈ next x, rank y < k := fun y hy => by
        have := hrank x y hy
        omega
      have hpre : (next x).flatMap (preorder out next (k + 1)) =
          (next x).flatMap (preorder out next k) :=
        List.flatMap_congr fun y hy => preorder_succ hrank (hnext y hy)
      have hsize : ((next x).map (size next (k + 1))).sum = ((next x).map (size next k)).sum := by
        rw [List.map_congr_left fun y hy => size_succ hrank (hnext y hy)]
      rw [run, ih]
      · rw [List.flatMap_append, hpre, List.flatMap_cons]
        show acc ++ out x ++ _ = acc ++ (out x ++ (next x).flatMap (preorder out next k) ++ _)
        simp only [List.append_assoc]
      · intro y hy
        rcases List.mem_append.mp hy with hy | hy
        · exact Nat.lt_succ_of_lt (hnext y hy)
        · exact hK y (List.mem_cons_of_mem _ hy)
      · have hx1 : size next (k + 1) x = ((next x).map (size next k)).sum + 1 := rfl
        rw [List.map_cons, List.sum_cons, hx1] at hfuel
        rw [List.map_append, List.sum_append, hsize]
        omega

/-- **What the traversal emits**: the outputs of the items in the tree. -/
theorem mem_preorder_iff (hrank : ∀ x, ∀ y ∈ next x, rank y < rank x) {k : Nat} {x : α}
    {b : β} (hx : rank x < k) :
    b ∈ preorder out next k x ↔ ∃ y, Reach next x y ∧ b ∈ out y := by
  induction k generalizing x with
  | zero => omega
  | succ k ih =>
    have hnext : ∀ y ∈ next x, rank y < k := fun y hy => by
      have := hrank x y hy
      omega
    rw [preorder, List.mem_append, List.mem_flatMap]
    constructor
    · rintro (hb | ⟨y, hy, hb⟩)
      · exact ⟨x, Relation.ReflTransGen.refl, hb⟩
      · obtain ⟨z, hz, hbz⟩ := (ih (hnext y hy)).mp hb
        exact ⟨z, Relation.ReflTransGen.head hy hz, hbz⟩
    · rintro ⟨y, hxy, hb⟩
      rcases Relation.ReflTransGen.cases_head hxy with rfl | ⟨z, hz, hzy⟩
      · exact Or.inl hb
      · exact Or.inr ⟨z, hz, (ih (hnext z hz)).mpr ⟨y, hzy, hb⟩⟩

/-- **Nothing twice.** The traversal emits no value twice when the items of the tree emit no
value twice, each pushes no item twice, no two of them emit a common value, and no two children
of an item have a common item in their trees. -/
theorem nodup_preorder (hrank : ∀ x, ∀ y ∈ next x, rank y < rank x) {k : Nat} {x : α}
    (hx : rank x < k)
    (hout : ∀ y, Reach next x y → (out y).Nodup)
    (hnext : ∀ y, Reach next x y → (next y).Nodup)
    (hemit : ∀ y z b, Reach next x y → Reach next x z → b ∈ out y → b ∈ out z → y = z)
    (htree : ∀ y z₁ z₂ w, Reach next x y → z₁ ∈ next y → z₂ ∈ next y →
      Reach next z₁ w → Reach next z₂ w → z₁ = z₂) :
    (preorder out next k x).Nodup := by
  induction k generalizing x with
  | zero => omega
  | succ k ih =>
    have hlt : ∀ y ∈ next x, rank y < k := fun y hy => by
      have := hrank x y hy
      omega
    have hreach : ∀ y ∈ next x, ∀ z, Reach next y z → Reach next x z :=
      fun y hy z hz => Relation.ReflTransGen.head hy hz
    rw [preorder, List.nodup_append, List.nodup_flatMap]
    refine ⟨hout x Relation.ReflTransGen.refl, ⟨fun y hy => ?_, ?_⟩, ?_⟩
    · -- each child's tree, a part of the tree of `x`
      refine ih (hlt y hy) (fun z hz => hout z (hreach y hy z hz))
        (fun z hz => hnext z (hreach y hy z hz))
        (fun z₁ z₂ b hz₁ hz₂ => hemit z₁ z₂ b (hreach y hy z₁ hz₁) (hreach y hy z₂ hz₂))
        (fun z w₁ w₂ v hz => htree z w₁ w₂ v (hreach y hy z hz))
    · -- two children emit disjoint values
      refine List.Pairwise.imp_of_mem ?_ (hnext x Relation.ReflTransGen.refl)
      intro y₁ y₂ hy₁ hy₂ hne b hb₁ hb₂
      obtain ⟨z₁, hz₁, hbz₁⟩ := (mem_preorder_iff hrank (hlt y₁ hy₁)).mp hb₁
      obtain ⟨z₂, hz₂, hbz₂⟩ := (mem_preorder_iff hrank (hlt y₂ hy₂)).mp hb₂
      have hz : z₁ = z₂ := hemit z₁ z₂ b (hreach y₁ hy₁ z₁ hz₁) (hreach y₂ hy₂ z₂ hz₂) hbz₁ hbz₂
      subst hz
      exact hne (htree x y₁ y₂ z₁ Relation.ReflTransGen.refl hy₁ hy₂ hz₁ hz₂)
    · -- `x` is not in the tree of a child, which ranks below it
      intro a ha b hb hab
      subst hab
      obtain ⟨y, hy, hay⟩ := List.mem_flatMap.mp hb
      obtain ⟨z, hz, haz⟩ := (mem_preorder_iff hrank (hlt y hy)).mp hay
      have hxz : x = z := hemit x z a Relation.ReflTransGen.refl (hreach y hy z hz) ha haz
      subst hxz
      have := rank_le_of_reach hrank hz
      have := hrank x y hy
      omega

end Cumulus.Found.Worklist
