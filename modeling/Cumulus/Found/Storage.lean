import Mathlib.Logic.Function.Basic
import Mathlib.Data.List.Basic
import Mathlib.Data.List.Perm.Basic
import Mathlib.Data.List.Nodup
import Mathlib.Data.List.Induction

/-!
# Storage maps and in-place vector edits

Runtime storage maps are total functions into `Option` here (`none` is an absent key), and a
double map is a curried function. The pallets also edit a `Vec` in place through
`iter_mut().find(..)` and `iter().position(..)`; `modifyFirst` is that edit on a list.

* `updateDouble` — `insert` / `remove` on a double map, with its reading `updateDouble_apply`;
* `modifyFirst` — apply a function to the first element satisfying a predicate, and its
  interaction with `find?`, membership and `map`;
* `modifyOrPush` — the edit-or-append idiom `if let Some(x) = v.iter_mut().find(p) { .. } else
  { v.push(..) }`;
* `removeFirst` — `v.remove(v.iter().position(p)?)`: the element taken out and the rest, a
  permutation and a sublist of the list (`removeFirst_perm`, `removeFirst_sublist`);
* keyed vectors — a vector whose elements carry pairwise distinct keys is a finite map, read by
  `find? (key · == b)`: the lookup lemmas `find?_key_*` say how `modifyFirst`, `modifyOrPush`,
  `filter`, a permutation and an append change it.
-/

namespace Cumulus.Found

variable {α β γ : Type*}

/-! ## Double maps -/

/-- Set the entry `(a, b)` of a double map to `v` (`insert` for `some`, `remove` for `none`). -/
def updateDouble [DecidableEq α] [DecidableEq β] (m : α → β → Option γ) (a : α) (b : β)
    (v : Option γ) : α → β → Option γ :=
  Function.update m a (Function.update (m a) b v)

@[simp] theorem updateDouble_apply [DecidableEq α] [DecidableEq β] (m : α → β → Option γ)
    (a a' : α) (b b' : β) (v : Option γ) :
    updateDouble m a b v a' b' = if a' = a ∧ b' = b then v else m a' b' := by
  unfold updateDouble
  by_cases ha : a' = a
  · subst ha
    by_cases hb : b' = b
    · subst hb; simp
    · simp [hb]
  · simp [ha]

/-- Writing a double map under one first key leaves the maps of every other first key. -/
theorem updateDouble_of_ne [DecidableEq α] [DecidableEq β] (m : α → β → Option γ) {a a' : α}
    (h : a' ≠ a) (b : β) (v : Option γ) : updateDouble m a b v a' = m a' :=
  Function.update_of_ne h _ _

/-- Writing a double map under a first key updates the map of that key at the second key. -/
theorem updateDouble_self [DecidableEq α] [DecidableEq β] (m : α → β → Option γ) (a : α)
    (b : β) (v : Option γ) : updateDouble m a b v a = Function.update (m a) b v :=
  Function.update_self _ _ _

/-! ## In-place edits of a vector -/

/-- Apply `f` to the first element satisfying `p`, leaving the list unchanged if there is none:
`if let Some(x) = v.iter_mut().find(p) { *x = f(*x) }`. -/
def modifyFirst (p : α → Bool) (f : α → α) : List α → List α
  | [] => []
  | a :: as => if p a then f a :: as else a :: modifyFirst p f as

/-- `modifyFirst` on a cons: the head is modified when it matches, else the search goes on in the
tail. -/
theorem modifyFirst_cons (p : α → Bool) (f : α → α) (a : α) (as : List α) :
    modifyFirst p f (a :: as) = if p a then f a :: as else a :: modifyFirst p f as := rfl

/-- Editing with a function that preserves a projection preserves the list of projections. -/
theorem map_modifyFirst {p : α → Bool} {f : α → α} {g : α → β} (hg : ∀ a, g (f a) = g a)
    (l : List α) : (modifyFirst p f l).map g = l.map g := by
  induction l with
  | nil => rfl
  | cons a as ih =>
    rw [modifyFirst_cons]
    split <;> simp [hg, ih]

/-- When no element of a prefix matches, `modifyFirst` leaves the prefix and works on the rest. -/
theorem modifyFirst_append_of_find?_eq_none {p : α → Bool} (f : α → α) {l : List α}
    (h : l.find? p = none) (l' : List α) :
    modifyFirst p f (l ++ l') = l ++ modifyFirst p f l' := by
  induction l with
  | nil => rfl
  | cons a as ih =>
    simp only [List.find?_cons] at h
    split at h
    · cases h
    · next hp => simp [modifyFirst_cons, hp, ih h]

/-- Edit the first element satisfying `p`, or append `a` if there is none. -/
def modifyOrPush (p : α → Bool) (f : α → α) (a : α) (l : List α) : List α :=
  if (l.find? p).isSome then modifyFirst p f l else l ++ [a]

/-- Take out the first element satisfying `p`: `v.iter().position(p)` followed by
`v.remove(index)`, returning the element and the rest of the vector in order. -/
def removeFirst (p : α → Bool) : List α → Option (α × List α)
  | [] => none
  | a :: as => if p a then some (a, as) else (removeFirst p as).map fun r => (r.1, a :: r.2)

/-- `removeFirst` on a cons: the head is taken out when it matches, else the search goes on in the
tail. -/
theorem removeFirst_cons (p : α → Bool) (a : α) (as : List α) :
    removeFirst p (a :: as) =
      if p a then some (a, as) else (removeFirst p as).map fun r => (r.1, a :: r.2) := rfl

/-- `removeFirst` finds nothing exactly when no element matches. -/
theorem removeFirst_eq_none_iff {p : α → Bool} :
    ∀ {l : List α}, removeFirst p l = none ↔ ∀ a ∈ l, p a = false
  | [] => by simp [removeFirst]
  | a :: as => by
    rw [removeFirst_cons]
    split
    · next hp => simp [hp]
    · next hp => simp [Option.map_eq_none_iff, removeFirst_eq_none_iff, hp]

/-- The element taken out and the rest are the list, reordered. -/
theorem removeFirst_perm {p : α → Bool} :
    ∀ {l l' : List α} {a : α}, removeFirst p l = some (a, l') → (a :: l').Perm l
  | [], _, _, h => by cases h
  | b :: bs, l', a, h => by
    rw [removeFirst_cons] at h
    split at h
    · cases h
      exact List.Perm.refl _
    · obtain ⟨⟨a', l''⟩, hr, he⟩ := Option.map_eq_some_iff.mp h
      cases he
      exact (List.Perm.swap _ _ _).trans ((removeFirst_perm hr).cons b)

/-- What `removeFirst` leaves is a sublist of the list. -/
theorem removeFirst_sublist {p : α → Bool} :
    ∀ {l l' : List α} {a : α}, removeFirst p l = some (a, l') → l'.Sublist l
  | [], _, _, h => by cases h
  | b :: bs, l', a, h => by
    rw [removeFirst_cons] at h
    split at h
    · cases h
      exact List.sublist_cons_self b bs
    · obtain ⟨⟨a', l''⟩, hr, he⟩ := Option.map_eq_some_iff.mp h
      cases he
      exact (removeFirst_sublist hr).cons_cons b

/-- `removeFirst` takes out one element. -/
theorem length_removeFirst {p : α → Bool} {l l' : List α} {a : α}
    (h : removeFirst p l = some (a, l')) : l'.length + 1 = l.length :=
  (removeFirst_perm h).length_eq

/-! ## Removing elements by index -/

/-- `Vec::remove`: the vector without its element at `i`; it panics when `i` is out of bounds. -/
def removeAt (l : List α) (i : Nat) : Option (List α) :=
  if i < l.length then some (l.eraseIdx i) else none

/-- The elements of `l`, numbered from `k`, whose numbers are not in `is`. -/
def dropIndices (is : List Nat) (k : Nat) (l : List α) : List α :=
  ((l.zipIdx k).filter fun x => x.2 ∉ is).map Prod.fst

/-- `dropIndices` on a cons: the head is dropped when its index is listed. -/
theorem dropIndices_cons (is : List Nat) (k : Nat) (a : α) (l : List α) :
    dropIndices is k (a :: l) = (if k ∈ is then [] else [a]) ++ dropIndices is (k + 1) l := by
  by_cases hk : k ∈ is <;> simp [dropIndices, List.zipIdx_cons, hk]

/-- What `dropIndices` leaves is a sublist of the list. -/
theorem dropIndices_sublist (is : List Nat) (k : Nat) (l : List α) :
    (dropIndices is k l).Sublist l := by
  induction l generalizing k with
  | nil => exact List.Sublist.slnil
  | cons a l ih =>
    rw [dropIndices_cons]
    split_ifs
    · exact (ih (k + 1)).cons a
    · exact (ih (k + 1)).cons_cons a

/-- No element numbered from `k` is dropped by indices below `k`. -/
theorem dropIndices_of_lt {is : List Nat} {k : Nat} (h : ∀ i ∈ is, i < k) (l : List α) :
    dropIndices is k l = l := by
  induction l generalizing k with
  | nil => rfl
  | cons a l ih =>
    have hk : k ∉ is := fun hk => Nat.lt_irrefl k (h k hk)
    rw [dropIndices_cons, if_neg hk, ih fun i hi => Nat.lt_succ_of_lt (h i hi)]
    rfl

/-- An index that no element numbered from `k` has can be dropped from the indices. -/
theorem dropIndices_cons_of_lt {is : List Nat} {i k : Nat} (hi : i < k) (l : List α) :
    dropIndices (i :: is) k l = dropIndices is k l := by
  induction l generalizing k with
  | nil => rfl
  | cons a l ih =>
    have hk : k ∈ i :: is ↔ k ∈ is := by
      rw [List.mem_cons]
      exact ⟨fun h => h.resolve_left (by omega), Or.inr⟩
    rw [dropIndices_cons, dropIndices_cons, ih (Nat.lt_succ_of_lt hi)]
    simp only [hk]

/-- Removing the element at `k + i` drops it, when the other indices are smaller. -/
theorem dropIndices_eraseIdx {is : List Nat} {l : List α} {k i : Nat} (hi : i < l.length)
    (hlt : ∀ j ∈ is, j < k + i) :
    dropIndices is k (l.eraseIdx i) = dropIndices (is ++ [k + i]) k l := by
  induction l generalizing k i with
  | nil => cases hi
  | cons a l ih =>
    cases i with
    | zero =>
      -- the removed head is the only element numbered below `k + 1`
      have hk : k ∈ is ++ [k + 0] := List.mem_append_right _ (List.mem_singleton_self _)
      rw [List.eraseIdx_cons_zero, dropIndices_cons, if_pos hk, List.nil_append,
        dropIndices_of_lt (fun j hj => by simpa using hlt j hj),
        dropIndices_of_lt fun j hj => by
          rcases List.mem_append.mp hj with hj | hj
          · exact Nat.lt_succ_of_lt (by simpa using hlt j hj)
          · rw [List.mem_singleton.mp hj]
            omega]
    | succ i =>
      have hk : k ∈ is ++ [k + (i + 1)] ↔ k ∈ is := by
        rw [List.mem_append, List.mem_singleton]
        exact ⟨fun h => h.resolve_right (by omega), Or.inl⟩
      rw [List.eraseIdx_cons_succ, dropIndices_cons, dropIndices_cons,
        ih (Nat.lt_of_succ_lt_succ hi) fun j hj => by have := hlt j hj; omega]
      simp only [hk, show k + 1 + i = k + (i + 1) by omega]

/-- **Removing indices from the last one.** Removing the elements at increasing indices, in
bounds, from the last one down, never panics and keeps the other elements in order. -/
theorem foldlM_removeAt_reverse {is : List Nat} (hsorted : is.Pairwise (· < ·)) {l : List α}
    (hlt : ∀ i ∈ is, i < l.length) : is.reverse.foldlM removeAt l = some (dropIndices is 0 l) := by
  induction is using List.reverseRecOn generalizing l with
  | nil => exact congrArg some (dropIndices_of_lt (fun _ h => absurd h List.not_mem_nil) l).symm
  | append_singleton is i ih =>
    rw [List.pairwise_append] at hsorted
    have hi : i < l.length := hlt i (List.mem_append_right _ (List.mem_singleton_self _))
    have hbelow : ∀ j ∈ is, j < i := fun j hj => hsorted.2.2 j hj i (List.mem_singleton_self _)
    rw [List.reverse_append, List.reverse_singleton, List.singleton_append, List.foldlM_cons]
    show (removeAt l i).bind _ = _
    rw [removeAt, if_pos hi, Option.bind_some,
      ih hsorted.1 fun j hj => by rw [List.length_eraseIdx_of_lt hi]; have := hbelow j hj; omega,
      dropIndices_eraseIdx hi fun j hj => by simpa using hbelow j hj, Nat.zero_add]

/-! ## Keyed vectors -/

section Keyed

variable [DecidableEq β] (key : α → β)

/-- No element has key `b` exactly when `b` is not among the keys. -/
theorem find?_key_eq_none_iff {l : List α} {b : β} :
    l.find? (fun x => key x == b) = none ↔ b ∉ l.map key := by
  simp [List.find?_eq_none]

/-- With distinct keys, the lookup of `b` finds exactly the element of key `b`. -/
theorem find?_key_eq_some_iff {l : List α} {b : β} {a : α} (hnd : (l.map key).Nodup) :
    l.find? (fun x => key x == b) = some a ↔ a ∈ l ∧ key a = b := by
  constructor
  · intro h
    exact ⟨List.mem_of_find?_eq_some h, by simpa using List.find?_some h⟩
  · rintro ⟨ha, rfl⟩
    induction l with
    | nil => simp at ha
    | cons x xs ih =>
      simp only [List.map_cons, List.nodup_cons] at hnd
      rw [List.find?_cons]
      rcases List.mem_cons.mp ha with rfl | ha'
      · simp
      · -- `x` has another key, since `key a` occurs in the tail
        have hne : key x ≠ key a := fun he => hnd.1 (he ▸ List.mem_map_of_mem ha')
        rw [beq_false_of_ne hne]
        exact ih hnd.2 ha'

/-- With distinct keys, reordering the vector does not change any lookup. -/
theorem find?_key_perm {l l' : List α} (hnd : (l.map key).Nodup) (hp : l.Perm l') (b : β) :
    l'.find? (fun x => key x == b) = l.find? (fun x => key x == b) := by
  have hnd' : (l'.map key).Nodup := ((hp.map key).nodup_iff).mp hnd
  apply Option.ext
  intro a
  rw [find?_key_eq_some_iff key hnd', find?_key_eq_some_iff key hnd, hp.mem_iff]

/-- With distinct keys, `retain` keeps the element of key `b` exactly when it passes. -/
theorem find?_key_filter {l : List α} (hnd : (l.map key).Nodup) (p : α → Bool) (b : β) :
    (l.filter p).find? (fun x => key x == b) = (l.find? (fun x => key x == b)).filter p := by
  have hnd' : ((l.filter p).map key).Nodup := hnd.sublist (List.filter_sublist.map key)
  apply Option.ext
  intro a
  rw [find?_key_eq_some_iff key hnd', Option.filter_eq_some_iff, find?_key_eq_some_iff key hnd,
    List.mem_filter]
  tauto

/-- Editing the element of key `b` by a key-preserving `f` changes the lookup of `b` only. -/
theorem find?_key_modifyFirst {f : α → α} (hf : ∀ x, key (f x) = key x) (l : List α)
    (b b' : β) :
    (modifyFirst (fun x => key x == b) f l).find? (fun x => key x == b') =
      if b' = b then (l.find? (fun x => key x == b)).map f
      else l.find? (fun x => key x == b') := by
  induction l with
  | nil => split <;> rfl
  | cons x xs ih =>
    rw [modifyFirst_cons]
    by_cases hx : key x = b
    · subst hx
      by_cases hb : b' = key x
      · subst hb; simp [hf]
      · simp [hf, Ne.symm hb, hb]
    · by_cases hb : b' = key x
      · subst hb
        simp [hx]
      · simp [hx, Ne.symm hb, ih]

/-- In a list whose keys are distinct from the key of `a`, the search of a key in `l ++ [a]` finds
`a` for its key and the search in `l` for any other. -/
theorem find?_key_append_of_eq_none {l : List α} {a : α}
    (h : l.find? (fun x => key x == key a) = none) (b : β) :
    (l ++ [a]).find? (fun x => key x == b) =
      if b = key a then some a else l.find? (fun x => key x == b) := by
  rw [List.find?_append]
  by_cases hb : b = key a
  · subst hb; simp [h]
  · simp [hb, Ne.symm hb]

/-- The lookup after `modifyOrPush`: the edited element, or the edit of the pushed default. -/
theorem find?_key_modifyOrPush {f : α → α} (hf : ∀ x, key (f x) = key x) (l : List α)
    (a₀ : α) (b : β) (ha : key a₀ = b) (b' : β) :
    (modifyOrPush (fun x => key x == b) f (f a₀) l).find? (fun x => key x == b') =
      if b' = b then some (f ((l.find? (fun x => key x == b)).getD a₀))
      else l.find? (fun x => key x == b') := by
  unfold modifyOrPush
  split
  · next hs =>
    obtain ⟨x, hx⟩ := Option.isSome_iff_exists.mp hs
    rw [find?_key_modifyFirst key hf, hx]
    rfl
  · next hs =>
    have hn : l.find? (fun x => key x == key (f a₀)) = none := by
      rw [hf, ha]; simpa using hs
    rw [find?_key_append_of_eq_none key hn, hf, ha]
    simp only [Option.not_isSome_iff_eq_none.mp hs, Option.getD_none]

/-- `modifyOrPush` keeps the keys distinct. -/
theorem nodup_map_modifyOrPush {f : α → α} (hf : ∀ x, key (f x) = key x) {l : List α}
    (hnd : (l.map key).Nodup) {a : α} {b : β} (ha : key a = b) :
    ((modifyOrPush (fun x => key x == b) f a l).map key).Nodup := by
  unfold modifyOrPush
  split
  · rwa [map_modifyFirst hf]
  · next hs =>
    have hb : b ∉ l.map key := (find?_key_eq_none_iff key).mp (by simpa using hs)
    rw [List.map_append, List.nodup_append]
    refine ⟨hnd, by simp, ?_⟩
    simp only [List.map_cons, List.map_nil, List.mem_singleton, ha]
    rintro x hx _ rfl rfl
    exact hb hx

/-- Taking out the first element of key `b` erases the first `b` from the keys. -/
theorem map_removeFirst_key {b : β} :
    ∀ {l l' : List α} {a : α}, removeFirst (fun x => key x == b) l = some (a, l') →
      key a = b ∧ l'.map key = (l.map key).erase b
  | [], _, _, h => by cases h
  | c :: cs, l', a, h => by
    rw [removeFirst_cons] at h
    split at h
    · next hc =>
      cases h
      have hc : key c = b := by simpa using hc
      simp [hc]
    · next hc =>
      obtain ⟨⟨a', l''⟩, hr, he⟩ := Option.map_eq_some_iff.mp h
      cases he
      obtain ⟨ha, hmap⟩ := map_removeFirst_key hr
      have hc : key c ≠ b := by simpa using hc
      refine ⟨ha, ?_⟩
      rw [List.map_cons, List.map_cons, List.erase_cons_tail (by simpa using hc), hmap]

/-- Removing the element of key `b` succeeds exactly when `b` is among the keys. -/
theorem removeFirst_key_isSome_iff {l : List α} {b : β} :
    (removeFirst (fun x => key x == b) l).isSome ↔ b ∈ l.map key := by
  rw [← Option.ne_none_iff_isSome, Ne, removeFirst_eq_none_iff]
  simp

end Keyed

end Cumulus.Found
