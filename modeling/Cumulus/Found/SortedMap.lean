import Mathlib.Order.Basic
import Mathlib.Data.List.Pairwise
import Mathlib.Data.List.Nodup
import Mathlib.Order.Lattice

/-!
# Maps kept in key order

`BTreeMap` keeps its entries in increasing key order and iterates them in that order. A
`SortedMap` is the list of its entries with that order as a field, so that no value with a key
twice can be built. The operations are the ones the modelled code calls: `get?` (`get`),
`insert` (`insert`, and `entry(k).or_insert(..)` followed by a write), `filter` (`retain`) and
`ofList` (`collect`, where the last entry of a key wins). Each comes with its lookup lemma, so
that proofs about a map go through `get?` only; `mem_entries_iff` turns the iteration over
`entries` into lookups.
-/

namespace Cumulus.Found

variable {K V : Type*} [LinearOrder K]

/-! ## Entry lists in key order -/

/-- Insert into a list of entries in key order, replacing the entry of the same key. -/
def insertEntry (k : K) (v : V) : List (K × V) → List (K × V)
  | [] => [(k, v)]
  | e :: es =>
    if k < e.1 then (k, v) :: e :: es
    else if k = e.1 then (k, v) :: es
    else e :: insertEntry k v es

/-- `lookup` on an entry list: the head entry answers for its own key, the tail for any other. -/
theorem lookup_pair_cons (k k' : K) (v : V) (l : List (K × V)) :
    ((k, v) :: l).lookup k' = if k' = k then some v else l.lookup k' := by
  rw [List.lookup_cons]
  by_cases h : k' = k
  · simp [h]
  · rw [beq_eq_false_iff_ne.mpr h, if_neg h]

/-- The first entry of key `k'` after an insertion is the inserted one or the one before; this
needs no order on the list. -/
theorem lookup_insertEntry (k k' : K) (v : V) (l : List (K × V)) :
    (insertEntry k v l).lookup k' = if k' = k then some v else l.lookup k' := by
  induction l with
  | nil => simp [insertEntry, lookup_pair_cons, List.lookup_nil]
  | cons e es ih =>
    obtain ⟨k₁, v₁⟩ := e
    unfold insertEntry
    by_cases hlt : k < k₁
    · by_cases h : k' = k <;> simp [lookup_pair_cons, hlt, h]
    · by_cases heq : k = k₁
      · subst heq
        by_cases h : k' = k <;> simp [lookup_pair_cons, h]
      · -- the entry stays ahead of the inserted one, which goes further down
        by_cases h : k' = k
        · subst h
          simp [lookup_pair_cons, hlt, heq, ih]
        · by_cases h₁ : k' = k₁
          · subst h₁
            simp [hlt, heq, h]
          · simp [lookup_pair_cons, hlt, heq, h, h₁, ih]

/-- The keys after `insertEntry k` are `k` and the keys before. -/
theorem mem_keys_insertEntry {k x : K} {v : V} {l : List (K × V)}
    (h : x ∈ (insertEntry k v l).map Prod.fst) : x = k ∨ x ∈ l.map Prod.fst := by
  induction l with
  | nil => simpa [insertEntry] using h
  | cons e es ih =>
    unfold insertEntry at h
    split_ifs at h with hlt heq
    · simpa using h
    · rcases List.mem_cons.mp h with h | h
      · exact .inl h
      · exact .inr (List.mem_cons_of_mem _ h)
    · rcases List.mem_cons.mp h with h | h
      · exact .inr (h ▸ List.mem_cons_self)
      · rcases ih h with h | h
        · exact .inl h
        · exact .inr (List.mem_cons_of_mem _ h)

/-- `insertEntry` keeps the keys strictly increasing. -/
theorem sorted_insertEntry (k : K) (v : V) {l : List (K × V)}
    (h : (l.map Prod.fst).Pairwise (· < ·)) :
    ((insertEntry k v l).map Prod.fst).Pairwise (· < ·) := by
  induction l with
  | nil => simp [insertEntry]
  | cons e es ih =>
    rw [List.map_cons, List.pairwise_cons] at h
    unfold insertEntry
    split_ifs with hlt heq
    · refine List.Pairwise.cons ?_ (List.pairwise_cons.mpr h)
      intro x hx
      rcases List.mem_cons.mp hx with rfl | hx
      · exact hlt
      · exact hlt.trans (h.1 x hx)
    · subst heq
      exact List.Pairwise.cons h.1 h.2
    · refine List.Pairwise.cons ?_ (ih h.2)
      intro x hx
      rcases mem_keys_insertEntry hx with rfl | hx
      · exact lt_of_le_of_ne (not_lt.mp hlt) (Ne.symm heq)
      · exact h.1 x hx

/-- A key that no entry has is not found. -/
theorem lookup_eq_none_of_not_mem {k : K} {l : List (K × V)} (h : k ∉ l.map Prod.fst) :
    l.lookup k = none := by
  induction l with
  | nil => rfl
  | cons e es ih =>
    obtain ⟨k₁, v₁⟩ := e
    have hne : k ≠ k₁ := fun he => h (he ▸ List.mem_cons_self)
    rw [lookup_pair_cons, if_neg hne]
    exact ih fun hk => h (List.mem_cons_of_mem _ hk)

/-- A value found for a key is the value of an entry with that key. -/
theorem mem_of_lookup_eq_some {k : K} {v : V} {l : List (K × V)} (h : l.lookup k = some v) :
    (k, v) ∈ l := by
  induction l with
  | nil => simp [List.lookup_nil] at h
  | cons e es ih =>
    obtain ⟨k₁, v₁⟩ := e
    rw [lookup_pair_cons] at h
    by_cases hk : k = k₁
    · rw [if_pos hk, Option.some_inj] at h
      rw [hk, h]
      exact List.mem_cons_self
    · rw [if_neg hk] at h
      exact List.mem_cons_of_mem _ (ih h)

/-- In a list with each key once, an entry is its key's first entry. -/
theorem lookup_eq_some_of_mem {k : K} {v : V} {l : List (K × V)} (hnd : (l.map Prod.fst).Nodup)
    (h : (k, v) ∈ l) : l.lookup k = some v := by
  induction l with
  | nil => simp at h
  | cons e es ih =>
    obtain ⟨k₁, v₁⟩ := e
    rw [List.map_cons, List.nodup_cons] at hnd
    rw [lookup_pair_cons]
    rcases List.mem_cons.mp h with h | h
    · obtain ⟨rfl, rfl⟩ := Prod.mk.inj h
      rw [if_pos rfl]
    · have hne : k ≠ k₁ := fun he => hnd.1 (he ▸ List.mem_map.mpr ⟨_, h, rfl⟩)
      rw [if_neg hne]
      exact ih hnd.2 h

omit [LinearOrder K] in
/-- Replacing the value at an index keeps the keys. -/
theorem keys_set_of_getElem? {l : List (K × V)} {i : Nat} {k : K} {v : V} (v' : V)
    (h : l[i]? = some (k, v)) : (l.set i (k, v')).map Prod.fst = l.map Prod.fst := by
  apply List.ext_getElem?
  intro j
  rw [List.getElem?_map, List.getElem?_map]
  by_cases hij : i = j
  · subst hij
    have hi : i < l.length := (List.getElem?_eq_some_iff.mp h).1
    rw [List.getElem?_set_self hi, h]
    rfl
  · rw [List.getElem?_set_ne hij]

omit [LinearOrder K] in
/-- In a list with each key once, a key sits at one index only. -/
theorem index_eq_of_getElem?_key {l : List (K × V)} (hnd : (l.map Prod.fst).Nodup) {i j : Nat}
    {k : K} {v w : V} (hi : l[i]? = some (k, v)) (hj : l[j]? = some (k, w)) : i = j := by
  have hki : (l.map Prod.fst)[i]? = some k := by simp [hi]
  have hkj : (l.map Prod.fst)[j]? = some k := by simp [hj]
  have hil := (List.getElem?_eq_some_iff.mp hki).1
  have hjl := (List.getElem?_eq_some_iff.mp hkj).1
  have hne := List.nodup_iff_getElem?_ne_getElem?.mp hnd
  rcases Nat.lt_trichotomy i j with h | h | h
  · exact absurd (hki.trans hkj.symm) (hne i j h hjl)
  · exact h
  · exact absurd (hkj.trans hki.symm) (hne j i h hil)

/-! ## The map -/

/-- A finite map with its entries in strictly increasing key order. -/
structure SortedMap (K V : Type*) [LinearOrder K] where
  entries : List (K × V)
  sorted : (entries.map Prod.fst).Pairwise (· < ·)

namespace SortedMap

/-- The map without entries. -/
def empty : SortedMap K V := ⟨[], List.Pairwise.nil⟩

/-- The value of key `k`, if any. -/
def get? (m : SortedMap K V) (k : K) : Option V := m.entries.lookup k

/-- Set the value of key `k`. -/
def insert (m : SortedMap K V) (k : K) (v : V) : SortedMap K V :=
  ⟨insertEntry k v m.entries, sorted_insertEntry k v m.sorted⟩

/-- Keep the entries that satisfy `p` (`retain`). -/
def filter (p : K → V → Bool) (m : SortedMap K V) : SortedMap K V :=
  ⟨m.entries.filter fun e => p e.1 e.2,
    m.sorted.sublist (List.filter_sublist.map Prod.fst)⟩

/-- The map of a list of entries, a later entry of a key replacing an earlier one (`collect`). -/
def ofList (l : List (K × V)) : SortedMap K V :=
  l.foldl (fun m e => m.insert e.1 e.2) empty

@[simp] theorem get?_empty (k : K) : (empty : SortedMap K V).get? k = none := rfl

@[simp] theorem get?_insert (m : SortedMap K V) (k k' : K) (v : V) :
    (m.insert k v).get? k' = if k' = k then some v else m.get? k' :=
  lookup_insertEntry k k' v m.entries

/-- The value of a key just inserted is the inserted value. -/
theorem get?_insert_self (m : SortedMap K V) (k : K) (v : V) : (m.insert k v).get? k = some v := by
  simp

/-- Inserting one key leaves the value of every other key. -/
theorem get?_insert_of_ne (m : SortedMap K V) {k k' : K} (v : V) (h : k' ≠ k) :
    (m.insert k v).get? k' = m.get? k' := by
  simp [h]

@[simp] theorem get?_filter (p : K → V → Bool) (m : SortedMap K V) (k : K) :
    (m.filter p).get? k = (m.get? k).filter (p k) := by
  obtain ⟨entries, sorted⟩ := m
  simp only [get?, filter]
  induction entries with
  | nil => rfl
  | cons e es ih =>
    obtain ⟨k₁, v₁⟩ := e
    rw [List.map_cons, List.pairwise_cons] at sorted
    have ih := ih sorted.2
    by_cases hk : k = k₁
    · subst hk
      -- the key is not among the later entries, which all come after it
      have hnot : k ∉ es.map Prod.fst := fun hk => lt_irrefl _ (sorted.1 k hk)
      have hnone : (es.filter fun e => p e.1 e.2).lookup k = none :=
        lookup_eq_none_of_not_mem fun hk =>
          hnot ((List.filter_sublist.map Prod.fst).subset hk)
      by_cases hp : p k v₁ <;> simp [hp, hnone, Option.filter_some]
    · by_cases hp : p k₁ v₁ <;> simp [lookup_pair_cons, hp, hk, ih]

/-- After a list of entries is inserted in turn, a key has the value of its last entry in the list,
or else the value it had. -/
theorem get?_foldl_insert (l : List (K × V)) (m : SortedMap K V) (k : K) :
    (l.foldl (fun m e => m.insert e.1 e.2) m).get? k = (l.reverse.lookup k).or (m.get? k) := by
  induction l generalizing m with
  | nil => rfl
  | cons e l ih =>
    obtain ⟨k₁, v₁⟩ := e
    rw [List.foldl_cons, ih, List.reverse_cons, List.lookup_append, Option.or_assoc, get?_insert,
      lookup_pair_cons]
    by_cases hk : k = k₁ <;> simp [hk]

/-- The last entry of a key in the list wins. -/
theorem get?_ofList (l : List (K × V)) (k : K) : (ofList l).get? k = l.reverse.lookup k := by
  rw [ofList, get?_foldl_insert, get?_empty, Option.or_none]

/-- A sorted map has no key twice. -/
theorem keys_nodup (m : SortedMap K V) : (m.entries.map Prod.fst).Nodup :=
  m.sorted.imp ne_of_lt

/-- The value of a key in `ofList` is that of an entry of the list. -/
theorem mem_of_get?_ofList {l : List (K × V)} {k : K} {v : V} (h : (ofList l).get? k = some v) :
    (k, v) ∈ l :=
  List.mem_reverse.mp (mem_of_lookup_eq_some ((get?_ofList l k).symm.trans h))

/-- In `ofList` of a list with each key once, every entry is found. -/
theorem get?_ofList_of_mem {l : List (K × V)} {k : K} {v : V} (hnd : (l.map Prod.fst).Nodup)
    (h : (k, v) ∈ l) : (ofList l).get? k = some v := by
  rw [get?_ofList]
  refine lookup_eq_some_of_mem ?_ (List.mem_reverse.mpr h)
  rw [List.map_reverse]
  exact List.nodup_reverse.mpr hnd

/-- An entry of the map is its key's value. -/
theorem mem_entries_iff {m : SortedMap K V} {k : K} {v : V} :
    (k, v) ∈ m.entries ↔ m.get? k = some v := by
  obtain ⟨entries, sorted⟩ := m
  simp only [get?]
  induction entries with
  | nil => simp [List.lookup_nil]
  | cons e es ih =>
    obtain ⟨k₁, v₁⟩ := e
    rw [List.map_cons, List.pairwise_cons] at sorted
    by_cases hk : k = k₁
    · subst hk
      have hnot : k ∉ es.map Prod.fst := fun hk => lt_irrefl _ (sorted.1 k hk)
      have hmem : (k, v) ∉ es := fun h => hnot (List.mem_map.mpr ⟨_, h, rfl⟩)
      simp [hmem, eq_comm]
    · simp [lookup_pair_cons, hk, ih sorted.2]

end SortedMap

end Cumulus.Found
