import Mathlib.Order.Basic
import Mathlib.Data.List.Pairwise
import Mathlib.Data.List.InsertIdx
import Mathlib.Order.Lattice

/-!
# Rust's `slice::binary_search_by`

The pallets look entries up in `Vec`s kept sorted by a key with `binary_search_by_key`, and one
of them (`handle_xcmp_messages`) searches a vector that is *not* sorted at the time of the
search. The result on an unsorted slice is "unspecified" in Rust's documentation, so the model
cannot take the specification of a binary search in place of the code: `binarySearchBy` is the
algorithm of the Rust standard library (`core::slice::binary_search_by`, as shipped from 1.52 to
1.81) step for step, over a list.

* `binarySearchLoop` / `binarySearchBy` / `binarySearchByKey` — the loop `while left < right`,
  probing `mid = left + size / 2`; `Except.ok i` is Rust's `Ok(i)` (found at `i`) and
  `Except.error i` is `Err(i)`. The loop runs on explicit fuel, `length + 1`, which it never
  exhausts (`binarySearchLoop_error_not_mem` carries the fuel bound).
* `binarySearchLoop_ok_sound` — on *any* list, `Ok(i)` points at an element that compares equal.
* `binarySearchByKey_isOk_iff` — on a list whose keys are strictly increasing, the search
  succeeds exactly when the key is present.
-/

namespace Cumulus.Found

variable {α β : Type*}

/-- The `while left < right` loop of `binary_search_by` on the window `[left, right)`; `fuel`
bounds the number of iterations. The `none` branch of the probe is never taken when
`right ≤ xs.length` (Rust reads the element with `get_unchecked`).
Source: Rust `core::slice::binary_search_by` -/
def binarySearchLoop (xs : List α) (f : α → Ordering) : Nat → Nat → Nat → Except Nat Nat
  | 0, left, _ => .error left
  | fuel + 1, left, right =>
    if left < right then
      let mid := left + (right - left) / 2
      match xs[mid]? with
      | some x =>
        match f x with
        | .lt => binarySearchLoop xs f fuel (mid + 1) right
        | .gt => binarySearchLoop xs f fuel left mid
        | .eq => .ok mid
      | none => .error left
    else .error left

/-- Rust's `binary_search_by`: `Ok(i)` if the probe at `i` compared equal, else `Err(left)`.
Source: Rust `core::slice::binary_search_by` -/
def binarySearchBy (xs : List α) (f : α → Ordering) : Except Nat Nat :=
  binarySearchLoop xs f (xs.length + 1) 0 xs.length

/-- Rust's `binary_search_by_key(&b, key)`, i.e. `binary_search_by(|x| key(x).cmp(&b))`.
Source: Rust `core::slice::binary_search_by_key` -/
def binarySearchByKey [Ord β] (xs : List α) (b : β) (key : α → β) : Except Nat Nat :=
  binarySearchBy xs fun x => compare (key x) b

/-! ## Soundness of a hit, on any list -/

/-- A hit `Ok(i)` is an index whose element compares equal, whatever the order of the list. -/
theorem binarySearchLoop_ok_sound {xs : List α} {f : α → Ordering} :
    ∀ {fuel left right i : Nat}, binarySearchLoop xs f fuel left right = .ok i →
      ∃ x, xs[i]? = some x ∧ f x = .eq
  | 0, _, _, _, h => by simp [binarySearchLoop] at h
  | fuel + 1, left, right, i, h => by
    simp only [binarySearchLoop] at h
    split at h
    · split at h
      · next x hx =>
        split at h
        · exact binarySearchLoop_ok_sound h
        · exact binarySearchLoop_ok_sound h
        · next hc =>
          cases h
          exact ⟨x, hx, hc⟩
      · cases h
    · cases h

/-- A hit `Ok(i)` of `binary_search_by_key` is an index of the list whose element has the key
searched for. -/
theorem binarySearchByKey_ok_sound [LinearOrder β] {xs : List α} {b : β} {key : α → β}
    {i : Nat} (h : binarySearchByKey xs b key = .ok i) : ∃ x, xs[i]? = some x ∧ key x = b := by
  obtain ⟨x, hx, hc⟩ := binarySearchLoop_ok_sound h
  exact ⟨x, hx, compare_eq_iff_eq.mp hc⟩

/-- A search that succeeds found the key, on any list. -/
theorem mem_of_binarySearchByKey_isOk [LinearOrder β] {xs : List α} {b : β} {key : α → β}
    (h : (binarySearchByKey xs b key).isOk = true) : b ∈ xs.map key := by
  cases hr : binarySearchByKey xs b key with
  | error e => simp [hr, Except.isOk, Except.toBool] at h
  | ok i =>
    obtain ⟨x, hx, hkey⟩ := binarySearchByKey_ok_sound hr
    exact List.mem_map.mpr ⟨x, List.mem_of_getElem? hx, hkey⟩

/-! ## Completeness on a sorted list -/

section sorted

variable [LinearOrder β] {xs : List α} {b : β} {key : α → β}

/-- The loop invariant: everything left of the window is below the key, everything right of it
above. -/
def SearchInv (xs : List α) (b : β) (key : α → β) (left right : Nat) : Prop :=
  left ≤ right ∧ right ≤ xs.length ∧
    (∀ i (h : i < xs.length), i < left → key xs[i] < b) ∧
    (∀ i (h : i < xs.length), right ≤ i → b < key xs[i])

/-- On keys sorted with repeats allowed, a later index has a key at least as large. -/
theorem key_le_key_of_sorted (hs : (xs.map key).Pairwise (· ≤ ·)) {i j : Nat} (hij : i ≤ j)
    (hi : i < xs.length) (hj : j < xs.length) : key xs[i] ≤ key xs[j] := by
  rcases Nat.lt_or_eq_of_le hij with h | rfl
  · have h' := List.pairwise_iff_getElem.mp hs i j (by simpa using hi) (by simpa using hj) h
    simpa using h'
  · exact le_rfl

/-- A miss `Err(e)` from a window satisfying the invariant, with enough fuel, stops at a split
point: the invariant holds of the empty window at `e`. The keys need only be sorted, with repeats
allowed. -/
theorem binarySearchLoop_error_searchInv_of_sorted (hs : (xs.map key).Pairwise (· ≤ ·)) :
    ∀ {fuel left right e : Nat}, SearchInv xs b key left right → right - left < fuel →
      binarySearchLoop xs (fun x => compare (key x) b) fuel left right = .error e →
      SearchInv xs b key e e
  | 0, _, _, _, _, hfuel, _ => by omega
  | fuel + 1, left, right, e, hinv, hfuel, h => by
    obtain ⟨hlr, hright, hbelow, habove⟩ := hinv
    simp only [binarySearchLoop] at h
    split at h
    · next hlt =>
      have hmid : left + (right - left) / 2 < xs.length := by omega
      rw [List.getElem?_eq_getElem hmid] at h
      simp only at h
      split at h
      · -- the probe is below the key: search right of it
        next hc =>
        have hlt' : key xs[left + (right - left) / 2] < b := compare_lt_iff_lt.mp hc
        refine binarySearchLoop_error_searchInv_of_sorted hs ⟨by omega, hright, ?_, habove⟩ (by omega) h
        intro i hi hile
        exact lt_of_le_of_lt (key_le_key_of_sorted hs (by omega) hi hmid) hlt'
      · -- the probe is above the key: search left of it
        next hc =>
        have hgt : b < key xs[left + (right - left) / 2] := compare_gt_iff_gt.mp hc
        refine binarySearchLoop_error_searchInv_of_sorted hs ⟨by omega, by omega, hbelow, ?_⟩ (by omega) h
        intro i hi hile
        exact lt_of_lt_of_le hgt (key_le_key_of_sorted hs hile hmid hi)
      · cases h
    · next hge =>
      cases h
      exact ⟨Nat.le_refl _, by omega, hbelow, fun i hi hle => habove i hi (by omega)⟩

/-- On strictly increasing keys, a miss `Err(e)` from a window that satisfies the invariant leaves
the empty window `[e, e)` satisfying it: `e` is the split point of the key. -/
theorem binarySearchLoop_error_searchInv (hs : (xs.map key).Pairwise (· < ·)) {fuel left right e : Nat}
    (hinv : SearchInv xs b key left right) (hfuel : right - left < fuel)
    (h : binarySearchLoop xs (fun x => compare (key x) b) fuel left right = .error e) :
    SearchInv xs b key e e :=
  binarySearchLoop_error_searchInv_of_sorted (hs.imp le_of_lt) hinv hfuel h

/-- A miss `Err(_)` from a window satisfying the invariant, with enough fuel, means the key is
absent. -/
theorem binarySearchLoop_error_not_mem (hs : (xs.map key).Pairwise (· < ·)) {fuel left right e : Nat}
    (hinv : SearchInv xs b key left right) (hfuel : right - left < fuel)
    (h : binarySearchLoop xs (fun x => compare (key x) b) fuel left right = .error e) :
    ∀ i (h : i < xs.length), key xs[i] ≠ b := by
  intro i hi heq
  obtain ⟨-, -, hbelow, habove⟩ := binarySearchLoop_error_searchInv hs hinv hfuel h
  by_cases hie : i < e
  · exact (hbelow i hi hie).ne heq
  · exact (habove i hi (by omega)).ne' heq

/-- The whole list is the first window. -/
theorem searchInv_init : SearchInv xs b key 0 xs.length :=
  ⟨Nat.zero_le _, Nat.le_refl _, fun _ _ h => absurd h (Nat.not_lt_zero _),
    fun _ hi hle => absurd hi (Nat.not_lt_of_le hle)⟩

/-- On a list with strictly increasing keys, the search succeeds exactly when the key is
present. -/
theorem binarySearchByKey_isOk_iff (hs : (xs.map key).Pairwise (· < ·)) :
    (binarySearchByKey xs b key).isOk = true ↔ b ∈ xs.map key := by
  constructor
  · intro h
    cases hr : binarySearchByKey xs b key with
    | error e => simp [hr, Except.isOk, Except.toBool] at h
    | ok i =>
      obtain ⟨x, hx, rfl⟩ := binarySearchByKey_ok_sound hr
      exact List.mem_map.mpr ⟨x, List.mem_of_getElem? hx, rfl⟩
  · intro hmem
    cases hr : binarySearchByKey xs b key with
    | ok i => rfl
    | error e =>
      have hne := binarySearchLoop_error_not_mem hs searchInv_init (by omega) hr
      obtain ⟨x, hx, hkey⟩ := List.mem_map.mp hmem
      obtain ⟨i, hi, rfl⟩ := List.getElem_of_mem hx
      exact absurd hkey (hne i hi)

/-- On a list with strictly increasing keys, a miss means the key is absent. -/
theorem binarySearchByKey_error_not_mem (hs : (xs.map key).Pairwise (· < ·)) {e : Nat}
    (h : binarySearchByKey xs b key = .error e) : b ∉ xs.map key := by
  intro hmem
  have := (binarySearchByKey_isOk_iff hs).mpr hmem
  simp [h, Except.isOk, Except.toBool] at this

/-- On a list with sorted keys, a miss `Err(e)` is a split point of the key. -/
theorem binarySearchByKey_error_searchInv_of_sorted (hs : (xs.map key).Pairwise (· ≤ ·)) {e : Nat}
    (h : binarySearchByKey xs b key = .error e) : SearchInv xs b key e e :=
  binarySearchLoop_error_searchInv_of_sorted hs searchInv_init (by omega) h

/-- On a list with strictly increasing keys, a miss `Err(e)` is the split point of the key. -/
theorem binarySearchByKey_error_searchInv (hs : (xs.map key).Pairwise (· < ·)) {e : Nat}
    (h : binarySearchByKey xs b key = .error e) : SearchInv xs b key e e :=
  binarySearchByKey_error_searchInv_of_sorted (hs.imp le_of_lt) h

/-- Inserting `a` at a split point of its key keeps the keys in any order `r` that holds between
increasing keys: strictly increasing, or sorted. -/
theorem pairwise_map_insertIdx_of {r : β → β → Prop} (hr : ∀ {x y : β}, x < y → r x y) {a : α} :
    ∀ {xs : List α} {e : Nat}, (xs.map key).Pairwise r → SearchInv xs (key a) key e e →
      ((xs.insertIdx e a).map key).Pairwise r
  | xs, 0, hs, ⟨_, _, _, habove⟩ => by
    rw [List.insertIdx_zero, List.map_cons, List.pairwise_cons]
    refine ⟨?_, hs⟩
    intro y hy
    obtain ⟨i, hi, rfl⟩ := List.getElem_of_mem hy
    exact hr (by simpa using habove i (by simpa using hi) (Nat.zero_le _))
  | [], _ + 1, _, ⟨_, he, _, _⟩ => absurd he (by simp)
  | x :: xs, e + 1, hs, ⟨_, he, hbelow, habove⟩ => by
    rw [List.map_cons, List.pairwise_cons] at hs
    rw [List.insertIdx_succ_cons, List.map_cons, List.pairwise_cons]
    have hinv : SearchInv xs (key a) key e e :=
      ⟨Nat.le_refl _, by simpa using he,
        fun i hi hie => hbelow (i + 1) (Nat.succ_lt_succ hi) (by omega),
        fun i hi hei => habove (i + 1) (Nat.succ_lt_succ hi) (by omega)⟩
    refine ⟨?_, pairwise_map_insertIdx_of hr hs.2 hinv⟩
    intro y hy
    obtain ⟨z, hz, rfl⟩ := List.mem_map.mp hy
    rcases List.eq_or_mem_of_mem_insertIdx hz with rfl | hz
    · exact hr (hbelow 0 (Nat.zero_lt_succ _) (by omega))
    · exact hs.1 _ (List.mem_map_of_mem hz)

/-- Inserting `a` at a split point of its key keeps the keys strictly increasing. -/
theorem pairwise_map_insertIdx {a : α} {xs : List α} {e : Nat} (hs : (xs.map key).Pairwise (· < ·))
    (hinv : SearchInv xs (key a) key e e) : ((xs.insertIdx e a).map key).Pairwise (· < ·) :=
  pairwise_map_insertIdx_of id hs hinv

end sorted

end Cumulus.Found
