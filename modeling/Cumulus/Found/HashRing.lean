import Mathlib.Data.List.Induction
import Mathlib.Data.List.Nodup
import Mathlib.Logic.Function.Basic

/-!
# A ring of keys over a keyed store

A storage ring keeps the keys of the last `K` insertions in slots `0 .. K - 1`, written in turn,
and a store holds a value for each key of the ring: a new key goes into the slot of the oldest one,
and that key is dropped from the store.

* `insertPrune` — the store after a key goes into a slot: the new key is stored and the key the
  slot held is dropped;
* `RingKeys` — the keys of the store are the keys of the ring; `RingKeys.insertPrune` — kept by an
  insertion when no key is in two slots (`RingInjective`) and the new key is in none;
* `slots` — the keys of a ring of `K` slots, at most `K` of them (`length_slots_le`);
* `ringOf K log` — the ring after the keys of `log` are written in turn from slot `0`: slot `i`
  holds the last key whose index is `i` modulo `K` (`ringOf_eq_some_iff`), so the keys of the ring
  are the last `min (length log) K` keys of `log` (`mem_window_iff`).
-/

namespace Cumulus.Found

variable {α β : Type*}

/-! ## A store that follows its ring -/

section store

variable [DecidableEq α]

/-- The store after `x` is stored with `v` in the slot that held `old`, which is dropped. -/
def insertPrune (store : α → Option β) (old : Option α) (x : α) (v : β) : α → Option β :=
  match old with
  | some o => Function.update (Function.update store x (some v)) o none
  | none => Function.update store x (some v)

/-- The keys of the store are the keys of the ring. -/
def RingKeys (store : α → Option β) (ring : Nat → Option α) : Prop :=
  ∀ y, (store y).isSome ↔ ∃ i, ring i = some y

/-- No key is in two slots. -/
def RingInjective (ring : Nat → Option α) : Prop :=
  ∀ i i' y, ring i = some y → ring i' = some y → i = i'

variable {ring : Nat → Option α} {x : α}

omit [DecidableEq α] in
/-- Writing into a slot a key that no slot holds keeps every key in at most one slot. -/
theorem RingInjective.update (hinj : RingInjective ring) (hx : ∀ i, ring i ≠ some x)
    (pos : Nat) : RingInjective (Function.update ring pos (some x)) := by
  intro i i' y hi hi'
  rw [Function.update_apply] at hi hi'
  split_ifs at hi hi' with h h'
  · exact h.trans h'.symm
  · cases hi
    exact absurd hi' (hx i')
  · cases hi'
    exact absurd hi (hx i)
  · exact hinj i i' y hi hi'

/-- **The store follows the ring.** Storing a key that is in no slot into slot `pos` keeps the keys
of the store those of the ring: the key the slot held leaves both. -/
theorem RingKeys.insertPrune {store : α → Option β} (hkeys : RingKeys store ring)
    (hinj : RingInjective ring) (hx : ∀ i, ring i ≠ some x) (pos : Nat) (v : β) :
    RingKeys (Cumulus.Found.insertPrune store (ring pos) x v)
      (Function.update ring pos (some x)) := by
  intro y
  -- a key other than `x` is in the new ring exactly when it is in a slot other than `pos`
  have hring : y ≠ x → ((∃ i, Function.update ring pos (some x) i = some y) ↔
      ∃ i, i ≠ pos ∧ ring i = some y) := by
    intro hyx
    constructor
    · rintro ⟨i, hi⟩
      rw [Function.update_apply] at hi
      split_ifs at hi with h
      · exact absurd (Option.some.inj hi).symm hyx
      · exact ⟨i, h, hi⟩
    · rintro ⟨i, hi, hy⟩
      exact ⟨i, by rw [Function.update_of_ne hi]; exact hy⟩
  by_cases hyx : y = x
  · subst hyx
    have hnew : ∃ i, Function.update ring pos (some y) i = some y :=
      ⟨pos, Function.update_self _ _ _⟩
    rcases hpos : ring pos with _ | o
    · simp [Cumulus.Found.insertPrune, hnew]
    · have hoy : y ≠ o := fun h => hx pos (h ▸ hpos)
      simp [Cumulus.Found.insertPrune, Function.update_of_ne hoy, hnew]
  · rw [hring hyx]
    rcases hpos : ring pos with _ | o
    · simp only [Cumulus.Found.insertPrune, Function.update_of_ne hyx]
      rw [hkeys y]
      constructor
      · rintro ⟨i, hi⟩
        refine ⟨i, fun h => ?_, hi⟩
        rw [h, hpos] at hi
        cases hi
      · rintro ⟨i, -, hi⟩
        exact ⟨i, hi⟩
    · simp only [Cumulus.Found.insertPrune]
      by_cases hyo : y = o
      · -- the key the slot held is in no other slot
        subst hyo
        simp only [Function.update_self, Option.isSome_none, Bool.false_eq_true, false_iff]
        rintro ⟨i, hi, hy⟩
        exact hi (hinj i pos y hy hpos)
      · rw [Function.update_of_ne hyo, Function.update_of_ne hyx, hkeys y]
        constructor
        · rintro ⟨i, hi⟩
          refine ⟨i, fun h => ?_, hi⟩
          rw [h, hpos] at hi
          exact hyo (Option.some.inj hi).symm
        · rintro ⟨i, -, hi⟩
          exact ⟨i, hi⟩

/-- A value of the store after an insertion is the new one, or one the store held. -/
theorem eq_or_of_insertPrune_eq_some {store : α → Option β} {old : Option α} {x y : α} {v w : β}
    (h : Cumulus.Found.insertPrune store old x v y = some w) : (y = x ∧ w = v) ∨ store y = some w := by
  have hinsert : Function.update store x (some v) y = some w → (y = x ∧ w = v) ∨ store y = some w := by
    intro hy
    rw [Function.update_apply] at hy
    split_ifs at hy with hyx
    · exact .inl ⟨hyx, (Option.some.inj hy).symm⟩
    · exact .inr hy
  cases old with
  | none => exact hinsert h
  | some o =>
    -- the key the slot held now has no value
    rw [Cumulus.Found.insertPrune, Function.update_apply] at h
    split_ifs at h with hyo
    exact hinsert h

end store

/-! ## The keys of a ring -/

/-- The keys of the first `K` slots, in slot order. -/
def slots (K : Nat) (ring : Nat → Option α) : List α :=
  (List.range K).filterMap ring

variable {K : Nat} {ring : Nat → Option α} {y : α}

/-- When only the first `K` slots are used, a key is listed by `slots` exactly when some slot holds
it. -/
theorem mem_slots_iff (hlt : ∀ i y, ring i = some y → i < K) :
    y ∈ slots K ring ↔ ∃ i, ring i = some y := by
  rw [slots, List.mem_filterMap]
  constructor
  · rintro ⟨i, -, hi⟩
    exact ⟨i, hi⟩
  · rintro ⟨i, hi⟩
    exact ⟨i, List.mem_range.mpr (hlt i y hi), hi⟩

/-- The first `K` slots hold at most `K` keys. -/
theorem length_slots_le (K : Nat) (ring : Nat → Option α) : (slots K ring).length ≤ K := by
  have := List.length_filterMap_le ring (List.range K)
  rwa [List.length_range] at this

/-- When no key is in two slots, the keys of the first `K` slots are distinct. -/
theorem nodup_slots [DecidableEq α] (hinj : RingInjective ring) : (slots K ring).Nodup :=
  List.Nodup.filterMap (fun i i' y hi hi' => hinj i i' y hi hi') List.nodup_range

/-! ## The ring of a log -/

/-- The ring after the keys of `log` are written in turn from slot `0`, one slot further each time,
modulo `K`. -/
def ringOf (K : Nat) (log : List α) : Nat → Option α :=
  log.zipIdx.foldl (fun ring x => Function.update ring (x.2 % K) (some x.1)) fun _ => none

/-- The last `min (length log) K` keys of `log`. -/
def window (K : Nat) (log : List α) : List α :=
  log.drop (log.length - K)

/-- An empty log writes no slot. -/
theorem ringOf_nil (K : Nat) (i : Nat) : ringOf K ([] : List α) i = none := rfl

/-- Appending a key to the log writes it into slot `length % K`, over what that slot held. -/
theorem ringOf_append_singleton (K : Nat) (log : List α) (x : α) :
    ringOf K (log ++ [x]) = Function.update (ringOf K log) (log.length % K) (some x) := by
  simp [ringOf, List.zipIdx_append, List.foldl_append]

/-- Two indices with one remainder, less than `K` apart, are one index. -/
theorem eq_of_mod_eq_of_lt {j n : Nat} (hmod : j % K = n % K) (hjn : j ≤ n) (hlt : n < j + K) :
    j = n := by
  have hdvd : K ∣ n - j := Nat.dvd_of_mod_eq_zero (Nat.sub_mod_eq_zero_of_mod_eq hmod.symm)
  have := Nat.eq_zero_of_dvd_of_lt hdvd (by omega)
  omega

/-- **What a slot holds.** Slot `i` holds the key of index `j` when `j` is `i` modulo `K` and among
the last `K` indices. -/
theorem ringOf_eq_some_iff (hK : 0 < K) {log : List α} {i : Nat} :
    ringOf K log i = some y ↔ ∃ j, log[j]? = some y ∧ j % K = i ∧ log.length ≤ j + K := by
  induction log using List.reverseRecOn generalizing i with
  | nil => simp [ringOf_nil]
  | append_singleton log x ih =>
    rw [ringOf_append_singleton, Function.update_apply, List.length_append, List.length_singleton]
    split_ifs with hi
    · -- the slot just written holds the new key, the only index of its class among the last `K`
      subst hi
      constructor
      · rintro ⟨⟩
        exact ⟨log.length, List.getElem?_concat_length, rfl, by omega⟩
      · rintro ⟨j, hj, hmod, hlen⟩
        have hjlt : j < log.length + 1 := by
          have := (List.getElem?_eq_some_iff.mp hj).1
          simpa using this
        have hjn := eq_of_mod_eq_of_lt hmod (Nat.le_of_lt_succ hjlt) (by omega)
        subst hjn
        rw [List.getElem?_concat_length] at hj
        exact hj
    · rw [ih]
      constructor
      · rintro ⟨j, hj, hmod, hlen⟩
        have hjlt : j < log.length := (List.getElem?_eq_some_iff.mp hj).1
        refine ⟨j, by rw [List.getElem?_append_left hjlt]; exact hj, hmod, ?_⟩
        -- `j` is not `log.length - K`, which is in the class of the new slot
        rcases Nat.lt_or_ge (log.length) (j + K) with h | h
        · omega
        · have : log.length = j + K := by omega
          exact absurd (by rw [← hmod, this, Nat.add_mod_right]) hi
      · rintro ⟨j, hj, hmod, hlen⟩
        have hjn : j ≠ log.length := fun h => hi (h ▸ hmod.symm)
        have hjlt : j < log.length := by
          have := (List.getElem?_eq_some_iff.mp hj).1
          simp only [List.length_append, List.length_singleton] at this
          omega
        rw [List.getElem?_append_left hjlt] at hj
        exact ⟨j, hj, hmod, by omega⟩

/-- The ring of a log writes only the first `K` slots. -/
theorem lt_of_ringOf_eq_some (hK : 0 < K) {log : List α} {i : Nat}
    (h : ringOf K log i = some y) : i < K := by
  obtain ⟨j, -, rfl, -⟩ := (ringOf_eq_some_iff hK).mp h
  exact Nat.mod_lt j hK

/-- A key in the ring of a log is a key of the log. -/
theorem mem_of_ringOf_eq_some (hK : 0 < K) {log : List α} {i : Nat} (h : ringOf K log i = some y) :
    y ∈ log := by
  obtain ⟨j, hj, -, -⟩ := (ringOf_eq_some_iff hK).mp h
  exact List.mem_of_getElem? hj

/-- The ring of a log without repeats has no key in two slots. -/
theorem ringInjective_ringOf [DecidableEq α] (hK : 0 < K) {log : List α} (hnd : log.Nodup) :
    RingInjective (ringOf K log) := by
  intro i i' y hi hi'
  obtain ⟨j, hj, rfl, -⟩ := (ringOf_eq_some_iff hK).mp hi
  obtain ⟨j', hj', rfl, -⟩ := (ringOf_eq_some_iff hK).mp hi'
  have hjlt : j < log.length := (List.getElem?_eq_some_iff.mp hj).1
  rw [(List.getElem?_inj hjlt hnd).mp (hj.trans hj'.symm)]

/-- **The keys of the ring of a log are its last keys.** -/
theorem mem_window_iff (hK : 0 < K) {log : List α} :
    y ∈ window K log ↔ ∃ i, ringOf K log i = some y := by
  simp only [window, List.mem_iff_getElem?, List.getElem?_drop, ringOf_eq_some_iff hK]
  constructor
  · rintro ⟨j, hj⟩
    have hlt : log.length - K + j < log.length := (List.getElem?_eq_some_iff.mp hj).1
    exact ⟨_, _, hj, rfl, by omega⟩
  · rintro ⟨_, j, hj, -, hlen⟩
    have hj' : log.length - K + (j - (log.length - K)) = j := by omega
    exact ⟨j - (log.length - K), by rw [hj']; exact hj⟩

/-- The window of a mapped log is the mapped window. -/
theorem window_map {γ : Type*} (f : α → γ) (log : List α) :
    window K (log.map f) = (window K log).map f := by
  simp only [window, List.length_map, List.map_drop]

/-- The last key of a log is in the ring's window, when the ring has a slot. -/
theorem mem_window_of_getLast? (hK : 0 < K) {log : List α} (h : log.getLast? = some y) :
    y ∈ window K log := by
  obtain ⟨init, rfl⟩ := List.getLast?_eq_some_iff.mp h
  rw [window, List.mem_drop_iff_getElem]
  have hlen : (init ++ [y]).length = init.length + 1 := by simp
  refine ⟨init.length - ((init ++ [y]).length - K), by omega, ?_⟩
  -- the index is that of the last key
  have hidx : (init ++ [y]).length - K + (init.length - ((init ++ [y]).length - K)) =
      init.length := by omega
  simp only [hidx, List.getElem_concat_length]

end Cumulus.Found
