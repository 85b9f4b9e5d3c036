import Cumulus.Found.MachineInt

/-!
# Two-dimensional weights

`Weight` is the cost type of every entry point: a reference time and a proof size, each a `u64`.
The pallets compare weights componentwise (`any_gt`, `all_lte`, `all_gte`), subtract them both
saturating and with the plain operator, and add them both saturating and with `+=`. The plain
operators of `sp_weights::Weight` are componentwise `u64` arithmetic, so here they are the
checked operations of `Cumulus.Found.MachineInt`: `none` is the panic of an overflow.

Source: `sp_weights::Weight` (a dependency of the repository, used as documented there).
-/

namespace Cumulus.Primitives

open Cumulus.Found

/-- A weight: reference time and proof size.
Source: `sp_weights::Weight` -/
structure Weight where
  /-- The computational time used, in picoseconds. -/
  refTime : BitVec 64
  /-- The size of the proof, in bytes. -/
  proofSize : BitVec 64
  deriving DecidableEq, Repr

namespace Weight

/-- `Weight::zero()`. -/
def zero : Weight := ⟨0, 0⟩

/-- `Weight::from_parts(ref_time, proof_size)`. -/
def fromParts (refTime proofSize : BitVec 64) : Weight := ⟨refTime, proofSize⟩

/-- `a.any_gt(b)`: some component of `a` is larger. -/
def anyGt (a b : Weight) : Bool := b.refTime < a.refTime || b.proofSize < a.proofSize

/-- `a.all_lte(b)`: every component of `a` is at most that of `b`. -/
def allLte (a b : Weight) : Bool := a.refTime ≤ b.refTime && a.proofSize ≤ b.proofSize

/-- `a.all_gte(b)`: every component of `a` is at least that of `b`. -/
def allGte (a b : Weight) : Bool := b.refTime ≤ a.refTime && b.proofSize ≤ a.proofSize

/-- `a.saturating_add(b)` (and `saturating_accrue`), componentwise. -/
def saturatingAdd (a b : Weight) : Weight :=
  ⟨Found.saturatingAdd a.refTime b.refTime, Found.saturatingAdd a.proofSize b.proofSize⟩

/-- `a.saturating_sub(b)`, componentwise. -/
def saturatingSub (a b : Weight) : Weight :=
  ⟨Found.saturatingSub a.refTime b.refTime, Found.saturatingSub a.proofSize b.proofSize⟩

/-- `a + b` and `a += b`: componentwise `u64` addition, panicking on overflow. -/
def add (a b : Weight) : Option Weight := do
  let r ← checkedAdd a.refTime b.refTime
  let p ← checkedAdd a.proofSize b.proofSize
  pure ⟨r, p⟩

/-- `a - b` and `a -= b`: componentwise `u64` subtraction, panicking on underflow. -/
def sub (a b : Weight) : Option Weight := do
  let r ← checkedSub a.refTime b.refTime
  let p ← checkedSub a.proofSize b.proofSize
  pure ⟨r, p⟩

/-- `a.min(b)`: the componentwise minimum. -/
def min (a b : Weight) : Weight :=
  ⟨if a.refTime ≤ b.refTime then a.refTime else b.refTime,
    if a.proofSize ≤ b.proofSize then a.proofSize else b.proofSize⟩

/-- `a / n` for `n : u64`, componentwise (`n ≠ 0` at every call site). -/
def divU64 (a : Weight) (n : BitVec 64) : Weight := ⟨a.refTime / n, a.proofSize / n⟩

@[simp] theorem saturatingSub_zero (a : Weight) : a.saturatingSub zero = a := by
  simp [saturatingSub, zero, Found.saturatingSub, BitVec.usubOverflow]

@[simp] theorem anyGt_eq_false {a b : Weight} :
    anyGt a b = false ↔ a.refTime.toNat ≤ b.refTime.toNat ∧ a.proofSize.toNat ≤ b.proofSize.toNat := by
  simp [anyGt, BitVec.lt_def]

@[simp] theorem allLte_eq_true {a b : Weight} :
    allLte a b = true ↔ a.refTime.toNat ≤ b.refTime.toNat ∧ a.proofSize.toNat ≤ b.proofSize.toNat := by
  simp [allLte, BitVec.le_def]

@[simp] theorem allGte_eq_true {a b : Weight} :
    allGte a b = true ↔ b.refTime.toNat ≤ a.refTime.toNat ∧ b.proofSize.toNat ≤ a.proofSize.toNat := by
  simp [allGte, BitVec.le_def]

/-- `checked_sub` of weights succeeds exactly when both components can be subtracted, and subtracts
them. -/
theorem sub_eq_some {a b c : Weight} :
    sub a b = some c ↔ b.refTime.toNat ≤ a.refTime.toNat ∧ b.proofSize.toNat ≤ a.proofSize.toNat ∧
      c.refTime.toNat = a.refTime.toNat - b.refTime.toNat ∧
      c.proofSize.toNat = a.proofSize.toNat - b.proofSize.toNat := by
  obtain ⟨cr, cp⟩ := c
  simp only [sub, Option.bind_eq_bind, Option.bind_eq_some_iff, Option.pure_def,
    Option.some.injEq, Weight.mk.injEq, checkedSub_eq_some]
  constructor
  · rintro ⟨r, ⟨h1, h2⟩, p, ⟨h3, h4⟩, rfl, rfl⟩
    exact ⟨h1, h3, h2, h4⟩
  · rintro ⟨h1, h3, h2, h4⟩
    exact ⟨cr, ⟨h1, h2⟩, cp, ⟨h3, h4⟩, rfl, rfl⟩

/-- `checked_add` of weights succeeds exactly when both sums fit in 64 bits, and adds the
components. -/
theorem add_eq_some {a b c : Weight} :
    add a b = some c ↔ a.refTime.toNat + b.refTime.toNat < 2 ^ 64 ∧
      a.proofSize.toNat + b.proofSize.toNat < 2 ^ 64 ∧
      c.refTime.toNat = a.refTime.toNat + b.refTime.toNat ∧
      c.proofSize.toNat = a.proofSize.toNat + b.proofSize.toNat := by
  obtain ⟨cr, cp⟩ := c
  simp only [add, Option.bind_eq_bind, Option.bind_eq_some_iff, Option.pure_def,
    Option.some.injEq, Weight.mk.injEq, checkedAdd_eq_some]
  constructor
  · rintro ⟨r, ⟨h1, h2⟩, p, ⟨h3, h4⟩, rfl, rfl⟩
    exact ⟨h1, h3, h2, h4⟩
  · rintro ⟨h1, h3, h2, h4⟩
    exact ⟨cr, ⟨h1, h2⟩, cp, ⟨h3, h4⟩, rfl, rfl⟩

/-! ### Budgets

`all_lte` is the componentwise order in which the pallets keep what they spend within a budget. -/

/-- Every weight fits into itself. -/
theorem allLte_refl (a : Weight) : allLte a a = true := by
  simp

/-- `all_lte` is transitive. -/
theorem allLte_trans {a b c : Weight} (hab : allLte a b = true) (hbc : allLte b c = true) :
    allLte a c = true := by
  rw [allLte_eq_true] at *
  omega

/-- The zero weight fits into every weight. -/
theorem zero_allLte (a : Weight) : allLte zero a = true := by
  simp [zero]

/-- A weight fits into another exactly when none of its components is greater. -/
theorem allLte_iff_anyGt_eq_false {a b : Weight} : allLte a b = true ↔ anyGt a b = false := by
  rw [allLte_eq_true, anyGt_eq_false]

/-- The component-wise minimum fits into its second argument. -/
theorem min_allLte (a b : Weight) : allLte (min a b) b = true := by
  rw [allLte_eq_true]
  simp only [min]
  constructor
  · split_ifs with h
    · exact BitVec.le_def.mp h
    · exact le_rfl
  · split_ifs with h
    · exact BitVec.le_def.mp h
    · exact le_rfl

/-- What `checked_sub` leaves fits into the minuend. -/
theorem allLte_of_sub {a b c : Weight} (h : sub a b = some c) : allLte c a = true := by
  rw [sub_eq_some] at h
  rw [allLte_eq_true]
  omega

/-- What `saturating_sub` leaves fits into the minuend. -/
theorem saturatingSub_allLte (a b : Weight) : allLte (saturatingSub a b) a = true := by
  simp only [allLte_eq_true, saturatingSub, toNat_saturatingSub]
  omega

/-- `a - b` does not underflow once `b` is at most `a` in both components. -/
theorem sub_of_allLte {a b : Weight} (h : allLte b a = true) : ∃ c, sub a b = some c := by
  rw [allLte_eq_true] at h
  exact ⟨⟨a.refTime - b.refTime, a.proofSize - b.proofSize⟩, sub_eq_some.mpr
    ⟨h.1, h.2, BitVec.toNat_sub_of_le (BitVec.le_def.mpr h.1),
      BitVec.toNat_sub_of_le (BitVec.le_def.mpr h.2)⟩⟩

/-- `a + b` does not overflow while both sums fit in a `u64`. -/
theorem add_of_lt {a b : Weight} (hr : a.refTime.toNat + b.refTime.toNat < 2 ^ 64)
    (hp : a.proofSize.toNat + b.proofSize.toNat < 2 ^ 64) : ∃ c, add a b = some c :=
  ⟨⟨a.refTime + b.refTime, a.proofSize + b.proofSize⟩, add_eq_some.mpr
    ⟨hr, hp, BitVec.toNat_add_of_lt hr, BitVec.toNat_add_of_lt hp⟩⟩

/-- Spending at most what is left of a budget, `budget - used`, keeps within the budget. -/
theorem saturatingAdd_allLte_of_sub {budget used left w : Weight} (hleft : sub budget used = some left)
    (hw : allLte w left = true) : allLte (saturatingAdd used w) budget = true := by
  rw [sub_eq_some] at hleft
  rw [allLte_eq_true] at hw ⊢
  simp only [saturatingAdd, toNat_saturatingAdd]
  omega

/-- The same with what is left taken saturating, and the sum checked. -/
theorem add_allLte_of_saturatingSub {budget used w u : Weight} (hused : allLte used budget = true)
    (hw : allLte w (saturatingSub budget used) = true) (hu : add used w = some u) :
    allLte u budget = true := by
  rw [add_eq_some] at hu
  rw [allLte_eq_true] at hused hw ⊢
  simp only [saturatingSub, toNat_saturatingSub] at hw
  omega

end Weight

end Cumulus.Primitives
