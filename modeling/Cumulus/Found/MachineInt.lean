import Mathlib.Data.BitVec

/-!
# Rust's integer operations on fixed-width unsigned integers

The pallets this development models compute on `u16`, `u32` and `u64`, and they use four
different kinds of arithmetic side by side: `saturating_add`, `saturating_sub`, `checked_add` /
`checked_sub`, and the plain operators `+`, `-`, `+=`, `-=`. Each is modelled here on `BitVec w`
(the unsigned `w`-bit integer):

* `saturatingAdd`, `saturatingSub` — Rust's saturating operations (clamp to `[0, 2^w - 1]`);
* `checkedAdd`, `checkedSub` — Rust's `checked_*`, returning `none` on overflow;
* the plain operators are `checkedAdd` / `checkedSub` as well: integer overflow is a program error
  in Rust (it panics under `overflow-checks`), so a model step that would overflow fails, in the
  same way as a failed `expect` or `assert!`.

So most of the model follows the debug build's overflow checks, a panic being `none`. A few
plain additions are instead computed as the runtime's release build computes them, wrapping
modulo `2^w` with `BitVec`'s own `+`, each said where it is modelled: the GRANDPA pallet's
`current_set_id + 1` (`Cumulus.BridgeGrandpa`), aura-ext's `u32` additions, the authored count and
the authored-blocks limit `max(V, 1) + 1` (`Cumulus.AuraExt`), and the messages extension's
`latest_received_nonce + 1` (`Cumulus.BridgeMessages.CallExt`).

Every operation comes with its `toNat` reading, so that proofs about the model run on `Nat` and
close by `omega`.
-/

namespace Cumulus.Found

variable {w : Nat}

/-! ## Saturating operations -/

/-- Rust's `saturating_add`: the sum, or `2^w - 1` when it does not fit.
Source: Rust `core::num`, `uN::saturating_add` -/
def saturatingAdd (a b : BitVec w) : BitVec w :=
  if a.uaddOverflow b then BitVec.allOnes w else a + b

/-- Rust's `saturating_sub`: the difference, or `0` when it would be negative.
Source: Rust `core::num`, `uN::saturating_sub` -/
def saturatingSub (a b : BitVec w) : BitVec w :=
  if a.usubOverflow b then 0 else a - b

/-- `saturating_add` is the sum, capped at the largest value of the width. -/
theorem toNat_saturatingAdd (a b : BitVec w) :
    (saturatingAdd a b).toNat = min (a.toNat + b.toNat) (2 ^ w - 1) := by
  unfold saturatingAdd BitVec.uaddOverflow
  split
  · next h =>
    have : 2 ^ w - 1 ≤ a.toNat + b.toNat := by simp at h; omega
    simp [BitVec.toNat_allOnes, Nat.min_eq_right this]
  · next h =>
    have hlt : a.toNat + b.toNat < 2 ^ w := by simpa using h
    rw [BitVec.toNat_add_of_lt hlt]
    omega

/-- `saturating_add(1)` is the successor, capped at the largest value of the width. -/
theorem toNat_saturatingAdd_one (hw : 0 < w) (a : BitVec w) :
    (saturatingAdd a 1).toNat = min (a.toNat + 1) (2 ^ w - 1) := by
  have hone : (1 : BitVec w).toNat = 1 := by simp [hw]
  rw [toNat_saturatingAdd, hone]

/-- Against a limit below `2^w - 1`, where the saturation stops, a saturated sum compares as
the sum does. -/
theorem saturatingAdd_le_iff {a b lim : BitVec w} (h : lim.toNat < 2 ^ w - 1) :
    saturatingAdd a b ≤ lim ↔ a.toNat + b.toNat ≤ lim.toNat := by
  rw [BitVec.le_def, toNat_saturatingAdd]
  omega

/-- `saturating_sub` is the truncated difference of the values. -/
theorem toNat_saturatingSub (a b : BitVec w) :
    (saturatingSub a b).toNat = a.toNat - b.toNat := by
  unfold saturatingSub BitVec.usubOverflow
  split
  · next h =>
    simp at h
    simp
    omega
  · next h =>
    have hle : b ≤ a := by simp at h; exact BitVec.le_def.mpr h
    rw [BitVec.toNat_sub_of_le hle]

@[simp] theorem saturatingSub_zero (a : BitVec w) : saturatingSub a 0 = a := by
  apply BitVec.eq_of_toNat_eq
  simp [toNat_saturatingSub]

/-- Rust's `saturating_mul`: the product, or the largest value on overflow.
Source: Rust `core::num`, `uN::saturating_mul` -/
def saturatingMul (a b : BitVec w) : BitVec w :=
  if a.toNat * b.toNat < 2 ^ w then a * b else BitVec.allOnes w

/-- `saturating_mul` is the product, capped at the largest value of the width. -/
theorem toNat_saturatingMul (a b : BitVec w) :
    (saturatingMul a b).toNat = min (a.toNat * b.toNat) (2 ^ w - 1) := by
  unfold saturatingMul
  split
  · next h =>
    rw [BitVec.toNat_mul, Nat.mod_eq_of_lt h]
    omega
  · next h =>
    rw [BitVec.toNat_allOnes]
    omega

/-! ## Checked operations -/

/-- Rust's `checked_add`, and the meaning of a plain `+` / `+=`: `none` on overflow.
Source: Rust `core::num`, `uN::checked_add` -/
def checkedAdd (a b : BitVec w) : Option (BitVec w) :=
  if a.uaddOverflow b then none else some (a + b)

/-- Rust's `checked_sub`, and the meaning of a plain `-` / `-=`: `none` on underflow.
Source: Rust `core::num`, `uN::checked_sub` -/
def checkedSub (a b : BitVec w) : Option (BitVec w) :=
  if a.usubOverflow b then none else some (a - b)

/-- `checked_add` returns a value exactly when the sum fits the width, and then it is the sum. -/
theorem checkedAdd_eq_some {a b c : BitVec w} :
    checkedAdd a b = some c ↔ a.toNat + b.toNat < 2 ^ w ∧ c.toNat = a.toNat + b.toNat := by
  unfold checkedAdd BitVec.uaddOverflow
  split
  · next h => simp at h; simp; omega
  · next h =>
    have hlt : a.toNat + b.toNat < 2 ^ w := by simpa using h
    simp only [Option.some.injEq, hlt, true_and]
    constructor
    · rintro rfl
      exact BitVec.toNat_add_of_lt hlt
    · intro hc
      apply BitVec.eq_of_toNat_eq
      rw [hc, BitVec.toNat_add_of_lt hlt]

/-- `+= 1`: the successor, unless it overflows. -/
theorem checkedAdd_one_eq_some {a c : BitVec w} (hw : 0 < w) :
    checkedAdd a 1 = some c ↔ a.toNat + 1 < 2 ^ w ∧ c.toNat = a.toNat + 1 := by
  have h1 : (1 : BitVec w).toNat = 1 := by simp [hw]
  rw [checkedAdd_eq_some, h1]

/-- `checked_add` succeeds exactly when the sum fits the width. -/
theorem checkedAdd_isSome {a b : BitVec w} :
    (checkedAdd a b).isSome ↔ a.toNat + b.toNat < 2 ^ w := by
  unfold checkedAdd BitVec.uaddOverflow
  split <;> simp_all

/-- `checked_sub` returns a value exactly when it does not go below zero, and then it is the
difference. -/
theorem checkedSub_eq_some {a b c : BitVec w} :
    checkedSub a b = some c ↔ b.toNat ≤ a.toNat ∧ c.toNat = a.toNat - b.toNat := by
  unfold checkedSub BitVec.usubOverflow
  split
  · next h => simp at h; simp; omega
  · next h =>
    have hle : b ≤ a := by simp at h; exact BitVec.le_def.mpr h
    simp only [Option.some.injEq, BitVec.le_def.mp hle, true_and]
    constructor
    · rintro rfl
      exact BitVec.toNat_sub_of_le hle
    · intro hc
      apply BitVec.eq_of_toNat_eq
      rw [hc, BitVec.toNat_sub_of_le hle]

/-- A sum that fits the width is what `checked_add` returns. -/
theorem checkedAdd_of_lt {a b : BitVec w} (h : a.toNat + b.toNat < 2 ^ w) :
    checkedAdd a b = some (a + b) := by
  simp [checkedAdd, BitVec.uaddOverflow]
  omega

/-- A subtraction that does not go below zero is what `checked_sub` returns. -/
theorem checkedSub_of_le {a b : BitVec w} (h : b.toNat ≤ a.toNat) :
    checkedSub a b = some (a - b) := by
  simp [checkedSub, BitVec.usubOverflow]
  omega

/-- `checked_sub` succeeds exactly when the subtrahend is at most the minuend. -/
theorem checkedSub_isSome {a b : BitVec w} :
    (checkedSub a b).isSome ↔ b.toNat ≤ a.toNat := by
  unfold checkedSub BitVec.usubOverflow
  split <;> simp_all

/-! ## Comparison -/

/-- Rust's `Ord::min` on unsigned integers. -/
instance instMinBitVec : Min (BitVec w) := minOfLe

/-- The minimum of two machine integers is the minimum of their values. -/
theorem toNat_min (a b : BitVec w) : (min a b).toNat = min a.toNat b.toNat := by
  change (if a ≤ b then a else b).toNat = _
  split <;> rename_i h <;> rw [BitVec.le_def] at h <;> omega

end Cumulus.Found
