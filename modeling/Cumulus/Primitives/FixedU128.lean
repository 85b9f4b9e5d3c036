import Cumulus.Found.MachineInt

/-!
# Unsigned fixed-point numbers

`FixedU128` is a `u128` inner value read as that value over `DIV = 10^18`. Its operations all
rest on `multiply_by_rational_with_rounding(a, b, c, rounding)`, which computes `a·b/c` exactly
and rounds it; for an unsigned number the rounding of a product and of a quotient is down. The
checked operations fail (`none`) when `c` is zero or the result does not fit in a `u128`; the
saturating ones give `u128::MAX` then, and the plain division panics.

Each operation has its `toNat` reading in terms of `Nat` division, and those readings give the
order facts: every operation is monotone in each argument it is monotone in as a real number.

Source: `sp_arithmetic::fixed_point`, `sp_arithmetic::helpers_128bit` (dependencies of the
repository, used as documented there).
-/

namespace Cumulus.Primitives

open Cumulus.Found

/-- `multiply_by_rational_with_rounding(a, b, c, Rounding::Down)`: `⌊a·b/c⌋`, if `c` is not zero
and it fits in a `u128`. -/
def multiplyByRational (a b c : BitVec 128) : Option (BitVec 128) :=
  if c = 0 then none
  else if a.toNat * b.toNat / c.toNat < 2 ^ 128 then
    some (BitVec.ofNat 128 (a.toNat * b.toNat / c.toNat))
  else none

/-- The reading of a result that saturates at `u128::MAX`. -/
theorem toNat_multiplyByRational_getD (a b c : BitVec 128) (hc : c ≠ 0) :
    ((multiplyByRational a b c).getD (BitVec.allOnes 128)).toNat =
      min (a.toNat * b.toNat / c.toNat) (2 ^ 128 - 1) := by
  unfold multiplyByRational
  rw [if_neg hc]
  split
  · next hlt =>
    rw [Option.getD_some, BitVec.toNat_ofNat, Nat.mod_eq_of_lt hlt]
    omega
  · next hge =>
    rw [Option.getD_none, BitVec.toNat_allOnes]
    omega

/-- An unsigned fixed-point number: `inner / 10^18`.
Source: `sp_arithmetic::FixedU128` -/
structure FixedU128 where
  inner : BitVec 128
  deriving DecidableEq, Repr

namespace FixedU128

/-- `FixedU128::DIV`: the inner value of one, `10^18`. -/
def DIV : BitVec 128 := 1000000000000000000

/-- The accuracy `DIV` is `10^18`. -/
theorem toNat_DIV : DIV.toNat = 1000000000000000000 := by
  unfold DIV
  rfl

/-- The accuracy is not zero, so the divisions by it are real ones. -/
theorem DIV_ne_zero : DIV ≠ 0 := by
  intro h
  have h0 := congrArg BitVec.toNat h
  rw [toNat_DIV] at h0
  exact absurd h0 (by decide)

/-- Fixed-point numbers with one inner value are equal. -/
theorem eq_of_toNat_eq {a b : FixedU128} (h : a.inner.toNat = b.inner.toNat) : a = b := by
  cases a
  cases b
  exact congrArg FixedU128.mk (BitVec.eq_of_toNat_eq h)

/-- The order of fixed-point numbers: that of their inner values. -/
instance : LE FixedU128 := ⟨fun a b => a.inner ≤ b.inner⟩

instance : LT FixedU128 := ⟨fun a b => a.inner < b.inner⟩

instance (a b : FixedU128) : Decidable (a ≤ b) := inferInstanceAs (Decidable (a.inner ≤ b.inner))

instance (a b : FixedU128) : Decidable (a < b) := inferInstanceAs (Decidable (a.inner < b.inner))

/-- Fixed-point numbers are ordered by their inner values. -/
theorem le_def {a b : FixedU128} : a ≤ b ↔ a.inner.toNat ≤ b.inner.toNat := BitVec.le_def

/-- The strict order of fixed-point numbers is that of their inner values. -/
theorem lt_def {a b : FixedU128} : a < b ↔ a.inner.toNat < b.inner.toNat := BitVec.lt_def

/-- The order of fixed-point numbers is reflexive. -/
theorem le_refl (a : FixedU128) : a ≤ a := BitVec.le_refl _

/-- The order of fixed-point numbers is transitive. -/
theorem le_trans {a b c : FixedU128} (hab : a ≤ b) (hbc : b ≤ c) : a ≤ c := by
  rw [le_def] at hab hbc ⊢
  omega

/-- `Ord::max`: the larger, the second on a tie. -/
def max (a b : FixedU128) : FixedU128 := if a ≤ b then b else a

/-- `FixedU128::from_u32(n)`: `n`, whose inner value `n · 10^18` fits. -/
def fromU32 (n : BitVec 32) : FixedU128 := ⟨n.setWidth 128 * DIV⟩

/-- `checked_mul`: the product, rounded down. -/
def checkedMul (a b : FixedU128) : Option FixedU128 :=
  (multiplyByRational a.inner b.inner DIV).map FixedU128.mk

/-- `saturating_mul`: the product, rounded down, or `u128::MAX` on overflow. -/
def saturatingMul (a b : FixedU128) : FixedU128 :=
  (checkedMul a b).getD ⟨BitVec.allOnes 128⟩

/-- `checked_div`: the quotient, rounded down; `none` for a zero divisor. -/
def checkedDiv (a b : FixedU128) : Option FixedU128 :=
  if b.inner = 0 then none
  else (multiplyByRational a.inner DIV b.inner).map FixedU128.mk

/-- `a / b`: `checked_div`, panicking (`none`) when it fails. -/
def div (a b : FixedU128) : Option FixedU128 := checkedDiv a b

/-- `saturating_add`, on the inner values. -/
def saturatingAdd (a b : FixedU128) : FixedU128 := ⟨Found.saturatingAdd a.inner b.inner⟩

/-- `saturating_mul_int(n)`: `a · n`, rounded down, or `u128::MAX` on overflow. -/
def saturatingMulInt (a : FixedU128) (n : BitVec 128) : BitVec 128 :=
  (multiplyByRational a.inner n DIV).getD (BitVec.allOnes 128)

/-! ## Readings -/

/-- `from_u32(n)` is `n` times the accuracy; it cannot overflow. -/
theorem toNat_fromU32 (n : BitVec 32) : (fromU32 n).inner.toNat = n.toNat * DIV.toNat := by
  have hn := n.isLt
  have hwide : (n.setWidth 128).toNat = n.toNat := by
    rw [BitVec.toNat_setWidth, Nat.mod_eq_of_lt (by omega)]
  have hfit : n.toNat * DIV.toNat < 2 ^ 128 := by
    rw [toNat_DIV]
    omega
  rw [fromU32, BitVec.toNat_mul, hwide, Nat.mod_eq_of_lt hfit]

/-- `saturating_mul` is the product of the inner values divided by the accuracy (rounding down),
capped at the largest inner value. -/
theorem toNat_saturatingMul (a b : FixedU128) :
    (saturatingMul a b).inner.toNat =
      min (a.inner.toNat * b.inner.toNat / DIV.toNat) (2 ^ 128 - 1) := by
  rw [← toNat_multiplyByRational_getD a.inner b.inner DIV DIV_ne_zero]
  unfold saturatingMul checkedMul
  cases multiplyByRational a.inner b.inner DIV <;> rfl

/-- `saturating_mul_int` is the integer times the inner value, divided by the accuracy (rounding
down) and capped at the largest `u128`. -/
theorem toNat_saturatingMulInt (a : FixedU128) (n : BitVec 128) :
    (saturatingMulInt a n).toNat = min (a.inner.toNat * n.toNat / DIV.toNat) (2 ^ 128 - 1) :=
  toNat_multiplyByRational_getD _ _ _ DIV_ne_zero

/-- `saturating_add` is the sum of the inner values, capped at the largest inner value. -/
theorem toNat_saturatingAdd (a b : FixedU128) :
    (saturatingAdd a b).inner.toNat = min (a.inner.toNat + b.inner.toNat) (2 ^ 128 - 1) :=
  Found.toNat_saturatingAdd a.inner b.inner

/-- A division by a divisor of at least one does not overflow: it is `⌊a · 10^18 / b⌋`. -/
theorem div_eq_some_of_ge {a b : FixedU128} (hb : DIV.toNat ≤ b.inner.toNat) :
    ∃ q, div a b = some q ∧ q.inner.toNat = a.inner.toNat * DIV.toNat / b.inner.toNat := by
  have hpos : 0 < b.inner.toNat := lt_of_lt_of_le (by rw [toNat_DIV]; decide) hb
  have hb0 : b.inner ≠ 0 := fun h => by
    rw [h] at hpos
    simp at hpos
  have hle : a.inner.toNat * DIV.toNat / b.inner.toNat ≤ a.inner.toNat :=
    Nat.div_le_of_le_mul (by rw [Nat.mul_comm]; exact Nat.mul_le_mul_right _ hb)
  have hfit : a.inner.toNat * DIV.toNat / b.inner.toNat < 2 ^ 128 :=
    lt_of_le_of_lt hle a.inner.isLt
  refine ⟨⟨BitVec.ofNat 128 (a.inner.toNat * DIV.toNat / b.inner.toNat)⟩, ?_, ?_⟩
  · simp only [div, checkedDiv, hb0, if_false, multiplyByRational, hfit, if_true, Option.map_some]
  · rw [BitVec.toNat_ofNat, Nat.mod_eq_of_lt hfit]

/-- `max` is at least its first argument. -/
theorem le_max_left (a b : FixedU128) : a ≤ max a b := by
  unfold max
  split
  · assumption
  · exact le_refl _

/-- `max` of two numbers below a bound is below it. -/
theorem max_lt {a b c : FixedU128} (ha : a < c) (hb : b < c) : max a b < c := by
  unfold max
  split <;> assumption

end FixedU128

end Cumulus.Primitives
