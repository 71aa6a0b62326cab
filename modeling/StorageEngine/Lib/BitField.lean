import Mathlib.Algebra.Group.Nat.Defs
import Mathlib.Data.Nat.Basic

/-!
# Bit fields

What a shift and a mask cut out of a number is a field of it: `field low width` holds `width`
bits from bit `low` on.  Two numbers have the same field exactly when they have the same bits
there, so a value that is printed in fields says what it tells of the number by a list of bit
ranges.
-/

namespace Lib.BitField

variable {m n high low width : ℕ}

/-- The `width` bits from bit `low` on. -/
def field (low width n : ℕ) : ℕ := n / 2 ^ low % 2 ^ width

/-- The numbers agree on the bits from `high` down to `low`. -/
def SameBits (high low m n : ℕ) : Prop := ∀ i, low ≤ i → i ≤ high → m.testBit i = n.testBit i

theorem field_lt (low width n : ℕ) : field low width n < 2 ^ width :=
  Nat.mod_lt _ (Nat.two_pow_pos width)

theorem testBit_field (low width n i : ℕ) :
    (field low width n).testBit i = (decide (i < width) && n.testBit (i + low)) := by
  rw [field, Nat.testBit_mod_two_pow, Nat.testBit_div_two_pow]

/-- A field is the bits of its range. -/
theorem field_eq_iff (hrange : high + 1 = low + width) :
    field low width m = field low width n ↔ SameBits high low m n := by
  constructor
  · intro hfield i hlow hhigh
    have hbit := congrArg (Nat.testBit · (i - low)) hfield
    simp only [testBit_field, Nat.sub_add_cancel hlow,
      decide_eq_true (show i - low < width by omega), Bool.true_and] at hbit
    exact hbit
  · intro hbits
    apply Nat.eq_of_testBit_eq
    intro i
    rw [testBit_field, testBit_field]
    by_cases hi : i < width
    · rw [hbits (i + low) (by omega) (by omega)]
    · rw [decide_eq_false hi, Bool.false_and, Bool.false_and]

/-- Two ranges, one above the other, make one. -/
theorem sameBits_split {mid : ℕ} (hlow : low ≤ mid) (hhigh : mid < high) :
    SameBits high low m n ↔ SameBits high (mid + 1) m n ∧ SameBits mid low m n := by
  constructor
  · intro h
    exact ⟨fun i hi => h i (by omega), fun i hi hmid => h i hi (by omega)⟩
  · intro h i hi hi'
    by_cases hmid : i ≤ mid
    · exact h.2 i hi hmid
    · exact h.1 i (by omega) hi'

/-- The low part of a field. -/
theorem field_field {wide : ℕ} (hwidth : width ≤ wide) (low n : ℕ) :
    field 0 width (field low wide n) = field low width n := by
  rw [field, field, field, Nat.pow_zero, Nat.div_one,
    Nat.mod_mod_of_dvd _ (Nat.pow_dvd_pow 2 hwidth)]

/-- A mask of ones keeps a field. -/
theorem and_mask (n width : ℕ) : n &&& (2 ^ width - 1) = field 0 width n := by
  rw [field, Nat.pow_zero, Nat.div_one, Nat.and_two_pow_sub_one_eq_mod]

/-- A shift and a mask of ones cut out a field. -/
theorem shiftRight_and_mask (n low width : ℕ) :
    (n >>> low) &&& (2 ^ width - 1) = field low width n := by
  rw [and_mask, field, field, Nat.shiftRight_eq_div_pow, Nat.pow_zero, Nat.div_one]

end Lib.BitField
