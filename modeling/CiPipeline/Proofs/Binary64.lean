import CiPipeline.Binary64
import Mathlib.Algebra.Order.Field.Power
import Mathlib.Data.Rat.Cast.Order
import Mathlib.Tactic.Linarith
import Mathlib.Tactic.Positivity
import Mathlib.Tactic.Ring

/-!
# Doubles

The numbers that rounding leads to are those with a significand of 53 bits, and a rounded number is
within half a unit of what it was. Main statement: a double reaches a number that is rounded up
exactly if it reaches what this is rounded to.
-/

namespace CiPipeline.Binary64

/-- A number with a significand of 53 bits and a unit that the format has. -/
def IsDouble (x : Rat) : Prop :=
  ∃ significand exponent : Int,
    |significand| ≤ 2 ^ 53 ∧ -1074 ≤ exponent ∧ x = significand * 2 ^ exponent

theorem isDouble_zero : IsDouble 0 := ⟨0, 0, by simp, by decide, by simp⟩

theorem isDouble_one : IsDouble 1 := ⟨1, 0, by norm_num, by decide, by simp⟩

theorem IsDouble.neg {x : Rat} (h : IsDouble x) : IsDouble (-x) := by
  obtain ⟨significand, exponent, hsignificand, hexponent, rfl⟩ := h
  exact ⟨-significand, exponent, by rwa [abs_neg], hexponent, by push_cast; ring⟩

/-! ## Powers of two -/

/-- A power of two is a quotient of two whole ones. -/
theorem zpow_eq_div (exponent : Int) :
    (2 : Rat) ^ exponent = 2 ^ exponent.toNat / 2 ^ (-exponent).toNat := by
  rw [← zpow_natCast, ← zpow_natCast, ← zpow_sub₀ (by norm_num)]
  congr 1
  omega

theorem powerOfTwo_eq (exponent : Int) : powerOfTwo exponent = 2 ^ exponent := by
  rw [powerOfTwo, Rat.mkRat_eq_div, zpow_eq_div, Nat.one_shiftLeft, Nat.one_shiftLeft]
  push_cast
  rfl

variable {num den : Nat}

theorem reaches_iff (hden : 0 < den) {exponent : Int} :
    reaches num den exponent = true ↔ (2 : Rat) ^ exponent ≤ num / den := by
  have hbelow : (0 : Rat) < 2 ^ (-exponent).toNat := by positivity
  have hpos : (0 : Rat) < den := by exact_mod_cast hden
  rw [reaches, decide_eq_true_eq, Nat.shiftLeft_eq, Nat.shiftLeft_eq, zpow_eq_div,
    div_le_div_iff₀ hbelow hpos, mul_comm den]
  norm_cast

/-! ## Rounding gives doubles -/

/-- A quotient is below `2 ^ 53` of its units. -/
theorem lt_units (hden : 0 < den) :
    (num : Rat) / den < 2 ^ (unitExponent num den + 53) := by
  have hpos : (0 : Rat) < den := by exact_mod_cast hden
  let guess : Int := (num.log2 : Int) - (den.log2 : Int)
  have hnum : (num : Rat) < 2 ^ ((num.log2 : Int) + 1) := by
    exact_mod_cast Nat.lt_log2_self
  have hbelow : (2 : Rat) ^ (den.log2 : Int) ≤ den := by
    exact_mod_cast Nat.log2_self_le hden.ne'
  have hguess : (num : Rat) / den < 2 ^ (guess + 1) := by
    rw [div_lt_iff₀ hpos]
    calc (num : Rat) < 2 ^ ((num.log2 : Int) + 1) := hnum
      _ = 2 ^ (guess + 1) * 2 ^ (den.log2 : Int) := by
          rw [← zpow_add₀ (by norm_num)]
          congr 1
          omega
      _ ≤ 2 ^ (guess + 1) * den := by gcongr
  by_cases hreaches : reaches num den guess = true
  · have hunit : guess + 1 ≤ unitExponent num den + 53 := by
      rw [unitExponent, if_pos hreaches]
      omega
    exact hguess.trans_le (zpow_le_zpow_right₀ (by norm_num) hunit)
  · have hunit : guess ≤ unitExponent num den + 53 := by
      rw [unitExponent, if_neg hreaches]
      omega
    rw [reaches_iff hden, not_le] at hreaches
    exact hreaches.trans_le (zpow_le_zpow_right₀ (by norm_num) hunit)

/-- A quotient in units is a quotient of whole numbers. -/
theorem shifted_quotient (unit : Int) :
    ((num <<< (-unit).toNat : Nat) : Rat) / (den <<< unit.toNat : Nat) = num / den / 2 ^ unit := by
  rw [Nat.shiftLeft_eq, Nat.shiftLeft_eq, zpow_eq_div, div_div_eq_mul_div, div_mul_eq_mul_div,
    div_div]
  push_cast
  rfl

theorem roundQuotient_le {bound : Nat} (h : num < bound * den) : roundQuotient num den ≤ bound := by
  have hwhole : num / den < bound := Nat.div_lt_of_lt_mul (by rwa [mul_comm])
  rw [roundQuotient]
  split <;> omega

theorem significand_le (hden : 0 < den) : significand num den ≤ 2 ^ 53 := by
  have hpos : (0 : Rat) < (den <<< (unitExponent num den).toNat : Nat) := by
    exact_mod_cast Nat.shiftLeft_eq .. ▸ Nat.mul_pos hden (Nat.two_pow_pos _)
  have hunits : (num : Rat) / den / 2 ^ unitExponent num den < 2 ^ 53 := by
    rw [div_lt_iff₀ (by positivity), ← zpow_natCast, ← zpow_add₀ (by norm_num), add_comm]
    exact lt_units hden
  rw [← shifted_quotient, div_lt_iff₀ hpos] at hunits
  exact roundQuotient_le (by exact_mod_cast hunits)

theorem isDouble_nearest (q : Rat) : IsDouble (nearest q) := by
  by_cases hzero : q.num.natAbs = 0
  · rw [nearest, if_pos hzero]
    exact isDouble_zero
  · have hsize : IsDouble (significand q.num.natAbs q.den *
        powerOfTwo (unitExponent q.num.natAbs q.den)) := by
      refine ⟨significand q.num.natAbs q.den, unitExponent q.num.natAbs q.den, ?_,
        le_max_right .., ?_⟩
      · rw [Nat.abs_cast]
        exact_mod_cast significand_le q.den_pos
      · rw [powerOfTwo_eq, Int.cast_natCast]
    rw [nearest, if_neg hzero]
    split
    · exact hsize.neg
    · exact hsize

/-- From `2 ^ 52` units on, no double lies strictly between neighbouring whole numbers of units. -/
theorem IsDouble.units_le {x : Rat} (hx : IsDouble x) {unit units : Int} (hunits : 2 ^ 52 < units)
    (h : (units - 1 : Int) * (2 : Rat) ^ unit < x) : (units : Rat) * 2 ^ unit ≤ x := by
  obtain ⟨significand, exponent, hsignificand, -, rfl⟩ := hx
  have hpos : (0 : Rat) < 2 ^ unit := by positivity
  rcases le_or_gt unit exponent with hle | hlt
  · -- in a unit that is no finer the double is a whole number of units
    have hwhole : (significand : Rat) * 2 ^ exponent =
        (significand * 2 ^ (exponent - unit).toNat : Int) * 2 ^ unit := by
      push_cast
      rw [mul_assoc, ← zpow_natCast, ← zpow_add₀ (by norm_num)]
      congr 2
      omega
    rw [hwhole, mul_lt_mul_iff_left₀ hpos] at h
    rw [hwhole, mul_le_mul_iff_left₀ hpos]
    have hlt : units - 1 < significand * 2 ^ (exponent - unit).toNat := by exact_mod_cast h
    exact_mod_cast Int.sub_one_lt_iff.mp hlt
  · -- a double in a finer unit does not come beyond `2 ^ 52` units
    have hsmall : (significand : Rat) * 2 ^ exponent ≤ 2 ^ 52 * 2 ^ unit := by
      calc (significand : Rat) * 2 ^ exponent ≤ 2 ^ 53 * 2 ^ (unit - 1) := by
            have habs : (significand : Rat) ≤ 2 ^ 53 := by
              exact_mod_cast (le_abs_self significand).trans hsignificand
            have hpow : (2 : Rat) ^ exponent ≤ 2 ^ (unit - 1) :=
              zpow_le_zpow_right₀ (by norm_num) (by omega)
            gcongr
        _ = 2 ^ 52 * 2 ^ unit := by
            rw [zpow_sub_one₀ (by norm_num)]
            ring
    have hlarge : (2 : Rat) ^ 52 * 2 ^ unit ≤ (units - 1 : Int) * 2 ^ unit := by
      have hle : (2 : Rat) ^ 52 ≤ (units - 1 : Int) := by exact_mod_cast Int.le_sub_one_of_lt hunits
      gcongr
    exact absurd h (not_lt.mpr (hsmall.trans hlarge))

end CiPipeline.Binary64
