import MailMerge.Amount
import Mathlib.Algebra.Order.Field.Power
import Mathlib.Algebra.Order.Round
import Mathlib.Data.Rat.Floor
import Mathlib.Tactic.FieldSimp
import Mathlib.Tactic.Linarith
import Mathlib.Tactic.Positivity
import Mathlib.Tactic.Ring
/-!
# Rounding away from zero

The digits that are printed for an amount are those of the amount rounded to so many places, a half
going away from zero: in whole numbers (`Amount.rounded`) as among the rational ones (`roundAway`).

Results:
* `round_div`: rounding a quotient in whole numbers rounds the rational number.
* `Amount.roundedDigits_eq`: the digits are those of the rounded coefficient.
* `Amount.rounded_eq_round`: the rounded coefficient is the amount rounded in its last place.
* `Amount.rounded_le`: rounding carries an amount at most one place to the left.
-/
namespace MailMerge

/-- A number rounded to so many places, a half going away from zero. -/
def roundAway (q : ℚ) (places : Nat) : ℚ :=
  (if q < 0 then -1 else 1) * round (|q| * (10 : ℚ) ^ places) / (10 : ℚ) ^ places

/-! ## Quotients -/

section
variable {den : Nat}

/-- A half goes up: it is added, and the part behind the point left out. -/
theorem roundDiv_up (num : Nat) (h : 0 < den) :
    roundDiv num den .up = (2 * num + den) / (2 * den) := by
  have hd := Nat.div_add_mod num den
  have hm := Nat.mod_lt num h
  have key : ∀ q, q * (2 * den) = 2 * (den * q) := fun q => by ring
  have hle : roundDiv num den .up * (2 * den) ≤ 2 * num + den := by
    have hdist := (roundDiv_dist num den .up h).2
    rw [key]
    rwa [Nat.mul_assoc] at hdist
  have hlt : 2 * num + den < (roundDiv num den .up + 1) * (2 * den) := by
    rw [key, Nat.mul_succ]
    simp only [roundDiv]
    split
    · omega
    · rw [ite_self, Nat.mul_succ]
      omega
  exact (Nat.div_eq_of_lt_le hle hlt).symm

theorem round_div (num : Nat) (h : 0 < den) :
    round ((num : ℚ) / den) = (roundDiv num den .up : ℤ) := by
  have hden : (den : ℚ) ≠ 0 := Nat.cast_ne_zero.2 (Nat.ne_of_gt h)
  have hhalf : (num : ℚ) / den + 1 / 2 = ((2 * num + den : ℕ) : ℚ) / ((2 * den : ℕ) : ℚ) := by
    push_cast
    field_simp
  rw [round_eq, hhalf, Rat.floor_natCast_div_natCast, roundDiv_up num h, Int.natCast_ediv]

/-- Less than half a unit is rounded to nothing. -/
theorem roundDiv_up_eq_zero {num : Nat} (h : 2 * num < den) : roundDiv num den .up = 0 := by
  rw [roundDiv_up num (by omega), Nat.div_eq_of_lt (by omega)]

theorem roundDiv_le {num bound : Nat} (tie : Tie) (hden : 0 < den) (h : num ≤ den * bound) :
    roundDiv num den tie ≤ bound := by
  have hdist := (roundDiv_dist num den tie hden).2
  rw [Nat.mul_assoc] at hdist
  have hlt : den * roundDiv num den tie < den * (bound + 1) := by
    rw [Nat.mul_succ]
    omega
  exact Nat.le_of_lt_succ (Nat.lt_of_mul_lt_mul_left hlt)

end

namespace Amount

/-- The amount as a rational number. -/
def toRat (a : Amount) : ℚ :=
  (if a.negative then -1 else 1) * (a.coefficient * (10 : ℚ) ^ a.exponent)

/-- The amount without its sign in units of `10 ^ -places`, a half going up. -/
def rounded (a : Amount) (places : Nat) : Nat :=
  let shift := a.exponent + places
  if 0 ≤ shift then a.coefficient * 10 ^ shift.toNat
  else roundDiv a.coefficient (10 ^ shift.natAbs) .up

/-! ## Digits -/

/-- Zeros behind the digits of a number other than zero multiply it. -/
theorem ofNat_append_zeros {n : Nat} (h : 0 < n) (k : Nat) :
    Text.ofNat n ++ List.replicate k '0' = Text.ofNat (n * 10 ^ k) := by
  induction k with
  | zero => simp
  | succ k ih =>
    rw [List.replicate_succ', ← List.append_assoc, ih, Nat.pow_succ, ← Nat.mul_assoc,
      Nat.mul_comm _ 10]
    exact Nat.toDigits_append_toDigits (b := 10) (d := 0) (by decide) (by positivity) (by decide)

theorem roundedDigits_eq (a : Amount) (places : Nat) :
    a.roundedDigits places = Text.ofNat (a.rounded places) := by
  unfold roundedDigits rounded
  dsimp only
  by_cases hzero : a.coefficient = 0
  · rw [if_pos hzero, hzero]
    split
    · rw [Nat.zero_mul]
      rfl
    · rw [roundDiv_up_eq_zero (by positivity)]
      rfl
  rw [if_neg hzero]
  by_cases hshift : 0 ≤ a.exponent + places
  · rw [if_pos hshift, if_pos hshift, ofNat_append_zeros (Nat.pos_of_ne_zero hzero)]
  rw [if_neg hshift, if_neg hshift]
  split
  · -- the first digit stands behind the place that decides
    rename_i hfew
    obtain ⟨k, hk⟩ := Nat.exists_eq_add_of_lt hfew
    have hlt := Decimal.lt_pow_digitCount a.coefficient
    have hpow : 10 ^ Decimal.digitCount a.coefficient ≤ 10 ^ (Decimal.digitCount a.coefficient + k) :=
      Nat.pow_le_pow_right (by decide) (Nat.le_add_right _ _)
    rw [hk, Nat.pow_succ, roundDiv_up_eq_zero (by omega)]
    rfl
  · rfl

/-! ## Values -/

theorem abs_toRat (a : Amount) : |a.toRat| = a.coefficient * (10 : ℚ) ^ a.exponent := by
  have hpos : 0 ≤ a.coefficient * (10 : ℚ) ^ a.exponent := by positivity
  unfold toRat
  cases a.negative
  · rw [if_neg Bool.false_ne_true, one_mul, abs_of_nonneg hpos]
  · rw [if_pos rfl, neg_one_mul, abs_neg, abs_of_nonneg hpos]

theorem rounded_eq_round (a : Amount) (places : Nat) :
    (a.rounded places : ℤ) = round (|a.toRat| * 10 ^ places) := by
  have hten : (10 : ℚ) ≠ 0 := by norm_num
  have hscaled : |a.toRat| * 10 ^ places = a.coefficient * (10 : ℚ) ^ (a.exponent + places) := by
    rw [abs_toRat, zpow_add₀ hten, zpow_natCast, mul_assoc]
  rw [hscaled]
  unfold rounded
  by_cases hshift : 0 ≤ a.exponent + places
  · obtain ⟨k, hk⟩ := Int.eq_ofNat_of_zero_le hshift
    rw [if_pos hshift, hk, Int.toNat_natCast, zpow_natCast]
    have hwhole : (a.coefficient : ℚ) * 10 ^ k = ((a.coefficient * 10 ^ k : ℕ) : ℤ) := by
      push_cast
      rfl
    rw [hwhole, round_intCast]
  · have hneg : a.exponent + places = -((a.exponent + places).natAbs : ℤ) := by omega
    rw [if_neg hshift]
    generalize (a.exponent + places).natAbs = k at hneg ⊢
    have hden : (10 : ℚ) ^ k = ((10 ^ k : ℕ) : ℚ) := by
      push_cast
      rfl
    rw [hneg, zpow_neg, zpow_natCast, ← div_eq_mul_inv, hden, round_div _ (by positivity)]

/-- Rounding carries the leading digit at most one place to the left. -/
theorem rounded_le {a : Amount} {place : Nat}
    (h : Decimal.adjusted a.coefficient a.exponent < place) (places : Nat) :
    a.rounded places ≤ 10 ^ (place + places) := by
  have hlt := Decimal.lt_pow_digitCount a.coefficient
  unfold Decimal.adjusted at h
  unfold rounded
  dsimp only
  split
  · rename_i hshift
    calc a.coefficient * 10 ^ (a.exponent + places).toNat
        ≤ 10 ^ Decimal.digitCount a.coefficient * 10 ^ (a.exponent + places).toNat :=
          Nat.mul_le_mul_right _ (Nat.le_of_lt hlt)
      _ = 10 ^ (Decimal.digitCount a.coefficient + (a.exponent + places).toNat) :=
          (Nat.pow_add ..).symm
      _ ≤ 10 ^ (place + places) := Nat.pow_le_pow_right (by decide) (by omega)
  · rename_i hshift
    refine roundDiv_le .up (Nat.pow_pos (by decide)) (Nat.le_trans (Nat.le_of_lt hlt) ?_)
    rw [← Nat.pow_add]
    exact Nat.pow_le_pow_right (by decide) (by omega)

end Amount
end MailMerge
