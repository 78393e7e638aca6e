import Mathlib.Algebra.Order.Field.Power
import Mathlib.Data.Rat.Floor
import Mathlib.Tactic.FieldSimp
import Mathlib.Tactic.Linarith
import Mathlib.Tactic.Positivity
import Mathlib.Tactic.Ring
import MailMerge.Number.Binary64
import MailMerge.Proofs.Number.Rounding
/-!
# How near binary numbers are

A binary number that is finite is a rational number (`toRat?`). What operations compute is rounded once,
so it is finite and half a unit in the last place away at most, as long as the exact result is below some
power of two that the format reaches.

* `floorLog2_spec`: the exponent of the leading bit.
* `ofFraction_near`: how near the number of a fraction is.
* `add_near`, `mul_near`: how near sums and products are.
* `truncate?_of_nonneg`: what is left of a number without the part after the point.
-/
namespace MailMerge.Binary64

/-- The rational number that a finite number is. -/
def toRat? : Binary64 → Option ℚ
  | .finite s m e => some (signed s m * 2 ^ e)
  | _ => none

/-- The sign of a rational number. -/
def applySign (s : Bool) (q : ℚ) : ℚ := if s then -q else q

/-- One half of the unit in the last place of numbers below a power of two. -/
def halfUnit (N : Int) : ℚ := 2 ^ (N - 54)

theorem cast_signed (s : Bool) (n : Nat) : ((signed s n : ℤ) : ℚ) = applySign s n := by
  cases s <;> simp [signed, applySign]

theorem toRat?_finite (s : Bool) (m : Nat) (e : Int) :
    (finite s m e).toRat? = some (applySign s (m * 2 ^ e)) := by
  rw [toRat?, cast_signed]
  cases s <;> simp [applySign]

theorem toRat?_zero (s : Bool) : (zero s).toRat? = some 0 := by
  rw [zero, toRat?_finite]
  cases s <;> simp [applySign]

theorem abs_applySign_sub (s : Bool) (p q : ℚ) : |applySign s p - applySign s q| = |p - q| := by
  cases s with
  | false => rfl
  | true => rw [applySign, applySign, if_pos rfl, if_pos rfl, neg_sub_neg, abs_sub_comm]

/-! ## Scaling -/

theorem scaled_pos {den : Nat} (hden : 0 < den) (num : Nat) (e : Int) : 0 < (scaled 2 num den e).2 :=
  Nat.mul_pos hden (Nat.pow_pos (by decide))

/-- Scaling multiplies a quotient by a power of two. -/
theorem scaled_div {den : Nat} (hden : 0 < den) (num : Nat) (e : Int) :
    ((scaled 2 num den e).1 : ℚ) / (scaled 2 num den e).2 = num / den * 2 ^ e := by
  have hsplit : (2 : ℚ) ^ e.toNat = 2 ^ e * 2 ^ (-e).toNat := by
    rw [← zpow_natCast, ← zpow_natCast, ← zpow_add₀ (by norm_num)]
    congr 1
    omega
  have hden' : (den : ℚ) ≠ 0 := Nat.cast_ne_zero.2 (Nat.ne_of_gt hden)
  simp only [scaled]
  push_cast
  rw [hsplit]
  field_simp

theorem cast_signed_scaled (s : Bool) (m : Nat) (e : Int) :
    ((signed s (scaled 2 m 1 e).1 : ℤ) : ℚ) = signed s m * 2 ^ e * (scaled 2 m 1 e).2 := by
  have hpos : ((scaled 2 m 1 e).2 : ℚ) ≠ 0 :=
    Nat.cast_ne_zero.2 (Nat.ne_of_gt (scaled_pos Nat.one_pos m e))
  have hscaled := scaled_div Nat.one_pos m e
  rw [Nat.cast_one, div_one, div_eq_iff hpos] at hscaled
  rw [cast_signed, cast_signed, hscaled]
  cases s
  · rfl
  · simp only [applySign, if_true]
    ring

theorem div_lt_div_iff_scaled {den : Nat} (hden : 0 < den) (num : Nat) (e : Int) :
    (scaled 2 num den e).1 < (scaled 2 num den e).2 ↔ (num : ℚ) / den * 2 ^ e < 1 := by
  have hpos : (0 : ℚ) < (scaled 2 num den e).2 := Nat.cast_pos.2 (scaled_pos hden num e)
  rw [← scaled_div hden, div_lt_one hpos, Nat.cast_lt]

/-! ## The leading bit -/

section
variable {num den : Nat}

/-- A number has its leading bit at its logarithm. -/
theorem log2_bounds {n : Nat} (h : 0 < n) :
    (2 : ℚ) ^ (n.log2 : ℤ) ≤ n ∧ (n : ℚ) < 2 ^ ((n.log2 : ℤ) + 1) := by
  have hlow := Nat.log2_self_le (Nat.ne_of_gt h)
  have hhigh := Nat.lt_log2_self (n := n)
  constructor
  · rw [zpow_natCast]
    exact_mod_cast hlow
  · have hcast : ((n.log2 : ℤ) + 1) = ((n.log2 + 1 : ℕ) : ℤ) := rfl
    rw [hcast, zpow_natCast]
    exact_mod_cast hhigh

theorem floorLog2_spec (hnum : 0 < num) (hden : 0 < den) :
    (2 : ℚ) ^ floorLog2 num den ≤ num / den ∧ (num : ℚ) / den < 2 ^ (floorLog2 num den + 1) := by
  obtain ⟨hnlow, hnhigh⟩ := log2_bounds hnum
  obtain ⟨hdlow, hdhigh⟩ := log2_bounds hden
  have hden' : (0 : ℚ) < den := Nat.cast_pos.2 hden
  have htwo : (2 : ℚ) ≠ 0 := by norm_num
  -- the logarithms of both numbers tell the quotient up to a factor of two either way
  have hlow : (2 : ℚ) ^ ((num.log2 : ℤ) - den.log2 - 1) < num / den := by
    rw [lt_div_iff₀ hden']
    calc (2 : ℚ) ^ ((num.log2 : ℤ) - den.log2 - 1) * den
        < 2 ^ ((num.log2 : ℤ) - den.log2 - 1) * 2 ^ ((den.log2 : ℤ) + 1) :=
          mul_lt_mul_of_pos_left hdhigh (by positivity)
      _ = 2 ^ (num.log2 : ℤ) := by
          rw [← zpow_add₀ htwo]
          congr 1
          ring
      _ ≤ num := hnlow
  have hhigh : (num : ℚ) / den < 2 ^ ((num.log2 : ℤ) - den.log2 + 1) := by
    rw [div_lt_iff₀ hden']
    calc (num : ℚ) < 2 ^ ((num.log2 : ℤ) + 1) := hnhigh
      _ = 2 ^ ((num.log2 : ℤ) - den.log2 + 1) * 2 ^ (den.log2 : ℤ) := by
          rw [← zpow_add₀ htwo]
          congr 1
          ring
      _ ≤ 2 ^ ((num.log2 : ℤ) - den.log2 + 1) * den :=
          mul_le_mul_of_nonneg_left hdlow (by positivity)
  -- and the comparison tells which half it is in
  have hcompare := div_lt_div_iff_scaled hden num (-((num.log2 : ℤ) - den.log2))
  rw [zpow_neg, ← div_eq_mul_inv, div_lt_one (by positivity)] at hcompare
  unfold floorLog2
  dsimp only
  split
  · rename_i hbelow
    rw [sub_add_cancel]
    exact ⟨hlow.le, hcompare.1 hbelow⟩
  · rename_i hnot
    exact ⟨not_lt.1 fun h => hnot (hcompare.2 h), hhigh⟩

/-! ## Rounding -/

theorem roundDiv_near (hden : 0 < den) (num : Nat) (tie : Tie) :
    |(roundDiv num den tie : ℚ) - num / den| ≤ 1 / 2 := by
  obtain ⟨hlow, hhigh⟩ := roundDiv_dist num den tie hden
  have hden' : (0 : ℚ) < den := Nat.cast_pos.2 hden
  have hlow' : (2 * num : ℚ) ≤ 2 * den * roundDiv num den tie + den := by exact_mod_cast hlow
  have hhigh' : (2 * den * roundDiv num den tie : ℚ) ≤ 2 * num + den := by exact_mod_cast hhigh
  have hquot : (num : ℚ) / den * den = num := div_mul_cancel₀ _ (ne_of_gt hden')
  rw [abs_le]
  constructor
  · refine le_of_mul_le_mul_right ?_ hden'
    rw [sub_mul, hquot]
    linarith
  · refine le_of_mul_le_mul_right ?_ hden'
    rw [sub_mul, hquot]
    linarith

/-- The number of a fraction below a power of two is finite, and half a unit away at most. -/
theorem ofFraction_near {N : Int} (hden : 0 < den) (hN : -1020 ≤ N) (hN' : N ≤ 1023)
    (h : (num : ℚ) / den < 2 ^ N) (s : Bool) :
    ∃ q, (ofFraction s num den).toRat? = some q ∧
      |q - applySign s (num / den)| ≤ halfUnit N := by
  rcases Nat.eq_zero_or_pos num with rfl | hnum
  · refine ⟨0, ?_, ?_⟩
    · rw [ofFraction_zero, toRat?_zero]
    · have hzero : applySign s (((0 : ℕ) : ℚ) / den) = 0 := by cases s <;> simp [applySign]
      rw [hzero, sub_zero, abs_zero]
      exact zpow_nonneg (by norm_num) _
  obtain ⟨hlow, hhigh⟩ := floorLog2_spec hnum hden
  have hlog : floorLog2 num den < N := by
    rw [← zpow_lt_zpow_iff_right₀ (a := (2 : ℚ)) (by norm_num)]
    exact hlow.trans_lt h
  unfold ofFraction
  rw [if_neg (Nat.ne_of_gt hnum)]
  dsimp only
  generalize he : max (floorLog2 num den - 52) leastExponent = e
  have hle : e ≤ N - 53 := by
    rw [← he, leastExponent]
    omega
  generalize hm : roundDiv (scaled 2 num den (-e)).1 (scaled 2 num den (-e)).2 .even = m
  have htwo : (0 : ℚ) < 2 ^ e := by positivity
  -- the mantissa is half away at most, in units of the exponent
  have hnear : |applySign s (m * 2 ^ e) - applySign s (num / den)| ≤ halfUnit N := by
    have hround := roundDiv_near (scaled_pos hden num (-e)) (scaled 2 num den (-e)).1 .even
    rw [scaled_div hden, hm, zpow_neg] at hround
    rw [abs_applySign_sub]
    calc |(m : ℚ) * 2 ^ e - num / den|
        = |((m : ℚ) - num / den * (2 ^ e)⁻¹) * 2 ^ e| := by
          congr 1
          field_simp
      _ = |(m : ℚ) - num / den * (2 ^ e)⁻¹| * 2 ^ e := by rw [abs_mul, abs_of_pos htwo]
      _ ≤ 1 / 2 * 2 ^ e := mul_le_mul_of_nonneg_right hround htwo.le
      _ ≤ 1 / 2 * 2 ^ (N - 53) :=
          mul_le_mul_of_nonneg_left (zpow_le_zpow_right₀ (by norm_num) hle) (by norm_num)
      _ = halfUnit N := by
          have hshift : N - 53 = N - 54 + 1 := by ring
          rw [halfUnit, hshift, zpow_add_one₀ (by norm_num)]
          ring
  -- a mantissa with one bit too many is the least such one
  have hcarry : m ≤ 2 ^ 53 := by
    rw [← hm]
    refine roundDiv_le .even (scaled_pos hden num (-e)) ?_
    have hlt : (num : ℚ) / den * 2 ^ (-e) < 2 ^ (53 : ℤ) := by
      rw [zpow_neg, ← div_eq_mul_inv, div_lt_iff₀ htwo, ← zpow_add₀ (by norm_num)]
      refine hhigh.trans_le (zpow_le_zpow_right₀ (by norm_num) ?_)
      rw [← he]
      omega
    have hpos : (0 : ℚ) < (scaled 2 num den (-e)).2 := Nat.cast_pos.2 (scaled_pos hden num (-e))
    rw [← scaled_div hden, div_lt_iff₀ hpos, mul_comm] at hlt
    have hcast : ((2 : ℚ) ^ (53 : ℤ)) = ((2 ^ 53 : ℕ) : ℚ) := by norm_num
    rw [hcast] at hlt
    exact_mod_cast hlt.le
  refine ⟨_, ?_, hnear⟩
  by_cases hbig : 2 ^ 53 ≤ m
  · have hm' : m = 2 ^ 53 := Nat.le_antisymm hcarry hbig
    have hfit : ¬ greatestExponent < e + 1 := by
      rw [greatestExponent]
      omega
    have hhalf : ((m / 2 : ℕ) : ℚ) * 2 ^ (e + 1) = m * 2 ^ e := by
      rw [hm', zpow_add_one₀ (by norm_num)]
      norm_num
      ring
    rw [if_pos hbig]
    dsimp only
    rw [if_neg hfit, toRat?_finite, hhalf]
  · have hfit : ¬ greatestExponent < e := by
      rw [greatestExponent]
      omega
    rw [if_neg hbig]
    dsimp only
    rw [if_neg hfit, toRat?_finite]

end

/-! ## Sums and products -/

section
variable {x y : Binary64} {a b : ℚ} {N : Int}

theorem eq_finite_of_toRat? (h : x.toRat? = some a) :
    ∃ s m e, x = finite s m e ∧ a = signed s m * 2 ^ e := by
  cases x with
  | finite s m e => exact ⟨s, m, e, rfl, (Option.some.inj h).symm⟩
  | nan => cases h
  | infinite => cases h

/-- The mantissa of a number at a smaller exponent. -/
theorem signed_mul_pow (s : Bool) (m : Nat) {e low : Int} (h : low ≤ e) :
    ((signed s (m * 2 ^ (e - low).toNat) : ℤ) : ℚ) * 2 ^ low = signed s m * 2 ^ e := by
  have hpow : (2 : ℚ) ^ (e - low).toNat * 2 ^ low = 2 ^ e := by
    rw [← zpow_natCast, ← zpow_add₀ (by norm_num)]
    congr 1
    omega
  rw [cast_signed, cast_signed]
  push_cast
  cases s
  · simp only [applySign, Bool.false_eq_true, if_false]
    rw [mul_assoc, hpow]
  · simp only [applySign, if_true]
    rw [neg_mul, mul_assoc, hpow, neg_mul]

theorem add_near (hx : x.toRat? = some a) (hy : y.toRat? = some b) (hN : -1020 ≤ N) (hN' : N ≤ 1023)
    (h : |a + b| < 2 ^ N) : ∃ q, (add x y).toRat? = some q ∧ |q - (a + b)| ≤ halfUnit N := by
  obtain ⟨s, m, e, rfl, rfl⟩ := eq_finite_of_toRat? hx
  obtain ⟨t, n, f, rfl, rfl⟩ := eq_finite_of_toRat? hy
  simp only [add]
  generalize hlow : min e f = low
  generalize hsum : signed s (m * 2 ^ (e - low).toNat) + signed t (n * 2 ^ (f - low).toNat) = z
  have hz : (z : ℚ) * 2 ^ low = signed s m * 2 ^ e + signed t n * 2 ^ f := by
    rw [← hsum, Int.cast_add, add_mul, signed_mul_pow s m (by omega), signed_mul_pow t n (by omega)]
  rw [← hz] at h ⊢
  by_cases hzero : z = 0
  · refine ⟨0, ?_, ?_⟩
    · rw [if_pos hzero, toRat?_zero]
    · rw [hzero, Int.cast_zero, zero_mul, sub_zero, abs_zero]
      exact zpow_nonneg (by norm_num) _
  · have hscaled := scaled_div Nat.one_pos z.natAbs low
    rw [Nat.cast_one, div_one, Nat.cast_natAbs, Int.cast_abs] at hscaled
    have hsign : applySign (decide (z < 0)) (|(z : ℚ)| * 2 ^ low) = z * 2 ^ low := by
      rcases lt_or_ge z 0 with hneg | hpos
      · have hneg' : (z : ℚ) < 0 := Int.cast_lt_zero.2 hneg
        rw [decide_eq_true hneg, applySign, if_pos rfl, abs_of_neg hneg', neg_mul, neg_neg]
      · have hpos' : (0 : ℚ) ≤ z := Int.cast_nonneg hpos
        rw [decide_eq_false (not_lt.2 hpos), applySign, if_neg Bool.false_ne_true,
          abs_of_nonneg hpos']
    rw [abs_mul, abs_of_pos (by positivity : (0 : ℚ) < 2 ^ low), ← hscaled] at h
    obtain ⟨q, hq, hnear⟩ := ofFraction_near (scaled_pos Nat.one_pos z.natAbs low) hN hN' h
      (decide (z < 0))
    rw [hscaled, hsign] at hnear
    exact ⟨q, by rw [if_neg hzero]; exact hq, hnear⟩

theorem mul_near (hx : x.toRat? = some a) (hy : y.toRat? = some b) (hN : -1020 ≤ N) (hN' : N ≤ 1023)
    (h : |a * b| < 2 ^ N) : ∃ q, (mul x y).toRat? = some q ∧ |q - a * b| ≤ halfUnit N := by
  obtain ⟨s, m, e, rfl, rfl⟩ := eq_finite_of_toRat? hx
  obtain ⟨t, n, f, rfl, rfl⟩ := eq_finite_of_toRat? hy
  simp only [mul]
  have hscaled := scaled_div Nat.one_pos (m * n) (e + f)
  rw [Nat.cast_one, div_one, zpow_add₀ (by norm_num)] at hscaled
  have hsign : applySign (s != t) (((m * n : ℕ) : ℚ) * (2 ^ e * 2 ^ f)) =
      signed s m * 2 ^ e * (signed t n * 2 ^ f) := by
    rw [cast_signed, cast_signed]
    cases s <;> cases t <;> simp [applySign] <;> ring
  have habs : |signed s m * 2 ^ e * (signed t n * 2 ^ f : ℚ)| =
      ((m * n : ℕ) : ℚ) * (2 ^ e * 2 ^ f) := by
    have hpos : (0 : ℚ) ≤ ((m * n : ℕ) : ℚ) * (2 ^ e * 2 ^ f) := by positivity
    rw [← hsign]
    cases (s != t)
    · exact abs_of_nonneg hpos
    · rw [applySign, if_pos rfl, abs_neg, abs_of_nonneg hpos]
  rw [habs, ← hscaled] at h
  obtain ⟨q, hq, hnear⟩ := ofFraction_near (scaled_pos Nat.one_pos (m * n) (e + f)) hN hN' h (s != t)
  rw [hscaled, hsign] at hnear
  exact ⟨q, hq, hnear⟩

/-! ## Whole parts -/

/-- What is left of a number without the part after the point. -/
theorem truncate?_of_nonneg (hx : x.toRat? = some a) (ha : 0 ≤ a) : x.truncate? = some ⌊a⌋ := by
  obtain ⟨s, m, e, rfl, rfl⟩ := eq_finite_of_toRat? hx
  have hscaled := scaled_div Nat.one_pos m e
  rw [Nat.cast_one, div_one] at hscaled
  simp only [truncate?, fraction?, Option.map_some, Option.some.injEq]
  cases s with
  | false =>
    have hvalue : ((signed false m : ℤ) : ℚ) * 2 ^ e =
        ((scaled 2 m 1 e).1 : ℚ) / (scaled 2 m 1 e).2 := by
      rw [hscaled, cast_signed]
      rfl
    rw [hvalue, Rat.floor_natCast_div_natCast]
    rfl
  | true =>
    -- only a zero has a sign without being below zero
    have hzero : m = 0 := by
      have hpos : (0 : ℚ) < 2 ^ e := by positivity
      rw [cast_signed, applySign, if_pos rfl, neg_mul, neg_nonneg] at ha
      have hle := nonpos_of_mul_nonpos_left ha hpos
      exact Nat.cast_eq_zero.1 (le_antisymm hle (Nat.cast_nonneg m))
    subst hzero
    simp [signed, scaled]

end

end MailMerge.Binary64
