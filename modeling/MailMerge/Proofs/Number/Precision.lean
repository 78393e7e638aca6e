import MailMerge.Proofs.Number.Rounding
/-!
# Numbers of few digits

A decimal that is rounded to a precision keeps its number just when that can be written with so many
digits, none of them below the least place. Zeros at the end of a coefficient can be left out.

Results:
* `roundTo_bounds`: what is rounded is written so.
* `magnitude_roundTo_eq_iff`: rounding changes all the other numbers, and only those.
* `normalize_spec`: a shortened coefficient ends in no zero and makes the same number.
-/
namespace MailMerge.Decimal

/-- The number of a coefficient with an exponent. -/
def magnitude (x : Nat × Int) : ℚ := x.1 * (10 : ℚ) ^ x.2

/-- Whether a number can be written with so many digits, none of them below a place. -/
def IsShort (precision : Nat) (least : Int) (q : ℚ) : Prop :=
  ∃ (c : Nat) (e : Int), q = magnitude (c, e) ∧ c < 10 ^ precision ∧ least ≤ e

section
variable {c d k precision : Nat} {e f least : Int}

/-- Zeros move from the coefficient into the exponent. -/
theorem magnitude_mul_pow (c k : Nat) (e : Int) :
    magnitude (c * 10 ^ k, e) = magnitude (c, e + k) := by
  have hten : (10 : ℚ) ≠ 0 := by norm_num
  unfold magnitude
  push_cast
  rw [zpow_add₀ hten, zpow_natCast, mul_assoc, mul_comm ((10 : ℚ) ^ k)]

theorem magnitude_inj : magnitude (c, e) = magnitude (d, e) ↔ c = d := by
  have hpos : (10 : ℚ) ^ e ≠ 0 := by positivity
  unfold magnitude
  rw [mul_left_inj' hpos, Nat.cast_inj]

/-- The same number with the smaller one of two exponents. -/
theorem eq_mul_pow_of_magnitude (h : magnitude (c, e) = magnitude (d, f)) (hle : e ≤ f) :
    c = d * 10 ^ (f - e).toNat := by
  have hshift : f = e + ((f - e).toNat : Int) := by omega
  rw [hshift, ← magnitude_mul_pow, magnitude_inj] at h
  rw [h]

/-! ## Rounding to a precision -/

/-- What is rounded has few digits, none of them below the least place. -/
theorem roundTo_bounds (precision : Nat) (least : Int) (c : Nat) (e : Int) :
    (roundTo precision least c e).1 < 10 ^ precision ∧ least ≤ (roundTo precision least c e).2 := by
  have hcount := lt_pow_digitCount c
  unfold roundTo
  dsimp only
  split
  · exact ⟨Nat.lt_of_lt_of_le hcount (Nat.pow_le_pow_right (by decide) (by omega)), by omega⟩
  split
  · exact ⟨Nat.pow_pos (by decide), le_max_right _ _⟩
  split
  · -- rounding up has filled all the digits
    rename_i hdrop _ _
    generalize hk : (max (e + ((digitCount c - precision : Nat) : Int)) least - e).toNat = k at hdrop ⊢
    have hle : roundDiv c (10 ^ k) .even ≤ 10 ^ precision := by
      refine roundDiv_le .even (Nat.pow_pos (by decide)) (Nat.le_trans (Nat.le_of_lt hcount) ?_)
      rw [← Nat.pow_add]
      exact Nat.pow_le_pow_right (by decide) (by omega)
    have hpos : 0 < 10 ^ precision := Nat.pow_pos (by decide)
    exact ⟨by omega, by omega⟩
  · rename_i hfew
    exact ⟨Nat.lt_of_lt_of_le (lt_pow_digitCount _)
      (Nat.pow_le_pow_right (by decide) (Nat.not_lt.1 hfew)), le_max_right _ _⟩

/-- The places that are dropped from a number of few digits hold zeros. -/
theorem pow_dvd_of_isShort (h : IsShort precision least (magnitude (c, e))) (hk : 0 < k)
    (hdrop : (k : Int) = max (e + ((digitCount c - precision : Nat) : Int)) least - e) :
    10 ^ k ∣ c := by
  by_cases hc : c = 0
  · exact hc ▸ Nat.dvd_zero _
  obtain ⟨d, f, heq, hd, hleast⟩ := h
  have hfar : ∀ {j}, c < 10 ^ (precision + j) → digitCount c ≤ precision + j := by
    intro j hlt
    by_cases hj : precision + j = 0
    · rw [hj] at hlt
      omega
    · exact digitCount_le_of_lt_pow (by omega) hlt
  by_cases hle : e ≤ f
  · have hcd := eq_mul_pow_of_magnitude heq hle
    have hcount : digitCount c ≤ precision + (f - e).toNat := by
      refine hfar ?_
      rw [hcd, Nat.pow_add]
      exact Nat.mul_lt_mul_of_pos_right hd (Nat.pow_pos (by decide))
    rw [hcd]
    exact Dvd.dvd.mul_left (Nat.pow_dvd_pow 10 (by omega)) d
  · -- a number with more places than were asked for was not to be rounded
    have hdc := eq_mul_pow_of_magnitude heq.symm (by omega)
    have hcount : digitCount c ≤ precision + 0 := by
      refine hfar (Nat.lt_of_le_of_lt ?_ hd)
      rw [hdc]
      exact Nat.le_mul_of_pos_right c (Nat.pow_pos (by decide))
    omega

/-- A number of few digits is rounded to itself. -/
theorem magnitude_roundTo_of_isShort (h : IsShort precision least (magnitude (c, e))) :
    magnitude (roundTo precision least c e) = magnitude (c, e) := by
  unfold roundTo
  dsimp only
  split
  · rfl
  rename_i hdrop
  generalize hk : (max (e + ((digitCount c - precision : Nat) : Int)) least - e).toNat = k at hdrop ⊢
  have htarget : max (e + ((digitCount c - precision : Nat) : Int)) least = e + k := by omega
  obtain ⟨d, rfl⟩ := pow_dvd_of_isShort h (Nat.pos_of_ne_zero hdrop) (by omega)
  rw [htarget, Nat.mul_comm, magnitude_mul_pow]
  rw [Nat.mul_comm] at hk
  have hpow : 0 < 10 ^ k := Nat.pow_pos (by decide)
  by_cases hd : d = 0
  · rw [hd, Nat.zero_mul, roundDiv_of_dvd .even hpow (Nat.dvd_zero _), Nat.zero_div]
    have hone : digitCount 0 = 1 := rfl
    repeat' split
    all_goals simp [magnitude]
  have hmany : ¬ digitCount (d * 10 ^ k) < k := fun hfew =>
    Nat.not_le.2 (Nat.lt_of_lt_of_le (lt_pow_digitCount _)
      (Nat.pow_le_pow_right (by decide) (Nat.le_of_lt hfew)))
      (Nat.le_mul_of_pos_left (10 ^ k) (Nat.pos_of_ne_zero hd))
  rw [if_neg hmany, roundDiv_of_dvd .even hpow (Nat.dvd_mul_left _ _), Nat.mul_div_cancel _ hpow]
  have hshort : ¬ precision < digitCount d := by
    intro hlong
    have hle := pow_le_of_lt_digitCount (Nat.pos_of_ne_zero hd) hlong
    have hlt : 10 ^ (precision + k) < 10 ^ digitCount (d * 10 ^ k) := by
      rw [Nat.pow_add]
      exact Nat.lt_of_le_of_lt (Nat.mul_le_mul_right _ hle) (lt_pow_digitCount _)
    have hdigits := (Nat.pow_lt_pow_iff_right (by decide)).1 hlt
    rw [Nat.mul_comm] at hdigits
    omega
  rw [if_neg hshort]

theorem magnitude_roundTo_eq_iff :
    magnitude (roundTo precision least c e) = magnitude (c, e) ↔
      IsShort precision least (magnitude (c, e)) :=
  ⟨fun h => h ▸ ⟨_, _, rfl, roundTo_bounds precision least c e⟩, magnitude_roundTo_of_isShort⟩

/-! ## Shortened coefficients -/

/-- Without zeros at its end a coefficient is no greater, its exponent no smaller, and its number the
same. -/
theorem stripZeros_spec {fuel : Nat} (hc : 0 < c) (hfuel : c < 10 ^ fuel) (e : Int) :
    magnitude (stripZeros fuel c e) = magnitude (c, e) ∧ (stripZeros fuel c e).1 % 10 ≠ 0 ∧
      (stripZeros fuel c e).1 ≤ c ∧ e ≤ (stripZeros fuel c e).2 := by
  induction fuel generalizing c e with
  | zero =>
    rw [Nat.pow_zero] at hfuel
    omega
  | succ fuel ih =>
    rw [stripZeros]
    split
    · rename_i hzero
      have hten : c = c / 10 * 10 ^ 1 := by omega
      rw [Nat.pow_succ] at hfuel
      obtain ⟨hvalue, hlast, hle, hexponent⟩ := ih (c := c / 10) (by omega) (by omega) (e + 1)
      refine ⟨?_, hlast, by omega, by omega⟩
      rw [hvalue]
      nth_rewrite 2 [hten]
      rw [magnitude_mul_pow]
      rfl
    · rename_i hlast
      exact ⟨rfl, hlast, Nat.le_refl c, Int.le_refl e⟩

theorem normalize_spec (hc : 0 < c) (e : Int) :
    magnitude (normalize c e) = magnitude (c, e) ∧ (normalize c e).1 % 10 ≠ 0 ∧
      (normalize c e).1 ≤ c ∧ e ≤ (normalize c e).2 := by
  unfold normalize
  rw [if_neg (Nat.ne_of_gt hc)]
  exact stripZeros_spec hc (lt_pow_digitCount c) e

end

end MailMerge.Decimal
