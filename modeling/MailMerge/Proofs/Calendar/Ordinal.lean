import MailMerge.Calendar.Moment
/-!
# The days of the calendar by number

The calendar has a day for each number from 1 to 3652059 and for no other
(`Date.ofOrdinal?_eq_none_iff`). So a day before or after another one is missing only at the ends:
before 1 January of year 1 (`Date.ordinal_eq_one_iff`) and after 31 December of year 9999
(`Date.ordinal_eq_last_iff`).
-/
namespace MailMerge

/-- The number of days in a year. -/
def daysInYear (y : Nat) : Nat := if isLeapYear y then 366 else 365

/-- The number of the last day of the calendar. -/
def lastOrdinal : Nat := 3652059

theorem daysBeforeYear_last : daysBeforeYear 10000 = lastOrdinal := by decide

theorem isLeapYear_iff (y : Nat) :
    isLeapYear y = true ↔ y % 4 = 0 ∧ (y % 100 ≠ 0 ∨ y % 400 = 0) := by
  simp [isLeapYear]

theorem daysInYear_eq (y : Nat) : daysInYear y = 365 ∨ daysInYear y = 366 := by
  unfold daysInYear
  split
  · exact Or.inr rfl
  · exact Or.inl rfl

theorem daysBeforeYear_succ {y : Nat} (h : 1 ≤ y) :
    daysBeforeYear (y + 1) = daysBeforeYear y + daysInYear y := by
  obtain ⟨p, rfl⟩ : ∃ p, y = p + 1 := ⟨y - 1, by omega⟩
  have hle : p / 100 ≤ p / 4 := Nat.div_le_div_left (by omega) (by omega)
  have hdays : daysInYear (p + 1) =
      365 + (if 4 ∣ p + 1 then 1 else 0) - (if 100 ∣ p + 1 then 1 else 0) +
        (if 400 ∣ p + 1 then 1 else 0) := by
    unfold daysInYear
    by_cases hl : isLeapYear (p + 1) = true
    · have := (isLeapYear_iff _).1 hl
      rw [if_pos hl]
      split <;> split <;> split <;> omega
    · have := mt (isLeapYear_iff _).2 hl
      rw [if_neg hl]
      split <;> split <;> split <;> omega
  simp only [daysBeforeYear, Nat.add_sub_cancel, Nat.succ_div, hdays]
  generalize p / 4 = a at *
  generalize p / 100 = b at *
  split <;> split <;> split <;> omega

theorem daysBeforeYear_mono {y z : Nat} (h : y ≤ z) : daysBeforeYear y ≤ daysBeforeYear z := by
  induction h with
  | refl => exact Nat.le_refl _
  | step h ih =>
    rename_i z
    refine Nat.le_trans ih ?_
    cases z with
    | zero => decide
    | succ z =>
      rw [Nat.succ_eq_add_one, daysBeforeYear_succ (Nat.le_add_left 1 z)]
      exact Nat.le_add_right ..

/-- The days before a year counted in cycles of 400, 100, 4 and 1 years. -/
theorem daysBeforeYear_cycles (a : Nat) {b c d : Nat} (hb : b ≤ 3) (hc : c ≤ 24) (hd : d ≤ 3) :
    daysBeforeYear (a * 400 + b * 100 + c * 4 + d + 1) =
      146097 * a + 36524 * b + 1461 * c + 365 * d := by
  have h4 : (a * 400 + b * 100 + c * 4 + d) / 4 = 100 * a + 25 * b + c := by omega
  have h100 : (a * 400 + b * 100 + c * 4 + d) / 100 = 4 * a + b := by omega
  have h400 : (a * 400 + b * 100 + c * 4 + d) / 400 = a := by omega
  simp only [daysBeforeYear, Nat.add_sub_cancel, h4, h100, h400]
  omega

/-! ## The year of a day -/

namespace Date

/-- The year found for a day is the one that the day lies in. -/
theorem yearOfOrdinal_spec {n : Nat} (h : 1 ≤ n) :
    1 ≤ yearOfOrdinal n ∧ daysBeforeYear (yearOfOrdinal n) < n ∧
      n ≤ daysBeforeYear (yearOfOrdinal n) + daysInYear (yearOfOrdinal n) := by
  obtain ⟨k, rfl⟩ : ∃ k, n = k + 1 := ⟨n - 1, by omega⟩
  simp only [yearOfOrdinal, Nat.add_sub_cancel]
  have hk := Nat.div_add_mod k 146097
  have hr := Nat.mod_lt k (show 146097 > 0 by decide)
  generalize k / 146097 = a at *
  generalize k % 146097 = r at *
  -- the last century of a cycle and the last year of four may be a day longer, hence the minima
  obtain ⟨b, hb, hb3, hrb, hrb'⟩ : ∃ b, b = min 3 (r / 36524) ∧ b ≤ 3 ∧ 36524 * b ≤ r ∧
      r ≤ 36524 * b + 36524 - (if b = 3 then 0 else 1) := ⟨_, rfl, by omega, by omega, by
    split <;> omega⟩
  rw [← hb]
  obtain ⟨r', hr'⟩ : ∃ r', r' = r - b * 36524 := ⟨_, rfl⟩
  rw [← hr']
  have hs := Nat.div_add_mod r' 1461
  have hs' := Nat.mod_lt r' (show 1461 > 0 by decide)
  have hc24 : r' / 1461 ≤ 24 := by omega
  generalize r' / 1461 = c at *
  generalize r' % 1461 = s at *
  obtain ⟨d, hd, hd3, hsd, hsd'⟩ : ∃ d, d = min 3 (s / 365) ∧ d ≤ 3 ∧ 365 * d ≤ s ∧
      s ≤ 365 * d + 365 - (if d = 3 then 0 else 1) := ⟨_, rfl, by omega, by omega, by
    split <;> omega⟩
  rw [← hd, daysBeforeYear_cycles a hb3 hc24 hd3]
  have hyear := daysInYear_eq (a * 400 + b * 100 + c * 4 + d + 1)
  refine ⟨by omega, by omega, ?_⟩
  by_cases hlast : s = 365 * d + 365
  · obtain rfl : d = 3 := by
      split at hsd'
      · assumption
      · omega
    have hleap : isLeapYear (a * 400 + b * 100 + c * 4 + 3 + 1) = true := by
      refine (isLeapYear_iff _).2 ⟨by omega, ?_⟩
      split at hrb' <;> omega
    rw [daysInYear, if_pos hleap]
    omega
  · split at hsd' <;> omega

/-! ## The month of a day -/

theorem daysInMonths_succ (y m n : Nat) :
    daysInMonths y m (n + 1) = daysInMonth y m + daysInMonths y (m + 1) n := by
  rfl

theorem daysInMonths_add (y m n k : Nat) :
    daysInMonths y m (n + k) = daysInMonths y m n + daysInMonths y (m + n) k := by
  induction n generalizing m with
  | zero => simp [daysInMonths]
  | succ n ih =>
    have hfrom : m + 1 + n = m + (n + 1) := by omega
    rw [Nat.succ_add, daysInMonths_succ, ih, daysInMonths_succ, hfrom, Nat.add_assoc]

theorem daysInMonth_pos (y m : Nat) : 1 ≤ daysInMonth y m := by
  unfold daysInMonth
  split
  · split <;> decide
  all_goals decide

theorem daysInMonths_eq_zero {y m n : Nat} (h : daysInMonths y m n = 0) : n = 0 := by
  cases n with
  | zero => rfl
  | succ n =>
    have := daysInMonth_pos y m
    rw [daysInMonths_succ] at h
    omega

theorem daysInMonths_year (y : Nat) : daysInMonths y 1 12 = daysInYear y := by
  cases h : isLeapYear y <;> simp [daysInMonths, daysInYear, daysInMonth, h]

/-- A day of a run of months is found in one of them, after the days of those before it. -/
theorem splitDays_spec {y months m k : Nat} (h : k < daysInMonths y m (months + 1)) :
    ∃ i d, splitDays y months m k = (m + i, d) ∧ i ≤ months ∧ 1 ≤ d ∧
      d ≤ daysInMonth y (m + i) ∧ daysInMonths y m i + d = k + 1 := by
  induction months generalizing m k with
  | zero =>
    have : daysInMonths y m 1 = daysInMonth y m := by simp [daysInMonths]
    exact ⟨0, k + 1, rfl, Nat.le_refl 0, by omega, lt_of_lt_of_eq h this, by simp [daysInMonths]⟩
  | succ months ih =>
    rw [daysInMonths_succ] at h
    rw [splitDays]
    split
    · rename_i hk
      exact ⟨0, k + 1, rfl, by omega, by omega, hk, by simp [daysInMonths]⟩
    · rename_i hk
      obtain ⟨i, d, hsplit, hi, hd, hdle, hsum⟩ := ih (m := m + 1) (k := k - daysInMonth y m) (by omega)
      refine ⟨i + 1, d, ?_, by omega, hd, ?_, ?_⟩
      · rw [hsplit, show m + 1 + i = m + (i + 1) by omega]
      · rwa [show m + (i + 1) = m + 1 + i by omega]
      · rw [daysInMonths_succ]
        omega

/-! ## Days and their numbers -/

theorem daysBeforeMonth_eq (y m : Nat) : daysBeforeMonth y m = daysInMonths y 1 (m - 1) := rfl

theorem ofOrdinal?_eq (n : Int) : ofOrdinal? n =
    if n ≤ 0 then none
    else match splitDays (yearOfOrdinal n.toNat) 11 1
        (n.toNat - 1 - daysBeforeYear (yearOfOrdinal n.toNat)) with
      | (m, d) => of? (yearOfOrdinal n.toNat) m d := rfl

/-- A number from 1 to that of the last day is the number of a day. -/
theorem ofOrdinal?_of_le {n : Nat} (h : 1 ≤ n) (hn : n ≤ lastOrdinal) :
    ∃ x, ofOrdinal? n = some x ∧ x.ordinal = n := by
  obtain ⟨hy, hlo, hhi⟩ := yearOfOrdinal_spec h
  have hyear : yearOfOrdinal n ≤ 9999 := by
    refine Nat.le_of_not_lt fun hc => ?_
    have := daysBeforeYear_mono (show 10000 ≤ yearOfOrdinal n from hc)
    have := daysBeforeYear_last
    omega
  obtain ⟨i, d, hsplit, hi, hd, hdle, hsum⟩ :=
    @splitDays_spec (yearOfOrdinal n) 11 1
      (n - 1 - daysBeforeYear (yearOfOrdinal n)) (by rw [daysInMonths_year]; omega)
  have hdate : IsDate (yearOfOrdinal n) (1 + i) d := ⟨hy, hyear, by omega, by omega, hd, hdle⟩
  refine ⟨⟨_, _, _, hdate⟩, ?_, ?_⟩
  · have hpos : ¬ (n : Int) ≤ 0 := by omega
    rw [ofOrdinal?_eq, if_neg hpos, Int.toNat_natCast, hsplit]
    exact dif_pos hdate
  · simp only [ordinal, daysBeforeMonth_eq, Nat.add_sub_cancel_left]
    omega

/-- The calendar has no days but those from 1 to the last one. -/
theorem ofOrdinal?_eq_none_iff {n : Int} :
    ofOrdinal? n = none ↔ n < 1 ∨ (lastOrdinal : Int) < n := by
  constructor
  · refine fun h => Decidable.byContradiction fun hc => ?_
    obtain ⟨k, rfl⟩ : ∃ k : Nat, n = k := ⟨n.toNat, by omega⟩
    obtain ⟨x, hx, -⟩ := ofOrdinal?_of_le (n := k) (by omega) (by omega)
    rw [hx] at h
    cases h
  · rintro (h | h)
    · rw [ofOrdinal?, if_pos (by omega)]
    · obtain ⟨k, rfl⟩ : ∃ k : Nat, n = k := ⟨n.toNat, by simp only [lastOrdinal] at h; omega⟩
      have hk : lastOrdinal < k := by omega
      obtain ⟨-, -, hhi⟩ := yearOfOrdinal_spec (n := k) (by simp only [lastOrdinal] at hk; omega)
      have hyear : ¬ yearOfOrdinal k ≤ 9999 := by
        intro hc
        have hle := daysBeforeYear_mono (show yearOfOrdinal k + 1 ≤ 10000 by omega)
        have := daysBeforeYear_last
        rw [daysBeforeYear_succ (yearOfOrdinal_spec (n := k) (by omega)).1] at hle
        omega
      have hpos : ¬ (k : Int) ≤ 0 := by omega
      rw [ofOrdinal?_eq, if_neg hpos, Int.toNat_natCast]
      cases splitDays (yearOfOrdinal k) 11 1 (k - 1 - daysBeforeYear (yearOfOrdinal k)) with
      | mk m d => exact dif_neg fun hdate => hyear hdate.2.1

theorem one_le_ordinal (x : Date) : 1 ≤ x.ordinal := by
  obtain ⟨-, -, -, -, hd, -⟩ := x.isDate
  rw [ordinal]
  omega

/-- The days of a year come after all days before it. -/
theorem daysBeforeYear_lt_ordinal {y : Nat} (x : Date) (h : y ≤ x.year) :
    daysBeforeYear y < x.ordinal := by
  have hmono := daysBeforeYear_mono h
  obtain ⟨-, -, -, -, hd, -⟩ := x.isDate
  rw [ordinal]
  omega

/-- The days of a year up to a day, those left of its month and those of the months after it. -/
theorem ordinal_add_rest (x : Date) :
    x.ordinal + (daysInMonth x.year x.month - x.day) +
        daysInMonths x.year (x.month + 1) (12 - x.month) =
      daysBeforeYear x.year + daysInYear x.year := by
  obtain ⟨-, -, hm, hm', -, hd⟩ := x.isDate
  have hsplit : 12 = x.month - 1 + (12 - x.month + 1) := by omega
  rw [← daysInMonths_year, hsplit, daysInMonths_add, show 1 + (x.month - 1) = x.month by omega,
    daysInMonths_succ, ordinal, daysBeforeMonth_eq, ← hsplit]
  omega

theorem ordinal_le_last (x : Date) : x.ordinal ≤ lastOrdinal := by
  have hrest := ordinal_add_rest x
  rw [← daysBeforeYear_succ x.isDate.1] at hrest
  have hmono := daysBeforeYear_mono (show x.year + 1 ≤ 10000 from Nat.succ_le_succ x.isDate.2.1)
  have hlast := daysBeforeYear_last
  omega

/-- Whether a day is 1 January of year 1. -/
def IsFirst (x : Date) : Prop := x.year = 1 ∧ x.month = 1 ∧ x.day = 1

/-- Whether a day is 31 December of year 9999. -/
def IsLast (x : Date) : Prop := x.year = 9999 ∧ x.month = 12 ∧ x.day = 31

theorem ordinal_eq_one_iff (x : Date) : x.ordinal = 1 ↔ x.IsFirst := by
  constructor
  · intro h
    obtain ⟨hy, -, hm, -, hd, -⟩ := x.isDate
    rw [ordinal, daysBeforeMonth_eq] at h
    have hmonth := daysInMonths_eq_zero (y := x.year) (m := 1) (n := x.month - 1) (by omega)
    have hyear : x.year < 2 := by
      refine Nat.lt_of_not_le fun hc => ?_
      have := daysBeforeYear_mono hc
      have : daysBeforeYear 2 = 365 := by decide
      omega
    exact ⟨by omega, by omega, by omega⟩
  · rintro ⟨hy, hm, hd⟩
    rw [ordinal, hy, hm, hd]
    decide

theorem ordinal_eq_last_iff (x : Date) : x.ordinal = lastOrdinal ↔ x.IsLast := by
  constructor
  · intro h
    obtain ⟨hy, hy', hm, hm', -, hd⟩ := x.isDate
    have hrest := ordinal_add_rest x
    rw [← daysBeforeYear_succ hy] at hrest
    have hlast := daysBeforeYear_last
    have hyear : ¬ x.year + 1 ≤ 9999 := by
      intro hc
      have := daysBeforeYear_mono hc
      have : daysBeforeYear 9999 < lastOrdinal := by decide
      omega
    have hmono := daysBeforeYear_mono (show x.year + 1 ≤ 10000 from Nat.succ_le_succ hy')
    have hmonths := daysInMonths_eq_zero (y := x.year) (m := x.month + 1) (n := 12 - x.month)
      (by omega)
    have hmonth : x.month = 12 := by omega
    have hday : daysInMonth x.year x.month = 31 := by rw [hmonth]; rfl
    exact ⟨by omega, hmonth, by omega⟩
  · rintro ⟨hy, hm, hd⟩
    rw [ordinal, hy, hm, hd]
    decide

end Date

/-- Some days from a moment there is no day just when their number is not in the calendar. -/
theorem Moment.addDays?_eq_none_iff {x : Moment} {n : Int} :
    x.addDays? n = none ↔ x.date.ordinal + n < 1 ∨ (lastOrdinal : Int) < x.date.ordinal + n := by
  rw [addDays?, Option.map_eq_none_iff, Date.ofOrdinal?_eq_none_iff]

end MailMerge
