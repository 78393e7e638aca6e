/-!
# Dates

Days of the Gregorian calendar, extended backwards, from 1 January of year 1 to 31 December of year
9999. Days are counted from 1 January of year 1, which is day 1.
-/
namespace MailMerge

/-- Whether a year has 366 days. -/
def isLeapYear (y : Nat) : Bool := y % 4 == 0 && (y % 100 != 0 || y % 400 == 0)

/-- The number of days in a month. -/
def daysInMonth (y m : Nat) : Nat :=
  match m with
  | 2 => if isLeapYear y then 29 else 28
  | 4 | 6 | 9 | 11 => 30
  | _ => 31

/-- The days of the calendar. -/
def IsDate (y m d : Nat) : Prop :=
  1 ≤ y ∧ y ≤ 9999 ∧ 1 ≤ m ∧ m ≤ 12 ∧ 1 ≤ d ∧ d ≤ daysInMonth y m

instance (y m d : Nat) : Decidable (IsDate y m d) := inferInstanceAs (Decidable (_ ∧ _))

/-- A day of the calendar. -/
structure Date where
  year : Nat
  month : Nat
  day : Nat
  isDate : IsDate year month day
  deriving DecidableEq, Repr

/-- The number of days before 1 January of a year. -/
def daysBeforeYear (y : Nat) : Nat :=
  let p := y - 1
  p * 365 + p / 4 - p / 100 + p / 400

/-- The number of days in `n` months of the year from month `m` on. -/
def daysInMonths (y : Nat) : (m n : Nat) → Nat
  | _, 0 => 0
  | m, n + 1 => daysInMonth y m + daysInMonths y (m + 1) n

/-- The number of days of the year before the first of a month. -/
def daysBeforeMonth (y m : Nat) : Nat := daysInMonths y 1 (m - 1)

namespace Date

/-- The day with this year, month and day of the month, if there is one. -/
def of? (y m d : Nat) : Option Date := if h : IsDate y m d then some ⟨y, m, d, h⟩ else none

/-- The number of the day. -/
def ordinal (x : Date) : Nat := daysBeforeYear x.year + daysBeforeMonth x.year x.month + x.day

/-- The number of the day within its year, from one. -/
def dayOfYear (x : Date) : Nat := daysBeforeMonth x.year x.month + x.day

/-- The year that holds the day of this number: the years before it are counted in cycles of 400,
100, 4 and 1 years, of which the last of a cycle may be a day longer. -/
def yearOfOrdinal (n : Nat) : Nat :=
  let k := n - 1
  let c400 := k / 146097
  let k := k % 146097
  let c100 := min 3 (k / 36524)
  let k := k - c100 * 36524
  let c4 := k / 1461
  let k := k % 1461
  c400 * 400 + c100 * 100 + c4 * 4 + min 3 (k / 365) + 1

/-- The month and day of the `k`-th day, from zero, counted from the first of month `m`. -/
def splitDays (y : Nat) : (months m k : Nat) → Nat × Nat
  | 0, m, k => (m, k + 1)
  | months + 1, m, k =>
    if k < daysInMonth y m then (m, k + 1) else splitDays y months (m + 1) (k - daysInMonth y m)

/-- The day of this number, if the calendar has it. -/
def ofOrdinal? (n : Int) : Option Date :=
  if n ≤ 0 then none
  else
    let k := n.toNat
    let y := yearOfOrdinal k
    let (m, d) := splitDays y 11 1 (k - 1 - daysBeforeYear y)
    of? y m d

/-- The day of the week, Monday being zero. -/
def weekday (x : Date) : Nat := (x.ordinal + 6) % 7

/-- The number of the Monday that begins the first week of a year: the week that holds its first
Thursday. -/
def firstMonday (y : Nat) : Int :=
  let first : Int := daysBeforeYear y + 1
  let wd := (first + 6) % 7
  let monday := first - wd
  if 3 < wd then monday + 7 else monday

/-- The year and week number of a day, weeks belonging to the year that holds their Thursday. -/
def isoWeek (x : Date) : Nat × Nat :=
  let n : Int := x.ordinal
  if n < firstMonday x.year then
    (x.year - 1, ((n - firstMonday (x.year - 1)) / 7).toNat + 1)
  else if firstMonday (x.year + 1) ≤ n then (x.year + 1, 1)
  else (x.year, ((n - firstMonday x.year) / 7).toNat + 1)

theorem of?_eq_some_iff {y m d : Nat} {x : Date} :
    of? y m d = some x ↔ x.year = y ∧ x.month = m ∧ x.day = d := by
  unfold of?
  split
  · rename_i h
    constructor
    · intro e; injection e with e; subst e; exact ⟨rfl, rfl, rfl⟩
    · rintro ⟨rfl, rfl, rfl⟩; rfl
  · rename_i h
    constructor
    · intro e; exact absurd e (by simp)
    · rintro ⟨rfl, rfl, rfl⟩; exact absurd x.isDate h

end Date
end MailMerge
