import MailMerge.Calendar.Format
import MailMerge.Proofs.Calendar.Faults
import MailMerge.Proofs.Calendar.Shapes
/-!
# What is written in a format is read by its shape

The letters and marks of a format name the parts of a shape (`Shape.ofFormat`). Where nothing that
follows a part could be taken for its continuation, the shape of a format reads what is written in
the format part by part, and no choice is ever taken back (`Shape.read?_written`).
-/
namespace MailMerge

theorem Date.day_le (x : Date) : x.day ≤ 31 := by
  have hday := x.isDate.2.2.2.2.2
  unfold daysInMonth at hday
  split at hday
  · split at hday <;> omega
  all_goals omega

theorem ClockTime.of?_self (c : ClockTime) (h : c.microsecond = 0) :
    ClockTime.of? c.hour c.minute c.second 0 = some c := by
  rw [← h, of?, dif_pos c.isTime]

/-! ## Digits of fixed width -/

section
variable {n : Nat}

theorem ofNatPadded_two (h : n < 100) :
    Text.ofNatPadded 2 n = [Nat.digitChar (n / 10), Nat.digitChar (n % 10)] := by
  have hall : ∀ n : Fin 100,
      Text.ofNatPadded 2 n = [Nat.digitChar (n / 10), Nat.digitChar (n % 10)] := by decide
  exact hall ⟨n, h⟩

theorem length_ofNatPadded_two (h : n < 100) : (Text.ofNatPadded 2 n).length = 2 := by
  rw [ofNatPadded_two h]
  rfl

theorem ofNat_of_lt_ten (h : n < 10) : Text.ofNat n = [Nat.digitChar n] :=
  Nat.toDigits_of_lt_base h

theorem ofNat_two (h : 10 ≤ n ∧ n < 100) :
    Text.ofNat n = [Nat.digitChar (n / 10), Nat.digitChar (n % 10)] := by
  rw [Text.ofNat, Nat.toDigits_eq_if (by decide), if_neg (by omega),
    Nat.toDigits_of_lt_base (by omega)]
  rfl

theorem ofNat_four (h : 1000 ≤ n ∧ n < 10000) : Text.ofNat n =
    [Nat.digitChar (n / 1000), Nat.digitChar (n / 100 % 10), Nat.digitChar (n / 10 % 10),
      Nat.digitChar (n % 10)] := by
  rw [Text.ofNat, Nat.toDigits_eq_if (by decide), if_neg (by omega),
    Nat.toDigits_eq_if (by decide), if_neg (by omega), ← Text.ofNat, ofNat_two (by omega)]
  simp [Nat.div_div_eq_div_mul]

end

namespace Shape

/-- Nothing is taken where there is no digit. -/
theorem TakesDigits.eq_nil {k : Nat} {q : Text → List (Nat × Text)} (hq : TakesDigits (k + 1) q)
    {t : Text} (ht : ∀ c ∈ t.head?, isDecimalDigit c = false) : q t = [] := by
  refine List.eq_nil_iff_forall_not_mem.2 fun w hw => ?_
  obtain ⟨ds, rfl, hlen, hds⟩ := hq t w hw
  obtain ⟨c, cs, rfl⟩ := List.exists_cons_of_length_eq_add_one hlen
  have hdigit := hds c List.mem_cons_self
  rw [ht c rfl] at hdigit
  cases hdigit

section
variable {n : Nat} (h : n < 10)
include h

theorem oneOf_digitChar (low high : Nat) (r : Text) : oneOf low high (Nat.digitChar n :: r) =
    if low ≤ n ∧ n ≤ high then [(n, r)] else [] := by
  have hcode : ∀ n : Fin 10, (Nat.digitChar n).toNat = 48 + n := by decide
  have := hcode ⟨n, h⟩
  simp [oneOf, this]

theorem pair_digitChar {k : Nat} {q : Text → List (Nat × Text)} (hq : TakesDigits (k + 1) q)
    {r : Text} (hr : ∀ c ∈ r.head?, isDecimalDigit c = false) (low high : Nat) :
    pair (oneOf low high) q (Nat.digitChar n :: r) = [] := by
  have hnil : q r = [] := hq.eq_nil hr
  rw [pair, oneOf_digitChar h]
  split <;> simp [hnil]

theorem anyDigit_digitChar (r : Text) : anyDigit (Nat.digitChar n :: r) = [(n, r)] := by
  have hvalue : ∀ n : Fin 10, digitValue? (Nat.digitChar n) = some n.val := by decide
  have := hvalue ⟨n, h⟩
  simp [anyDigit, this]

end

section
variable {n : Nat} (h : n < 100) (low high : Nat) (r : Text)
include h

theorem pair_oneOf (low' high' : Nat) :
    pair (oneOf low high) (oneOf low' high') (Text.ofNatPadded 2 n ++ r) =
      if (low ≤ n / 10 ∧ n / 10 ≤ high) ∧ low' ≤ n % 10 ∧ n % 10 ≤ high' then [(n, r)] else [] := by
  have hten : n / 10 < 10 := by omega
  have hunit : n % 10 < 10 := by omega
  rw [ofNatPadded_two h, pair, List.cons_append, oneOf_digitChar hten]
  by_cases hlow : low ≤ n / 10 ∧ n / 10 ≤ high
  · by_cases hlow' : low' ≤ n % 10 ∧ n % 10 ≤ high' <;>
      simp [hlow, hlow', oneOf_digitChar hunit, Nat.div_add_mod]
  · simp [hlow]

theorem pair_oneOf_anyDigit :
    pair (oneOf low high) anyDigit (Text.ofNatPadded 2 n ++ r) =
      if low ≤ n / 10 ∧ n / 10 ≤ high then [(n, r)] else [] := by
  have hten : n / 10 < 10 := by omega
  have hunit : n % 10 < 10 := by omega
  rw [ofNatPadded_two h, pair, List.cons_append, oneOf_digitChar hten]
  split <;> simp [anyDigit_digitChar hunit, Nat.div_add_mod]

end

/-! ## Letters and marks -/

/-- The letters that name the parts of a date and a time of day. -/
def dateLetters : List Char := ['Y', 'm', 'd', 'j', 'H', 'i', 's', 'F', 'M']

/-- The characters between the parts. -/
def dateMarks : List Char := [' ', '-', '/', '.', ':', ',']

/-- What a character of a format stands for in a shape. -/
def Part.ofLetter : Char → Part
  | 'Y' => .year
  | 'm' => .month
  | 'd' => .day
  | 'j' => .day
  | 'H' => .hour
  | 'i' => .minute
  | 's' => .second
  | 'F' => .monthName
  | 'M' => .monthAbbr
  | ' ' => .gap
  | c => .just c

/-- The shape of what is written in a format. -/
def ofFormat (fmt : Text) : List Part := fmt.map Part.ofLetter

/-- Whether parts can be told apart where they meet: no digit follows a day that may have but one,
and what follows a gap is not blank. -/
def IsReadable : Text → Prop
  | [] => True
  | c :: r => (c ∈ dateLetters ∨ c ∈ dateMarks) ∧
      (c = 'j' → r.head?.all (dateMarks.contains ·) = true) ∧
      (c = ' ' → r.head?.any (dateLetters.contains ·) = true) ∧ IsReadable r

section
variable (x : Moment)

/-- What a character of a format is written as. -/
def piece (c : Char) : Text := (DateFormat.localLetter? x c).getD [c]

/-- A moment in a format. -/
def written (fmt : Text) : Text := fmt.flatMap (piece x)

/-- The numbers found once a part has been read. -/
def note (f : Found) : Char → Found
  | 'Y' => { f with year := x.date.year }
  | 'm' => { f with month := x.date.month }
  | 'F' => { f with month := x.date.month }
  | 'M' => { f with month := x.date.month }
  | 'd' => { f with day := x.date.day }
  | 'j' => { f with day := x.date.day }
  | 'H' => { f with hour := x.time.hour }
  | 'i' => { f with minute := x.time.minute }
  | 's' => { f with second := x.time.second }
  | _ => f

variable {x} (f : Found) (r : Text)

/-! ## Each part takes its piece -/

theorem ways_year (h : 1000 ≤ x.date.year) :
    (Part.year.ways f (piece x 'Y' ++ r)).head? = some (note x f 'Y', r) := by
  have hyear := x.date.isDate.2.1
  have hpiece : piece x 'Y' = Text.ofNat x.date.year := rfl
  rw [hpiece, ofNat_four ⟨h, by omega⟩]
  simp (disch := omega) [Part.ways, fourDigits, pair, anyDigit_digitChar, note]
  omega

theorem ways_month : (Part.month.ways f (piece x 'm' ++ r)).head? = some (note x f 'm', r) := by
  obtain ⟨-, -, hone, htwelve, -⟩ := x.date.isDate
  have hpiece : piece x 'm' = Text.ofNatPadded 2 x.date.month := rfl
  have hmonth : x.date.month < 100 := by omega
  simp only [hpiece, Part.ways, pair_oneOf hmonth]
  by_cases hten : 10 ≤ x.date.month
  · rw [if_pos (by omega)]
    rfl
  · rw [if_neg (by omega), if_pos (by omega)]
    rfl

theorem ways_hour : (Part.hour.ways f (piece x 'H' ++ r)).head? = some (note x f 'H', r) := by
  have hpiece : piece x 'H' = Text.ofNatPadded 2 x.time.hour := rfl
  have hbound := x.time.isTime.1
  have hhour : x.time.hour < 100 := by omega
  simp only [hpiece, Part.ways, pair_oneOf hhour, pair_oneOf_anyDigit hhour]
  by_cases htwenty : 20 ≤ x.time.hour
  · rw [if_pos (by omega)]
    rfl
  · rw [if_neg (by omega), if_pos (by omega)]
    rfl

theorem ways_minute : (Part.minute.ways f (piece x 'i' ++ r)).head? = some (note x f 'i', r) := by
  have hpiece : piece x 'i' = Text.ofNatPadded 2 x.time.minute := rfl
  have hbound := x.time.isTime.2.1
  have hminute : x.time.minute < 100 := by omega
  simp only [hpiece, Part.ways, pair_oneOf_anyDigit hminute]
  rw [if_pos (by omega)]
  rfl

theorem ways_second : (Part.second.ways f (piece x 's' ++ r)).head? = some (note x f 's', r) := by
  have hpiece : piece x 's' = Text.ofNatPadded 2 x.time.second := rfl
  have hbound := x.time.isTime.2.2.1
  have hsecond : x.time.second < 100 := by omega
  simp only [hpiece, Part.ways, pair_oneOf hsecond, pair_oneOf_anyDigit hsecond]
  rw [if_neg (by omega), if_pos (by omega)]
  rfl

theorem ways_day : (Part.day.ways f (piece x 'd' ++ r)).head? = some (note x f 'd', r) := by
  have hpiece : piece x 'd' = Text.ofNatPadded 2 x.date.day := rfl
  have hone := x.date.isDate.2.2.2.2.1
  have hlast := Date.day_le x.date
  have hday : x.date.day < 100 := by omega
  simp only [hpiece, Part.ways, pair_oneOf hday, pair_oneOf_anyDigit hday]
  by_cases hten : 10 ≤ x.date.day
  · by_cases hthirty : 30 ≤ x.date.day
    · rw [if_pos (by omega)]
      rfl
    · rw [if_neg (by omega), if_pos (by omega)]
      rfl
  · rw [if_neg (by omega), if_neg (by omega), if_pos (by omega)]
    rfl

/-- A day is taken with its last digit, whether or not it has a first one. -/
theorem ways_shortDay (hr : ∀ c ∈ r.head?, isDecimalDigit c = false) :
    (Part.day.ways f (piece x 'j' ++ r)).head? = some (note x f 'j', r) := by
  have hpiece : piece x 'j' = Text.ofNat x.date.day := rfl
  have hone := x.date.isDate.2.2.2.2.1
  have hlast := Date.day_le x.date
  by_cases hten : 10 ≤ x.date.day
  · have hwide : piece x 'j' = piece x 'd' := by
      have hday : x.date.day < 100 := by omega
      exact (ofNat_two ⟨hten, hday⟩).trans (ofNatPadded_two hday).symm
    rw [hwide]
    exact ways_day f r
  · have hsmall : x.date.day < 10 := by omega
    rw [hpiece, ofNat_of_lt_ten hsmall]
    simp only [Part.ways, List.singleton_append, oneOf_digitChar hsmall,
      pair_digitChar hsmall (@takesDigits_oneOf 0 1 (by decide)) hr,
      pair_digitChar hsmall (@takesDigits_oneOf 1 9 (by decide)) hr,
      pair_digitChar hsmall takesDigits_anyDigit hr]
    rw [if_pos (by omega)]
    rfl

/-! ## Names of months -/

/-- Whether neither of two texts begins with the other, in whatever case they are written. -/
def AreApart (a b : Text) : Prop :=
  ¬ a.map Char.toLower <+: b.map Char.toLower ∧ ¬ b.map Char.toLower <+: a.map Char.toLower

instance (a b : Text) : Decidable (AreApart a b) := inferInstanceAs (Decidable (_ ∧ _))

theorem AreApart.take_ne {a b : Text} (h : AreApart a b) (r : Text) :
    ((b ++ r).take a.length).map Char.toLower ≠ a.map Char.toLower := by
  intro heq
  have ha : a.map Char.toLower <+: (b ++ r).map Char.toLower :=
    heq ▸ (List.take_prefix ..).map _
  have hb : b.map Char.toLower <+: (b ++ r).map Char.toLower := (List.prefix_append b r).map _
  rcases Nat.le_total a.length b.length with hle | hle
  · exact h.1 (List.prefix_of_prefix_length_le ha hb (by simpa using hle))
  · exact h.2 (List.prefix_of_prefix_length_le hb ha (by simpa using hle))

theorem head?_name {names : List Text} (hapart : names.Pairwise AreApart) {i : Nat} {n : Text}
    (h : names[i]? = some n) (r : Text) : (name names (n ++ r)).head? = some (i + 1, r) := by
  rw [name, List.head?_filterMap]
  suffices hfrom : ∀ k, (names.zipIdx k).findSome? (fun e =>
      if ((n ++ r).take e.1.length).map Char.toLower = e.1.map Char.toLower then
        some (e.2 + 1, (n ++ r).drop e.1.length) else none) = some (i + k + 1, r) from hfrom 0
  intro k
  induction names generalizing i k with
  | nil => cases h
  | cons a names ih =>
    rw [List.zipIdx_cons, List.findSome?_cons]
    cases i with
    | zero =>
      obtain rfl : a = n := Option.some.inj h
      rw [if_pos (by rw [List.take_left])]
      simp
    | succ i =>
      obtain ⟨ha, hnames⟩ := List.pairwise_cons.1 hapart
      have hn : n ∈ names := List.mem_of_getElem? h
      rw [if_neg ((ha n hn).take_ne r), ih hnames h]
      simp
      omega

theorem monthNames_apart :
    ∀ names ∈ [monthNames, monthNames.map (·.take 3)], names.Pairwise AreApart := by
  decide +kernel

theorem getElem?_monthNames (x : Moment) :
    monthNames[x.date.month - 1]? = some (DateFormat.monthName x) := by
  obtain ⟨-, -, hone, htwelve, -⟩ := x.date.isDate
  rw [DateFormat.monthName, List.getD_eq_getElem?_getD, List.getElem?_eq_getElem]
  · rfl
  · show x.date.month - 1 < 12
    omega

theorem ways_monthName :
    (Part.monthName.ways f (piece x 'F' ++ r)).head? = some (note x f 'F', r) := by
  have hpiece : piece x 'F' = DateFormat.monthName x := rfl
  have hname := head?_name (monthNames_apart _ (by simp)) (getElem?_monthNames x) r
  have hmonth : x.date.month - 1 + 1 = x.date.month := Nat.sub_add_cancel x.date.isDate.2.2.1
  rw [hpiece, Part.ways, List.head?_map, hname, hmonth]
  rfl

theorem ways_monthAbbr :
    (Part.monthAbbr.ways f (piece x 'M' ++ r)).head? = some (note x f 'M', r) := by
  have hpiece : piece x 'M' = (DateFormat.monthName x).take 3 := rfl
  have hnth : (monthNames.map (·.take 3))[x.date.month - 1]? =
      some ((DateFormat.monthName x).take 3) := by
    rw [List.getElem?_map, getElem?_monthNames]
    rfl
  have hname := head?_name (monthNames_apart _ (by simp)) hnth r
  have hmonth : x.date.month - 1 + 1 = x.date.month := Nat.sub_add_cancel x.date.isDate.2.2.1
  rw [hpiece, Part.ways, List.head?_map, hname, hmonth]
  rfl

theorem ways_gap (hr : ∃ c ∈ r.head?, isBlank c = false) :
    (Part.gap.ways f (piece x ' ' ++ r)).head? = some (note x f ' ', r) := by
  obtain ⟨c, hc, hblank⟩ := hr
  obtain ⟨u, rfl⟩ := List.head?_eq_some_iff.1 hc
  have hpiece : piece x ' ' = [' '] := rfl
  have hspace : isBlank ' ' = true := rfl
  simp [hpiece, Part.ways, gaps, hspace, hblank, note, List.range_succ]

theorem ways_just {c : Char} (hc : piece x c = [c]) (hpart : Part.ofLetter c = .just c)
    (hnote : note x f c = f) :
    ((Part.ofLetter c).ways f (piece x c ++ r)).head? = some (note x f c, r) := by
  rw [hpart, hc, hnote, Part.ways, Text.dropStart?_append]
  rfl

end

/-! ## Ones for the digits of a moment -/

/-- What a character of a format is written as, with ones for digits: this depends on the month, for
its name, and on whether the day has but one digit. -/
def outline (month : Nat) (short : Bool) : Char → Text
  | 'Y' => ['1', '1', '1', '1']
  | 'j' => if short then ['1'] else ['1', '1']
  | 'm' => ['1', '1']
  | 'd' => ['1', '1']
  | 'H' => ['1', '1']
  | 'i' => ['1', '1']
  | 's' => ['1', '1']
  | 'F' => monthNames.getD (month - 1) []
  | 'M' => (monthNames.getD (month - 1) []).take 3
  | c => [c]

/-- Whether what a format looks like with ones for digits differs from one moment to another. -/
def varies (fmt : Text) : Bool := fmt.any ['F', 'M', 'j'].contains

theorem outline_fixed {fmt : Text} (h : varies fmt = false) (month : Nat) (short : Bool) :
    fmt.flatMap (outline month short) = fmt.flatMap (outline 1 false) := by
  rw [List.flatMap_def, List.flatMap_def]
  refine congrArg List.flatten (List.map_congr_left fun c hc => ?_)
  have hother := List.any_eq_false.1 h c hc
  unfold outline
  split <;> first | rfl | exact absurd rfl hother

theorem one_digitChar {n : Nat} (h : n < 10) : one (Nat.digitChar n) = '1' := by
  have hall : ∀ n : Fin 10, one (Nat.digitChar n) = '1' := by decide
  exact hall ⟨n, h⟩

theorem ones_ofNatPadded_two {n : Nat} (h : n < 100) :
    ones (Text.ofNatPadded 2 n) = ['1', '1'] := by
  rw [ofNatPadded_two h]
  simp (disch := omega) [ones, one_digitChar]

/-- The numbers of the months. -/
def months : List Nat := List.range' 1 12

theorem month_mem (x : Date) : x.month ∈ months := by
  obtain ⟨-, -, hone, htwelve, -⟩ := x.isDate
  rw [months, List.mem_range'_1]
  omega

theorem ones_monthName : ∀ m ∈ months,
    ones (monthNames.getD (m - 1) []) = monthNames.getD (m - 1) [] ∧
      ones ((monthNames.getD (m - 1) []).take 3) = (monthNames.getD (m - 1) []).take 3 := by
  decide +kernel

theorem ones_piece {x : Moment} (h : 1000 ≤ x.date.year) {c : Char}
    (hc : c ∈ dateLetters ∨ c ∈ dateMarks) :
    ones (piece x c) = outline x.date.month (x.date.day < 10) c := by
  obtain ⟨-, hyear, hone, htwelve, -⟩ := x.date.isDate
  obtain ⟨hhour, hminute, hsecond, -⟩ := x.time.isTime
  have hlast := Date.day_le x.date
  have hmonth := ones_monthName _ (month_mem x.date)
  rcases hc with hc | hc
  · simp only [dateLetters, List.mem_cons, List.not_mem_nil, or_false] at hc
    rcases hc with rfl | rfl | rfl | rfl | rfl | rfl | rfl | rfl | rfl
    · have hpiece : piece x 'Y' = Text.ofNat x.date.year := rfl
      rw [hpiece, ofNat_four ⟨h, by omega⟩]
      simp (disch := omega) [ones, one_digitChar, outline]
    · exact ones_ofNatPadded_two (by omega)
    · exact ones_ofNatPadded_two (by omega)
    · have hpiece : piece x 'j' = Text.ofNat x.date.day := rfl
      rw [hpiece, outline]
      by_cases hten : x.date.day < 10
      · rw [ofNat_of_lt_ten hten]
        simp [ones, one_digitChar, hten]
      · rw [ofNat_two (by omega)]
        simp (disch := omega) [ones, one_digitChar, hten]
    · exact ones_ofNatPadded_two (by omega)
    · exact ones_ofNatPadded_two (by omega)
    · exact ones_ofNatPadded_two (by omega)
    · exact hmonth.1
    · exact hmonth.2
  · simp only [dateMarks, List.mem_cons, List.not_mem_nil, or_false] at hc
    rcases hc with rfl | rfl | rfl | rfl | rfl | rfl <;> rfl

theorem ones_written {x : Moment} (h : 1000 ≤ x.date.year) {fmt : Text}
    (hfmt : ∀ c ∈ fmt, c ∈ dateLetters ∨ c ∈ dateMarks) :
    ones (written x fmt) = fmt.flatMap (outline x.date.month (x.date.day < 10)) := by
  rw [ones, written, List.map_flatMap, List.flatMap_def, List.flatMap_def]
  exact congrArg List.flatten (List.map_congr_left fun c hc => ones_piece h (hfmt c hc))

/-- What is written in a format looks like with ones for digits, with the month of its names where
it has names. -/
def outlines (fmt : Text) : List (Nat × Text) :=
  if varies fmt then
    months.flatMap fun m => [(m, fmt.flatMap (outline m true)), (m, fmt.flatMap (outline m false))]
  else [(1, fmt.flatMap (outline 1 false))]

theorem ones_written_mem {x : Moment} (h : 1000 ≤ x.date.year) {fmt : Text}
    (hfmt : ∀ c ∈ fmt, c ∈ dateLetters ∨ c ∈ dateMarks) :
    ∃ m, (m, ones (written x fmt)) ∈ outlines fmt ∧ (m = x.date.month ∨ m = 1) := by
  rw [ones_written h hfmt, outlines]
  split
  · refine ⟨x.date.month, List.mem_flatMap.2 ⟨_, month_mem x.date, ?_⟩, Or.inl rfl⟩
    cases decide (x.date.day < 10) <;> simp
  · rename_i hfixed
    rw [outline_fixed (Bool.eq_false_iff.2 hfixed) x.date.month]
    exact ⟨1, List.mem_singleton_self _, Or.inr rfl⟩

theorem outline_letter : ∀ m ∈ months, ∀ short,
    (dateLetters.all fun c => (outline m short c).head?.any (!isBlank ·)) = true := by
  decide +kernel

/-! ## Reading by the shape of the format -/

theorem head?_piece {x : Moment} (h : 1000 ≤ x.date.year) {c : Char} (hc : c ∈ dateLetters) :
    ∃ e ∈ (piece x c).head?, isBlank e = false := by
  have hout := outline_letter _ (month_mem x.date) (x.date.day < 10)
  replace hout := List.all_eq_true.1 hout c hc
  rw [← ones_piece h (Or.inl hc), ones, List.head?_map] at hout
  obtain ⟨e, he, hblank⟩ := (Option.any_eq_true ..).1 hout
  obtain ⟨d, hd, rfl⟩ := Option.map_eq_some_iff.1 he
  exact ⟨d, hd, by simpa [isBlank_one] using hblank⟩

theorem piece_mark (x : Moment) {c : Char} (hc : c ∈ dateMarks) :
    piece x c = [c] ∧ isDecimalDigit c = false := by
  simp only [dateMarks, List.mem_cons, List.not_mem_nil, or_false] at hc
  rcases hc with rfl | rfl | rfl | rfl | rfl | rfl <;> exact ⟨rfl, by decide⟩

theorem ways_piece {x : Moment} (hyear : 1000 ≤ x.date.year) {c : Char} {fmt : Text}
    (hfmt : IsReadable (c :: fmt)) (f : Found) :
    ((Part.ofLetter c).ways f (piece x c ++ written x fmt)).head? =
      some (note x f c, written x fmt) := by
  obtain ⟨hc, hday, hgap, -⟩ := hfmt
  rcases hc with hc | hc
  · simp only [dateLetters, List.mem_cons, List.not_mem_nil, or_false] at hc
    rcases hc with rfl | rfl | rfl | rfl | rfl | rfl | rfl | rfl | rfl
    · exact ways_year f _ hyear
    · exact ways_month f _
    · exact ways_day f _
    · refine ways_shortDay f _ fun e he => ?_
      cases fmt with
      | nil => cases he
      | cons d fmt =>
        obtain ⟨hpiece, hdigit⟩ := piece_mark x (List.contains_iff_mem.1 (hday rfl))
        rw [written, List.flatMap_cons, hpiece] at he
        cases he
        exact hdigit
    · exact ways_hour f _
    · exact ways_minute f _
    · exact ways_second f _
    · exact ways_monthName f _
    · exact ways_monthAbbr f _
  · simp only [dateMarks, List.mem_cons, List.not_mem_nil, or_false] at hc
    rcases hc with rfl | rfl | rfl | rfl | rfl | rfl
    · obtain ⟨d, hd, hletter⟩ := (Option.any_eq_true ..).1 (hgap rfl)
      obtain ⟨fmt, rfl⟩ := List.head?_eq_some_iff.1 hd
      obtain ⟨e, he, hblank⟩ := head?_piece hyear (List.contains_iff_mem.1 hletter)
      refine ways_gap f _ ⟨e, ?_, hblank⟩
      rw [written, List.flatMap_cons, List.head?_append, he]
      rfl
    all_goals exact ways_just f _ rfl rfl rfl

theorem matchParts_cons {p : Part} {ps : List Part} {f g : Found} {t r : Text}
    (h : (p.ways f t).head? = some (g, r)) {w : Found × Text} (hw : matchParts ps g r = some w) :
    matchParts (p :: ps) f t = some w := by
  obtain ⟨l, hl⟩ := List.head?_eq_some_iff.1 h
  simp [matchParts, hl, hw]

/-- Every part takes its own piece at the first attempt. -/
theorem matchParts_written {x : Moment} (hyear : 1000 ≤ x.date.year) {fmt : Text}
    (hfmt : IsReadable fmt) (f : Found) :
    matchParts (ofFormat fmt) f (written x fmt) = some (fmt.foldl (note x) f, []) := by
  induction fmt generalizing f with
  | nil => rfl
  | cons c fmt ih => exact matchParts_cons (ways_piece hyear hfmt f) (ih hfmt.2.2.2 _)

/-- The numbers of a moment. -/
def Found.ofMoment (m : Moment) : Found :=
  ⟨m.date.year, m.date.month, m.date.day, m.time.hour, m.time.minute, m.time.second⟩

theorem read?_of_matchParts {shape : List Part} {t : Text} {m : Moment} (hlocal : m.offset = none)
    (hfirst : m.again = false)    (hwhole : m.time.microsecond = 0)
    (h : matchParts shape {} t = some (Found.ofMoment m, [])) : read? shape t = some m := by
  have hdate : Date.of? m.date.year m.date.month m.date.day = some m.date :=
    Date.of?_eq_some_iff.2 ⟨rfl, rfl, rfl⟩
  have htime := m.time.of?_self hwhole
  simp [read?, h, Found.ofMoment, hdate, htime, ← hlocal, ← hfirst]

/-! ## Writing -/

theorem letter_eq_piece {z : Zone} {x : Moment} {p : Placed} (hplace : z.place x = .ok p) {c : Char}
    (hc : c ∈ dateLetters ∨ c ∈ dateMarks) : DateFormat.letter z x c = .ok (piece x c) := by
  rcases hc with hc | hc
  · simp only [dateLetters, List.mem_cons, List.not_mem_nil, or_false] at hc
    rcases hc with rfl | rfl | rfl | rfl | rfl | rfl | rfl | rfl | rfl <;> rfl
  · simp only [dateMarks, List.mem_cons, List.not_mem_nil, or_false] at hc
    rcases hc with rfl | rfl | rfl | rfl | rfl | rfl <;>
      exact (congrArg (Except.map _) hplace).trans rfl

theorem render_eq_written {z : Zone} {x : Moment} {p : Placed} (hplace : z.place x = .ok p)
    {fmt : Text} (hfmt : ∀ c ∈ fmt, c ∈ dateLetters ∨ c ∈ dateMarks) :
    DateFormat.render z x fmt = .ok (written x fmt) := by
  induction fmt with
  | nil => rfl
  | cons c fmt ih =>
    obtain ⟨hc, hfmt⟩ := List.forall_mem_cons.1 hfmt
    have hslash : c ≠ '\\' := by
      rintro rfl
      revert hc
      decide
    rw [DateFormat.render, letter_eq_piece hplace hc, ih hfmt]
    · rfl
    · exact fun h _ => hslash h
    · exact fun _ _ h _ => hslash h

end Shape
end MailMerge
