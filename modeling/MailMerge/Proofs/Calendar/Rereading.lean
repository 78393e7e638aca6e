import MailMerge.Calendar.Reading
import MailMerge.Proofs.Calendar.IsoForm
/-!
# Dates are read back

A moment written in one of the formats that have a shape of their own is read back as its day, with
the hours, minutes and seconds that the format shows (`DateReading.ofText_render`). No shape gives
the text another meaning: of the shapes that are tried before its own, each either does not fit or
tells the same moment, and the latter happens only in May, whose name is its own abbreviation
(`Shape.read?_unique`).
-/
namespace MailMerge

/-- The moment on a local clock as far as a format shows it, the rest of its time being zero. -/
def Moment.shownBy (fmt : Text) (x : Moment) : Moment where
  date := x.date
  time :=
    { hour := if 'H' ∈ fmt then x.time.hour else 0
      minute := if 'i' ∈ fmt then x.time.minute else 0
      second := if 's' ∈ fmt then x.time.second else 0
      microsecond := 0
      isTime := by
        obtain ⟨hhour, hminute, hsecond, -⟩ := x.time.isTime
        refine ⟨?_, ?_, ?_, by decide⟩ <;> split <;> omega }
  offset := none

namespace Shape

/-- The formats in which dates are accepted. -/
def dateFormats : List Text := [
  "Y-m-d H:i:s", "Y-m-d H:i", "Y-m-d", "Y/m/d", "Y/m/d H:i:s", "d-m-Y", "d-m-Y H:i:s", "d.m.Y",
  "m/d/Y", "m/d/Y H:i:s", "j F Y", "d F Y", "j M Y", "F j, Y", "M j, Y"].map String.toList

/-- The formats in which the form of ISO 8601 is written. -/
def isoFormats : List Text := ["Y-m-d H:i:s", "Y-m-d H:i", "Y-m-d"].map String.toList

/-- Names of months for their abbreviations and the other way round. -/
def swapNames (c : Char) : Char := if c = 'F' then 'M' else if c = 'M' then 'F' else c

/-! ## What a format shows -/

instance decidableIsReadable : (fmt : Text) → Decidable (IsReadable fmt)
  | [] => .isTrue trivial
  | _ :: r =>
    haveI := decidableIsReadable r
    inferInstanceAs (Decidable (_ ∧ _ ∧ _ ∧ _))

theorem isReadable_dateFormats : ∀ fmt ∈ dateFormats,
    IsReadable fmt ∧ IsReadable (fmt.map swapNames) := by
  decide +kernel

theorem IsReadable.mem {fmt : Text} (h : IsReadable fmt) :
    ∀ c ∈ fmt, c ∈ dateLetters ∨ c ∈ dateMarks := by
  induction fmt with
  | nil => simp
  | cons c fmt ih => exact List.forall_mem_cons.2 ⟨h.1, ih h.2.2.2⟩

theorem note_swapNames (x : Moment) (f : Found) (c : Char) :
    note x f (swapNames c) = note x f c := by
  unfold swapNames
  split
  · rename_i h
    rw [h]
    rfl
  · split
    · rename_i h
      rw [h]
      rfl
    · rfl

/-- In May names and abbreviations are the same. -/
theorem written_swapNames {x : Moment} (hmay : x.date.month = 5) (fmt : Text) :
    written x (fmt.map swapNames) = written x fmt := by
  have hname : DateFormat.monthName x = "May".toList := by
    rw [DateFormat.monthName, hmay]
    rfl
  have hpiece : ∀ c, piece x (swapNames c) = piece x c := by
    intro c
    unfold swapNames
    split
    · rename_i hc
      rw [hc, show piece x 'F' = DateFormat.monthName x from rfl,
        show piece x 'M' = (DateFormat.monthName x).take 3 from rfl, hname]
      rfl
    · split
      · rename_i hc
        rw [hc, show piece x 'F' = DateFormat.monthName x from rfl,
          show piece x 'M' = (DateFormat.monthName x).take 3 from rfl, hname]
        rfl
      · rfl
  rw [written, written, List.flatMap_map]
  simp only [hpiece]

/-- Each format shows the whole date. -/
theorem foldl_note (x : Moment) : ∀ fmt ∈ dateFormats,
    fmt.foldl (note x) {} = Found.ofMoment (x.shownBy fmt) :=
  List.map_inj_left.1 rfl

section
variable {x : Moment} (hyear : 1000 ≤ x.date.year) {fmt : Text} (hfmt : fmt ∈ dateFormats)
include hyear hfmt

/-- The shape of a format reads what is written in it, also with names for abbreviations. -/
theorem read?_written : read? (ofFormat fmt) (written x fmt) = some (x.shownBy fmt) ∧
    read? (ofFormat (fmt.map swapNames)) (written x (fmt.map swapNames)) =
      some (x.shownBy fmt) := by
  obtain ⟨hreadable, hswapped⟩ := isReadable_dateFormats fmt hfmt
  have hnotes : (fmt.map swapNames).foldl (note x) {} = fmt.foldl (note x) {} := by
    rw [List.foldl_map]
    simp only [note_swapNames]
  constructor
  · refine read?_of_matchParts rfl rfl rfl ?_
    rw [matchParts_written hyear hreadable, foldl_note x fmt hfmt]
  · refine read?_of_matchParts rfl rfl rfl ?_
    rw [matchParts_written hyear hswapped, hnotes, foldl_note x fmt hfmt]

end

/-! ## No other meaning -/

/-- What a format looks like with ones for digits is of its own shape only, but for May. -/
theorem reach_outline : ∀ fmt ∈ dateFormats, ∀ w ∈ outlines fmt, ∀ shape ∈ accepted,
    [] ∈ reach shape w.2 →
      shape = ofFormat fmt ∨ w.1 = 5 ∧ shape = ofFormat (fmt.map swapNames) := by
  decide +kernel

theorem ofFormat_mem_accepted : ∀ fmt ∈ dateFormats,
    fmt ∈ isoFormats ∨ ofFormat fmt ∈ accepted := by
  decide +kernel

theorem outline_ends : ∀ fmt ∈ dateFormats, ∀ w ∈ outlines fmt, 10 ≤ w.2.length ∧
    w.2.head?.all (!isBlank ·) = true ∧ w.2.getLast?.all (!isBlank ·) = true := by
  decide +kernel

theorem outline_beginning : ∀ fmt ∈ dateFormats, ∀ w ∈ outlines fmt, w.2.take 4 = "1111".toList →
    w.2[4]?.any ("-W1".toList.contains ·) = true → fmt ∈ isoFormats := by
  decide +kernel

section
variable {x : Moment} (hyear : 1000 ≤ x.date.year) {fmt : Text} (hfmt : fmt ∈ dateFormats)
include hyear hfmt

theorem ones_written_dateFormat :
    ∃ m, (m, ones (written x fmt)) ∈ outlines fmt ∧ (m = x.date.month ∨ m = 1) :=
  ones_written_mem hyear (isReadable_dateFormats fmt hfmt).1.mem

/-- No shape gives what is written in a format another meaning. -/
theorem read?_unique {shape : List Part} (hshape : shape ∈ accepted) {m : Moment}
    (h : read? shape (written x fmt) = some m) : m = x.shownBy fmt := by
  obtain ⟨hown, hswapped⟩ := read?_written hyear hfmt
  have hreach := reach_ones_of_read? hshape h
  obtain ⟨m, hm, hmonth⟩ := ones_written_dateFormat hyear hfmt
  rcases reach_outline fmt hfmt _ hm shape hshape hreach with rfl | ⟨hfive, rfl⟩
  · rw [hown] at h
    exact (Option.some.inj h).symm
  · have hmay : x.date.month = 5 := by
      rcases hmonth with hmonth | hmonth
      · exact hmonth.symm.trans hfive
      · exact absurd (hmonth.symm.trans hfive) (by decide)
    rw [written_swapNames hmay fmt, h] at hswapped
    exact Option.some.inj hswapped

end

/-! ## The form of ISO 8601 -/

theorem utf8Size_monthName : ∀ m ∈ months,
    ((monthNames.getD (m - 1) []).all fun c => c.utf8Size = 1) = true := by
  decide +kernel

theorem utf8Size_piece (x : Moment) {c : Char} (hc : c ∈ dateLetters ∨ c ∈ dateMarks) :
    ∀ e ∈ piece x c, e.utf8Size = 1 := by
  have hname : ∀ e ∈ DateFormat.monthName x, e.utf8Size = 1 :=
    forall_mem_of_all (utf8Size_monthName _ (month_mem x.date))
  have hnat : ∀ n, ∀ e ∈ Text.ofNat n, e.utf8Size = 1 := fun n e he =>
    IsoText.utf8Size_of_isDigit (Nat.isDigit_of_mem_toDigits (by decide) (by decide) he)
  have hpadded : ∀ n, ∀ e ∈ Text.ofNatPadded 2 n, e.utf8Size = 1 :=
    fun n e he => IsoText.utf8Size_of_isDigit (isDigit_of_mem_ofNatPadded he)
  rcases hc with hc | hc
  · simp only [dateLetters, List.mem_cons, List.not_mem_nil, or_false] at hc
    rcases hc with rfl | rfl | rfl | rfl | rfl | rfl | rfl | rfl | rfl
    · exact hnat _
    · exact hpadded _
    · exact hpadded _
    · exact hnat _
    · exact hpadded _
    · exact hpadded _
    · exact hpadded _
    · exact hname
    · exact fun e he => hname e (List.mem_of_mem_take he)
  · simp only [dateMarks, List.mem_cons, List.not_mem_nil, or_false] at hc
    rcases hc with rfl | rfl | rfl | rfl | rfl | rfl <;>
      exact fun e he => List.mem_singleton.1 he ▸ rfl

theorem utf8Size_written (x : Moment) {fmt : Text}
    (hfmt : ∀ c ∈ fmt, c ∈ dateLetters ∨ c ∈ dateMarks) : ∀ e ∈ written x fmt, e.utf8Size = 1 := by
  intro e he
  obtain ⟨c, hc, he⟩ := List.mem_flatMap.1 he
  exact utf8Size_piece x (hfmt c hc) e he

theorem written_dashed (x : Moment) (r : Text) :
    written x ("Y-m-d".toList ++ r) = IsoText.dashed x.date ++ written x r := by
  have hyear : piece x 'Y' = Text.ofNat x.date.year := rfl
  have hmonth : piece x 'm' = Text.ofNatPadded 2 x.date.month := rfl
  have hday : piece x 'd' = Text.ofNatPadded 2 x.date.day := rfl
  have hmark : piece x '-' = ['-'] := rfl
  rw [show "Y-m-d".toList = ['Y', '-', 'm', '-', 'd'] from rfl]
  simp [written, hyear, hmonth, hday, hmark, IsoText.dashed]

section
variable {x : Moment} {fmt : Text}

theorem piece_hour (h : 'H' ∈ fmt) :
    piece x 'H' = Text.ofNatPadded 2 (x.shownBy fmt).time.hour := by
  simp only [Moment.shownBy, if_pos h]
  rfl

theorem piece_minute (h : 'i' ∈ fmt) :
    piece x 'i' = Text.ofNatPadded 2 (x.shownBy fmt).time.minute := by
  simp only [Moment.shownBy, if_pos h]
  rfl

theorem piece_second (h : 's' ∈ fmt) :
    piece x 's' = Text.ofNatPadded 2 (x.shownBy fmt).time.second := by
  simp only [Moment.shownBy, if_pos h]
  rfl

theorem clock?_written_minutes (hhour : 'H' ∈ fmt) (hminute : 'i' ∈ fmt) (hsecond : 's' ∉ fmt) :
    IsoText.clock? (written x "H:i".toList) = some ((x.shownBy fmt).time, none) := by
  have hclock := @IsoText.clock?_minutes (x.shownBy fmt).time rfl (if_neg hsecond)
  have hmark : piece x ':' = [':'] := rfl
  rw [show "H:i".toList = ['H', ':', 'i'] from rfl]
  simpa [written, piece_hour hhour, piece_minute hminute, hmark] using hclock

theorem clock?_written_seconds (hhour : 'H' ∈ fmt) (hminute : 'i' ∈ fmt) (hsecond : 's' ∈ fmt) :
    IsoText.clock? (written x "H:i:s".toList) = some ((x.shownBy fmt).time, none) := by
  have hclock := @IsoText.clock?_seconds (x.shownBy fmt).time rfl
  have hmark : piece x ':' = [':'] := rfl
  rw [show "H:i:s".toList = ['H', ':', 'i', ':', 's'] from rfl]
  simpa [written, piece_hour hhour, piece_minute hminute, piece_second hsecond, hmark] using hclock

end

section
variable {x : Moment} (hyear : 1000 ≤ x.date.year) {fmt : Text}
include hyear

theorem moment?_written_date (h : fmt = "Y-m-d".toList) :
    IsoText.moment? (written x fmt) = some (.ofDate x.date) := by
  have hform : written x fmt = IsoText.dashed x.date := by
    rw [h, ← List.append_nil (IsoText.dashed x.date)]
    exact written_dashed x []
  rw [hform, IsoText.moment?_dashed hyear]

theorem moment?_written_clock {clock : Text} (h : fmt = "Y-m-d".toList ++ ' ' :: clock)
    (hclock : ∀ c ∈ clock, c ∈ dateLetters ∨ c ∈ dateMarks) {c : ClockTime}
    (hc : IsoText.clock? (written x clock) = some (c, none)) :
    IsoText.moment? (written x fmt) = some { date := x.date, time := c, offset := none } := by
  have hform : written x fmt = IsoText.dashed x.date ++ ' ' :: written x clock := by
    rw [h, written_dashed]
    rfl
  rw [hform, IsoText.moment?_dashed_clock hyear (utf8Size_written x hclock) hc]

theorem moment?_written (hfmt : fmt ∈ isoFormats) :
    IsoText.moment? (written x fmt) = some (x.shownBy fmt) := by
  simp only [isoFormats, List.map_cons, List.map_nil, List.mem_cons, List.not_mem_nil,
    or_false] at hfmt
  rcases hfmt with h | h | h
  · have hclock := @clock?_written_seconds x fmt (h ▸ by decide) (h ▸ by decide) (h ▸ by decide)
    exact moment?_written_clock hyear (h.trans (by decide)) (forall_mem_of_all (by decide))
      hclock
  · have hclock := @clock?_written_minutes x fmt (h ▸ by decide) (h ▸ by decide) (h ▸ by decide)
    exact moment?_written_clock hyear (h.trans (by decide)) (forall_mem_of_all (by decide))
      hclock
  · rw [moment?_written_date hyear h, h]
    rfl

/-- What is read as a form of ISO 8601 was written in one. -/
theorem mem_isoFormats (hfmt : fmt ∈ dateFormats) {m : Moment}
    (h : IsoText.moment? (written x fmt) = some m) : fmt ∈ isoFormats := by
  have hascii := utf8Size_written x (isReadable_dateFormats fmt hfmt).1.mem
  obtain ⟨d, hd, -⟩ := Option.bind_eq_some_iff.1 h
  rw [IsoText.spread_eq_self hascii] at hd
  obtain ⟨ds, c, r, ht, hlen, hds, hc⟩ := IsoText.date?_beginning hd
  obtain ⟨m, hm, -⟩ := ones_written_dateFormat hyear hfmt
  have hdigits := fun e he => isDecimalDigit_of_isDigit (hds e he)
  rw [ht, ones_digits_append hdigits, hlen, ones, List.map_cons] at hm
  refine outline_beginning fmt hfmt _ hm rfl ?_
  rcases hc with rfl | rfl | hc
  · rfl
  · rfl
  · rw [one, if_pos (isDecimalDigit_of_isDigit hc)]
    rfl

end

end Shape

/-! ## Reading again -/

namespace DateReading

/-- A text of some length is no word for a day. -/
theorem lookup_relativeDays_of_length {word : Text} (h : 10 ≤ word.length) :
    word ≠ "now".toList ∧ relativeDays.lookup word = none := by
  have hne (t : Text) (ht : t.length < 10) : word ≠ t := by
    rintro rfl
    omega
  refine ⟨hne _ (by decide), ?_⟩
  cases hl : relativeDays.lookup word with
  | none => rfl
  | some n =>
    rcases lookup_relativeDays.1 hl with h | h | h
    · exact absurd h.1 (hne _ (by decide))
    · exact absurd h.1 (hne _ (by decide))
    · exact absurd h.1 (hne _ (by decide))

/-- What is read first is the only thing that can be read. -/
theorem findSome?_of_unique {α β : Type} {f : α → Option β} {l : List α} {b : β}
    (hsome : ∃ a ∈ l, f a = some b) (hunique : ∀ a ∈ l, ∀ c, f a = some c → c = b) :
    l.findSome? f = some b := by
  obtain ⟨a, ha, hb⟩ := hsome
  cases hfind : l.findSome? f with
  | none =>
    rw [List.findSome?_eq_none_iff.1 hfind a ha] at hb
    cases hb
  | some c =>
    obtain ⟨d, hd, hc⟩ := List.exists_of_findSome?_eq_some hfind
    rw [hunique d hd c hc]

section
variable {x : Moment} (hyear : 1000 ≤ x.date.year) {fmt : Text} (hfmt : fmt ∈ Shape.dateFormats)
include hyear hfmt

/-- What is written in a format is long enough for a date, and has no blanks at its ends. -/
theorem trim_written : (Shape.written x fmt).trim = Shape.written x fmt ∧
    10 ≤ (Shape.written x fmt).length := by
  obtain ⟨m, hm, -⟩ := Shape.ones_written_dateFormat hyear hfmt
  obtain ⟨hlength, hhead, hlast⟩ := Shape.outline_ends fmt hfmt _ hm
  rw [Shape.ones, List.head?_map] at hhead
  rw [Shape.ones, List.getLast?_map] at hlast
  constructor
  · refine Text.trimBy_eq_self_of_ends (fun c hc => ?_) fun c hc => ?_
    · rw [Option.mem_def] at hc
      simpa [hc, Shape.isBlank_one] using hhead
    · rw [Option.mem_def] at hc
      simpa [hc, Shape.isBlank_one] using hlast
  · simpa [Shape.ones] using hlength

theorem moment?_eq : IsoText.moment? (Shape.written x fmt) =
    if fmt ∈ Shape.isoFormats then some (x.shownBy fmt) else none := by
  split
  · exact Shape.moment?_written hyear ‹_›
  · rename_i hiso
    cases hm : IsoText.moment? (Shape.written x fmt) with
    | none => rfl
    | some m => exact absurd (Shape.mem_isoFormats hyear hfmt hm) hiso

theorem findSome?_read? (hiso : fmt ∉ Shape.isoFormats) :
    (Shape.accepted.findSome? fun shape => Shape.read? shape (Shape.written x fmt)) =
      some (x.shownBy fmt) := by
  have haccepted := (Shape.ofFormat_mem_accepted fmt hfmt).resolve_left hiso
  refine findSome?_of_unique ⟨_, haccepted, (Shape.read?_written hyear hfmt).1⟩ ?_
  exact fun shape hshape m hm => Shape.read?_unique hyear hfmt hshape hm

/-- A moment is read back from what it is written as, as far as the format shows it. -/
theorem ofText_written (now : Moment) :
    ofText now (Shape.written x fmt) = .moment (x.shownBy fmt) := by
  obtain ⟨htrim, hlength⟩ := trim_written hyear hfmt
  have hempty : (Shape.written x fmt).isEmpty = false := by
    rw [List.isEmpty_eq_false_iff]
    exact List.ne_nil_of_length_pos (by omega)
  have hlow : 10 ≤ ((Shape.written x fmt).map Char.toLower).length := by simpa using hlength
  obtain ⟨hnow, hday⟩ := lookup_relativeDays_of_length hlow
  simp only [ofText, htrim, hempty, hnow, hday, moment?_eq hyear hfmt]
  by_cases hiso : fmt ∈ Shape.isoFormats
  · simp [hiso]
  · simp [hiso, findSome?_read? hyear hfmt hiso]

end

/-- Whether a text written in a format is read back as the moment it was made of, as far as the
format shows it, and neither the form of ISO 8601 nor any shape, whichever is tried first, reads
anything else in it. -/
structure ReadBack (now x : Moment) (fmt t : Text) : Prop where
  reads : ofText now t = .moment (x.shownBy fmt)
  iso : ∀ m, IsoText.moment? t = some m → m = x.shownBy fmt
  shapes : ∀ shape ∈ Shape.accepted, ∀ m, Shape.read? shape t = some m → m = x.shownBy fmt

theorem readBack_written {x : Moment} (hyear : 1000 ≤ x.date.year) {fmt : Text}
    (hfmt : fmt ∈ Shape.dateFormats) (now : Moment) :
    ReadBack now x fmt (Shape.written x fmt) where
  reads := ofText_written hyear hfmt now
  iso m hm := by
    rw [Shape.moment?_written hyear (Shape.mem_isoFormats hyear hfmt hm)] at hm
    exact (Option.some.inj hm).symm
  shapes shape hshape m hm := Shape.read?_unique hyear hfmt hshape hm

theorem asksOffset_dateFormats : ∀ fmt ∈ Shape.dateFormats, DateFormat.AsksOffset fmt := by
  have hall : Shape.dateFormats.all (fun fmt => !fmt.contains '\\' &&
      fmt.any fun c => !DateFormat.localLetters.contains c) = true := by decide
  intro fmt hfmt
  have hfree := List.all_eq_true.1 hall fmt hfmt
  rw [Bool.and_eq_true, List.any_eq_true] at hfree
  obtain ⟨hslash, c, hc, hmark⟩ := hfree
  exact DateFormat.asksOffset_of_mem (by simpa using hslash) hc (by simpa using hmark)

/-- A morning in May, whose name is as short as its abbreviation. -/
def mayMorning : Moment where
  date := ⟨2026, 5, 9, by decide⟩
  time := ⟨7, 30, 0, 0, by decide⟩
  offset := none

end DateReading
end MailMerge
