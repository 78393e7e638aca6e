import MailMerge.Phrase
import MailMerge.Proofs.Calendar.Ordinal
import MailMerge.Proofs.Calendar.Zones
/-!
# Where dates fail

A date is put into words or quietly left out but for the two ends of the calendar: the words for
the days around the present one name no day there (`DateReading.ofText_eq_outOfCalendar_iff`), and
a moment of a local clock may have no place in universal time, which some characters of formats ask
for (`DateFormat.render_error_iff`).
-/
namespace MailMerge

/-! ## Reading -/

namespace DateReading

/-- Whether a text is the word for a day that the calendar does not have. -/
inductive NamesNoDay (now : Moment) (t : Text) : Prop
  | tomorrow (word : t.trim.map Char.toLower = "tomorrow".toList) (last : now.date.IsLast)
  | yesterday (word : t.trim.map Char.toLower = "yesterday".toList) (first : now.date.IsFirst)

/-- Of today, tomorrow and yesterday only tomorrow of the last day and yesterday of the first one
are not in the calendar. -/
theorem addDays?_startOfDay_eq_none_iff (now : Moment) {n : Int} (h : -1 ≤ n ∧ n ≤ 1) :
    now.startOfDay.addDays? n = none ↔ n = 1 ∧ now.date.IsLast ∨ n = -1 ∧ now.date.IsFirst := by
  rw [Moment.addDays?_eq_none_iff, ← Date.ordinal_eq_last_iff, ← Date.ordinal_eq_one_iff]
  have hfirst := Date.one_le_ordinal now.date
  have hlast := Date.ordinal_le_last now.date
  simp only [Moment.startOfDay]
  omega

theorem lookup_relativeDays {word : Text} {n : Int} :
    relativeDays.lookup word = some n ↔
      word = "today".toList ∧ n = 0 ∨ word = "tomorrow".toList ∧ n = 1 ∨
        word = "yesterday".toList ∧ n = -1 := by
  have h01 : "today".toList ≠ "tomorrow".toList := by decide
  have h02 : "today".toList ≠ "yesterday".toList := by decide
  have h12 : "tomorrow".toList ≠ "yesterday".toList := by decide
  unfold relativeDays
  generalize "today".toList = a at *
  generalize "tomorrow".toList = b at *
  generalize "yesterday".toList = c at *
  by_cases ha : word = a
  · simp [ha, h01, h02, eq_comm]
  · by_cases hb : word = b
    · simp [List.lookup_cons, hb, beq_false_of_ne (Ne.symm h01), Ne.symm h01, h12, eq_comm]
    · by_cases hc : word = c
      · simp [List.lookup_cons, hc, beq_false_of_ne (Ne.symm h02), beq_false_of_ne (Ne.symm h12),
          Ne.symm h02, Ne.symm h12, eq_comm]
      · simp [List.lookup_cons, beq_false_of_ne ha, beq_false_of_ne hb, beq_false_of_ne hc, ha, hb, hc]

theorem ofText_eq_outOfCalendar_iff (now : Moment) (t : Text) :
    ofText now t = .outOfCalendar ↔ NamesNoDay now t := by
  have hnames : NamesNoDay now t ↔ ∃ n, relativeDays.lookup (t.trim.map Char.toLower) = some n ∧
      now.startOfDay.addDays? n = none := by
    constructor
    · rintro (⟨hw, h⟩ | ⟨hw, h⟩)
      · exact ⟨1, lookup_relativeDays.2 (by simp [hw]),
          (addDays?_startOfDay_eq_none_iff now (by decide)).2 (Or.inl ⟨rfl, h⟩)⟩
      · exact ⟨-1, lookup_relativeDays.2 (by simp [hw]),
          (addDays?_startOfDay_eq_none_iff now (by decide)).2 (Or.inr ⟨rfl, h⟩)⟩
    · rintro ⟨n, hn, h⟩
      rcases lookup_relativeDays.1 hn with ⟨hw, rfl⟩ | ⟨hw, rfl⟩ | ⟨hw, rfl⟩
      · have := (addDays?_startOfDay_eq_none_iff now (by decide)).1 h
        simp at this
      · exact .tomorrow hw ((by simpa using (addDays?_startOfDay_eq_none_iff now (by decide)).1 h))
      · exact .yesterday hw ((by simpa using (addDays?_startOfDay_eq_none_iff now (by decide)).1 h))
  rw [hnames, ofText]
  dsimp only
  split
  · rename_i hempty
    rw [List.isEmpty_iff.1 hempty]
    simp [relativeDays, List.lookup_cons]
  · split
    · rename_i hnow
      rw [hnow]
      simp [relativeDays, List.lookup_cons]
    · cases hl : relativeDays.lookup (t.trim.map Char.toLower) with
      | some n => cases ha : now.startOfDay.addDays? n <;> simp [ha]
      | none =>
        cases IsoText.moment? t.trim with
        | some x => simp
        | none => cases Shape.accepted.findSome? fun s => Shape.read? s t.trim <;> simp

end DateReading

/-! ## Formatting -/

namespace DateFormat

/-- The letters that ask for no place in universal time. -/
def localLetters : Text := "dDjlNSwzWFmMntLoYyaAgGhHisuv".toList

/-- Whether a character of a format, not after a backslash, asks for a place in universal time. -/
def AsksOffset : Text → Prop
  | [] => False
  | ['\\'] => False
  | '\\' :: _ :: r => AsksOffset r
  | c :: r => c ∉ localLetters ∨ AsksOffset r

theorem asksOffset_of_mem {fmt : Text} (hslash : '\\' ∉ fmt) {c : Char} (hc : c ∈ fmt)
    (hmark : c ∉ localLetters) : AsksOffset fmt := by
  induction fmt with
  | nil => cases hc
  | cons d r ih =>
    rw [List.mem_cons, not_or] at hslash
    rw [AsksOffset]
    · rcases List.mem_cons.1 hc with rfl | hc
      · exact Or.inl hmark
      · exact Or.inr (ih hslash.2 hc)
    · exact fun h _ => hslash.1 h.symm
    · exact fun _ _ h _ => hslash.1 h.symm

theorem isSome_localLetter? (x : Moment) {c : Char} (h : c ∈ localLetters) :
    (localLetter? x c).isSome = true := by
  have hall : (localLetters.map (localLetter? x)).all Option.isSome = true := rfl
  exact List.all_eq_true.1 hall _ (List.mem_map_of_mem h)

theorem localLetter?_of_not_mem (x : Moment) {c : Char} (h : c ∉ localLetters) :
    localLetter? x c = none := by
  unfold localLetter?
  dsimp only
  split
  case h_29 => rfl
  all_goals exact absurd (by decide) h

theorem localLetter?_eq_none_iff (x : Moment) (c : Char) :
    localLetter? x c = none ↔ c ∉ localLetters := by
  refine ⟨fun h hc => ?_, localLetter?_of_not_mem x⟩
  have := isSome_localLetter? x hc
  rw [h] at this
  cases this

theorem letter_error_iff {z : Zone} {x : Moment} {c : Char} {f : DateFault} :
    letter z x c = .error f ↔ z.place x = .error f ∧ c ∉ localLetters := by
  rw [← localLetter?_eq_none_iff x c]
  unfold letter
  cases localLetter? x c with
  | some t => simp
  | none => cases z.place x <;> simp [Except.map]

/-- A moment can be put in every format, or it has no place in universal time and can be put in
those that do not ask for it. -/
theorem render_error_iff {z : Zone} {x : Moment} {fmt : Text} {f : DateFault} :
    render z x fmt = .error f ↔ z.place x = .error f ∧ AsksOffset fmt := by
  fun_induction render z x fmt with
  | case1 => simp [AsksOffset]
  | case2 => simp [AsksOffset]
  | case3 c r ih =>
    rw [AsksOffset, ← ih]
    cases render z x r <;> simp [Except.map]
  | case4 c r hlone hescape ih =>
    have hasks : AsksOffset (c :: r) ↔ c ∉ localLetters ∨ AsksOffset r := by
      rw [AsksOffset]
      · exact hlone
      · exact hescape
    rw [hasks, and_or_left, ← letter_error_iff, ← ih]
    cases hc : letter z x c with
    | error e =>
      have hplace := (letter_error_iff.1 hc).1
      have hrest : render z x r = .error f → e = f := fun h => by
        have := (ih.1 h).1
        rw [hplace] at this
        exact Except.error.inj this
      simpa [bind, Except.bind] using hrest
    | ok t => cases render z x r <;> simp [bind, Except.bind]

end DateFormat
end MailMerge
