import MailMerge.Calendar.IsoText
import MailMerge.Calendar.Shape
/-!
# Reading dates

A text names a moment by one of the words for the present and the days around it, in the form of
ISO 8601, or in one of the accepted shapes. The words are understood in any case; blanks around the
text are dropped.

Section 4.2 of the specification, resolver `date`: `parse_date`.
-/
namespace MailMerge

/-- Why a text that names a day has no moment. -/
inductive DateReading where
  | moment (m : Moment)
  | unreadable
  | outOfCalendar
  deriving DecidableEq, Repr

namespace DateReading

/-- The words for the days around the present one. -/
def relativeDays : List (Text × Int) :=
  [("today".toList, 0), ("tomorrow".toList, 1), ("yesterday".toList, -1)]

/-- The moment that a text names at the time `now`. -/
def ofText (now : Moment) (text : Text) : DateReading :=
  let t := text.trim
  if t.isEmpty then .unreadable
  else
    let low := t.map Char.toLower
    if low = "now".toList then .moment now
    else match relativeDays.lookup low with
      | some n =>
        match now.startOfDay.addDays? n with
        | some m => .moment m
        | none => .outOfCalendar
      | none =>
        match IsoText.moment? t with
        | some m => .moment m
        | none =>
          match Shape.accepted.findSome? fun s => Shape.read? s t with
          | some m => .moment m
          | none => .unreadable

end DateReading
end MailMerge
