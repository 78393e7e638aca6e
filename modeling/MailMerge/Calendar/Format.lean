import MailMerge.Calendar.Shape
import MailMerge.Calendar.Zone
/-!
# Date formats

In a date format each letter stands for a part of the moment, a backslash makes the next character
stand for itself, and every other character stands for itself.

The letters for the distance from universal time, and characters that stand for themselves without
a backslash, ask for the place of the moment in universal time. A moment of a local clock that has
no such place, near an end of the calendar, cannot be put in a format with such a character.

Section 4.2 of the specification, resolver `date`: the letters of a format.
-/
namespace MailMerge.DateFormat

/-- The ending of an English ordinal number. -/
def ordinalEnding (day : Nat) : Text :=
  if 11 ≤ day % 100 && day % 100 ≤ 13 then "th".toList
  else match day % 10 with
    | 1 => "st".toList
    | 2 => "nd".toList
    | 3 => "rd".toList
    | _ => "th".toList

/-- The hour on a clock face of twelve. -/
def hour12 (h : Nat) : Nat := if h % 12 = 0 then 12 else h % 12

/-- Hours and minutes of the distance from universal time, rounded down to the minute. -/
def offsetText (colon : Bool) (o : Offset) : Text :=
  let minutes := o.micros.fdiv 60000000
  let n := minutes.natAbs
  (if 0 ≤ minutes then '+' else '-') :: Text.ofNatPadded 2 (n / 60) ++
    (if colon then [':'] else []) ++ Text.ofNatPadded 2 (n % 60)

/-- Seconds since the beginning of 1970: the quotient as a floating-point number, cut off. -/
def epochSeconds (x : Moment) : Int :=
  let n := x.sinceEpoch
  ((Binary64.ofFraction (n < 0) n.natAbs 1000000).truncate?).getD 0

/-- The name of the day of the week. -/
def dayName (x : Moment) : Text := dayNames.getD x.date.weekday []

/-- The name of the month. -/
def monthName (x : Moment) : Text := monthNames.getD (x.date.month - 1) []

/-- What a letter stands for that asks for no place in universal time. -/
def localLetter? (x : Moment) (c : Char) : Option Text :=
  let d := x.date
  let t := x.time
  match c with
  | 'd' => some (Text.ofNatPadded 2 d.day)
  | 'D' => some ((dayName x).take 3)
  | 'j' => some (Text.ofNat d.day)
  | 'l' => some (dayName x)
  | 'N' => some (Text.ofNat (d.weekday + 1))
  | 'S' => some (ordinalEnding d.day)
  | 'w' => some (Text.ofNat ((d.weekday + 1) % 7))
  | 'z' => some (Text.ofNat (d.dayOfYear - 1))
  | 'W' => some (Text.ofNatPadded 2 d.isoWeek.2)
  | 'F' => some (monthName x)
  | 'm' => some (Text.ofNatPadded 2 d.month)
  | 'M' => some ((monthName x).take 3)
  | 'n' => some (Text.ofNat d.month)
  | 't' => some (Text.ofNat (daysInMonth d.year d.month))
  | 'L' => some (if isLeapYear d.year then ['1'] else ['0'])
  | 'o' => some (Text.ofNat d.isoWeek.1)
  | 'Y' => some (Text.ofNat d.year)
  | 'y' => some (Text.ofNatPadded 2 (d.year % 100))
  | 'a' => some (if t.hour < 12 then "am".toList else "pm".toList)
  | 'A' => some (if t.hour < 12 then "AM".toList else "PM".toList)
  | 'g' => some (Text.ofNat (hour12 t.hour))
  | 'G' => some (Text.ofNat t.hour)
  | 'h' => some (Text.ofNatPadded 2 (hour12 t.hour))
  | 'H' => some (Text.ofNatPadded 2 t.hour)
  | 'i' => some (Text.ofNatPadded 2 t.minute)
  | 's' => some (Text.ofNatPadded 2 t.second)
  | 'u' => some (Text.ofNatPadded 6 t.microsecond)
  | 'v' => some (Text.ofNatPadded 3 (t.microsecond / 1000))
  | _ => none

/-- The moment in the form of a mail header, with its distance from universal time. -/
def mailDate (x : Moment) (o : Offset) : Text :=
  let part (c : Char) : Text := (localLetter? x c).getD []
  part 'D' ++ ',' :: ' ' :: part 'd' ++ ' ' :: part 'M' ++ ' ' :: part 'Y' ++ ' ' :: part 'H' ++
    ':' :: part 'i' ++ ':' :: part 's' ++ ' ' :: offsetText false o

/-- The moment without its microseconds, in the form of ISO 8601. -/
def isoSeconds (x : Moment) : Text :=
  let t := x.time
  let whole : ClockTime :=
    ⟨t.hour, t.minute, t.second, 0, ⟨t.isTime.1, t.isTime.2.1, t.isTime.2.2.1, by decide⟩⟩
  { x with time := whole }.toIsoText

/-- What any other character stands for, given the moment's place in universal time. -/
def placedLetter (p : Placed) (c : Char) : Text :=
  match c with
  | 'e' => p.name
  | 'T' => p.name
  | 'P' => offsetText true p.offset
  | 'O' => offsetText false p.offset
  | 'Z' => Text.ofInt (p.offset.micros.tdiv 1000000)
  | 'U' => Text.ofInt (epochSeconds p.moment)
  | 'c' => isoSeconds p.moment
  | 'r' => mailDate p.moment p.offset
  | c => [c]

/-- What a character of a format stands for, local clocks being those of the zone. -/
def letter (z : Zone) (x : Moment) (c : Char) : Except DateFault Text :=
  match localLetter? x c with
  | some t => .ok t
  | none => (z.place x).map fun p => placedLetter p c

/-- The moment in a format, local clocks being those of the zone. -/
def render (z : Zone) (x : Moment) : Text → Except DateFault Text
  | [] => .ok []
  | ['\\'] => .ok []
  | '\\' :: c :: r => (render z x r).map (c :: ·)
  | c :: r => do
    let t ← letter z x c
    let u ← render z x r
    .ok (t ++ u)

end MailMerge.DateFormat
