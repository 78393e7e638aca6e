import MailMerge.Calendar.Date
import MailMerge.Text.Basic
import MailMerge.Number.Binary64
/-!
# Moments

A day with a time of day to the microsecond and, for some moments, the distance of the local clock
from universal time. A moment without that distance is a reading of some local clock. A clock that is
put back shows some readings twice, so that a reading may be marked as the second of the two.
-/
namespace MailMerge

/-- A time of day. -/
def IsTime (h m s u : Nat) : Prop := h < 24 ∧ m < 60 ∧ s < 60 ∧ u < 1000000

instance (h m s u : Nat) : Decidable (IsTime h m s u) := inferInstanceAs (Decidable (_ ∧ _))

/-- A time of day to the microsecond. -/
structure ClockTime where
  hour : Nat
  minute : Nat
  second : Nat
  microsecond : Nat
  isTime : IsTime hour minute second microsecond
  deriving DecidableEq, Repr

/-- Midnight. -/
def ClockTime.midnight : ClockTime := ⟨0, 0, 0, 0, by decide⟩

/-- The time of day with these parts, if there is one. -/
def ClockTime.of? (h m s u : Nat) : Option ClockTime :=
  if p : IsTime h m s u then some ⟨h, m, s, u, p⟩ else none

/-- Microseconds in a day. -/
def microsPerDay : Int := 86400000000

/-- The distance of a local clock from universal time, less than a day. -/
structure Offset where
  micros : Int
  isOffset : -microsPerDay < micros ∧ micros < microsPerDay
  deriving DecidableEq, Repr

namespace Offset

/-- Universal time itself. -/
def utc : Offset := ⟨0, by decide⟩

/-- The distance of so many microseconds, if it is less than a day. -/
def of? (n : Int) : Option Offset :=
  if h : -microsPerDay < n ∧ n < microsPerDay then some ⟨n, h⟩ else none

/-- Hours, minutes and, when there are any, seconds and microseconds, after a sign. -/
def toText (o : Offset) : Text :=
  let n := o.micros.natAbs
  let s := n / 1000000
  (if o.micros < 0 then '-' else '+') ::
    (Text.ofNatPadded 2 (s / 3600) ++ ':' :: Text.ofNatPadded 2 (s / 60 % 60) ++
      (if n % 60000000 = 0 then []
       else ':' :: Text.ofNatPadded 2 (s % 60) ++
        (if n % 1000000 = 0 then [] else '.' :: Text.ofNatPadded 6 (n % 1000000))))

/-- The name of the clock: universal time, or its distance from it. -/
def name (o : Offset) : Text := if o.micros = 0 then "UTC".toList else "UTC".toList ++ o.toText

end Offset

/-- A moment: a day, a time, the local clock's distance from universal time when known, and whether
the clock shows this reading for the second time. -/
structure Moment where
  date : Date
  time : ClockTime
  offset : Option Offset
  again : Bool := false
  deriving DecidableEq, Repr

namespace Moment

/-- The beginning of a day. -/
def ofDate (d : Date) : Moment := { date := d, time := .midnight, offset := none }

/-- The same moment of the clock so many days later, if the calendar reaches it. It is taken for the
first one with this reading. -/
def addDays? (x : Moment) (n : Int) : Option Moment :=
  (Date.ofOrdinal? (x.date.ordinal + n)).map fun d => { x with date := d, again := false }

/-- Midnight of the same day. -/
def startOfDay (x : Moment) : Moment := { x with time := .midnight }

/-- Microseconds from the beginning of 1970 in universal time, which a clock at no known distance is
taken to show. -/
def sinceEpoch (x : Moment) : Int :=
  let days : Int := x.date.ordinal - 719163
  let t := x.time
  days * microsPerDay +
    (((t.hour * 60 + t.minute) * 60 + t.second) * 1000000 + t.microsecond : Nat) -
    (x.offset.elim 0 Offset.micros)

/-- Date and time with `sep` between them, the microseconds only when there are any, and the
distance from universal time when it is known. -/
def toTextWith (sep : Char) (x : Moment) : Text :=
  let t := x.time
  Text.ofNatPadded 4 x.date.year ++ '-' :: Text.ofNatPadded 2 x.date.month ++
    '-' :: Text.ofNatPadded 2 x.date.day ++ sep :: Text.ofNatPadded 2 t.hour ++
    ':' :: Text.ofNatPadded 2 t.minute ++ ':' :: Text.ofNatPadded 2 t.second ++
    (if t.microsecond = 0 then [] else '.' :: Text.ofNatPadded 6 t.microsecond) ++
    x.offset.elim [] Offset.toText

/-- The written form of ISO 8601. -/
def toIsoText (x : Moment) : Text := x.toTextWith 'T'

/-- The moment so many microseconds after the beginning of 1970, on a clock of universal time. -/
def ofEpoch? (n : Int) : Option Moment := do
  let d ← Date.ofOrdinal? (719163 + n / microsPerDay)
  let r := (n % microsPerDay).toNat
  let s := r / 1000000
  let t ← ClockTime.of? (s / 3600) (s / 60 % 60) (s % 60) (r % 1000000)
  pure { date := d, time := t, offset := some .utc }

end Moment

/-- A date in the form year-month-day. -/
def Date.toText (d : Date) : Text :=
  Text.ofNatPadded 4 d.year ++ '-' :: Text.ofNatPadded 2 d.month ++ '-' :: Text.ofNatPadded 2 d.day

end MailMerge
