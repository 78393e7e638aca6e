import MailMerge.Calendar.Moment
/-!
# Time zones

A zone tells how far its clocks are ahead of universal time, and what their time is called, at each
second of universal time.

A moment without a distance from universal time is a reading of the zone's clock, and the second of
universal time at which the clock shows it has to be searched for (`Zone.instant`). The distance at
one second gives a first candidate. The distance a day before it, or a day after it for a reading
that is shown for the second time, gives another one, which goes first. A reading that a clock put
forward passes over is shown at neither of them; then the later candidate is taken, or the earlier
one for a second time.

The search reads the clock up to three days away from the moment, and a clock has no reading outside
the calendar. So moments near the two ends of the calendar may have no place in universal time.
-/
namespace MailMerge

/-- Why a date could not be put into words. -/
inductive DateFault where
  | outOfCalendar
  | beforeCalendar
  | afterCalendar
  deriving DecidableEq, Repr

/-- Seconds in a day. -/
def secondsPerDay : Int := 86400

/-- The first second of the calendar. Seconds are counted from the beginning of 1970. -/
def firstSecond : Int := -62135596800

/-- The last second of the calendar. -/
def lastSecond : Int := 253402300799

/-- Whether a character may stand in the name of a zone's time. -/
def inZoneName (c : Char) : Bool := c.isAlphanum || c == '+' || c == '-'

/-- A time zone: the seconds by which its clocks are ahead of universal time, and the name of their
time, at each second of universal time. -/
structure Zone where
  shift : Int → Int
  name : Int → Text
  isShift : ∀ u, -secondsPerDay < shift u ∧ shift u < secondsPerDay
  isName : ∀ u, ∀ c ∈ name u, inZoneName c = true

/-- A moment on a clock at a known distance from universal time, with the name of the clock. -/
structure Placed where
  moment : Moment
  offset : Offset
  name : Text
  deriving DecidableEq, Repr

namespace Zone

/-- The zone whose clocks show universal time. -/
def utc : Zone where
  shift _ := 0
  name _ := "UTC".toList
  isShift _ := by decide
  isName _ := List.all_eq_true.1 (by decide)

/-- The distance of the zone's clocks from universal time. -/
def offset (z : Zone) (u : Int) : Offset :=
  ⟨z.shift u * 1000000, by
    have := z.isShift u
    unfold secondsPerDay at this
    unfold microsPerDay
    omega⟩

/-- What the zone's clocks show at a second of universal time. -/
def reading (z : Zone) (u : Int) : Except DateFault Int :=
  let t := u + z.shift u
  if t < firstSecond then .error .beforeCalendar
  else if lastSecond < t then .error .afterCalendar
  else .ok t

/-- The second of universal time at which the zone's clocks show `t`, for the second time if
`again` says so. -/
def instant (z : Zone) (t : Int) (again : Bool) : Except DateFault Int := do
  let ahead := (← z.reading t) - t
  let u := t - ahead
  let shown ← z.reading u
  let there := if again then u + secondsPerDay else u - secondsPerDay
  let other ← if shown = t then (z.reading there).map (· - there) else .ok (shown - u)
  if shown = t ∧ ahead = other then .ok u
  else do
    let v := t - other
    let shown' ← z.reading v
    .ok (if shown' = t then v else if shown = t then u else if again then min u v else max u v)

/-- The moment on a clock at a known distance from universal time: its own one, or the zone's. -/
def place (z : Zone) (x : Moment) : Except DateFault Placed :=
  match x.offset with
  | some o => .ok ⟨x, o, o.name⟩
  | none => do
    let u ← z.instant (x.sinceEpoch / 1000000) x.again
    let micros := x.sinceEpoch - z.shift u * 1000000
    match Moment.ofEpoch? micros with
    | none => .error .outOfCalendar
    | some _ =>
      let second := micros / 1000000
      match Moment.ofEpoch? (micros + z.shift second * 1000000) with
      | none => .error .outOfCalendar
      | some y => .ok ⟨{ y with offset := some (z.offset second) }, z.offset second, z.name second⟩

end Zone
end MailMerge
