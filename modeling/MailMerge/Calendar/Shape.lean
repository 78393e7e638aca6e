import MailMerge.Calendar.Moment
import MailMerge.Text.Blank
import MailMerge.Text.Digit
/-!
# Shapes of written dates

A shape is a sequence of parts: numbers of a date, names of months, single characters and gaps. A
text has a shape when the parts match one after the other and nothing is left. Each part offers the
ways in which it can begin a text, the preferred one first; the first choice that lets all parts
match is taken, whether or not it reaches the end of the text. Digits of any script count after the
first digit of a number of two, and in years.
-/
namespace MailMerge

/-- English names of the months. -/
def monthNames : List Text := ["January", "February", "March", "April", "May", "June", "July",
  "August", "September", "October", "November", "December"].map String.toList

/-- English names of the days of the week, Monday first. -/
def dayNames : List Text := ["Monday", "Tuesday", "Wednesday", "Thursday", "Friday", "Saturday",
  "Sunday"].map String.toList

namespace Shape

/-- What a part of a shape stands for. -/
inductive Part where
  | year
  | month
  | day
  | hour
  | minute
  | second
  | monthName
  | monthAbbr
  | gap
  | just (c : Char)
  deriving DecidableEq, Repr

/-- The numbers found in a text. -/
structure Found where
  year : Nat := 1900
  month : Nat := 1
  day : Nat := 1
  hour : Nat := 0
  minute : Nat := 0
  second : Nat := 0

/-- The single digits from `low` to `high` that begin a text. -/
def oneOf (low high : Nat) : Text → List (Nat × Text)
  | [] => []
  | c :: r => if 48 + low ≤ c.toNat && c.toNat ≤ 48 + high then [(c.toNat - 48, r)] else []

/-- A digit of any script. -/
def anyDigit : Text → List (Nat × Text)
  | [] => []
  | c :: r => (digitValue? c).toList.map (·, r)

/-- Two digits, read one after the other. -/
def pair (p q : Text → List (Nat × Text)) (t : Text) : List (Nat × Text) :=
  (p t).flatMap fun (a, r) => (q r).map fun (b, s) => (10 * a + b, s)

/-- Four digits of any script. -/
def fourDigits (t : Text) : List (Nat × Text) :=
  (pair anyDigit anyDigit t).flatMap fun (a, r) =>
    (pair anyDigit anyDigit r).map fun (b, s) => (100 * a + b, s)

/-- One of the names, in any case, that begins a text; its place in the list counts from one. -/
def name (names : List Text) (t : Text) : List (Nat × Text) :=
  names.zipIdx.filterMap fun (n, i) =>
    if (t.take n.length).map Char.toLower = n.map Char.toLower then some (i + 1, t.drop n.length)
    else none

/-- The lengths of the gap that begins a text, longest first. -/
def gaps (t : Text) : List Text :=
  let n := (t.takeWhile isBlank).length
  (List.range n).reverse.map fun i => t.drop (i + 1)

/-- The ways in which a part can begin a text. -/
def Part.ways (p : Part) (f : Found) (t : Text) : List (Found × Text) :=
  match p with
  | .year => (fourDigits t).map fun (n, r) => ({ f with year := n }, r)
  | .month =>
    (pair (oneOf 1 1) (oneOf 0 2) t ++ pair (oneOf 0 0) (oneOf 1 9) t ++ oneOf 1 9 t).map
      fun (n, r) => ({ f with month := n }, r)
  | .day =>
    (pair (oneOf 3 3) (oneOf 0 1) t ++ pair (oneOf 1 2) anyDigit t ++
      pair (oneOf 0 0) (oneOf 1 9) t ++ oneOf 1 9 t ++
      (Text.dropStart? [' '] t).toList.flatMap (oneOf 1 9)).map
      fun (n, r) => ({ f with day := n }, r)
  | .hour =>
    (pair (oneOf 2 2) (oneOf 0 3) t ++ pair (oneOf 0 1) anyDigit t ++ anyDigit t).map
      fun (n, r) => ({ f with hour := n }, r)
  | .minute =>
    (pair (oneOf 0 5) anyDigit t ++ anyDigit t).map fun (n, r) => ({ f with minute := n }, r)
  | .second =>
    (pair (oneOf 6 6) (oneOf 0 1) t ++ pair (oneOf 0 5) anyDigit t ++ anyDigit t).map
      fun (n, r) => ({ f with second := n }, r)
  | .monthName => (name monthNames t).map fun (n, r) => ({ f with month := n }, r)
  | .monthAbbr => (name (monthNames.map (·.take 3)) t).map fun (n, r) => ({ f with month := n }, r)
  | .gap => (gaps t).map (f, ·)
  | .just c => (Text.dropStart? [c] t).toList.map (f, ·)

/-- The first choice of ways in which all parts match. -/
def matchParts : List Part → Found → Text → Option (Found × Text)
  | [], f, t => some (f, t)
  | p :: ps, f, t => (p.ways f t).findSome? fun (g, r) => matchParts ps g r

/-- The moment that a text of this shape names. -/
def read? (shape : List Part) (t : Text) : Option Moment := do
  let (f, r) ← matchParts shape {} t
  if r.isEmpty then
    let d ← Date.of? f.year f.month f.day
    let c ← ClockTime.of? f.hour f.minute f.second 0
    some { date := d, time := c, offset := none }
  else none

/-- Hours, minutes and seconds with colons. -/
def clock : List Part := [.gap, .hour, .just ':', .minute, .just ':', .second]

/-- Three parts with a character between them. -/
def three (a b c : Part) (sep : Char) : List Part := [a, .just sep, b, .just sep, c]

/-- The shapes in which a date may be written, the first that fits being taken. -/
def accepted : List (List Part) := [
  three .year .month .day '-' ++ clock,
  three .year .month .day '-' ++ [.gap, .hour, .just ':', .minute],
  three .year .month .day '/',
  three .year .month .day '/' ++ clock,
  three .day .month .year '-',
  three .day .month .year '-' ++ clock,
  three .day .month .year '.',
  three .month .day .year '/',
  three .month .day .year '/' ++ clock,
  [.day, .gap, .monthName, .gap, .year],
  [.day, .gap, .monthAbbr, .gap, .year],
  [.monthName, .gap, .day, .just ',', .gap, .year],
  [.monthAbbr, .gap, .day, .just ',', .gap, .year]]

end Shape
end MailMerge
