import MailMerge.Calendar.Moment
import MailMerge.Text.Digit
/-!
# Reading ISO 8601 moments

A date is written `YYYY-MM-DD` or `YYYYMMDD`, or by week as `YYYY-Www[-D]` or `YYYYWww[D]`. One
arbitrary character may follow it and then a time `HH[:MM[:SS[.ffffff]]]`, the colons being all
there or all absent, with an optional distance from universal time.

Positions count the bytes of UTF-8: `spread` repeats each character as often as it has bytes, so
that a list of characters can be measured in bytes. Only plain digits count.
-/
namespace MailMerge.IsoText

/-- Each character as often as it has bytes. -/
def spread (t : Text) : Text := t.flatMap fun c => List.replicate c.utf8Size c

/-- The value of the first `n` characters, all digits, and what follows them. -/
def digits? (n : Nat) (t : Text) : Option (Nat × Text) :=
  let ds := t.take n
  if ds.length = n && ds.all Char.isDigit then some (Nat.ofDigitChars 10 ds 0, t.drop n) else none

/-- Where the date ends and the character before the time stands. -/
def separatorPlace (t : Text) : Nat :=
  let n := t.length
  let at' (i : Nat) : Char := t.getD i '\x00'
  if n = 7 then 7
  else if at' 4 = '-' then
    if at' 5 = 'W' then
      if 8 < n && at' 8 = '-' then (if 10 < n && (at' 10).isDigit then 8 else 10) else 8
    else 10
  else if at' 4 = 'W' then
    let run := 7 + ((t.drop 7).takeWhile Char.isDigit).length
    if run < 9 then run else if run % 2 = 0 then 7 else 8
  else 8

/-- Whether a year has 53 weeks. -/
def hasLongWeekYear (y : Nat) : Bool :=
  let wd := (daysBeforeYear y + 1 + 6) % 7
  wd == 3 || (wd == 2 && isLeapYear y)

/-- The day of a week of a year. -/
def ofWeek? (y week day : Nat) : Option Date :=
  if y < 1 || 9999 < y || week < 1 || 53 < week || (week = 53 && !hasLongWeekYear y) ||
      day < 1 || 7 < day then none
  else Date.ofOrdinal? (Date.firstMonday y + ((week - 1) * 7 + (day - 1) : Nat))

/-- The date in front of the place `place`. -/
def date? (place : Nat) (t : Text) : Option Date := do
  let (y, r) ← digits? 4 t
  let dashed := r.head? = some '-'
  let r := if dashed then r.tail else r
  if r.head? = some 'W' then
    let (week, r) ← digits? 2 r.tail
    if t.length - r.length < place then
      if dashed && r.head? ≠ some '-' then none
      else
        let (day, _) ← digits? 1 (if dashed then r.tail else r)
        ofWeek? y week day
    else ofWeek? y week 1
  else
    let (m, r) ← digits? 2 r
    if dashed && r.head? ≠ some '-' then none
    else
      let (d, _) ← digits? 2 (if dashed then r.tail else r)
      Date.of? y m d

/-- Hours, minutes, seconds and microseconds. -/
structure Fields where
  hour : Nat
  minute : Nat
  second : Nat
  micros : Nat

/-- Whether a text goes on; a character of code zero ends it. -/
def goesOn (t : Text) : Bool := t.headD '\x00' != '\x00'

/-- The part of a second, to six digits; further digits are passed over. The result tells whether
anything follows in `tail`, the text up to the very end. -/
def fraction? (here : Nat) (tail : Text) : Option (Nat × Bool) := do
  let n := min here 6
  let (v, r) ← digits? n tail
  let rest := r.dropWhile Char.isDigit
  pure (v * 10 ^ (6 - n), goesOn rest)

/-- Up to three numbers of two digits and a part of a second, of which the first `here` characters
of `tail` may be used. The flag tells whether something was left over. -/
def fields? : (more : Nat) → (colons : Bool) → (here : Nat) → Text → Option (List Nat × Nat × Bool)
  | 0, _, here, tail => (fraction? here tail).map fun (u, left) => ([], u, left)
  | more + 1, colons, here, tail => do
    let (v, r) ← digits? 2 tail
    let colons := if more = 2 then r.head? == some ':' else colons
    if here ≤ 3 then pure ([v], 0, goesOn r)
    else
      let c := r.headD '\x00'
      if colons && c = ':' then
        let (vs, u, left) ← fields? more colons (here - 3) r.tail
        pure (v :: vs, u, left)
      else if c = '.' || c = ',' then
        let (u, left) ← fraction? (here - 3) r.tail
        pure ([v], u, left)
      else if !colons then
        let (vs, u, left) ← fields? more colons (here - 2) r
        pure (v :: vs, u, left)
      else none

/-- The numbers of a time in the first `here` characters, and whether something was left over. -/
def time? (here : Nat) (tail : Text) : Option (Fields × Bool) :=
  (fields? 3 true here tail).map fun (vs, u, left) =>
    (⟨vs.getD 0 0, vs.getD 1 0, vs.getD 2 0, u⟩, left)

/-- The distance from universal time that a signed time writes. A distance of no whole seconds is
none at all. -/
def offset? (negative : Bool) (t : Text) : Option Offset := do
  let (f, left) ← time? t.length t
  if left then none
  else
    let s := (f.hour * 60 + f.minute) * 60 + f.second
    if s = 0 then some .utc
    else
      let n : Int := (s * 1000000 + f.micros : Nat)
      Offset.of? (if negative then -n else n)

/-- Whether a character begins a distance from universal time. -/
def startsOffset (c : Char) : Bool := c == '+' || c == '-' || c == 'Z'

/-- The time after a date, with its distance from universal time. -/
def clock? (t : Text) : Option (ClockTime × Option Offset) := do
  let front := t.takeWhile (!startsOffset ·)
  let back := t.dropWhile (!startsOffset ·)
  let (f, left) ← time? front.length t
  let clock ← ClockTime.of? f.hour f.minute f.second f.micros
  match back with
  | [] => if left then none else some (clock, none)
  | 'Z' :: r => if goesOn r then none else some (clock, some .utc)
  | c :: r => do let o ← offset? (c == '-') r; some (clock, some o)

/-- The moment that a text writes. -/
def moment? (t : Text) : Option Moment := do
  let s := spread t
  let place := separatorPlace s
  let d ← date? place s
  match s.drop place with
  | [] => some (.ofDate d)
  | c :: r =>
    let (clock, o) ← clock? (r.drop (c.utf8Size - 1))
    some { date := d, time := clock, offset := o }

end MailMerge.IsoText
