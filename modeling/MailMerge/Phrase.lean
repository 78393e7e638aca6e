import MailMerge.Calendar.Format
import MailMerge.Calendar.Indonesian
import MailMerge.Calendar.Reading
import MailMerge.Spelling.Phrase
/-!
# Phrases

Names with titles, addresses, dates in words, and inline expressions.

An inline expression is written like a placeholder, with a type, a value and options up to the
closing brace. The first expression found in a text stands for the whole text; a text without one
stands for itself.

Section 4.2 of the specification, formatter library: `format_gelar`, `format_alamat`,
`format_tanggal` and `format_field`.
-/
namespace MailMerge

/-- A name between its titles. -/
def titledName (name front back : Text) : Text :=
  (if front.isEmpty then [] else front ++ [' ']) ++ name ++
    (if back.isEmpty then [] else ',' :: ' ' :: back)

/-- The parts of a postal address. -/
structure Address where
  street : Value
  district : Value := .text []
  regency : Value := .text []
  province : Value := .text []
  postcode : Value := .text []

namespace Address

/-- What is written in front of the name of a district. -/
def districtMark : Text := "Kec. ".toList

/-- The written parts of the address that are present. -/
def parts? (a : Address) : Option (List Text) := do
  let marked ← if a.district.isPresent then (a.district.plain?).map (districtMark ++ ·) else some []
  let rest := [a.street, .text marked, a.regency, a.province, a.postcode]
  (rest.filter Value.isPresent).mapM Value.plain?

/-- The address in one line. -/
def line? (sep : Text) (a : Address) : Option Text := (parts? a).map (Text.join sep)

/-- The written form of a named part, empty when the part is missing or nothing. -/
def part? (m : List (Text × Value)) (name : String) : Option Text :=
  match Table.get? m name.toList with
  | none | some .null => some []
  | some v => v.plain?

/-- The first text that is not empty. -/
def orElse (a b : Text) : Text := if a.isEmpty then b else a

/-- The address of a map of named parts in one line. The map may name its own separator. -/
def lineOfMap? (sep : Text) (m : List (Text × Value)) : Option Text := do
  let street ← part? m "alamat"
  let street ← if street.isEmpty then part? m "street" else some street
  let district ← part? m "kecamatan"
  let regency ← part? m "kabupaten"
  let province ← part? m "provinsi"
  let postcode ← part? m "kode_pos"
  let own ← part? m "separator"
  line? (orElse own sep)
    ⟨.text street, .text district, .text regency, .text province, .text postcode⟩

end Address

/-- The usual format of dates. -/
def usualDateFormat : Text := "j F Y".toList

/-- The moment that a value names at the time `now`; nothing when it names none. -/
def Value.moment? (now : Moment) : Value → Except DateFault (Option Moment)
  | .moment m => .ok (some m)
  | .date d => .ok (some (.ofDate d))
  | .text t =>
    match DateReading.ofText now t with
    | .moment m => .ok (some m)
    | .unreadable => .ok none
    | .outOfCalendar => .error .outOfCalendar
  | _ => .ok none

/-- A moment in a format with Indonesian names. -/
def localDate (z : Zone) (fmt : Text) (m : Moment) : Except DateFault Text :=
  (DateFormat.render z m fmt).map Indonesian.localize

/-- The date of a value in words, empty when the value names no date. -/
def dateInWords (z : Zone) (now : Moment) (fmt : Text) (v : Value) : Except DateFault Text := do
  match ← v.moment? now with
  | none => pure []
  | some m => localDate z fmt m

/-- An inline expression. -/
structure InlineField where
  type : Text
  value : Text
  options : Option Text
  deriving DecidableEq, Repr

namespace InlineField

/-- Whether a character may stand in the options. -/
def inOptions (c : Char) : Bool := c != '\x7b' && c != '\x7d'

/-- Whether a character may stand in the type and the value. -/
def inName (c : Char) : Bool := c != ':' && inOptions c

/-- The expression that begins a text. -/
def at? (t : Text) : Option InlineField := do
  let r ← Text.dropStart? ['$', '\x7b'] t
  match r.dropWhile inName with
  | ':' :: s =>
    match s.dropWhile inName with
    | '\x7d' :: _ => some ⟨r.takeWhile inName, s.takeWhile inName, none⟩
    | ':' :: u =>
      if (u.dropWhile inOptions).head? = some '\x7d' then
        some ⟨r.takeWhile inName, s.takeWhile inName, some (u.takeWhile inOptions)⟩
      else none
    | _ => none
  | _ => none

/-- The first expression in a text. -/
def find? : Text → Option InlineField
  | [] => none
  | c :: r => match at? (c :: r) with
    | some f => some f
    | none => find? r

/-- The number of places that the options of a number ask for: none unless they are digits, and no
answer when they are digits that make no number. -/
def places? (options : Text) : Option Nat :=
  if options.isEmpty || !options.all isDigitLike then some 0
  else if digitLimit < options.length then none
  else (options.mapM digitValue?).map fun ds => ds.foldl (fun n d => 10 * n + d) 0

/-- The text that an expression stands for. Values that do not fit the type give nothing, and so
does a date for which a clock would show a year that the calendar does not have. -/
def evaluate (z : Zone) (now : Moment) (f : InlineField) : Except DateFault Text :=
  let options := f.options.getD []
  let v : Value := .text f.value
  let orNothing (r : Except AmountError Text) : Except DateFault Text :=
    .ok (match r with | .ok t => t | .error _ => [])
  if f.type = "money".toList then orNothing (Amount.formatMoney options v)
  else if f.type = "terbilang".toList then orNothing (Spelling.spell v)
  else if f.type = "tanggal".toList then
    match dateInWords z now (Address.orElse options usualDateFormat) v with
    | .error .beforeCalendar | .error .afterCalendar => .ok []
    | r => r
  else if f.type = "number".toList then
    match places? options with
    | some n => orNothing (Amount.format { places := n } v)
    | none => .ok []
  else if f.type = "gelar".toList then
    let (front, back) := Text.cut '|' options
    .ok (titledName f.value front (back.getD []))
  else .ok f.value

end InlineField

/-- The text with its inline expression evaluated. -/
def evaluateInline (z : Zone) (now : Moment) (t : Text) : Except DateFault Text :=
  match InlineField.find? t with
  | none => .ok t
  | some f => f.evaluate z now

end MailMerge
