import MailMerge.DataMap
import MailMerge.Document.Splice
import MailMerge.Placeholder.Grammar
import MailMerge.Record.Host
import MailMerge.Record.Settings
import MailMerge.Storage.Script
import MailMerge.Text.Identifier
/-!
# Placeholders that stand for text

What the placeholders of most kinds are replaced by. The first field is usually a key of the data;
when the data do not have it, the field stands for itself. A value that does not fit its kind gives
the empty text and a note.

Section 4.2 of the specification: the resolvers `date`, `user`, `site`, `money`, `terbilang`,
`number`, `gelar`, `alamat` and `custom`.
-/
namespace MailMerge

/-- What placeholders are resolved against besides the data. The zone is that of the machine. -/
structure Environment where
  user : User := {}
  site : Site := {}
  now : Moment
  settings : Settings
  zone : Zone := .utc

/-- A text, or the fault that kept it from being made, and what was noted on the way. -/
structure Noted where
  result : Except Fault Text
  log : List Event := []

namespace Noted

/-- A text with nothing to note. -/
def plain (t : Text) : Noted := { result := .ok t }

/-- The empty text, and a note that says why. -/
def empty (event : String) : Noted := { result := .ok [], log := [.warning event] }

/-- A text that there may be none of. -/
def ofWritten (t : Option Text) : Noted :=
  match t with
  | some t => plain t
  | none => { result := .error .unwritableNumber }

/-- The text of an amount; one that cannot be written is noted. -/
def ofAmount (event : String) (r : Except AmountError Text) : Noted :=
  match r with
  | .ok t => plain t
  | .error _ => empty event

end Noted

namespace Resolution

/-- What a field means: the value under it when it is a key, else the field itself. -/
def valueOrField (m : DataMap) (field : Text) : Value := (Table.get? m field).getD (.text field)

/-- The text of what a field means; a missing field has none. -/
def textOrField? (m : DataMap) (field : Option Text) : Option Text :=
  match field with
  | none => some []
  | some t => (valueOrField m t).textual?

/-- The value of the first field. -/
def firstValue (m : DataMap) (d : Descriptor) : Value :=
  match d.arg? 0 with
  | some t => valueOrField m t
  | none => .null

/-- The letters that say something in a date format. -/
def formatLetters : Text := "dDjlNSwzWFmMntLoYyaAgGhHisuveTPOZcrU".toList

/-- The punctuation of date formats. -/
def formatMarks : Text := "\\/.,:;-".toList

/-- Whether a field is a date format and not the name of a key: it holds nothing but letters of
formats, blanks and punctuation, and is a single letter or more than letters. -/
def isFormat (t : Text) : Bool :=
  !t.isEmpty && t.all (fun c => formatLetters.contains c || isBlank c || formatMarks.contains c) &&
    !(2 ≤ t.length && t.all formatLetters.contains)

/-- The date of a value in a format; a value that is no date is quoted in a note. -/
def dateOf (z : Zone) (now : Moment) (fmt : Text) (v : Value) : Noted :=
  match v.moment? now with
  | .error f => { result := .error (.ofDate f) }
  | .ok none =>
    match v.shown? with
    | none => { result := .error .unwritableNumber }
    | some _ => Noted.empty "date_unparseable"
  | .ok (some x) => { result := (localDate z fmt x).mapError .ofDate }

/-- A date: the one under the key, or the present one. The only field may also be a format. -/
def date (env : Environment) (m : DataMap) (d : Descriptor) : Noted :=
  let own := env.settings.dateFormat
  let (key, fmt) := match d.arg? 0, d.arg? 1 with
    | some t, none => if !Table.has m t && isFormat t then (none, t) else (some t, own)
    | key, none => (key, own)
    | key, some fmt => (key, fmt)
  let v := (key.bind (Table.get? m)).getD (.moment env.now)
  dateOf env.zone env.now fmt v

/-- The names of what can be done with a record; fields under them are never shown. -/
def hiddenFields : List Text :=
  ["construct", "copy", "dict", "json", "schema", "validate"].map String.toList

/-- A field of the user. Fields that only the host knows are shown when they have names and hold
texts or numbers. -/
def user (env : Environment) (d : Descriptor) : Noted :=
  let field := (d.arg? 0).getD []
  let u := env.user
  if field = "name".toList || field = "display_name".toList then Noted.plain u.name
  else if field = "email".toList then Noted.plain u.email
  else if field = "role".toList then Noted.plain (Text.join ", ".toList u.roles)
  else if !field.isName || field ∈ hiddenFields || field = "roles".toList then Noted.plain []
  else match Table.get? u.extras field with
    | some v => Noted.ofWritten v.textual?
    | none => Noted.plain []

/-- A field of the site. -/
def site (env : Environment) (d : Descriptor) : Noted :=
  Noted.plain ((env.site.field? ((d.arg? 0).getD [])).getD [])

/-- An amount of money. -/
def money (env : Environment) (m : DataMap) (d : Descriptor) : Noted :=
  let currency := (d.arg? 1).getD env.settings.currency
  Noted.ofAmount "money_not_numeric" (Amount.formatMoney currency (firstValue m d))

/-- A number in words. -/
def terbilang (m : DataMap) (d : Descriptor) : Noted :=
  Noted.ofAmount "terbilang_not_numeric" (Spelling.spell (firstValue m d))

/-- The whole number of a field, or a default where the field is none. -/
def wholeField (field : Option Text) (default : Int) : Except Fault Int :=
  match field with
  | none => .ok default
  | some t => match Placeholder.readNumber t with
    | .number n => .ok n
    | .noNumber => .ok default
    | .tooLong digits => .error (.unreadableNumber digits)

/-- A number with so many places. -/
def number (m : DataMap) (d : Descriptor) : Noted :=
  match wholeField (d.arg? 1) 0 with
  | .error f => { result := .error f }
  | .ok n =>
    Noted.ofAmount "number_not_numeric"
      (Amount.format { places := Amount.clampPlaces n } (firstValue m d))

/-- A name with its titles. One field of titles may hold those in front and those behind, with a bar
between them. -/
def gelar (m : DataMap) (d : Descriptor) : Noted :=
  Noted.ofWritten do
    let name ← textOrField? m (d.arg? 0)
    let front ← textOrField? m (d.arg? 1)
    let back ← textOrField? m (d.arg? 2)
    match d.args.length, Text.cut '|' front with
    | 2, (front, some back) => pure (titledName name front back)
    | _, _ => pure (titledName name front back)

/-- What stands between the parts of an address. -/
def addressMark : Text := ", ".toList

/-- An address: that of a map of parts, or the fields in order. -/
def alamat (m : DataMap) (d : Descriptor) : Noted :=
  Noted.ofWritten <|
    match firstValue m d with
    | .map parts => Address.lineOfMap? addressMark parts
    | first => do
      let district ← textOrField? m (d.arg? 1)
      let regency ← textOrField? m (d.arg? 2)
      let province ← textOrField? m (d.arg? 3)
      let postcode ← textOrField? m (d.arg? 4)
      let street ← first.textual?
      Address.line? addressMark
        ⟨.text street, .text district, .text regency, .text province, .text postcode⟩

/-- Whether a text holds the opening of a token. -/
def hasOpening (t : Text) : Bool := !(Text.occurrences Token.opening 0 0 t).isEmpty

/-- A value as it is, its inline expression evaluated. -/
def custom (env : Environment) (m : DataMap) (d : Descriptor) : Noted :=
  match ((d.sourceKey?).bind (Table.get? m)).map Value.textual? with
  | none => Noted.plain []
  | some none => { result := .error .unwritableNumber }
  | some (some t) =>
    if hasOpening t then { result := (evaluateInline env.zone env.now t).mapError .ofDate }
    else Noted.plain t

/-- The text that a placeholder of a kind without pictures stands for. -/
def text? (env : Environment) (m : DataMap) (d : Descriptor) : Option Noted :=
  match d.kind with
  | .date => some (date env m d)
  | .user => some (user env d)
  | .site => some (site env d)
  | .money => some (money env m d)
  | .terbilang => some (terbilang m d)
  | .number => some (number m d)
  | .gelar => some (gelar m d)
  | .alamat => some (alamat m d)
  | .custom => some (custom env m d)
  | .image | .qrcode => none

end Resolution
end MailMerge
