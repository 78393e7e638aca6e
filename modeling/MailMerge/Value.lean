import MailMerge.Calendar.Moment
import MailMerge.Number.Binary64
import MailMerge.Table
import MailMerge.Text.Quoted
import MailMerge.Text.Blank
/-!
# Values

What a data map may hold under a key: nothing, truth values, numbers of three kinds, texts, dates,
moments, pictures, lists and further maps. A value has two written forms: `plain?`, as it is put
into a document, and `shown?`, as it is quoted in messages, where texts stand between quotation
marks. A whole number of more than 4300 digits has no written form, nor has anything that holds it.

Section 3 of the specification: the values of a data map.
-/
namespace MailMerge

/-- Where a paragraph with a picture stands between the margins. -/
inductive HorizontalAlign where
  | left
  | center
  | right
  deriving DecidableEq, Repr

/-- Where a cell with a picture holds its content. -/
inductive VerticalAlign where
  | top
  | middle
  | bottom
  deriving DecidableEq, Repr

namespace HorizontalAlign

/-- The name of the alignment. -/
def name : HorizontalAlign → Text
  | .left => "left".toList
  | .center => "center".toList
  | .right => "right".toList

/-- The alignment of a name. -/
def ofName? (t : Text) : Option HorizontalAlign := [left, center, right].find? (·.name = t)

end HorizontalAlign

namespace VerticalAlign

/-- The name of the alignment. -/
def name : VerticalAlign → Text
  | .top => "top".toList
  | .middle => "middle".toList
  | .bottom => "bottom".toList

/-- The alignment of a name. -/
def ofName? (t : Text) : Option VerticalAlign := [top, middle, bottom].find? (·.name = t)

end VerticalAlign

/-- An image file to be placed into a document, with the space it may take in pixels. -/
structure Asset where
  source : Text
  width : Nat
  height : Nat
  keepAspect : Bool := true
  horizontal : Option HorizontalAlign := none
  vertical : Option VerticalAlign := none
  payload : Option Text := none
  deriving DecidableEq, Repr

/-- A value of a data map. -/
inductive Value where
  | null
  | bool (b : Bool)
  | int (n : Int)
  | float (x : Binary64)
  | decimal (d : Decimal)
  | text (t : Text)
  | date (d : Date)
  | moment (m : Moment)
  | asset (a : Asset)
  | list (vs : List Value)
  | map (es : List (Text × Value))
  deriving Repr

/-- The values of a request under their keys. -/
abbrev DataMap := Table Text Value

/-- The greatest number of digits of a whole number that is written or read as text. -/
def digitLimit : Nat := 4300

/-- A whole number in digits, unless there are too many of them. -/
def intText? (n : Int) : Option Text :=
  if Decimal.digitCount n.natAbs ≤ digitLimit then some (Text.ofInt n) else none

/-- A truth value as it is written. -/
def boolText (b : Bool) : Text := if b then "True".toList else "False".toList

/-- A name with its arguments in parentheses. -/
def callText (name : String) (args : List Text) : Text :=
  name.toList ++ '(' :: Text.join ", ".toList args ++ [')']

/-- The parts of a duration of days, seconds and microseconds that are not zero. -/
def durationText (micros : Int) : Text :=
  let days := micros.fdiv microsPerDay
  let rest := (micros - days * microsPerDay).toNat
  let part (name : String) (n : Int) : List Text :=
    if n = 0 then [] else [name.toList ++ '=' :: Text.ofInt n]
  callText "datetime.timedelta"
    (part "days" days ++ part "seconds" (rest / 1000000 : Nat) ++
      part "microseconds" (rest % 1000000 : Nat))

namespace Offset

/-- The distance from universal time as it is quoted in messages. -/
def shown (o : Offset) : Text :=
  if o.micros = 0 then "datetime.timezone.utc".toList
  else callText "datetime.timezone" [durationText o.micros]

end Offset

namespace Moment

/-- A moment as it is quoted in messages. -/
def shown (m : Moment) : Text :=
  let t := m.time
  let fine := if t.microsecond = 0 then [] else [t.microsecond]
  let seconds := if t.second = 0 && fine.isEmpty then [] else t.second :: fine
  let nums := [m.date.year, m.date.month, m.date.day, t.hour, t.minute] ++ seconds
  callText "datetime.datetime"
    (nums.map Text.ofNat ++ (if m.again then ["fold=1".toList] else []) ++
      m.offset.elim [] fun o => ["tzinfo=".toList ++ o.shown])

end Moment

/-- A date as it is quoted in messages. -/
def Date.shown (d : Date) : Text :=
  callText "datetime.date" ([d.year, d.month, d.day].map Text.ofNat)

namespace Asset

/-- An alignment as it is quoted in messages, `kind` naming its sort. -/
def alignText (kind : String) (name : Option Text) : Text :=
  match name with
  | none => "None".toList
  | some n => '<' :: kind.toList ++ '.' :: n.map Char.toUpper ++ ':' :: ' ' :: n.quoted ++ ['>']

/-- The fields of an asset with their names. -/
def fields (a : Asset) : List Text :=
  let field (name : String) (t : Text) : Text := name.toList ++ '=' :: t
  [field "source_path" a.source.quoted, field "width" (Text.ofNat a.width),
    field "height" (Text.ofNat a.height), field "preserve_aspect" (boolText a.keepAspect),
    field "horizontal_align" (alignText "HAlign" (a.horizontal.map (·.name))),
    field "vertical_align" (alignText "VAlign" (a.vertical.map (·.name))),
    field "payload" (a.payload.elim "None".toList Text.quoted)]

/-- Whether the sizes of the asset can be written. -/
def writable (a : Asset) : Bool :=
  Decimal.digitCount a.width ≤ digitLimit && Decimal.digitCount a.height ≤ digitLimit

end Asset

namespace Value

mutual

/-- The value as it is quoted in messages. -/
def shown? : Value → Option Text
  | .null => some "None".toList
  | .bool b => some (boolText b)
  | .int n => intText? n
  | .float x => some x.toText
  | .decimal d => some (callText "Decimal" [d.toText.quoted])
  | .text t => some t.quoted
  | .date d => some d.shown
  | .moment m => some m.shown
  | .asset a => if a.writable then some (callText "ImageAsset" a.fields) else none
  | .list vs => (shownItems? vs).map fun ts => '[' :: Text.join ", ".toList ts ++ [']']
  | .map es => (shownEntries? es).map fun ts => '\x7b' :: Text.join ", ".toList ts ++ ['\x7d']

/-- The items of a list as they are quoted in messages. -/
def shownItems? : List Value → Option (List Text)
  | [] => some []
  | v :: r => do let t ← shown? v; let ts ← shownItems? r; pure (t :: ts)

/-- The entries of a map as they are quoted in messages. -/
def shownEntries? : List (Text × Value) → Option (List Text)
  | [] => some []
  | (k, v) :: r => do
    let t ← shown? v
    let ts ← shownEntries? r
    pure ((k.quoted ++ ':' :: ' ' :: t) :: ts)

end

/-- The value as it is put into a text. -/
def plain? : Value → Option Text
  | .text t => some t
  | .decimal d => some d.toText
  | .date d => some d.toText
  | .moment m => some (m.toTextWith ' ')
  | .asset a => if a.writable then some (Text.join [' '] a.fields) else none
  | v => v.shown?

/-- Whether there is something to the value: it is neither nothing, false, zero nor empty. -/
def isPresent : Value → Bool
  | .null => false
  | .bool b => b
  | .int n => n ≠ 0
  | .float (.finite _ m _) => m ≠ 0
  | .decimal (.finite _ c _) => c ≠ 0
  | .text t => !t.isEmpty
  | .list vs => !vs.isEmpty
  | .map es => !es.isEmpty
  | _ => true

/-- The name of the kind of a value. -/
def kindName : Value → Text
  | .null => "NoneType".toList
  | .bool _ => "bool".toList
  | .int _ => "int".toList
  | .float _ => "float".toList
  | .decimal _ => "Decimal".toList
  | .text _ => "str".toList
  | .date _ => "date".toList
  | .moment _ => "datetime".toList
  | .asset _ => "ImageAsset".toList
  | .list _ => "list".toList
  | .map _ => "dict".toList

/-- Whether a value is put into documents as text: texts and numbers, but not truth values. -/
def isTextual : Value → Bool
  | .text _ | .int _ | .float _ | .decimal _ => true
  | _ => false

/-- The text of a textual value; other values have none. The result is `none` when the value cannot
be written. -/
def textual? (v : Value) : Option Text := if v.isTextual then v.plain? else some []

/-- The file behind a picture value: that of an asset, or the path that a text writes. -/
def imagePath? : Value → Option Text
  | .asset a => some a.source
  | .text t => if t.trim.isEmpty then none else some t.trim
  | _ => none

end Value
end MailMerge
