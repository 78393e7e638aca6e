import MailMerge.Placeholder.Kind
import MailMerge.Placeholder.Token
import MailMerge.Text.Blank
import MailMerge.Text.Digit
import MailMerge.Value
/-!
# The grammar of placeholders

A placeholder is the name of its kind followed by fields, each after a colon. The kinds differ in
how many fields they take, whether the first may be empty, and whether the second is everything up
to the end, colons included. A text that does not fit its kind is no placeholder.

Section 4.1 of the specification: `parse`, with the shapes of each kind, and `int_arg`.

Results:
* `parse_wrap`: a wrapping changes nothing.
-/
namespace MailMerge

/-- Which fields a kind takes. -/
structure FieldPattern where
  /-- Whether the first field may be empty. -/
  emptyFirst : Bool := false
  /-- How many more fields may follow. -/
  optional : Nat := 0
  /-- Whether everything after the first field is one more field. -/
  openEnd : Bool := false
  deriving DecidableEq, Repr

/-- The fields of each kind. -/
def Kind.fields : Kind → FieldPattern
  | .date => { emptyFirst := true, openEnd := true }
  | .money => { openEnd := true }
  | .user | .site | .terbilang | .custom => {}
  | .image | .alamat => { optional := 4 }
  | .qrcode | .gelar => { optional := 2 }
  | .number => { optional := 1 }

/-- A placeholder taken apart. -/
structure Descriptor where
  kind : Kind
  /-- The inner text of the token, which is also the key of its value. -/
  raw : Text
  args : List Text
  deriving DecidableEq, Repr

namespace FieldPattern

/-- Whether a character belongs to a field. -/
def inField (c : Char) : Bool := c != ':'

/-- At most `n` fields, each after a colon, up to the end of the text. -/
def more : (n : Nat) → Text → Option (List Text)
  | _, [] => some []
  | 0, _ :: _ => none
  | n + 1, _ :: r => (more n (r.dropWhile inField)).map (r.takeWhile inField :: ·)

/-- The fields of a text that fits the pattern. -/
def read? (p : FieldPattern) (t : Text) : Option (List Text) :=
  let first := t.takeWhile inField
  let rest := t.dropWhile inField
  if first.isEmpty && !p.emptyFirst then none
  else if p.openEnd then
    match rest with
    | [] => some [first]
    | _ :: r => some [first, r]
  else (more p.optional rest).map (first :: ·)

end FieldPattern

namespace Descriptor

/-- The field at an index when it is there and not empty. -/
def arg? (d : Descriptor) (i : Nat) : Option Text :=
  match d.args[i]? with
  | some [] | none => none
  | some t => some t

/-- The placeholder as it is written in a document. -/
def token (d : Descriptor) : Text := Token.wrap d.raw

/-- The key under which the data hold what the placeholder asks for. -/
def sourceKey? (d : Descriptor) : Option Text :=
  match d.kind, d.args with
  | .user, _ | .site, _ | _, [] => none
  | .image, a :: _ => some ("image:".toList ++ a)
  | .qrcode, a :: _ => some ("qrcode:".toList ++ a)
  | _, a :: _ => some a

end Descriptor

namespace Placeholder

/-- The placeholder that a text writes, with or without its wrapping. -/
def parse (raw : Text) : Option Descriptor := do
  let inner := Token.unwrap raw
  let (name, rest) := Text.cut ':' inner
  let rest ← rest
  let kind ← Kind.ofName? name
  let args ← kind.fields.read? rest
  pure ⟨kind, inner, args⟩

/-- What a field says about a whole number. -/
inductive NumberField where
  | number (n : Int)
  | tooLong (digits : Nat)
  | noNumber
  deriving DecidableEq, Repr

/-- The whole number that a field writes: digits of any script after at most one sign. -/
def readNumber (t : Text) : NumberField :=
  let (neg, ds) := Decimal.splitSign t.trim
  match ds.mapM digitValue? with
  | none | some [] => .noNumber
  | some ns =>
    if digitLimit < ns.length then .tooLong ns.length
    else
      let n : Nat := ns.foldl (fun n d => 10 * n + d) 0
      .number (if neg then -(n : Int) else n)

theorem parse_wrap (inner : Text) (h : Token.unwrap inner = inner) :
    parse (Token.wrap inner) = parse inner := by
  simp [parse, Token.unwrap_wrap, h]

end Placeholder
end MailMerge
