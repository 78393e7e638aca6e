import MailMerge.Document.Model
import MailMerge.Fault
import MailMerge.Text.Xml
/-!
# Splicing paragraphs

A token may be spread over several runs of a paragraph. Occurrences are looked for in the joined
text of the runs; where one begins, the replacement goes into the run that holds its first
character, the runs that it covers are emptied, and the run that holds its last character keeps
what follows. Occurrences are replaced from the last to the first, so the places of those still to
come do not move.

Storing a text in a run removes everything else the run held, pictures too, and keeps its format. A
text with a character that no document holds is stored up to the last tab or line break before it,
and the work is broken off.

Section 4.5 of the specification: what `set_value` and `set_image` do to one paragraph.
-/
namespace MailMerge

/-- A thing that is being changed, and the fault that broke the changes off, if any. -/
structure Attempt (α : Type) where
  value : α
  fault : Option Fault := none

namespace Attempt

variable {α β : Type}

/-- A further change, unless the changes were broken off. -/
def andThen (a : Attempt α) (f : α → Attempt α) : Attempt α :=
  match a.fault with
  | none => f a.value
  | some _ => a

/-- A change for each member of a list, in order. -/
def each (f : β → α → Attempt α) (l : List β) (x : α) : Attempt α :=
  l.foldl (fun a b => a.andThen (f b)) { value := x }

end Attempt

/-- Where a needle occurs in a text: the places in the whole text at which occurrences begin, read
from the left after the first `skip` characters, occurrences not overlapping. -/
def Text.occurrences (needle : Text) : (skip place : Nat) → Text → List Nat
  | _, _, [] => []
  | skip + 1, i, _ :: r => occurrences needle skip (i + 1) r
  | 0, i, c :: r =>
    if needle.isPrefixOf (c :: r) then i :: occurrences needle (needle.length - 1) (i + 1) r
    else occurrences needle 0 (i + 1) r

namespace Run

/-- Whether a stored text is cut at a character. -/
def isCut (c : Char) : Bool := c == '\t' || c == '\n' || c == '\r'

/-- The part of a text that is stored before a character that no document holds is met. -/
def storable (t : Text) : Text :=
  let ok := t.takeWhile isXmlChar
  if ok.length = t.length then t else Text.trimRight (!isCut ·) ok

/-- The run with a text stored in it; a carriage return reads back as a line feed. -/
def store (t : Text) (r : Run) : Run :=
  { bold := r.bold, text := (storable t).map fun c => if c = '\r' then '\n' else c }

end Run

namespace Splice

/-- The joined text of the runs. -/
def text (rs : List Run) : Text := (rs.map Run.text).flatten

/-- Where the text of each run begins when the first begins at `place`. -/
def starts : (place : Nat) → List Run → List Nat
  | _, [] => []
  | i, r :: rs => i :: starts (i + r.text.length) rs

/-- The run that holds the character at a place: the last that begins at or before it. -/
def holder (starts : List Nat) (place : Nat) : Nat := (starts.takeWhile (· ≤ place)).length - 1

/-- The content with the run of an index replaced by the pieces that `f` makes of it. -/
def edit (f : Run → List Inline) : (index : Nat) → List Inline → List Inline
  | _, [] => []
  | i, .link rs :: c => .link rs :: edit f i c
  | 0, .run r :: c => f r ++ c
  | i + 1, .run r :: c => .run r :: edit f i c

/-- The content with a text stored in the run of an index. -/
def put (i : Nat) (t : Text) (c : List Inline) : List Inline :=
  edit (fun r => [.run (r.store t)]) i c

/-- The content with the runs between two others emptied. -/
def clearBetween (first last : Nat) (c : List Inline) : List Inline :=
  (List.range' (first + 1) (last - first - 1)).foldl (fun c i => put i [] c) c

/-- Where an occurrence lies: the runs of its first and its last character, how many characters of
the one stand before it, and how many of the other up to its end. -/
structure Span where
  first : Nat
  last : Nat
  before : Nat
  upTo : Nat
  deriving DecidableEq, Repr

/-- The span of an occurrence of a text of `length` characters at a place. -/
def span (starts : List Nat) (length place : Nat) : Span :=
  let first := holder starts place
  let last := holder starts (place + length - 1)
  ⟨first, last, place - starts.getD first 0, place + length - starts.getD last 0⟩

/-- The text of the run of an index. -/
def textAt (c : List Inline) (i : Nat) : Text :=
  (((c.filterMap Inline.run?)[i]?).map Run.text).getD []

/-- What stands in the first run before an occurrence. -/
def head (c : List Inline) (s : Span) : Text := (textAt c s.first).take s.before

/-- What stands in the last run after an occurrence. -/
def tail (c : List Inline) (s : Span) : Text := (textAt c s.last).drop s.upTo

/-- The content with a text in the place of an occurrence. -/
def putText (value : Text) (s : Span) (c : List Inline) : Attempt (List Inline) :=
  let lead := head c s ++ value
  let rest := tail c s
  if s.first = s.last then
    { value := put s.first (lead ++ rest) c
      fault := if value.all isXmlChar then none else some .notStorable }
  else if value.all isXmlChar then
    { value := put s.last rest (clearBetween s.first s.last (put s.first lead c)) }
  else { value := put s.first lead c, fault := some .notStorable }

/-- The content with a picture in the place of an occurrence. The picture has a run of its own; what
followed the token in the same run moves into a run of the same format behind it. A picture that
cannot be made leaves an empty run at the end. -/
def putPicture (picture : Except Fault Picture) (s : Span) (c : List Inline) :
    Attempt (List Inline) :=
  let lead := head c s
  let rest := tail c s
  let behind (r : Run) : List Inline :=
    if s.first = s.last && !rest.isEmpty then [.run (r.store rest)] else []
  let c := if s.first = s.last then c else put s.last rest (clearBetween s.first s.last c)
  match picture with
  | .ok pic =>
    let shown : Run := { pictures := [pic] }
    { value := edit (fun r => .run (r.store lead) :: .run shown :: behind r) s.first c }
  | .error f =>
    { value := edit (fun r => .run (r.store lead) :: behind r) s.first c ++ [.run {}]
      fault := some f }

/-- The content with a change made at every occurrence of a needle, from the last to the first. -/
def atEach (needle : Text) (change : Span → List Inline → Attempt (List Inline)) (c : List Inline) :
    Attempt (List Inline) :=
  let runs := c.filterMap Inline.run?
  let spans := (Text.occurrences needle 0 0 (text runs)).map (span (starts 0 runs) needle.length)
  Attempt.each change spans.reverse c

end Splice

namespace Paragraph

/-- Where a needle occurs in the runs of the paragraph. -/
def occurrences (p : Paragraph) (needle : Text) : List Nat :=
  Text.occurrences needle 0 0 (Splice.text p.runs)

/-- How often a needle occurs in the runs of the paragraph. -/
def count (p : Paragraph) (needle : Text) : Nat := (p.occurrences needle).length

/-- The paragraph with a change made at every occurrence of a needle. -/
def atEach (needle : Text) (change : Splice.Span → List Inline → Attempt (List Inline))
    (p : Paragraph) : Attempt Paragraph :=
  let r := Splice.atEach needle change p.content
  { value := { p with content := r.value }, fault := r.fault }

end Paragraph
end MailMerge
