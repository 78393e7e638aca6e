import MailMerge.Value
import MailMerge.Text.Xml
/-!
# Documents

A document is a layout over a store. The layout says where paragraphs and tables stand: in the body
and in the headers and footers of the sections. It names paragraphs and cells by number; their
content is in the store. Filling a document changes the store and never the layout.

A paragraph is a sequence of runs and links. A run has a text in one format and may hold pictures
after it; a link holds runs of its own, which are read but not written.

Section 3 of the specification: what a document handle wraps.
-/
namespace MailMerge

/-- A placed picture, in English Metric Units. -/
structure Picture where
  width : Nat
  height : Nat
  deriving DecidableEq, Repr

/-- A stretch of text in one format, with the pictures after it. -/
structure Run where
  bold : Bool := false
  text : Text := []
  pictures : List Picture := []
  deriving DecidableEq, Repr

/-- What a paragraph is made of. -/
inductive Inline where
  | run (r : Run)
  | link (rs : List Run)
  deriving DecidableEq, Repr

/-- A paragraph. -/
structure Paragraph where
  align : Option HorizontalAlign := none
  content : List Inline := []
  deriving DecidableEq, Repr

/-- The number of a paragraph in the store. -/
abbrev ParagraphId := Nat

/-- The number of a cell in the store. -/
abbrev CellId := Nat

/-- A place in the layout: a paragraph, or a table with its distinct cells and, row by row, which of
them each position shows. Positions of a merged cell show the same cell. -/
inductive Block where
  | paragraph (id : ParagraphId)
  | table (cells : List (CellId × List Block)) (grid : List (List Nat))
  deriving Repr

/-- The headers and footers of a section. -/
inductive PartKind where
  | header
  | footer
  | firstHeader
  | firstFooter
  | evenHeader
  | evenFooter
  deriving DecidableEq, Repr

/-- The order in which the parts of a section are read. -/
def PartKind.order : List PartKind :=
  [.header, .footer, .firstHeader, .firstFooter, .evenHeader, .evenFooter]

/-- A section: the parts it defines itself. Parts it does not define are those of the section
before. -/
structure PageSection where
  parts : List (PartKind × List Block) := []
  deriving Repr

/-- A document. -/
structure Document where
  body : List Block := []
  sections : List PageSection := [{}]
  paragraphs : List Paragraph := []
  cells : List (Option VerticalAlign) := []
  deriving Repr

namespace Inline

/-- The text of a piece of a paragraph. -/
def text : Inline → Text
  | .run r => r.text
  | .link rs => (rs.map Run.text).flatten

/-- The run, when the piece is one. -/
def run? : Inline → Option Run
  | .run r => some r
  | .link _ => none

end Inline

namespace Paragraph

/-- Everything that can be read in the paragraph. -/
def text (p : Paragraph) : Text := (p.content.map Inline.text).flatten

/-- The runs that stand in the paragraph itself. -/
def runs (p : Paragraph) : List Run := p.content.filterMap Inline.run?

end Paragraph

namespace PageSection

/-- The blocks of a part, if the section defines it. -/
def part? (s : PageSection) (k : PartKind) : Option (List Block) := s.parts.lookup k

end PageSection

namespace Document

/-- The paragraph of a number. -/
def paragraph (d : Document) (id : ParagraphId) : Paragraph := d.paragraphs.getD id {}

/-- The document with one paragraph changed. -/
def setParagraph (d : Document) (id : ParagraphId) (p : Paragraph) : Document :=
  { d with paragraphs := d.paragraphs.set id p }

/-- The document with the vertical alignment of one cell changed. -/
def setCell (d : Document) (id : CellId) (a : VerticalAlign) : Document :=
  { d with cells := d.cells.set id (some a) }

end Document
end MailMerge
