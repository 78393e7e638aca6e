import MailMerge.Document.Model
import MailMerge.Placeholder.Token
/-!
# Walking through a document

The paragraphs of a document are visited container by container: the body, then the parts that each
section defines. Within a container all its own paragraphs come first and its tables after them; a
table is visited cell by cell, row by row, a merged cell where it first appears. Each visit names
the innermost cell around the paragraph.

Section 4.5 of the specification: the order of visits, and `placeholders`.

Results:
* `visits_fst_nodup`: no paragraph is visited twice.
-/
namespace MailMerge

/-- A paragraph with the cell around it, if any. -/
abbrev Visit := ParagraphId × Option CellId

mutual

/-- The visits in the tables of a list of blocks. -/
def Block.tableVisits : List Block → List Visit
  | [] => []
  | .paragraph _ :: r => Block.tableVisits r
  | .table cells grid :: r =>
    (Token.distinct grid.flatten).flatMap (fun i => (Block.cellVisits cells).getD i []) ++
      Block.tableVisits r

/-- The visits in each of the cells of a table. -/
def Block.cellVisits : List (CellId × List Block) → List (List Visit)
  | [] => []
  | (id, blocks) :: r =>
    (Block.ownParagraphs blocks (some id) ++ Block.tableVisits blocks) :: Block.cellVisits r

/-- The visits of the paragraphs that stand in a container itself, inside the given cell. -/
def Block.ownParagraphs : List Block → Option CellId → List Visit
  | [], _ => []
  | .paragraph p :: r, cell => (p, cell) :: Block.ownParagraphs r cell
  | .table .. :: r, cell => Block.ownParagraphs r cell

end

/-- The visits in a container outside all tables. -/
def Block.visits (blocks : List Block) : List Visit :=
  Block.ownParagraphs blocks none ++ Block.tableVisits blocks

namespace Document

/-- The containers of a document in the order in which they are read. -/
def containers (d : Document) : List (List Block) :=
  d.body :: d.sections.flatMap fun s => PartKind.order.filterMap s.part?

/-- The visits whose paragraph has not been met before. -/
def firstVisits : List Visit → List ParagraphId → List Visit
  | [], _ => []
  | v :: r, seen => if v.1 ∈ seen then firstVisits r seen else v :: firstVisits r (v.1 :: seen)

/-- The paragraphs of a document in the order in which they are read. -/
def visits (d : Document) : List Visit := firstVisits (d.containers.flatMap Block.visits) []

/-- The text of a document: its paragraphs, one in a line. -/
def text (d : Document) : Text :=
  Text.join ['\n'] (d.visits.map fun v => (d.paragraph v.1).text)

/-- The distinct placeholders of a document in the order in which they are met. -/
def placeholders (d : Document) : List Text :=
  Token.distinct (d.visits.flatMap fun v => Token.find (d.paragraph v.1).text)

theorem firstVisits_fst (l : List Visit) (seen : List ParagraphId) :
    ((firstVisits l seen).map (·.1)).Nodup ∧
      ∀ p ∈ (firstVisits l seen).map (·.1), p ∉ seen := by
  induction l generalizing seen with
  | nil => simp [firstVisits]
  | cons v r ih =>
    by_cases h : v.1 ∈ seen
    · simpa [firstVisits, h] using ih seen
    · obtain ⟨hn, hs⟩ := ih (v.1 :: seen)
      simp only [firstVisits, h, if_false, List.map_cons, List.nodup_cons]
      refine ⟨⟨fun hm => hs _ hm (List.mem_cons_self ..), hn⟩, fun p hp => ?_⟩
      rcases List.mem_cons.1 hp with rfl | hp
      · exact h
      · exact fun hx => hs p hp (List.mem_cons_of_mem _ hx)

theorem visits_fst_nodup (d : Document) : (d.visits.map (·.1)).Nodup :=
  (firstVisits_fst _ _).1

end Document
end MailMerge
