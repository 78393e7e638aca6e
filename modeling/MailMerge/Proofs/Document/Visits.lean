import MailMerge.Document.Walk
import MailMerge.Proofs.Placeholder.Token
/-!
# What is visited

`Document.Holds` says where a paragraph stands: in the body or in a part that a section defines
itself, there or in a cell of a table, tables nesting to any depth. The walk through a document
visits what it holds, and each paragraph once, although the positions of a merged cell all lead to
it.

* `mem_inside_iff`: the visits in a container are what the container holds.
* `visits_exactly_once`: the visits of a document are what it holds, each paragraph once.
-/
namespace MailMerge

/-- That a paragraph stands in a container of which `around` is the cell, if it is one, and which
cell is the innermost around the paragraph. -/
inductive Block.Holds :
    (blocks : List Block) → (around : Option CellId) → ParagraphId → Option CellId → Prop where
  | own {blocks around p} (h : .paragraph p ∈ blocks) : Holds blocks around p around
  | inCell {blocks around cells grid row i id inner p cell} (ht : .table cells grid ∈ blocks)
      (hrow : row ∈ grid) (hi : i ∈ row) (hc : cells[i]? = some (id, inner))
      (h : Holds inner (some id) p cell) : Holds blocks around p cell

/-- That a paragraph stands in a document, and which cell is the innermost around it. -/
inductive Document.Holds (d : Document) (p : ParagraphId) (cell : Option CellId) : Prop where
  | body (h : Block.Holds d.body none p cell)
  | part {s k blocks} (hs : s ∈ d.sections) (hk : s.part? k = some blocks)
      (h : Block.Holds blocks none p cell)

namespace Block

/-! ## In a container -/

/-- The visits in a container of which `around` is the cell, if it is one. -/
def inside (blocks : List Block) (around : Option CellId) : List Visit :=
  ownParagraphs blocks around ++ tableVisits blocks

theorem visits_eq_inside (blocks : List Block) : visits blocks = inside blocks none := rfl

theorem cellVisits_getD (cells : List (CellId × List Block)) (i : Nat) :
    (cellVisits cells).getD i [] = (cells[i]?).elim [] fun c => inside c.2 (some c.1) := by
  induction cells generalizing i with
  | nil => simp [cellVisits]
  | cons c cells ih =>
    obtain ⟨id, blocks⟩ := c
    cases i with
    | zero => simp [cellVisits, inside]
    | succ i => simpa [cellVisits] using ih i

theorem mem_ownParagraphs {blocks : List Block} {around : Option CellId} {v : Visit} :
    v ∈ ownParagraphs blocks around ↔ .paragraph v.1 ∈ blocks ∧ v.2 = around := by
  obtain ⟨p, cell⟩ := v
  induction blocks with
  | nil => simp [ownParagraphs]
  | cons b blocks ih =>
    cases b with
    | paragraph q =>
      simp only [ownParagraphs, List.mem_cons, ih, Prod.mk.injEq, Block.paragraph.injEq, or_and_right]
    | table cells grid => simpa [ownParagraphs] using ih

theorem mem_tableVisits {blocks : List Block} {v : Visit} :
    v ∈ tableVisits blocks ↔
      ∃ cells grid, .table cells grid ∈ blocks ∧ ∃ row ∈ grid, ∃ i ∈ row, ∃ c,
        cells[i]? = some c ∧ v ∈ inside c.2 (some c.1) := by
  have hcell (cells : List (CellId × List Block)) (i : Nat) : v ∈ (cellVisits cells).getD i [] ↔
      ∃ c, cells[i]? = some c ∧ v ∈ inside c.2 (some c.1) := by
    rw [cellVisits_getD]
    cases cells[i]? with
    | none => simp
    | some c => simp
  induction blocks with
  | nil => simp [tableVisits]
  | cons b blocks ih =>
    cases b with
    | paragraph q => simpa [tableVisits] using ih
    | table cells grid =>
      simp only [tableVisits, List.mem_append, ih, List.mem_flatMap, Token.mem_distinct,
        List.mem_flatten, hcell, List.mem_cons]
      constructor
      · intro h
        obtain ⟨i, ⟨row, hrow, hi⟩, hv⟩ | ⟨cells', grid', ht, hv⟩ := h
        · exact ⟨cells, grid, Or.inl rfl, row, hrow, i, hi, hv⟩
        · exact ⟨cells', grid', Or.inr ht, hv⟩
      · intro h
        obtain ⟨cells', grid', ht | ht, hv⟩ := h
        · cases ht
          obtain ⟨row, hrow, i, hi, hv⟩ := hv
          exact Or.inl ⟨i, ⟨row, hrow, hi⟩, hv⟩
        · exact Or.inr ⟨cells', grid', ht, hv⟩

theorem Holds.mem_inside {blocks : List Block} {around cell : Option CellId} {p : ParagraphId}
    (h : Holds blocks around p cell) : (p, cell) ∈ inside blocks around := by
  induction h with
  | own h => exact List.mem_append_left _ (mem_ownParagraphs.2 ⟨h, rfl⟩)
  | inCell ht hrow hi hc _ ih =>
    exact List.mem_append_right _ (mem_tableVisits.2 ⟨_, _, ht, _, hrow, _, hi, _, hc, ih⟩)

/-- The recursion goes into the cells of the tables, which are smaller than the container. -/
theorem holds_of_mem_inside {blocks : List Block} {around : Option CellId} {v : Visit}
    (h : v ∈ inside blocks around) : Holds blocks around v.1 v.2 := by
  rcases List.mem_append.1 h with hown | htable
  · obtain ⟨hp, hcell⟩ := mem_ownParagraphs.1 hown
    rw [hcell]
    exact .own hp
  · obtain ⟨cells, grid, ht, row, hrow, i, hi, ⟨id, inner⟩, hc, hv⟩ := mem_tableVisits.1 htable
    have hsize : sizeOf inner < sizeOf blocks := by
      have htab := List.sizeOf_lt_of_mem ht
      have hcells := List.sizeOf_lt_of_mem (List.mem_of_getElem? hc)
      simp only [Block.table.sizeOf_spec, Prod.mk.sizeOf_spec] at htab hcells
      omega
    exact .inCell ht hrow hi hc (holds_of_mem_inside hv)
termination_by sizeOf blocks

/-- The visits in a container are what the container holds. -/
theorem mem_inside_iff {blocks : List Block} {around : Option CellId} {v : Visit} :
    v ∈ inside blocks around ↔ Holds blocks around v.1 v.2 :=
  ⟨holds_of_mem_inside, Holds.mem_inside⟩

end Block

theorem PartKind.mem_order (k : PartKind) : k ∈ PartKind.order := by
  cases k <;> decide

namespace Document

/-! ## In a document -/

theorem mem_containers {d : Document} {blocks : List Block} :
    blocks ∈ d.containers ↔
      blocks = d.body ∨ ∃ s ∈ d.sections, ∃ k, s.part? k = some blocks := by
  simp [containers, PartKind.mem_order]

/-- What the walk meets, before it passes over what it met before. -/
theorem mem_met_iff {d : Document} {v : Visit} :
    v ∈ d.containers.flatMap Block.visits ↔ d.Holds v.1 v.2 := by
  simp only [List.mem_flatMap, mem_containers, Block.visits_eq_inside, Block.mem_inside_iff]
  constructor
  · intro h
    obtain ⟨blocks, rfl | ⟨s, hs, k, hk⟩, h⟩ := h
    · exact .body h
    · exact .part hs hk h
  · intro h
    cases h with
    | body h => exact ⟨_, Or.inl rfl, h⟩
    | part hs hk h => exact ⟨_, Or.inr ⟨_, hs, _, hk⟩, h⟩

theorem mem_of_mem_firstVisits {l : List Visit} {seen : List ParagraphId} {v : Visit}
    (h : v ∈ firstVisits l seen) : v ∈ l := by
  induction l generalizing seen with
  | nil => exact h
  | cons u l ih =>
    rw [firstVisits] at h
    split at h
    · exact List.mem_cons_of_mem _ (ih h)
    · rcases List.mem_cons.1 h with rfl | h
      · exact List.mem_cons_self ..
      · exact List.mem_cons_of_mem _ (ih h)

/-- A paragraph is only passed over when it has been met. -/
theorem mem_firstVisits_fst {l : List Visit} {seen : List ParagraphId} {p : ParagraphId}
    (h : p ∈ l.map (·.1)) (hp : p ∉ seen) : p ∈ (firstVisits l seen).map (·.1) := by
  induction l generalizing seen with
  | nil => exact h
  | cons u l ih =>
    rw [firstVisits]
    by_cases hu : u.1 ∈ seen
    · have hne : p ≠ u.1 := fun e => hp (e ▸ hu)
      rw [if_pos hu]
      exact ih ((List.mem_cons.1 h).resolve_left hne) hp
    · rw [if_neg hu, List.map_cons, List.mem_cons]
      by_cases hpu : p = u.1
      · exact Or.inl hpu
      · refine Or.inr (ih ((List.mem_cons.1 h).resolve_left hpu) fun hs => ?_)
        exact (List.mem_cons.1 hs).elim hpu hp

theorem holds_of_mem_visits {d : Document} {v : Visit} (h : v ∈ d.visits) : d.Holds v.1 v.2 :=
  mem_met_iff.1 (mem_of_mem_firstVisits h)

theorem mem_visits_fst_iff {d : Document} {p : ParagraphId} :
    p ∈ d.visits.map (·.1) ↔ ∃ cell, d.Holds p cell := by
  constructor
  · intro h
    obtain ⟨v, hv, rfl⟩ := List.mem_map.1 h
    exact ⟨v.2, holds_of_mem_visits hv⟩
  · intro h
    obtain ⟨cell, h⟩ := h
    have hmet : (p, cell) ∈ d.containers.flatMap Block.visits := mem_met_iff.2 h
    exact mem_firstVisits_fst (List.mem_map_of_mem hmet) List.not_mem_nil

/-- The visits of a document are the paragraphs that it holds, each once and with the innermost cell
around it. -/
theorem visits_exactly_once (d : Document) :
    (d.visits.map (·.1)).Nodup ∧
      (∀ p, p ∈ d.visits.map (·.1) ↔ ∃ cell, d.Holds p cell) ∧
      (∀ v ∈ d.visits, d.Holds v.1 v.2) ∧
      ∀ p cell, d.Holds p cell → (∀ cell', d.Holds p cell' → cell' = cell) →
        (p, cell) ∈ d.visits := by
  refine ⟨d.visits_fst_nodup, fun p => mem_visits_fst_iff, fun v hv => holds_of_mem_visits hv, ?_⟩
  intro p cell h huniq
  obtain ⟨v, hv, rfl⟩ := List.mem_map.1 (mem_visits_fst_iff.2 ⟨cell, h⟩)
  have hcell : v.2 = cell := huniq _ (holds_of_mem_visits hv)
  rw [← hcell]
  exact hv

/-- The merged cell of a table, with a table in it, is visited once; its paragraphs name the cells
around them. -/
example :
    ({ body := [.table [(0, [.paragraph 0, .table [(1, [.paragraph 1])] [[0]]]), (2, [.paragraph 2])]
          [[0, 0], [0, 1]], .paragraph 3] } : Document).visits =
      [(3, none), (0, some 0), (1, some 1), (2, some 2)] := by
  cbv

end Document
end MailMerge
