import Mathlib
import MailMerge.Proofs.Document.Visits
import MailMerge.Proofs.Placeholder.Finding
/-!
# The order of placeholders

Reading order goes from top to bottom, with what the cells of a table hold at the place of the table.
The walk through a document agrees with it but for one thing: in each container, at any depth, the
paragraphs come before all tables. So a paragraph that stands behind a table overtakes it.

* `perm_readingOrder`: the walk meets what is read.
* `flatMap_inside_eq`: when no paragraph with a mark overtakes a table with one, marks are met in the order
  in which they are read.
* `placeholders_in_order`: which documents have their placeholders listed in reading order.
-/
namespace MailMerge

mutual

/-- The paragraphs in a list of blocks from top to bottom. A table is read where it stands: cell by cell,
row by row, a merged cell where it first appears. -/
def Block.readingOrder : List Block → List ParagraphId
  | [] => []
  | .paragraph p :: r => p :: Block.readingOrder r
  | .table cells grid :: r =>
    (Token.distinct grid.flatten).flatMap (fun i => (Block.cellOrders cells).getD i []) ++
      Block.readingOrder r

/-- The paragraphs in each of the cells of a table. -/
def Block.cellOrders : List (CellId × List Block) → List (List ParagraphId)
  | [] => []
  | (_, blocks) :: r => Block.readingOrder blocks :: Block.cellOrders r

end

namespace Block

/-- The cells that a table shows, each where it first appears. -/
def shownCells (cells : List (CellId × List Block)) (grid : List (List Nat)) :
    List (CellId × List Block) :=
  (Token.distinct grid.flatten).filterMap (cells[·]?)

/-- That a marked paragraph overtakes a marked one in a list of blocks: it stands behind the table in
which the other one is, in the list itself or in a cell. -/
inductive Overtakes (marked : ParagraphId → Prop) : List Block → Prop
  | here {blocks cells grid q p} (hbehind : [.table cells grid, .paragraph p].Sublist blocks)
      (hq : q ∈ readingOrder [.table cells grid]) (hmq : marked q) (hmp : marked p) :
      Overtakes marked blocks
  | inCell {blocks cells grid c} (ht : .table cells grid ∈ blocks) (hc : c ∈ shownCells cells grid)
      (h : Overtakes marked c.2) : Overtakes marked blocks

/-! ## Tables by the cells that they show -/

theorem cellOrders_getD (cells : List (CellId × List Block)) (i : Nat) :
    (cellOrders cells).getD i [] = (cells[i]?).elim [] fun c => readingOrder c.2 := by
  induction cells generalizing i with
  | nil => simp [cellOrders]
  | cons c cells ih =>
    obtain ⟨id, blocks⟩ := c
    cases i with
    | zero => simp [cellOrders]
    | succ i => simpa [cellOrders] using ih i

theorem flatMap_shownCells {α : Type} (cells : List (CellId × List Block)) (grid : List (List Nat))
    (f : CellId × List Block → List α) :
    (shownCells cells grid).flatMap f =
      (Token.distinct grid.flatten).flatMap fun i => (cells[i]?).elim [] f := by
  unfold shownCells
  induction Token.distinct grid.flatten with
  | nil => rfl
  | cons i l ih =>
    rw [List.flatMap_cons, ← ih, List.filterMap_cons]
    cases cells[i]? <;> simp

section
variable (cells : List (CellId × List Block)) (grid : List (List Nat)) (r : List Block)
  (p : ParagraphId) (around : Option CellId)

theorem inside_nil : inside [] around = [] := by
  rw [inside, ownParagraphs, tableVisits, List.append_nil]

theorem readingOrder_table : readingOrder (.table cells grid :: r) =
    (shownCells cells grid).flatMap (fun c => readingOrder c.2) ++ readingOrder r := by
  rw [readingOrder, flatMap_shownCells]
  simp only [cellOrders_getD]

theorem tableVisits_table : tableVisits (.table cells grid :: r) =
    (shownCells cells grid).flatMap (fun c => inside c.2 (some c.1)) ++ tableVisits r := by
  rw [tableVisits, flatMap_shownCells]
  simp only [cellVisits_getD]

theorem inside_paragraph : inside (.paragraph p :: r) around = (p, around) :: inside r around := by
  rw [inside, ownParagraphs, tableVisits]
  rfl

theorem inside_table : inside (.table cells grid :: r) around = ownParagraphs r around ++
    ((shownCells cells grid).flatMap (fun c => inside c.2 (some c.1)) ++ tableVisits r) := by
  rw [inside, ownParagraphs, tableVisits_table]

end

/-- What holds of a list of blocks when it holds of what the cells of its tables show. -/
theorem blocks_induction {motive : List Block → Prop} (nil : motive [])
    (paragraph : ∀ p r, motive r → motive (.paragraph p :: r))
    (table : ∀ cells grid r, (∀ c ∈ shownCells cells grid, motive c.2) → motive r →
      motive (.table cells grid :: r)) :
    ∀ blocks, motive blocks
  | [] => nil
  | .paragraph p :: r => paragraph p r (blocks_induction nil paragraph table r)
  | .table cells grid :: r => by
    refine table cells grid r (fun c hc => ?_) (blocks_induction nil paragraph table r)
    have hsize : sizeOf c.2 < sizeOf cells := by
      obtain ⟨i, -, hi⟩ := List.mem_filterMap.1 hc
      have hlt := List.sizeOf_lt_of_mem (List.mem_of_getElem? hi)
      obtain ⟨id, inner⟩ := c
      simp only [Prod.mk.sizeOf_spec] at hlt ⊢
      omega
    exact blocks_induction nil paragraph table c.2
termination_by blocks => sizeOf blocks

/-! ## The walk meets what is read -/

/-- The walk meets the paragraphs that are read. -/
theorem perm_readingOrder (blocks : List Block) : ∀ around,
    ((inside blocks around).map Prod.fst).Perm (readingOrder blocks) := by
  induction blocks using blocks_induction with
  | nil =>
    intro around
    rw [inside_nil, readingOrder]
    exact .refl _
  | paragraph p r ih =>
    intro around
    rw [inside_paragraph, readingOrder, List.map_cons]
    exact (ih around).cons p
  | table cells grid r ihcells ih =>
    intro around
    rw [inside_table, readingOrder_table, List.map_append, List.map_append, List.map_flatMap]
    refine (List.perm_append_comm_assoc ..).trans (.append ?_ ?_)
    · exact .flatMap_left _ fun c hc => ihcells c hc (some c.1)
    · rw [← List.map_append]
      exact ih around

/-! ## Without overtaking -/

section
variable {marked : ParagraphId → Prop} {blocks r : List Block} {b : Block}

theorem Overtakes.cons (h : Overtakes marked r) (b : Block) : Overtakes marked (b :: r) := by
  cases h with
  | here hbehind hq hmq hmp => exact .here (hbehind.cons b) hq hmq hmp
  | inCell ht hc h => exact .inCell (List.mem_cons_of_mem b ht) hc h

end

/-- When no paragraph with something to list overtakes another one, the walk lists what is read, in
order. -/
theorem flatMap_inside_eq {α : Type} (f : ParagraphId → List α) (blocks : List Block) :
    ∀ around, ¬ Overtakes (f · ≠ []) blocks →
      (inside blocks around).flatMap (fun v => f v.1) = (readingOrder blocks).flatMap f := by
  induction blocks using blocks_induction with
  | nil =>
    intro around _
    rw [inside_nil, readingOrder]
    rfl
  | paragraph p r ih =>
    intro around hno
    rw [inside_paragraph, readingOrder, List.flatMap_cons, List.flatMap_cons,
      ih around fun h => hno (h.cons _)]
  | table cells grid r ihcells ih =>
    intro around hno
    have hr := ih around fun h => hno (h.cons _)
    have hcells : (shownCells cells grid).flatMap (fun c =>
          (inside c.2 (some c.1)).flatMap fun v => f v.1) =
        (shownCells cells grid).flatMap fun c => (readingOrder c.2).flatMap f :=
      List.flatMap_congr fun c hc =>
        ihcells c hc (some c.1) fun h => hno (.inCell List.mem_cons_self hc h)
    rw [inside, List.flatMap_append] at hr
    rw [inside_table, readingOrder_table]
    simp only [List.flatMap_append, List.flatMap_assoc]
    rw [hcells, ← hr]
    -- either the table or the paragraphs behind it have nothing to list
    by_cases hown : ∀ v ∈ ownParagraphs r around, f v.1 = []
    · have hnil := List.flatMap_eq_nil_iff.2 hown
      rw [hnil, List.nil_append, List.nil_append]
    · push Not at hown
      obtain ⟨v, hv, hmarked⟩ := hown
      have hbehind : [.table cells grid, .paragraph v.1].Sublist (.table cells grid :: r) :=
        (List.singleton_sublist.2 (mem_ownParagraphs.1 hv).1).cons_cons _
      have hnil : (shownCells cells grid).flatMap (fun c => (readingOrder c.2).flatMap f) = [] := by
        rw [← List.flatMap_assoc, List.flatMap_eq_nil_iff]
        intro q hq
        by_contra hmq
        refine hno (.here hbehind ?_ hmq hmarked)
        rwa [readingOrder_table, readingOrder, List.append_nil]
      rw [hnil, List.nil_append, List.nil_append]

/-! ## Overtaking -/

theorem sublist_flatMap_of_mem {α β : Type} {a : α} {l : List α} (h : a ∈ l) (f : α → List β) :
    (f a).Sublist (l.flatMap f) := by
  have hsub := (List.singleton_sublist.2 h).flatMap f
  rwa [List.flatMap_singleton] at hsub

theorem readingOrder_eq_flatMap (blocks : List Block) :
    readingOrder blocks = blocks.flatMap fun b => readingOrder [b] := by
  induction blocks with
  | nil => rw [readingOrder, List.flatMap_nil]
  | cons b r ih =>
    rw [List.flatMap_cons, ← ih]
    cases b with
    | paragraph p => simp [readingOrder]
    | table cells grid =>
      rw [readingOrder_table, readingOrder_table cells grid [], readingOrder, List.append_nil]

theorem tableVisits_eq_flatMap (blocks : List Block) :
    tableVisits blocks = blocks.flatMap fun b => tableVisits [b] := by
  induction blocks with
  | nil => rw [tableVisits, List.flatMap_nil]
  | cons b r ih =>
    rw [List.flatMap_cons, ← ih]
    cases b with
    | paragraph p => simp [tableVisits]
    | table cells grid =>
      rw [tableVisits_table, tableVisits_table cells grid [], tableVisits, List.append_nil]

section
variable {blocks part : List Block} {cells : List (CellId × List Block)} {grid : List (List Nat)}
  {c : CellId × List Block}

theorem readingOrder_sublist (h : part.Sublist blocks) :
    (readingOrder part).Sublist (readingOrder blocks) := by
  rw [readingOrder_eq_flatMap part, readingOrder_eq_flatMap blocks]
  exact h.flatMap _

theorem tableVisits_sublist (h : part.Sublist blocks) :
    (tableVisits part).Sublist (tableVisits blocks) := by
  rw [tableVisits_eq_flatMap part, tableVisits_eq_flatMap blocks]
  exact h.flatMap _

theorem readingOrder_cell_sublist (hc : c ∈ shownCells cells grid) :
    (readingOrder c.2).Sublist (readingOrder [.table cells grid]) := by
  rw [readingOrder_table, readingOrder, List.append_nil]
  exact sublist_flatMap_of_mem hc fun c => readingOrder c.2

theorem inside_cell_sublist (hc : c ∈ shownCells cells grid) :
    (inside c.2 (some c.1)).Sublist (tableVisits [.table cells grid]) := by
  rw [tableVisits_table, tableVisits, List.append_nil]
  exact sublist_flatMap_of_mem hc fun c => inside c.2 (some c.1)

/-- A paragraph that overtakes another one comes after it in reading order and before it in the walk. -/
theorem Overtakes.exists_swapped {marked : ParagraphId → Prop} (h : Overtakes marked blocks) :
    ∃ q p, marked q ∧ marked p ∧ [q, p].Sublist (readingOrder blocks) ∧
      ∀ around, [p, q].Sublist ((inside blocks around).map Prod.fst) := by
  induction h with
  | @here blocks cells grid q p hbehind hq hmq hmp =>
    refine ⟨q, p, hmq, hmp, ?_, fun around => ?_⟩
    · refine List.Sublist.trans ?_ (readingOrder_sublist hbehind)
      rw [readingOrder_eq_flatMap, List.flatMap_cons]
      refine (List.singleton_sublist.2 hq).append ?_
      simp [readingOrder]
    · have hp : p ∈ (ownParagraphs blocks around).map Prod.fst :=
        List.mem_map.2 ⟨(p, around), mem_ownParagraphs.2 ⟨hbehind.subset (by simp), rfl⟩, rfl⟩
      have ht : [.table cells grid].Sublist blocks :=
        List.singleton_sublist.2 (hbehind.subset List.mem_cons_self)
      have hq' : q ∈ (tableVisits blocks).map Prod.fst :=
        ((tableVisits_sublist ht).map _).subset ((perm_readingOrder _ none).mem_iff.2 hq)
      rw [inside, List.map_append]
      exact (List.singleton_sublist.2 hp).append (List.singleton_sublist.2 hq')
  | @inCell blocks cells grid c ht hc _ ih =>
    obtain ⟨q, p, hmq, hmp, hread, hwalk⟩ := ih
    have ht' := List.singleton_sublist.2 ht
    refine ⟨q, p, hmq, hmp, ?_, fun around => ?_⟩
    · exact (hread.trans (readingOrder_cell_sublist hc)).trans (readingOrder_sublist ht')
    · have hvisits := (inside_cell_sublist hc).trans (tableVisits_sublist ht')
      exact (hwalk (some c.1)).trans ((hvisits.trans (List.sublist_append_right _ _)).map _)

end

end Block

namespace Document

/-! ## Placeholders -/

/-- The paragraphs of a document in reading order, the body first and then the headers and footers that
sections have of their own. -/
def readingOrder (d : Document) : List ParagraphId := d.containers.flatMap Block.readingOrder

/-- The distinct placeholders in a paragraph, in order. -/
def tokensOf (d : Document) (p : ParagraphId) : List Text := Token.find (d.paragraph p).text

/-- The placeholders of the paragraphs of a document, in reading order. -/
def tokensRead (d : Document) : List Text := d.readingOrder.flatMap d.tokensOf

/-- That a paragraph with a placeholder stands behind a table that has one in it, in the same container,
at any depth. -/
def Overtakes (d : Document) : Prop :=
  ∃ blocks ∈ d.containers, Block.Overtakes (d.tokensOf · ≠ []) blocks

/-- What the walk meets, before it passes over what it met before. -/
def met (d : Document) : List ParagraphId := (d.containers.flatMap Block.visits).map Prod.fst

section
variable {d : Document}

theorem perm_met (d : Document) : d.met.Perm d.readingOrder := by
  rw [met, List.map_flatMap]
  exact .flatMap_left _ fun blocks _ => Block.perm_readingOrder blocks none

/-- Passing over a paragraph that was met leaves out no first occurrence. -/
theorem distinct_firstVisits {α : Type} [DecidableEq α] (f : ParagraphId → List α) (l : List Visit) :
    ∀ (seen : List ParagraphId) (before : List α), (∀ p ∈ seen, f p ⊆ before) →
      Token.distinct (before ++ (firstVisits l seen).flatMap fun v => f v.1) =
        Token.distinct (before ++ l.flatMap fun v => f v.1) := by
  induction l with
  | nil => exact fun _ _ _ => rfl
  | cons v l ih =>
    intro seen before hseen
    rw [firstVisits, List.flatMap_cons, ← List.append_assoc]
    split
    · rename_i hv
      rw [ih seen before hseen]
      exact Token.distinct_append_congr (Token.distinct_append_of_subset (hseen _ hv)).symm _
    · rw [List.flatMap_cons, ← List.append_assoc]
      refine ih _ _ fun p hp => ?_
      rcases List.mem_cons.1 hp with rfl | hp
      · exact List.subset_append_right ..
      · exact fun t ht => List.mem_append_left _ (hseen p hp ht)

theorem placeholders_eq (d : Document) :
    d.placeholders = Token.distinct (d.met.flatMap d.tokensOf) := by
  have h := distinct_firstVisits d.tokensOf (d.containers.flatMap Block.visits) [] []
    fun p hp => absurd hp List.not_mem_nil
  rw [List.nil_append, List.nil_append] at h
  rw [met, List.flatMap_map]
  exact h

theorem flatMap_met_eq (h : ¬ d.Overtakes) : d.met.flatMap d.tokensOf = d.tokensRead := by
  rw [met, List.flatMap_map, tokensRead, readingOrder, List.flatMap_assoc, List.flatMap_assoc]
  exact List.flatMap_congr fun blocks hblocks =>
    Block.flatMap_inside_eq d.tokensOf blocks none fun hover => h ⟨blocks, hblocks, hover⟩

/-- Two members of a list without repetitions stand in one order only. -/
theorem not_swapped_of_nodup {α : Type} {x y : α} {l : List α} (h : l.Nodup)
    (hxy : [x, y].Sublist l) (hyx : [y, x].Sublist l) : False := by
  induction l with
  | nil => cases hxy
  | cons z l ih =>
    obtain ⟨hz, hl⟩ := List.nodup_cons.1 h
    cases hxy with
    | cons _ hxy =>
      cases hyx with
      | cons _ hyx => exact ih hl hxy hyx
      | cons_cons _ _ => exact hz (hxy.subset (by simp))
    | cons_cons _ hy =>
      cases hyx with
      | cons _ hyx => exact hz (hyx.subset (by simp))
      | cons_cons _ _ => exact hz (List.singleton_sublist.1 hy)

/-- What is overtaken is met in another order than it is read. -/
theorem Overtakes.flatMap_met_ne (h : d.Overtakes) (hnodup : d.tokensRead.Nodup) :
    d.met.flatMap d.tokensOf ≠ d.tokensRead := by
  intro heq
  obtain ⟨blocks, hblocks, h⟩ := h
  obtain ⟨q, p, hq, hp, hread, hwalk⟩ := h.exists_swapped
  obtain ⟨t, ht⟩ := List.exists_mem_of_ne_nil _ hq
  obtain ⟨u, hu⟩ := List.exists_mem_of_ne_nil _ hp
  have htokens {a b : ParagraphId} {x y : Text} {l : List ParagraphId} (hx : x ∈ d.tokensOf a)
      (hy : y ∈ d.tokensOf b) (hab : [a, b].Sublist l) : [x, y].Sublist (l.flatMap d.tokensOf) := by
    refine List.Sublist.trans ?_ (hab.flatMap _)
    rw [List.flatMap_cons, List.flatMap_singleton]
    exact (List.singleton_sublist.2 hx).append (List.singleton_sublist.2 hy)
  have hread' : [q, p].Sublist d.readingOrder :=
    hread.trans (Block.sublist_flatMap_of_mem hblocks Block.readingOrder)
  have hwalk' : [p, q].Sublist d.met :=
    (hwalk none).trans ((Block.sublist_flatMap_of_mem hblocks Block.visits).map Prod.fst)
  exact not_swapped_of_nodup hnodup (htokens ht hu hread') (heq ▸ htokens hu ht hwalk')

/-- The placeholders of a document are those that are read, and where no paragraph overtakes another one
they are listed in reading order, by their first occurrences. When no placeholder stands in two
paragraphs, they are so only there. -/
theorem placeholders_in_order (d : Document) :
    d.placeholders.Perm (Token.distinct d.tokensRead) ∧
      (¬ d.Overtakes → d.placeholders = Token.distinct d.tokensRead) ∧
      (d.tokensRead.Nodup → d.placeholders = Token.distinct d.tokensRead → ¬ d.Overtakes) := by
  have hperm : (d.met.flatMap d.tokensOf).Perm d.tokensRead := (perm_met d).flatMap_right _
  rw [placeholders_eq]
  refine ⟨?_, fun hno => ?_, fun hnodup heq hover => ?_⟩
  · rw [List.perm_ext_iff_of_nodup (Token.nodup_distinct _) (Token.nodup_distinct _)]
    intro t
    rw [Token.mem_distinct, Token.mem_distinct]
    exact hperm.mem_iff
  · rw [flatMap_met_eq hno]
  · rw [Token.distinct_of_nodup hnodup, Token.distinct_of_nodup (hperm.nodup_iff.2 hnodup)] at heq
    exact hover.flatMap_met_ne hnodup heq

end

/-! ## A table above and below -/

/-- A document with a paragraph above a table of one cell. -/
def titled : Document where
  body := [.paragraph 0, .table [(0, [.paragraph 1])] [[0]]]
  paragraphs := [{ content := [.run { text := Token.wrap ['a'] }] },
    { content := [.run { text := Token.wrap ['b'] }] }]

/-- The same paragraphs, the first in the table and the other one below it. -/
def annotated : Document :=
  { titled with body := [.table [(0, [.paragraph 0])] [[0]], .paragraph 1] }

/-- Nothing is overtaken where the table stands last, and the placeholders are listed in order. -/
theorem placeholders_in_order_titled :
    ¬ titled.Overtakes ∧ titled.tokensRead.Nodup ∧ titled.tokensRead = [['a'], ['b']] ∧
      titled.placeholders = Token.distinct titled.tokensRead := by
  have hread : titled.tokensRead = [['a'], ['b']] := by cbv
  have hnodup : titled.tokensRead.Nodup := by
    rw [hread]
    decide
  have hno : ¬ titled.Overtakes := by
    rintro ⟨blocks, hblocks, h⟩
    have hbody : blocks = titled.body := List.mem_singleton.1 hblocks
    subst hbody
    cases h with
    | here hbehind => cases hbehind.eq_of_length rfl
    | inCell ht hc h =>
      cases ht with
      | tail _ ht =>
        cases List.mem_singleton.1 ht
        cases List.mem_singleton.1 hc
        cases h with
        | here hbehind => simp at hbehind
        | inCell ht => cases List.mem_singleton.1 ht
  obtain ⟨-, hlisted, honly⟩ := placeholders_in_order titled
  have horder := hlisted hno
  exact ⟨honly hnodup horder, hnodup, hread, horder⟩

/-- A note below a table is listed before what stands in the table. -/
theorem placeholders_annotated :
    Token.distinct annotated.tokensRead = [['a'], ['b']] ∧
      annotated.placeholders = [['b'], ['a']] := by
  constructor <;> cbv

end Document
end MailMerge
