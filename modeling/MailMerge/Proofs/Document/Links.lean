import MailMerge.Proofs.Document.Placing
/-!
# What is read and what is filled

Placeholders are looked for in everything that can be read in a paragraph, the texts of links
included. They are filled in the joined text of the runs that stand in the paragraph itself. Without
links both are the same text. A link makes two differences: occurrences that touch it are read but
not filled, and where the runs around it join to a placeholder, that is filled but was not read.

* `places_own_add_linked`: the two differences, and no others, in a paragraph.
* `setValue_counts_read_iff`: when a placeholder is filled as often as it is read.
* `setValue_link`: a placeholder in a link is read and not filled.
-/
namespace MailMerge

open Token (wrap IsInner)
open Document (places)

/-! ## Marks -/

/-- A character, and whether it stands in a link. -/
structure Mark where
  char : Char
  linked : Bool
  deriving DecidableEq, Repr

namespace Mark

/-- Everything that can be read. -/
def read (l : List Mark) : Text := l.map Mark.char

/-- What stands outside of links. -/
def own (l : List Mark) : Text := (l.filter (!·.linked)).map Mark.char

/-- Whether one of the first `n` characters stands in a link. -/
def touches (n : Nat) (l : List Mark) : Bool := (l.take n).any Mark.linked

/-- At how many places a needle is read with a character of a link in it. -/
def linkedPlaces (needle : Text) (l : List Mark) : Nat :=
  l.tails.countP fun s => needle.isPrefixOf (read s) && touches needle.length s

/-- At how many places a needle occurs outside of links with the text of a link between its
characters. -/
def bridgedPlaces (needle : Text) (l : List Mark) : Nat :=
  l.tails.countP fun s => needle.isPrefixOf (own s) && touches needle.length s && !touches 1 s

section
variable (needle : Text) (m : Mark) (l : List Mark)

theorem places_read_cons : places needle (read (m :: l)) =
    places needle (read l) + if needle.isPrefixOf (read (m :: l)) then 1 else 0 := by
  rw [places, read, List.map_cons, List.tails_cons, List.countP_cons]
  rfl

theorem linkedPlaces_cons : linkedPlaces needle (m :: l) = linkedPlaces needle l +
    if needle.isPrefixOf (read (m :: l)) && touches needle.length (m :: l) then 1 else 0 := by
  rw [linkedPlaces, List.tails_cons, List.countP_cons]
  rfl

theorem bridgedPlaces_cons : bridgedPlaces needle (m :: l) = bridgedPlaces needle l +
    if needle.isPrefixOf (own (m :: l)) && touches needle.length (m :: l) && !m.linked
      then 1 else 0 := by
  have hone : touches 1 (m :: l) = m.linked := by simp [touches]
  rw [← hone, bridgedPlaces, List.tails_cons, List.countP_cons]
  rfl

theorem linkedPlaces_le : linkedPlaces needle l ≤ places needle (read l) := by
  induction l with
  | nil => cases needle <;> simp [linkedPlaces, places, read, touches]
  | cons m l ih =>
    rw [linkedPlaces_cons, places_read_cons]
    cases needle.isPrefixOf (read (m :: l)) <;> cases touches needle.length (m :: l) <;>
      simp only [Bool.and_true, Bool.and_false, Bool.false_eq_true, if_true, if_false] <;> omega

end

/-- Characters that stand in no link are all that is read up to there. -/
theorem take_own {n : Nat} {l : List Mark} (h : touches n l = false) :
    (own l).take n = (read l).take n := by
  induction l generalizing n with
  | nil => rfl
  | cons m l ih =>
    cases n with
    | zero => rfl
    | succ n =>
      rw [touches, List.take_succ_cons, List.any_cons, Bool.or_eq_false_iff] at h
      have hown : own (m :: l) = m.char :: own l := by simp [own, h.1]
      rw [hown, List.take_succ_cons, ih h.2]
      rfl

theorem isPrefixOf_congr {needle s t : Text}
    (h : s.take needle.length = t.take needle.length) :
    needle.isPrefixOf s = needle.isPrefixOf t := by
  rw [Bool.eq_iff_iff, List.isPrefixOf_iff_prefix, List.isPrefixOf_iff_prefix,
    List.prefix_iff_eq_take, List.prefix_iff_eq_take, h]

/-- Where no character stands in a link, no place touches one. -/
theorem places_of_not_linked {l : List Mark} (h : ∀ m ∈ l, m.linked = false) (needle : Text) :
    linkedPlaces needle l = 0 ∧ bridgedPlaces needle l = 0 := by
  have htouches : ∀ s ∈ l.tails, touches needle.length s = false := by
    intro s hs
    refine List.any_eq_false.2 fun m hm => ?_
    rw [h m (((List.mem_tails s l).1 hs).subset (List.mem_of_mem_take hm))]
    exact Bool.false_ne_true
  constructor <;> refine List.countP_eq_zero.2 fun s hs => ?_ <;> simp [htouches s hs]

/-- Links take from a paragraph the places that touch them, and give it those that reach across
them. The induction is on the characters, each of which begins a place or not. -/
theorem places_own_add_linked {needle : Text} (hn : needle ≠ []) (l : List Mark) :
    places needle (own l) + linkedPlaces needle l =
      places needle (read l) + bridgedPlaces needle l := by
  induction l with
  | nil =>
    obtain ⟨c, n, rfl⟩ := List.exists_cons_of_ne_nil hn
    rfl
  | cons m l ih =>
    rw [places_read_cons, linkedPlaces_cons, bridgedPlaces_cons]
    cases hm : m.linked with
    | true =>
      -- a place that begins in a link touches it, and is none outside of links
      have hown : own (m :: l) = own l := by simp [own, hm]
      have htouches : touches needle.length (m :: l) = true := by
        obtain ⟨c, n, rfl⟩ := List.exists_cons_of_ne_nil hn
        simp [touches, hm]
      rw [hown, htouches]
      simp only [Bool.and_true, Bool.not_true, Bool.and_false, Bool.false_eq_true, if_false]
      omega
    | false =>
      have hown : places needle (own (m :: l)) = places needle (own l) +
          if needle.isPrefixOf (own (m :: l)) then 1 else 0 := by
        have hcons : own (m :: l) = m.char :: own l := by simp [own, hm]
        rw [hcons, places, List.tails_cons, List.countP_cons]
        rfl
      rw [hown]
      cases ht : touches needle.length (m :: l) with
      | true =>
        simp only [Bool.and_true, Bool.not_false]
        omega
      | false =>
        rw [isPrefixOf_congr (take_own ht)]
        simp only [Bool.and_false, Bool.false_and, Bool.false_eq_true, if_false]
        omega

/-! ## The marks of a paragraph -/

/-- The characters of a text, in a link or not. -/
def ofText (linked : Bool) (t : Text) : List Mark := t.map (⟨·, linked⟩)

theorem read_ofText (linked : Bool) (t : Text) : read (ofText linked t) = t := by
  rw [read, ofText, List.map_map]
  exact List.map_id t

theorem own_ofText (linked : Bool) (t : Text) :
    own (ofText linked t) = if linked then [] else t := by
  have hmem : ∀ m ∈ ofText linked t, m.linked = linked := by
    intro m hm
    obtain ⟨c, -, rfl⟩ := List.mem_map.1 hm
    rfl
  cases linked with
  | true => rw [own, List.filter_eq_nil_iff.2 fun m hm => by simp [hmem m hm]]; rfl
  | false =>
    rw [own, List.filter_eq_self.2 fun m hm => by simp [hmem m hm]]
    exact read_ofText false t

end Mark

/-- The characters of a piece of a paragraph. -/
def Inline.marks (x : Inline) : List Mark := Mark.ofText x.run?.isNone x.text

namespace Paragraph

/-- The characters of a paragraph. -/
def marks (p : Paragraph) : List Mark := p.content.flatMap Inline.marks

theorem read_marks (p : Paragraph) : Mark.read p.marks = p.text := by
  unfold text marks
  induction p.content with
  | nil => rfl
  | cons x c ih =>
    have hx : Mark.read x.marks = x.text := Mark.read_ofText ..
    rw [List.flatMap_cons, Mark.read, List.map_append, List.map_cons, List.flatten_cons, ← ih, ← hx]
    rfl

theorem own_marks (p : Paragraph) : Mark.own p.marks = Splice.text p.runs := by
  unfold runs marks
  induction p.content with
  | nil => rfl
  | cons x c ih =>
    have hx : Mark.own x.marks = if x.run?.isNone then [] else x.text := Mark.own_ofText ..
    rw [List.flatMap_cons, Mark.own, List.filter_append, List.map_append]
    cases x with
    | run r => exact congrArg₂ (· ++ ·) hx ih
    | link rs => exact congrArg₂ (· ++ ·) hx ih

theorem linked_of_noLinks {p : Paragraph} (h : ∀ x ∈ p.content, ∃ r, x = Inline.run r) :
    ∀ m ∈ p.marks, m.linked = false := by
  intro m hm
  obtain ⟨x, hx, hmem⟩ := List.mem_flatMap.1 hm
  obtain ⟨r, rfl⟩ := h x hx
  obtain ⟨c, -, rfl⟩ := List.mem_map.1 hmem
  rfl

end Paragraph

/-! ## A document -/

namespace Document

/-- At how many places a needle is read. -/
def readPlaces (d : Document) (needle : Text) : Nat :=
  (d.visits.map fun v => places needle (d.paragraph v.1).text).sum

/-- At how many places a needle is read with a character of a link in it. -/
def linkedPlaces (d : Document) (needle : Text) : Nat :=
  (d.visits.map fun v => Mark.linkedPlaces needle (d.paragraph v.1).marks).sum

/-- At how many places a needle occurs outside of links with the text of a link between its
characters. -/
def bridgedPlaces (d : Document) (needle : Text) : Nat :=
  (d.visits.map fun v => Mark.bridgedPlaces needle (d.paragraph v.1).marks).sum

section
variable {d : Document} {tok : Text}

theorem count_add_linkedPlaces (d : Document) (ht : IsInner tok) :
    d.count (wrap tok) + d.linkedPlaces (wrap tok) =
      d.readPlaces (wrap tok) + d.bridgedPlaces (wrap tok) := by
  have hn : wrap tok ≠ [] := List.cons_ne_nil _ _
  rw [count_eq_places ht.2, lines, List.map_map, linkedPlaces, readPlaces, bridgedPlaces]
  induction d.visits with
  | nil => rfl
  | cons v l ih =>
    have hone := Mark.places_own_add_linked hn (d.paragraph v.1).marks
    rw [Paragraph.own_marks, Paragraph.read_marks] at hone
    simp only [List.map_cons, List.sum_cons, Function.comp_apply] at ih ⊢
    omega

/-- A placeholder of a document can be read in one of its paragraphs. -/
theorem readPlaces_pos (h : tok ∈ d.placeholders) :
    IsInner tok ∧ 0 < d.readPlaces (wrap tok) := by
  obtain ⟨ht, v, hv, hhit⟩ := exists_hit_of_mem_placeholders h
  refine ⟨ht, Nat.lt_of_lt_of_le ?_ (List.single_le_sum (fun _ _ => Nat.zero_le _) _
    (List.mem_map_of_mem hv))⟩
  rwa [← hits_eq_places ht.2]

theorem linkedPlaces_le_readPlaces (d : Document) (needle : Text) :
    d.linkedPlaces needle ≤ d.readPlaces needle := by
  refine List.sum_le_sum fun v _ => ?_
  rw [← Paragraph.read_marks]
  exact Mark.linkedPlaces_le needle _

theorem places_of_hasNoLinks (hl : d.HasNoLinks) (needle : Text) :
    d.linkedPlaces needle = 0 ∧ d.bridgedPlaces needle = 0 := by
  have hone := fun (v : Visit) (hv : v ∈ d.visits) =>
    Mark.places_of_not_linked (Paragraph.linked_of_noLinks (hl v hv)) needle
  constructor <;> refine List.sum_eq_zero_iff.2 fun n hn => ?_ <;>
    obtain ⟨v, hv, rfl⟩ := List.mem_map.1 hn
  · exact (hone v hv).1
  · exact (hone v hv).2

/-- A placeholder is filled with every text that a document can hold, and with others only where
there is nothing to fill. -/
theorem setValue_ok_iff (ht : IsInner tok) {value : Text} {n : Nat} :
    (d.setValue tok value).result = .ok n ↔
      n = d.count (wrap tok) ∧ (d.count (wrap tok) ≠ 0 → ∀ c ∈ value, isXmlChar c = true) := by
  have hok : (d.count (wrap tok) ≠ 0 → ∀ c ∈ value, isXmlChar c = true) →
      (d.setValue tok value).result = .ok (d.count (wrap tok)) := by
    intro hv
    have hfault : ∀ v ∈ d.visits,
        ((d.paragraph v.1).atEach (wrap tok) (Splice.putText value)).fault = none := by
      intro v hvis
      by_cases hc : d.count (wrap tok) = 0
      · have hnone : (Splice.spans (wrap tok) (d.paragraph v.1).content).reverse = [] := by
          rw [spans_eq_nil_of_count hc hvis, List.reverse_nil]
        rw [Paragraph.atEach, Splice.atEach_eq, hnone]
        rfl
      · exact Splice.fault_each_putText (hv hc) _ _
    obtain ⟨d', hd', -⟩ := each_changeParagraph d.visits d.visits_fst_nodup d hfault
    unfold setValue
    rw [ht.unwrap]
    dsimp only
    rw [hd']
    rfl
  constructor
  · intro hres
    have hv : d.count (wrap tok) ≠ 0 → ∀ c ∈ value, isXmlChar c = true := by
      intro hc
      refine Decidable.byContradiction fun hv => ?_
      rw [count_eq] at hc
      obtain ⟨t, hmem, hpos⟩ : ∃ t ∈ d.lines, 0 < Text.hits (wrap tok) t := by
        refine Decidable.byContradiction fun hnone => hc (List.sum_eq_zero_iff.2 fun n hn => ?_)
        obtain ⟨t, hmem, rfl⟩ := List.mem_map.1 hn
        exact Nat.eq_zero_of_not_pos fun hpos => hnone ⟨t, hmem, hpos⟩
      obtain ⟨e, he⟩ := setValue_fault ht hv hmem hpos
      rw [he] at hres
      cases hres
    rw [hok hv] at hres
    exact ⟨(Except.ok.inj hres).symm, hv⟩
  · rintro ⟨rfl, hv⟩
    exact hok hv

/-- A placeholder of a document is read at least once. It is filled as often as it is read just when
as many of its places touch a link as reach across one, in particular in a document without links,
and it cannot be filled at all just when all its places touch a link and none reaches across one. -/
theorem setValue_counts_read_iff (h : tok ∈ d.placeholders) (value : Text) :
    0 < d.readPlaces (wrap tok) ∧
      (∀ n, (d.setValue tok value).result = .ok n →
        n + d.linkedPlaces (wrap tok) = d.readPlaces (wrap tok) + d.bridgedPlaces (wrap tok)) ∧
      ((d.setValue tok value).result = .ok (d.readPlaces (wrap tok)) ↔
        d.linkedPlaces (wrap tok) = d.bridgedPlaces (wrap tok) ∧
          ∀ c ∈ value, isXmlChar c = true) ∧
      (d.HasNoLinks → d.linkedPlaces (wrap tok) = d.bridgedPlaces (wrap tok)) ∧
      ((d.setValue tok value).result = .ok 0 ↔
        d.linkedPlaces (wrap tok) = d.readPlaces (wrap tok) ∧ d.bridgedPlaces (wrap tok) = 0) := by
  obtain ⟨ht, hpos⟩ := readPlaces_pos h
  have hsum := count_add_linkedPlaces d ht
  have hle := linkedPlaces_le_readPlaces d (wrap tok)
  refine ⟨hpos, fun n hn => ?_, ?_, fun hl => ?_, ?_⟩
  · rw [((setValue_ok_iff ht).1 hn).1, hsum]
  · rw [setValue_ok_iff ht]
    constructor
    · rintro ⟨hcount, hv⟩
      exact ⟨by omega, hv (by omega)⟩
    · rintro ⟨hsame, hv⟩
      exact ⟨by omega, fun _ => hv⟩
  · obtain ⟨hlinked, hbridged⟩ := places_of_hasNoLinks hl (wrap tok)
    rw [hlinked, hbridged]
  · rw [setValue_ok_iff ht]
    constructor
    · rintro ⟨hcount, -⟩
      omega
    · intro hall
      have hzero : d.count (wrap tok) = 0 := by omega
      exact ⟨hzero.symm, fun hne => absurd hzero hne⟩

end

/-- Two placeholders beside a link with another one, the second over two runs. -/
def besideLink : Document :=
  { body := [.paragraph 0]
    paragraphs := [{ content := [.run { text := wrap ['a'] }, .link [{ text := wrap ['b'] }],
      .run { text := ['$', '\x7b'] }, .run { bold := true, text := ['a', '\x7d'] }] }] }

/-- A placeholder beside a link is filled in both of its places. -/
theorem setValue_counts_read_besideLink :
    ['a'] ∈ besideLink.placeholders ∧ besideLink.readPlaces (wrap ['a']) = 2 ∧
      (besideLink.setValue ['a'] ['v']).result = .ok 2 := by
  have hfound : besideLink.placeholders = [['a'], ['b']] := by cbv
  have hmem : ['a'] ∈ besideLink.placeholders := hfound ▸ List.mem_cons_self
  have hread : besideLink.readPlaces (wrap ['a']) = 2 := by cbv
  have hlinked : besideLink.linkedPlaces (wrap ['a']) = besideLink.bridgedPlaces (wrap ['a']) := by
    cbv
  obtain ⟨-, -, hiff, -⟩ := setValue_counts_read_iff hmem ['v']
  rw [hread] at hiff
  exact ⟨hmem, hread, hiff.2 ⟨hlinked, List.all_eq_true.1 (by decide)⟩⟩

/-- A placeholder in a link. -/
def insideLink : Document :=
  { body := [.paragraph 0], paragraphs := [{ content := [.link [{ text := wrap ['a'] }]] }] }

/-- It is read once and cannot be filled. -/
theorem setValue_link :
    ['a'] ∈ insideLink.placeholders ∧ insideLink.readPlaces (wrap ['a']) = 1 ∧
      (insideLink.setValue ['a'] ['x']).result = .ok 0 ∧
      (insideLink.setValue ['a'] ['x']).document.text = wrap ['a'] := by
  have hfound : insideLink.placeholders = [['a']] := by cbv
  exact ⟨hfound ▸ List.mem_cons_self, by cbv, by cbv, by cbv⟩

end Document
end MailMerge
