import MailMerge.Proofs.Document.Pictures
import MailMerge.Proofs.Document.Placing
/-!
# Where pictures are put

A picture that is put in the place of a placeholder has a run of its own; what followed the
placeholder in the same run moves into a run of the same format behind it. The runs of a paragraph
are then others than before, but read as they are seen, as formatted characters and pictures, the
paragraph is the old one with every occurrence exchanged for the picture.

* `splices_putPicture`: one picture takes the place of its occurrence.
* `each_changeVisit`: the paragraphs of different visits are changed each by itself, with their cells.
* `setImage_shows`: all of a document's occurrences are exchanged and counted, and alignments change
  only where one was.
* `setImage_too_wide`: a picture whose size no document stores is not put in.
-/
namespace MailMerge

open Token (wrap)

namespace Splice

/-- What is seen in a paragraph: a character in its format, or a picture. -/
inductive Glyph where
  | char (bold : Bool) (c : Char)
  | picture (p : Picture)
  deriving DecidableEq, Repr

/-- The character of a glyph, if it shows one. -/
def Glyph.char? : Glyph → Option Char
  | .char _ c => some c
  | .picture _ => none

/-- Runs read as they are seen. -/
def seen : Reading Glyph where
  letter _ b c := .char b c
  picture? p := some (.picture p)
  char? := Glyph.char?
  char?_letter _ _ _ := rfl
  char?_picture p g h := by
    cases h
    rfl

theorem behind_seen (r : Run) : seen.behind r = r.pictures.map .picture :=
  congrFun List.filterMap_eq_map _

/-- The numbers of runs are not seen. -/
theorem runs_seen_shift (i j : Nat) (rs : List Run) : seen.runs i rs = seen.runs j rs := by
  induction rs generalizing i j with
  | nil => rfl
  | cons r rs ih => exact congrArg (seen.rest i 0 r ++ ·) (ih (i + 1) (j + 1))

/-- A run with a picture alone. -/
theorem runs_seen_picture (i : Nat) (pic : Picture) (rs : List Run) :
    seen.runs i ({ pictures := [pic] } :: rs) = .picture pic :: seen.runs (i + 1) rs := rfl

theorem rest_seen_store {t : Text} (ht : Run.IsStored t) (i u : Nat) (r : Run) :
    seen.rest i u (r.store t) = (t.drop u).map (.char r.bold) := by
  rw [Reading.rest, store_eq ht, behind_seen]
  exact List.append_nil _

theorem onward_seen_take {u : Nat} {x : Run} (hx : Run.IsStored (x.text.take u)) (i : Nat)
    (pic : Picture) (b : List Run) :
    seen.onward i u (x.store (x.text.take u)) ({ pictures := [pic] } :: b) =
      .picture pic :: seen.runs (i + 1) b := by
  have hnone : (x.text.take u).drop u = [] :=
    List.drop_eq_nil_of_le (by rw [List.length_take]; omega)
  rw [Reading.onward, rest_seen_store hx, hnone, runs_seen_picture, runs_seen_shift _ (i + 1)]
  rfl

/-- A picture takes the place of its occurrence, behind what stood before it in its run. -/
theorem splices_putPicture (pic : Picture) :
    Splices seen (fun _ => [.picture pic]) (putPicture (.ok pic)) where
  within a x b c u w huw hw hx := by
    have hlead := hx.1.of_sublist (List.take_sublist u _)
    have hrest := hx.1.of_sublist (List.drop_sublist w _)
    have honward : seen.onward a.length w x b =
        (x.text.drop w).map (.char x.bold) ++ seen.runs (a.length + 1) b := by
      rw [Reading.onward, hx.rest]
      rfl
    refine ⟨x.store (x.text.take u), { pictures := [pic] } ::
      ((if (x.text.drop w).isEmpty then [] else [x.store (x.text.drop w)]) ++ b), ?_,
      kept_take (by omega) hlead, ?_⟩
    · simp only [putPicture, head, tail, textAt_middle, if_true, decide_true, Bool.true_and]
      rw [edit_middle, List.map_append]
      cases (x.text.drop w).isEmpty <;> rfl
    · rw [onward_seen_take hlead, honward, runs_append]
      cases hempty : x.text.drop w with
      | nil => rfl
      | cons d r =>
        rw [hempty] at hrest
        have hrun : seen.runs (a.length + 1) [x.store (d :: r)] = (d :: r).map (.char x.bold) := by
          rw [Reading.runs, rest_seen_store hrest]
          exact List.append_nil _
        have hne : (d :: r).isEmpty = false := rfl
        rw [hne, if_neg Bool.false_ne_true, hrun, runs_seen_shift _ (a.length + 1)]
        rfl
  across a x m y b c u w hu hw hx hy := by
    have hlead := hx.1.of_sublist (List.take_sublist u _)
    have hrest := hy.1.of_sublist (List.drop_sublist w _)
    have hne : a.length ≠ a.length + 1 + m.length := by omega
    refine ⟨x.store (x.text.take u), { pictures := [pic] } ::
      (m.map (Run.store []) ++ y.store (y.text.drop w) :: b), ?_,
      kept_take (Nat.le_of_lt hu) hlead, ?_⟩
    · simp only [putPicture, if_neg hne, head, tail, textAt_behind, textAt_middle,
        decide_eq_false hne, Bool.false_and, Bool.false_eq_true, if_false]
      rw [put_clearBetween, edit_middle]
      simp
    · rw [onward_seen_take hlead, runs_append, runs_emptied, runs_cons, Reading.onward,
        rest_seen_store hrest, Reading.onward, hy.rest, runs_seen_shift _ (a.length + 1 + m.length + 1)]
      rfl

/-- What putting a picture into runs does: as they are seen, the characters of every occurrence are
exchanged for the picture. -/
theorem atEach_putPicture_seen {needle : Text} (hn : needle ≠ []) (pic : Picture) (rs : List Run)
    (hs : ∀ i r, reaches needle (rs.map .run) i = true → rs[i]? = some r →
      Run.IsStored r.text ∧ r.pictures = []) :
    ∃ rs', atEach needle (putPicture (.ok pic)) (rs.map .run) = { value := rs'.map .run } ∧
      seen.runs 0 rs' = seen.exchange needle (fun _ => [.picture pic]) 0 (seen.runs 0 rs) := by
  refine atEach_splices hn rs (fun _ => splices_putPicture pic) fun i r hi hr => ?_
  obtain ⟨htext, hnone⟩ := hs i r hi hr
  refine ⟨htext, ?_⟩
  rw [behind_seen, hnone]
  rfl

end Splice

/-! ## A document -/

namespace Document

/-- A paragraph with a picture in the place of every occurrence of a needle, aligned as the asset
says if there was one. -/
def withPicture (needle : Text) (a : Asset) (pic : Picture) (p : Paragraph) : Paragraph :=
  if p.count needle = 0 then p
  else
    { align := a.horizontal.or p.align
      content := (p.atEach needle (Splice.putPicture (.ok pic))).value.content }

theorem content_withPicture (needle : Text) (a : Asset) (pic : Picture) (p : Paragraph) :
    (withPicture needle a pic p).content =
      (Splice.atEach needle (Splice.putPicture (.ok pic)) p.content).value := by
  by_cases hcount : p.count needle = 0
  · rw [withPicture, if_pos hcount]
    rw [count_eq_length_spans, List.length_eq_zero_iff] at hcount
    rw [Splice.atEach_eq, hcount]
    rfl
  · rw [withPicture, if_neg hcount]
    rfl

/-- Whether a visit is in a cell and its paragraph has an occurrence of a needle. -/
def meets (d : Document) (needle : Text) (k : CellId) (v : Visit) : Bool :=
  v.2 == some k && (d.paragraph v.1).count needle != 0

/-- The alignment of an asset given to a paragraph. -/
def alignParagraph (a : Asset) (id : ParagraphId) (d : Document) : Document :=
  match a.horizontal with
  | none => d
  | some h => d.setParagraph id { d.paragraph id with align := some h }

/-- The alignment of an asset given to a cell. -/
def alignCell (a : Asset) (cell : Option CellId) (d : Document) : Document :=
  match cell, a.vertical with
  | some c, some x => d.setCell c x
  | _, _ => d

theorem align_eq (a : Asset) (v : Visit) (d : Document) :
    align a v d = alignCell a v.2 (alignParagraph a v.1 d) := by
  unfold align alignParagraph
  cases a.horizontal <;> rfl

theorem paragraph_alignParagraph (a : Asset) {id : ParagraphId} {d : Document}
    (hid : id < d.paragraphs.length) (id' : ParagraphId) :
    (alignParagraph a id d).paragraph id' =
      if id' = id then { d.paragraph id' with align := a.horizontal.or (d.paragraph id').align }
      else d.paragraph id' := by
  unfold alignParagraph
  cases a.horizontal with
  | none => simp
  | some h =>
    dsimp only
    rw [paragraph_setParagraph _ _ _ _ fun hle => absurd hid (Nat.not_lt.2 hle)]
    by_cases h' : id' = id
    · rw [if_pos h', if_pos h', h', Option.some_or]
    · rw [if_neg h', if_neg h']

theorem frame_alignParagraph (a : Asset) (id : ParagraphId) (d : Document) :
    (alignParagraph a id d).body = d.body ∧ (alignParagraph a id d).sections = d.sections ∧
      (alignParagraph a id d).cells = d.cells := by
  unfold alignParagraph
  cases a.horizontal <;> exact ⟨rfl, rfl, rfl⟩

theorem cells_alignCell (a : Asset) (cell : Option CellId) (d : Document) (k : CellId) :
    (alignCell a cell d).cells[k]? =
      if cell = some k then (d.cells[k]?).map a.vertical.or else d.cells[k]? := by
  unfold alignCell
  cases cell with
  | none => simp
  | some c =>
    cases a.vertical with
    | none =>
      have hnone : (none : Option VerticalAlign).or = id := funext fun _ => Option.none_or
      simp [hnone]
    | some x =>
      dsimp only [setCell]
      rw [List.getElem?_set]
      by_cases hc : c = k
      · subst hc
        rw [if_pos rfl, if_pos rfl]
        by_cases hlt : c < d.cells.length
        · rw [if_pos hlt, List.getElem?_eq_getElem hlt, Option.map_some, Option.some_or]
        · rw [if_neg hlt, List.getElem?_eq_none (Nat.not_lt.1 hlt), Option.map_none]
      · rw [if_neg hc, if_neg fun h => hc (Option.some.inj h)]

theorem frame_alignCell (a : Asset) (cell : Option CellId) (d : Document) :
    (alignCell a cell d).body = d.body ∧ (alignCell a cell d).sections = d.sections ∧
      (alignCell a cell d).paragraphs = d.paragraphs := by
  unfold alignCell
  cases cell <;> cases a.vertical <;> exact ⟨rfl, rfl, rfl⟩

/-- What putting a picture into the paragraphs of some visits does to a document. -/
structure Pictured (needle : Text) (a : Asset) (pic : Picture) (l : List Visit) (d d' : Document) :
    Prop where
  body : d'.body = d.body
  sections : d'.sections = d.sections
  paragraph : ∀ id, d'.paragraph id =
    if id ∈ l.map (·.1) then withPicture needle a pic (d.paragraph id) else d.paragraph id
  cells : ∀ k, d'.cells[k]? =
    if l.any (d.meets needle k) then (d.cells[k]?).map a.vertical.or else d.cells[k]?

theorem fault_atEach_putPicture (needle : Text) (pic : Picture) (p : Paragraph) :
    (p.atEach needle (Splice.putPicture (.ok pic))).fault = none := by
  have hall (l : List Splice.Span) (c : List Inline) :
      (Attempt.each (Splice.putPicture (.ok pic)) l c).fault = none := by
    induction l generalizing c with
    | nil => rfl
    | cons s l ih =>
      rw [Attempt.each_cons_of_none _ _ _ rfl]
      exact ih _
  exact hall _ _

theorem lt_length_of_count {d : Document} {id : ParagraphId} {needle : Text}
    (h : (d.paragraph id).count needle ≠ 0) : id < d.paragraphs.length := by
  refine Nat.lt_of_not_le fun hle => h ?_
  rw [paragraph, List.getD_eq_getElem?_getD, List.getElem?_eq_none hle]
  rfl

theorem changeVisit_pictured (needle : Text) (a : Asset) (pic : Picture) (v : Visit) (d : Document) :
    ∃ d', changeVisit needle a (.ok pic) v d = { value := d' } ∧
      Pictured needle a pic [v] d d' := by
  by_cases hcount : (d.paragraph v.1).count needle = 0
  · refine ⟨d, by rw [changeVisit, if_pos hcount], rfl, rfl, fun id => ?_, fun k => ?_⟩
    · by_cases hid : id = v.1
      · rw [if_pos (by simp [hid]), withPicture, hid, if_pos hcount]
      · rw [if_neg (by simpa using hid)]
    · rw [if_neg (by simp [meets, hcount])]
  · obtain ⟨d₁, hd₁⟩ : ∃ d₁, changeParagraph needle (Splice.putPicture (.ok pic)) v.1 d =
        { value := d₁ } := ⟨_, Attempt.eq_of_fault_eq_none (fault_atEach_putPicture ..)⟩
    have hpar := @paragraph_changeParagraph needle (Splice.putPicture (.ok pic)) d v.1
    rw [hd₁] at hpar
    have hval : d₁ = (changeParagraph needle (Splice.putPicture (.ok pic)) v.1 d).value := by
      rw [hd₁]
    have hlen : d₁.paragraphs.length = d.paragraphs.length := by
      rw [hval]
      exact List.length_set
    have hlt : v.1 < d₁.paragraphs.length := hlen ▸ lt_length_of_count hcount
    obtain ⟨hb, hsec, hcells⟩ := frame_alignParagraph a v.1 d₁
    obtain ⟨hb', hsec', hpars⟩ := frame_alignCell a v.2 (alignParagraph a v.1 d₁)
    refine ⟨align a v d₁, ?_, ?_, ?_, fun id => ?_, fun k => ?_⟩
    · rw [changeVisit, if_neg hcount, hd₁]
      rfl
    · rw [align_eq, hb', hb, hval]
      rfl
    · rw [align_eq, hsec', hsec, hval]
      rfl
    · have hsame : (align a v d₁).paragraph id = (alignParagraph a v.1 d₁).paragraph id := by
        rw [align_eq, paragraph, hpars, paragraph]
      rw [hsame, paragraph_alignParagraph a hlt, hpar]
      by_cases hid : id = v.1
      · rw [if_pos hid, if_pos hid, if_pos (by simp [hid]), withPicture, hid, if_neg hcount]
        rfl
      · rw [if_neg hid, if_neg hid, if_neg (by simpa using hid)]
    · have hold : d₁.cells = d.cells := by
        rw [hval]
        rfl
      rw [align_eq, cells_alignCell, hcells, hold]
      simp [meets, hcount]

/-- Visits of different paragraphs do not disturb each other. -/
theorem each_changeVisit (needle : Text) (a : Asset) (pic : Picture) (l : List Visit)
    (hn : (l.map (·.1)).Nodup) (d : Document) :
    ∃ d', Attempt.each (changeVisit needle a (.ok pic)) l d = { value := d' } ∧
      Pictured needle a pic l d d' := by
  induction l generalizing d with
  | nil => exact ⟨d, rfl, rfl, rfl, fun id => by simp, fun k => by simp⟩
  | cons v l ih =>
    obtain ⟨hv, hn⟩ := List.nodup_cons.1 hn
    obtain ⟨d₁, hone, hp₁⟩ := changeVisit_pictured needle a pic v d
    obtain ⟨d', hrest, hp⟩ := ih hn d₁
    have hother : ∀ id ∈ l.map (·.1), d₁.paragraph id = d.paragraph id := by
      intro id hid
      rw [hp₁.paragraph, if_neg]
      intro hmem
      rw [List.map_singleton, List.mem_singleton] at hmem
      rw [hmem] at hid
      exact hv hid
    refine ⟨d', ?_, hp.body.trans hp₁.body, hp.sections.trans hp₁.sections, fun id => ?_,
      fun k => ?_⟩
    · rw [Attempt.each_cons_of_none, hone, hrest]
      rw [hone]
    · rw [hp.paragraph, List.map_cons]
      by_cases hid : id ∈ l.map (·.1)
      · rw [if_pos hid, if_pos (List.mem_cons_of_mem _ hid), hother id hid]
      · rw [if_neg hid, hp₁.paragraph]
        simp [hid]
    · have hmeets : l.any (d₁.meets needle k) = l.any (d.meets needle k) := by
        rw [Bool.eq_iff_iff, List.any_eq_true, List.any_eq_true]
        refine exists_congr fun u => and_congr_right fun hu => ?_
        rw [meets, meets, hother u.1 (List.mem_map_of_mem hu)]
      have htwice (x : Option (Option VerticalAlign)) :
          (x.map a.vertical.or).map a.vertical.or = x.map a.vertical.or := by
        cases x <;> cases a.vertical <;> rfl
      rw [hp.cells, hp₁.cells, hmeets, List.any_cons, List.any_cons, List.any_nil, Bool.or_false]
      cases d.meets needle k v <;> cases l.any (d.meets needle k) <;> simp [htwice]

theorem count_eq_zero_of_count {d : Document} {needle : Text} (h : d.count needle = 0) {v : Visit}
    (hv : v ∈ d.visits) : (d.paragraph v.1).count needle = 0 := by
  rw [count_eq_length_spans, spans_eq_nil_of_count h hv]
  rfl

theorem each_changeVisit_of_count {needle : Text} (a : Asset) (picture : Except Fault Picture)
    (l : List Visit) {d : Document} (h : ∀ v ∈ l, (d.paragraph v.1).count needle = 0) :
    Attempt.each (changeVisit needle a picture) l d = { value := d } := by
  induction l with
  | nil => rfl
  | cons v l ih =>
    obtain ⟨hv, hl⟩ := List.forall_mem_cons.1 h
    have hone : changeVisit needle a picture v d = { value := d } := by rw [changeVisit, if_pos hv]
    rw [Attempt.each_cons_of_none, hone, ih hl]
    rw [hone]

end Document

/-- The picture of a size in pixels. -/
def Picture.atSize (size : Nat × Nat) : Picture :=
  ⟨size.1 * Picture.unitsPerPixel, size.2 * Picture.unitsPerPixel⟩

/-- Whether the picture of an asset can be read and is shown at a size. -/
structure Asset.Shows (a : Asset) (look : Look) (size : Nat × Nat) : Prop where
  readable : ∃ pixels, a.pixels look = .ok pixels
  sized : a.shownSize look = .ok (some size)

/-- Whether a document can hold the picture of an asset at a size. -/
structure Asset.Fits (a : Asset) (size : Nat × Nat) : Prop where
  name : a.fileName.all isXmlChar = true
  width : size.1 * Picture.unitsPerPixel ≤ Picture.maxLength
  height : size.2 * Picture.unitsPerPixel ≤ Picture.maxLength

theorem Asset.Fits.picture {a : Asset} {size : Nat × Nat} (h : a.Fits size) {look : Look}
    (hread : ∃ pixels, a.pixels look = .ok pixels) :
    a.picture look size = .ok (Picture.atSize size) := by
  obtain ⟨pixels, hread⟩ := hread
  rw [Asset.picture, hread]
  dsimp only
  rw [if_pos h.name, Picture.ofPixels, if_neg (Nat.not_lt.2 h.width), if_neg (Nat.not_lt.2 h.height)]
  rfl

namespace Document

/-- Pictures are put in where they are seen to be: in each paragraph, read as its formatted
characters and pictures, every occurrence of the placeholder is exchanged for one picture. Alignments
are given, where the asset has them, to the paragraphs with an occurrence and to their cells. -/
theorem setImage_shows {d : Document} (hl : d.HasNoLinks) {tok : Text}
    (ht : ∀ c ∈ tok, Token.isInner c = true) {a : Asset} {look : Look} {size : Nat × Nat}
    (ha : a.Shows look size) (hfit : d.count (wrap tok) ≠ 0 → a.Fits size)
    (hs : d.EachReached (wrap tok) fun r => Run.IsStored r.text ∧ r.pictures = []) :
    ∃ d', d.setImage tok a look =
        { document := d', result := .ok (d.lines.map (places (wrap tok))).sum } ∧
      d'.visits = d.visits ∧ d'.HasNoLinks ∧
      (∀ v ∈ d.visits,
        Splice.seen.runs 0 (d'.paragraph v.1).runs =
            Splice.seen.exchange (wrap tok) (fun _ => [.picture (Picture.atSize size)]) 0
              (Splice.seen.runs 0 (d.paragraph v.1).runs) ∧
          (d'.paragraph v.1).align =
            if (d.paragraph v.1).count (wrap tok) = 0 then (d.paragraph v.1).align
            else a.horizontal.or (d.paragraph v.1).align) ∧
      (∀ id ∉ d.visits.map (·.1), d'.paragraph id = d.paragraph id) ∧
      ∀ k, d'.cells[k]? =
        if d.visits.any (d.meets (wrap tok) k) then (d.cells[k]?).map a.vertical.or
        else d.cells[k]? := by
  obtain ⟨d', heach, hp⟩ := each_changeVisit (wrap tok) a (Picture.atSize size) d.visits
    d.visits_fst_nodup d
  -- without an occurrence the picture does not matter
  have hsame : Attempt.each (changeVisit (wrap tok) a (a.picture look size)) d.visits d =
      { value := d' } := by
    by_cases hcount : d.count (wrap tok) = 0
    · have hnone : ∀ v ∈ d.visits, (d.paragraph v.1).count (wrap tok) = 0 := fun v hv =>
        count_eq_zero_of_count hcount hv
      rw [each_changeVisit_of_count _ _ _ hnone] at heach ⊢
      exact heach
    · rw [(hfit hcount).picture ha.readable, heach]
  have hvisits := visits_congr hp.body hp.sections
  have hone : ∀ v ∈ d.visits, ∃ rs', (d'.paragraph v.1).content = rs'.map .run ∧
      Splice.seen.runs 0 rs' =
        Splice.seen.exchange (wrap tok) (fun _ => [.picture (Picture.atSize size)]) 0
          (Splice.seen.runs 0 (d.paragraph v.1).runs) := by
    intro v hv
    have hcontent : (d.paragraph v.1).content = (d.paragraph v.1).runs.map .run :=
      eq_map_run (hl v hv)
    have hreach := hs v hv
    rw [hcontent] at hreach
    obtain ⟨rs', hval, hread⟩ := Splice.atEach_putPicture_seen (List.cons_ne_nil _ _)
      (Picture.atSize size) _ hreach
    refine ⟨rs', ?_, hread⟩
    rw [hp.paragraph, if_pos (List.mem_map_of_mem hv), content_withPicture, hcontent]
    exact congrArg Attempt.value hval
  refine ⟨d', ?_, hvisits, hasNoLinks_of_content fun v hv => ?_, fun v hv => ⟨?_, ?_⟩,
    fun id hid => ?_, hp.cells⟩
  · unfold setImage
    rw [unwrap_of_isInner ht, ← count_eq_places ht, ha.sized]
    dsimp only
    rw [hsame]
    rfl
  · obtain ⟨rs', hcontent, -⟩ := hone v (hvisits ▸ hv)
    exact ⟨rs', hcontent⟩
  · obtain ⟨rs', hcontent, hread⟩ := hone v hv
    rw [Paragraph.runs, hcontent, Splice.filterMap_run, hread]
  · rw [hp.paragraph, if_pos (List.mem_map_of_mem hv), withPicture]
    split <;> rfl
  · rw [hp.paragraph, if_neg hid]

/-- A placeholder over three runs in a cell, an older picture in the run behind. -/
def framed : Document :=
  { body := [.table [(0, [.paragraph 0])] [[0]]]
    cells := [none]
    paragraphs := [{ content := [.run { text := ['x', '$'] },
      .run { bold := true, text := ['\x7b', 'a'] }, .run { text := ['\x7d', 'y'] },
      .run { text := ['z'], pictures := [⟨1, 2⟩] }] }] }

/-- An asset that sets both alignments. -/
def portrait : Asset :=
  { source := ['p'], width := 2, height := 3, keepAspect := false
    horizontal := some .center, vertical := some .top }

theorem visits_framed : framed.visits = [(0, some 0)] := by cbv

theorem spans_framed : Splice.spans (wrap ['a']) (framed.paragraph 0).content = [⟨0, 2, 1, 1⟩] := by
  decide

/-- The picture stands where the placeholder stood, and the older picture stays behind the text. -/
theorem setImage_shows_framed :
    framed.HasNoLinks ∧ (∀ c ∈ ['a'], Token.isInner c = true) ∧
      portrait.Shows (.ok (.size 5 7)) (2, 3) ∧ portrait.Fits (2, 3) ∧
      (framed.EachReached (wrap ['a']) fun r => Run.IsStored r.text ∧ r.pictures = []) ∧
      ∃ d', framed.setImage ['a'] portrait (.ok (.size 5 7)) =
          { document := d', result := .ok 1 } ∧
        Splice.seen.runs 0 (d'.paragraph 0).runs =
          [.char false 'x', .picture ⟨19050, 28575⟩, .char false 'y', .char false 'z',
            .picture ⟨1, 2⟩] ∧
        (d'.paragraph 0).align = some .center ∧ d'.cells[0]? = some (some .top) := by
  have hl : framed.HasNoLinks := by
    refine hasNoLinks_of_content fun v hv => ⟨(framed.paragraph 0).runs, ?_⟩
    rw [visits_framed, List.mem_singleton] at hv
    subst hv
    rfl
  have ht : ∀ c ∈ ['a'], Token.isInner c = true := List.all_eq_true.1 (by decide)
  have ha : portrait.Shows (.ok (.size 5 7)) (2, 3) := ⟨⟨_, rfl⟩, rfl⟩
  have hfit : portrait.Fits (2, 3) := ⟨by decide, by decide, by decide⟩
  have hs : framed.EachReached (wrap ['a']) fun r => Run.IsStored r.text ∧ r.pictures = [] := by
    intro v hv i r hi hr
    rw [visits_framed, List.mem_singleton] at hv
    subst hv
    rw [Splice.reaches, spans_framed, List.any_cons, List.any_nil, Bool.or_false,
      Splice.Span.covers_iff] at hi
    have hmem : r ∈ (framed.paragraph 0).runs.take 3 := by
      refine List.mem_of_getElem? (i := i) ?_
      rw [List.getElem?_take_of_lt (Nat.lt_succ_of_le hi.2), hr]
    have hall : ((framed.paragraph 0).runs.take 3).all (fun r =>
        (r.text.all fun c => isXmlChar c && c != '\r') && r.pictures.isEmpty) = true := by decide
    have hr := List.all_eq_true.1 hall r hmem
    rw [Bool.and_eq_true, List.isEmpty_iff] at hr
    refine ⟨fun c hc => ?_, hr.2⟩
    simpa using List.all_eq_true.1 hr.1 c hc
  obtain ⟨d', hset, -, -, hone, -, hcells⟩ := setImage_shows hl ht ha (fun _ => hfit) hs
  obtain ⟨hseen, halign⟩ := hone (0, some 0) (by rw [visits_framed]; exact List.mem_singleton_self _)
  have hcount : (framed.lines.map (places (wrap ['a']))).sum = 1 := by
    rw [lines, visits_framed]
    decide
  rw [hcount] at hset
  refine ⟨hl, ht, ha, hfit, hs, d', hset, ?_, ?_, ?_⟩
  · rw [hseen]
    decide
  · rw [halign]
    decide
  · rw [hcells, visits_framed]
    decide

/-- An asset that is wider than a document can tell. -/
def banner : Asset := { portrait with width := 1000000000000000 }

/-- A picture that is too wide for a document is not put in, though it can be read and no picture is
in its way. -/
theorem setImage_too_wide :
    (ofText (wrap ['a'])).HasNoLinks ∧ (∀ c ∈ ['a'], Token.isInner c = true) ∧
      (∃ pixels, banner.pixels (.ok (.size 5 7)) = .ok pixels) ∧
      ((ofText (wrap ['a'])).EachReached (wrap ['a']) fun r => r.pictures = []) ∧
      ((ofText (wrap ['a'])).lines.map (places (wrap ['a']))).sum = 1 ∧
      ((ofText (wrap ['a'])).setImage ['a'] banner (.ok (.size 5 7))).result =
        .error (.sizeOutOfRange 9525000000000000000) := by
  refine ⟨hasNoLinks_ofText _, List.all_eq_true.1 (by decide), ⟨_, rfl⟩, ?_, ?_, by cbv⟩
  · intro v hv i r _ hr
    rw [visits_ofText, List.mem_singleton] at hv
    subst hv
    rw [List.mem_singleton.1 (List.mem_of_getElem? hr)]
  · rw [lines_ofText]
    decide

end Document
end MailMerge
