import MailMerge.Proofs.Document.Edits
import MailMerge.Proofs.Document.Injection
import MailMerge.Proofs.Document.Reach
/-!
# The pictures of a document

Putting in a map trades pictures: every edit takes those of the runs that its replacements reach,
pictures that an earlier edit put in among them, and adds one for each picture it puts in. Nothing
else happens to the pictures of a paragraph. So they are all kept just when no replacement reaches a
run that holds one.

* `Edit.trades`: what one edit does to the pictures of each paragraph.
* `apply_keeps_pictures_iff`: what a map does to them, and when they are all kept.
* `apply_drops_picture`: the picture behind a placeholder in the same run is lost.
-/
namespace MailMerge

namespace Paragraph

/-- The pictures of a paragraph. -/
def pictures (p : Paragraph) : List Picture := Splice.pictures p.content

end Paragraph

namespace Document

/-! ## What an edit takes and adds -/

namespace Edit

/-- The text that an edit looks for. -/
def needle (e : Edit) : Text := Token.wrap (Token.unwrap e.token)

/-- The pictures that an edit puts in each place of its placeholder, unless it leaves the
placeholder alone. -/
def puts? (look : Text → Look) (e : Edit) : Option (List Picture) :=
  match e.insert with
  | .text _ => some []
  | .picture a =>
    match a.shownSize (look a.source) with
    | .ok (some size) => (a.picture (look a.source) size).toOption.map ([·])
    | _ => none
  | _ => none

/-- The pictures that an edit takes from a paragraph. -/
def takes (look : Text → Look) (e : Edit) (p : Paragraph) : List Picture :=
  (e.puts? look).elim [] fun _ => Splice.reached e.needle p.content

/-- The pictures that an edit adds to a paragraph: what it puts in, once for each occurrence. -/
def adds (look : Text → Look) (e : Edit) (p : Paragraph) : List Picture :=
  (e.puts? look).elim [] fun ps => (List.replicate (p.count e.needle) ps).flatten

/-- Whether no replacement of an edit reaches a run of the paragraph that holds a picture. -/
def Spares (look : Text → Look) (e : Edit) (p : Paragraph) : Prop :=
  e.puts? look ≠ none → ∀ i r, p.runs[i]? = some r → Splice.reaches e.needle p.content i = true →
    r.pictures = []

theorem takes_eq_nil_iff {look : Text → Look} {e : Edit} {p : Paragraph} :
    e.takes look p = [] ↔ e.Spares look p := by
  unfold takes Spares
  cases e.puts? look with
  | none => simp
  | some ps =>
    rw [Option.elim_some, Splice.reached_eq_nil_iff]
    exact ⟨fun h _ => h, fun h => h (Option.some_ne_none ps)⟩

end Edit

/-- The pictures that edits, made one after the other, take from a paragraph. -/
def taken (look : Text → Look) : List Edit → Document → ParagraphId → List Picture
  | [], _, _ => []
  | e :: es, d, id => e.takes look (d.paragraph id) ++ taken look es (e.on look d).document id

/-- The pictures that edits, made one after the other, add to a paragraph. -/
def added (look : Text → Look) : List Edit → Document → ParagraphId → List Picture
  | [], _, _ => []
  | e :: es, d, id => e.adds look (d.paragraph id) ++ added look es (e.on look d).document id

/-- Whether no replacement of edits, made one after the other, reaches a run of a paragraph that
holds a picture at the time. -/
def Spared (look : Text → Look) : List Edit → Document → ParagraphId → Prop
  | [], _, _ => True
  | e :: es, d, id => e.Spares look (d.paragraph id) ∧ Spared look es (e.on look d).document id

theorem taken_eq_nil_iff {look : Text → Look} {es : List Edit} {d : Document} {id : ParagraphId} :
    taken look es d id = [] ↔ Spared look es d id := by
  induction es generalizing d with
  | nil => simp [taken, Spared]
  | cons e es ih => rw [taken, Spared, List.append_eq_nil_iff, Edit.takes_eq_nil_iff, ih]

/-! ## One edit -/

/-- What a change of one paragraph does: it keeps the layout and the content of the others. -/
structure Changes (R : List Inline → List Inline → Prop) (id : ParagraphId) (d d' : Document) :
    Prop where
  body : d'.body = d.body
  sections : d'.sections = d.sections
  others : ∀ id' ≠ id, (d'.paragraph id').content = (d.paragraph id').content
  change : R (d.paragraph id).content (d'.paragraph id).content

section
variable {R : List Inline → List Inline → Prop} {f : Visit → Document → Attempt Document}

/-- Paragraphs that are visited once are each changed as by themselves. -/
theorem each_changes (hf : ∀ v d, (f v d).fault = none → Changes R v.1 d (f v d).value)
    (l : List Visit) (hn : (l.map (·.1)).Nodup) (d : Document)
    (h : (Attempt.each f l d).fault = none) :
    ((Attempt.each f l d).value.body = d.body ∧ (Attempt.each f l d).value.sections = d.sections) ∧
      (∀ v ∈ l, R (d.paragraph v.1).content ((Attempt.each f l d).value.paragraph v.1).content) ∧
      ∀ id ∉ l.map (·.1),
        ((Attempt.each f l d).value.paragraph id).content = (d.paragraph id).content := by
  induction l generalizing d with
  | nil => exact ⟨⟨rfl, rfl⟩, fun v hv => absurd hv List.not_mem_nil, fun _ _ => rfl⟩
  | cons v l ih =>
    obtain ⟨hv, hn⟩ := List.nodup_cons.1 hn
    cases hfault : (f v d).fault with
    | some e =>
      rw [Attempt.each_cons_of_fault _ _ _ hfault, hfault] at h
      cases h
    | none =>
      rw [Attempt.each_cons_of_none _ _ _ hfault] at h ⊢
      have hone := hf v d hfault
      obtain ⟨⟨hb, hs⟩, hin, hout⟩ := ih hn _ h
      refine ⟨⟨hb.trans hone.body, hs.trans hone.sections⟩, fun u hu => ?_, fun id hid => ?_⟩
      · by_cases huv : u.1 = v.1
        · rw [huv, hout _ hv]
          exact hone.change
        · have hu : u ∈ l := (List.mem_cons.1 hu).resolve_left fun e => huv (congrArg Prod.fst e)
          rw [← hone.others u.1 huv]
          exact hin u hu
      · rw [List.map_cons, List.mem_cons, not_or] at hid
        rw [hout id hid.2, hone.others id hid.1]

end

theorem content_setParagraph (d : Document) (id id' : ParagraphId) (p : Paragraph)
    (h : p.content = (d.paragraph id).content) :
    ((d.setParagraph id p).paragraph id').content = (d.paragraph id').content := by
  unfold paragraph setParagraph at *
  simp only [List.getD_eq_getElem?_getD, List.getElem?_set] at h ⊢
  by_cases hid : id = id'
  · subst hid
    rw [if_pos rfl]
    split
    · exact h
    · rw [List.getElem?_eq_none (by omega)]
  · rw [if_neg hid]

/-- Alignments do not touch what stands in paragraphs. -/
theorem content_align (a : Asset) (v : Visit) (d : Document) :
    ((align a v d).body = d.body ∧ (align a v d).sections = d.sections) ∧
      ∀ id, ((align a v d).paragraph id).content = (d.paragraph id).content := by
  unfold align
  cases a.horizontal with
  | none => cases v.2 <;> cases a.vertical <;> exact ⟨⟨rfl, rfl⟩, fun _ => rfl⟩
  | some h =>
    have hset := fun id => content_setParagraph d v.1 id { d.paragraph v.1 with align := some h } rfl
    cases v.2 <;> cases a.vertical <;> exact ⟨⟨rfl, rfl⟩, hset⟩

/-- What becomes of the pictures of a content in which a needle is replaced. -/
def Trades (needle : Text) (puts : Option (List Picture)) (c c' : List Inline) : Prop :=
  (Splice.pictures c' ++ puts.elim [] fun _ => Splice.reached needle c).Perm
    (Splice.pictures c ++
      puts.elim [] fun ps => (List.replicate (Splice.spans needle c).length ps).flatten)

theorem count_eq_length_spans (p : Paragraph) (needle : Text) :
    p.count needle = (Splice.spans needle p.content).length :=
  (List.length_map _).symm

theorem trades_of_spans_eq_nil {needle : Text} {puts : Option (List Picture)} {c : List Inline}
    (h : Splice.spans needle c = []) : Trades needle puts c c := by
  unfold Trades
  rw [Splice.reached_of_spans_eq_nil h, h]
  cases puts <;> exact List.Perm.refl _

section
variable {needle : Text}

theorem changes_changeParagraph {R : List Inline → List Inline → Prop}
    {change : Splice.Span → List Inline → Attempt (List Inline)} (id : ParagraphId) (d : Document)
    (h : R (d.paragraph id).content
      (Splice.atEach needle change (d.paragraph id).content).value) :
    Changes R id d (changeParagraph needle change id d).value := by
  have hpar := @paragraph_changeParagraph needle change d id
  refine ⟨rfl, rfl, fun id' hne => ?_, ?_⟩
  · rw [hpar, if_neg hne]
  · rw [hpar, if_pos rfl]
    exact h

theorem trades_putText {value : Text} (hn : 0 < needle.length) (v : Visit) (d : Document)
    (hf : (changeParagraph needle (Splice.putText value) v.1 d).fault = none) :
    Changes (Trades needle (some [])) v.1 d
      (changeParagraph needle (Splice.putText value) v.1 d).value := by
  refine changes_changeParagraph v.1 d ?_
  have hperm := Splice.pictures_atEach_putText hn hf
  simpa [Trades] using hperm

theorem trades_changeVisit {a : Asset} {picture : Except Fault Picture} (hn : 0 < needle.length)
    (v : Visit) (d : Document) (hf : (changeVisit needle a picture v d).fault = none) :
    Changes (Trades needle (picture.toOption.map ([·]))) v.1 d
      (changeVisit needle a picture v d).value := by
  unfold changeVisit at hf ⊢
  by_cases hcount : (d.paragraph v.1).count needle = 0
  · rw [if_pos hcount]
    rw [count_eq_length_spans, List.length_eq_zero_iff] at hcount
    exact ⟨rfl, rfl, fun _ _ => rfl, trades_of_spans_eq_nil hcount⟩
  · rw [if_neg hcount] at hf ⊢
    cases hfault : (changeParagraph needle (Splice.putPicture picture) v.1 d).fault with
    | some e =>
      rw [Attempt.andThen, hfault] at hf
      rw [hfault] at hf
      cases hf
    | none =>
      rw [Attempt.andThen, hfault]
      have hone : Changes (Trades needle (picture.toOption.map ([·]))) v.1 d
          (changeParagraph needle (Splice.putPicture picture) v.1 d).value := by
        refine changes_changeParagraph v.1 d ?_
        cases picture with
        | error e =>
          have hspans := Splice.spans_of_putPicture_error hfault
          rw [count_eq_length_spans, hspans] at hcount
          exact absurd rfl hcount
        | ok pic =>
          have hperm := @Splice.pictures_atEach_putPicture needle (d.paragraph v.1).content pic hn
          simpa [Trades, Except.toOption] using hperm
      obtain ⟨⟨hb, hs⟩, hcontent⟩ := content_align a v
        (changeParagraph needle (Splice.putPicture picture) v.1 d).value
      refine ⟨hb.trans hone.body, hs.trans hone.sections, fun id hid => ?_, ?_⟩
      · exact (hcontent id).trans (hone.others id hid)
      · have hchange := hone.change
        rwa [← hcontent v.1] at hchange

theorem fault_of_filling_ok {d : Document} {r : Attempt Document} {n : Nat}
    (h : (d.filling needle r).result = .ok n) : r.fault = none := by
  unfold filling at h
  cases hf : r.fault with
  | none => rfl
  | some e =>
    rw [hf] at h
    cases h

end

theorem trades_iff {look : Text → Look} {e : Edit} {p p' : Paragraph} :
    Trades e.needle (e.puts? look) p.content p'.content ↔
      (p'.pictures ++ e.takes look p).Perm (p.pictures ++ e.adds look p) := by
  rw [Edit.adds, count_eq_length_spans]
  rfl

theorem Edit.needle_pos (e : Edit) : 0 < e.needle.length := Nat.succ_pos _

/-- What one edit does to the pictures of each paragraph. -/
theorem Edit.trades {look : Text → Look} {e : Edit} {d : Document} {n : Nat}
    (h : (e.on look d).result = .ok n) :
    (e.on look d).document.visits = d.visits ∧ ∀ v ∈ d.visits,
      Trades e.needle (e.puts? look) (d.paragraph v.1).content
        ((e.on look d).document.paragraph v.1).content := by
  obtain ⟨token, insert⟩ := e
  have hsame : d.visits = d.visits ∧ ∀ v ∈ d.visits,
      Trades (Token.wrap (Token.unwrap token)) none (d.paragraph v.1).content
        (d.paragraph v.1).content :=
    ⟨rfl, fun v _ => by simp [Trades]⟩
  cases insert with
  | nothing => exact hsame
  | fault f => cases h
  | text t =>
    obtain ⟨⟨hb, hs⟩, hin, -⟩ := each_changes
      (fun v d => trades_putText (Edit.needle_pos ⟨token, .text t⟩) v d) d.visits
      d.visits_fst_nodup d (fault_of_filling_ok h)
    exact ⟨visits_congr hb hs, hin⟩
  | picture a =>
    unfold Edit.on setImage at h ⊢
    unfold Edit.puts?
    dsimp only at h ⊢
    cases hsize : a.shownSize (look a.source) with
    | error f =>
      rw [hsize] at h
      cases h
    | ok found =>
      cases found with
      | none => exact hsame
      | some size =>
        rw [hsize] at h
        obtain ⟨⟨hb, hs⟩, hin, -⟩ := each_changes
          (fun v d => trades_changeVisit (Edit.needle_pos ⟨token, .picture a⟩) v d) d.visits
          d.visits_fst_nodup d (fault_of_filling_ok h)
        exact ⟨visits_congr hb hs, hin⟩

/-! ## A map -/

theorem foldl_goOn_error {look : Text → Look} {es : List Edit} {f : Filling} {c : Fault}
    (h : f.result = .error c) : es.foldl (fun f e => goOn (e.on look) f) f = f := by
  induction es with
  | nil => rfl
  | cons e es ih =>
    have hone : goOn (e.on look) f = f := by
      unfold goOn
      rw [h]
    rw [List.foldl_cons, hone, ih]

/-- Edits made one after the other trade the pictures of each paragraph: what they take is gone, and
what they add is there. -/
theorem foldl_goOn_trades {look : Text → Look} (es : List Edit) {f : Filling} {k n : Nat}
    (hk : f.result = .ok k)
    (h : (es.foldl (fun f e => goOn (e.on look) f) f).result = .ok n) :
    (es.foldl (fun f e => goOn (e.on look) f) f).document.visits = f.document.visits ∧
      ∀ v ∈ f.document.visits,
        (((es.foldl (fun f e => goOn (e.on look) f) f).document.paragraph v.1).pictures ++
            taken look es f.document v.1).Perm
          ((f.document.paragraph v.1).pictures ++ added look es f.document v.1) := by
  induction es generalizing f k with
  | nil => exact ⟨rfl, fun v _ => List.Perm.refl _⟩
  | cons e es ih =>
    rw [List.foldl_cons] at h ⊢
    cases hone : (e.on look f.document).result with
    | error c =>
      have hbroken : (goOn (e.on look) f).result = .error c := by
        simp [goOn, hk, hone, Except.map]
      rw [foldl_goOn_error hbroken, hbroken] at h
      cases h
    | ok j =>
      obtain ⟨hvisits, htrades⟩ := Edit.trades hone
      have hdoc : (goOn (e.on look) f).document = (e.on look f.document).document := by
        simp [goOn, hk]
      have hnext : (goOn (e.on look) f).result = .ok (k + j) := by
        simp [goOn, hk, hone, Except.map]
      obtain ⟨hvisits', hrest⟩ := ih hnext h
      rw [hdoc, hvisits] at hvisits' hrest
      refine ⟨hvisits', fun v hv => List.perm_iff_count.2 fun x => ?_⟩
      have hedit := trades_iff.1 (htrades v hv)
      have hrest := (hrest v hv).count_eq x
      have hedit := hedit.count_eq x
      simp only [taken, added, List.count_append] at hrest hedit ⊢
      omega

theorem edited_trades {look : Text → Look} {es : List Edit} {d : Document} {n : Nat}
    (h : (edited look es d).result = .ok n) :
    (edited look es d).document.visits = d.visits ∧ ∀ v ∈ d.visits,
      (((edited look es d).document.paragraph v.1).pictures ++ taken look es d v.1).Perm
        ((d.paragraph v.1).pictures ++ added look es d v.1) :=
  foldl_goOn_trades es rfl h

/-- A map takes and adds the pictures of each paragraph edit by edit. They are all kept, next to a
new one for each picture that is put in, just when no replacement reaches a run that holds one. -/
theorem apply_keeps_pictures_iff (images : ImageReader) (d : Document) (m : DataMap) (w : World) {n : Nat}
    (h : (Script.run (d.apply images m) w).1.result = .ok n) :
    (Script.run (d.apply images m) w).1.document.visits = d.visits ∧ ∀ v ∈ d.visits,
      (((Script.run (d.apply images m) w).1.document.paragraph v.1).pictures ++
          taken (looks images w.files) (d.edits m) d v.1).Perm
        ((d.paragraph v.1).pictures ++ added (looks images w.files) (d.edits m) d v.1) ∧
      (((Script.run (d.apply images m) w).1.document.paragraph v.1).pictures.Perm
          ((d.paragraph v.1).pictures ++ added (looks images w.files) (d.edits m) d v.1) ↔
        Spared (looks images w.files) (d.edits m) d v.1) := by
  rw [run_apply_edits] at h ⊢
  obtain ⟨hvisits, htrades⟩ := edited_trades h
  refine ⟨hvisits, fun v hv => ?_⟩
  have hperm := htrades v hv
  refine ⟨hperm, ?_⟩
  rw [← taken_eq_nil_iff]
  constructor
  · intro hkept
    have hlen := hperm.length_eq
    have hlen' := hkept.length_eq
    rw [List.length_append] at hlen
    exact List.length_eq_zero_iff.1 (by omega)
  · intro hnone
    rw [hnone, List.append_nil] at hperm
    exact hperm

/-- A text for the placeholder of the documents below. -/
def caption : DataMap := [(['a'], .text ['x'])]

/-- A placeholder with a picture in a run of its own behind it. -/
def illustrated : Document :=
  { body := [.paragraph 0]
    paragraphs := [{ content := [.run { text := Token.wrap ['a'] },
      .run { pictures := [⟨100, 200⟩] }] }] }

/-- A placeholder with a picture in the same run. -/
def captioned : Document :=
  { body := [.paragraph 0]
    paragraphs := [{ content := [.run { text := Token.wrap ['a'], pictures := [⟨100, 200⟩] }] }] }

/-- The picture in a run of its own stays, since no replacement reaches its run. -/
theorem apply_keeps_pictures_illustrated :
    (Script.run (illustrated.apply Content.described caption) {}).1.result = .ok 1 ∧
      (0, none) ∈ illustrated.visits ∧
      ((Script.run (illustrated.apply Content.described caption) {}).1.document.paragraph 0).pictures =
        [⟨100, 200⟩] ∧
      Spared (looks Content.described {}) (illustrated.edits caption) illustrated 0 := by
  have hok : (Script.run (illustrated.apply Content.described caption) {}).1.result = .ok 1 := by cbv
  have hvisits : illustrated.visits = [(0, none)] := by cbv
  have hv : (0, none) ∈ illustrated.visits := by simp [hvisits]
  have hafter : ((Script.run (illustrated.apply Content.described caption) {}).1.document.paragraph 0).pictures =
      [⟨100, 200⟩] := by cbv
  have hadded : added (looks Content.described {}) (illustrated.edits caption) illustrated 0 = [] := by cbv
  obtain ⟨-, hiff⟩ := (apply_keeps_pictures_iff Content.described illustrated caption {} hok).2 (0, none) hv
  refine ⟨hok, hv, hafter, hiff.1 ?_⟩
  rw [hafter, hadded, List.append_nil]
  exact List.Perm.refl _

/-- The picture in the run of the placeholder is lost: its paragraph held it, and holds nothing
after a text was put in. -/
theorem apply_drops_picture :
    (Script.run (captioned.apply Content.described caption) {}).1.result = .ok 1 ∧
      (0, none) ∈ captioned.visits ∧
      (captioned.paragraph 0).pictures = [⟨100, 200⟩] ∧
      added (looks Content.described {}) (captioned.edits caption) captioned 0 = [] ∧
      ((Script.run (captioned.apply Content.described caption) {}).1.document.paragraph 0).pictures = [] := by
  have hvisits : captioned.visits = [(0, none)] := by cbv
  refine ⟨by cbv, by simp [hvisits], rfl, by cbv, by cbv⟩

end Document
end MailMerge
