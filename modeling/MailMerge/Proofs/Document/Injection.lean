import Mathlib
import MailMerge.Document.Filling
import MailMerge.Proofs.Document.Splicing
import MailMerge.Proofs.Placeholder.Substitution
/-!
# Putting a map of texts into a document

A map is put in entry by entry, each time into a document that the earlier entries have changed. The
texts of the paragraphs (`Document.lines`) then undergo one replacement after the other. They come
out as if all values had been put in at once just when no entry finds its placeholder in a place
where it was not at first.

* `setValue_spec`: one value put in replaces its placeholder in every line and changes nothing else.
* `run_apply`: a map of texts is put in filler by filler.
* `apply_substitutes_iff`: when putting in a map is a simultaneous substitution.
* `undisturbed_of_plain`: values without dollar signs are put in at once.
-/
namespace MailMerge

open Text (hits replaceAll)
open Token (wrap IsInner)
open Substitution (substitute replaceEach found listed NothingArises Proper)

namespace Document

/-- The texts of the runs of each paragraph, in the order in which paragraphs are read. -/
def lines (d : Document) : List Text := d.visits.map fun v => Splice.text (d.paragraph v.1).runs

/-- Whether no paragraph holds a link. -/
def HasNoLinks (d : Document) : Prop :=
  ∀ v ∈ d.visits, ∀ x ∈ (d.paragraph v.1).content, ∃ r, x = Inline.run r

/-- Whether the runs hold texts as they are read back, like those of every document in a file. -/
def IsStored (d : Document) : Prop :=
  ∀ v ∈ d.visits, Splice.AllStored (Splice.texts (d.paragraph v.1).content)

/-! ## One value -/

theorem visits_congr {d d' : Document} (hb : d'.body = d.body) (hs : d'.sections = d.sections) :
    d'.visits = d.visits := by
  unfold visits containers
  rw [hb, hs]

theorem paragraph_setParagraph (d : Document) (id id' : ParagraphId) (p : Paragraph)
    (h : d.paragraphs.length ≤ id → p = {}) :
    (d.setParagraph id p).paragraph id' = if id' = id then p else d.paragraph id' := by
  unfold paragraph setParagraph
  simp only [List.getD_eq_getElem?_getD, List.getElem?_set]
  by_cases hid : id' = id
  · subst hid
    rw [if_pos rfl, if_pos rfl]
    split
    · rfl
    · rename_i hlt
      exact (h (Nat.le_of_not_lt hlt)).symm
  · rw [if_neg (Ne.symm hid), if_neg hid]

theorem atEach_default (needle : Text)
    (change : Splice.Span → List Inline → Attempt (List Inline)) :
    (({} : Paragraph).atEach needle change) = { value := {} } := rfl

section
variable {needle : Text} {change : Splice.Span → List Inline → Attempt (List Inline)}

theorem paragraph_changeParagraph (d : Document) (id id' : ParagraphId) :
    (changeParagraph needle change id d).value.paragraph id' =
      if id' = id then ((d.paragraph id).atEach needle change).value else d.paragraph id' := by
  refine paragraph_setParagraph d id id' _ fun h => ?_
  have hp : d.paragraph id = {} := by
    rw [paragraph, List.getD_eq_getElem?_getD, List.getElem?_eq_none h, Option.getD_none]
  rw [hp, atEach_default]

/-- Paragraphs that are visited once are each changed once, and the others stay. -/
theorem each_changeParagraph (l : List Visit) (hn : (l.map (·.1)).Nodup) (d : Document)
    (hf : ∀ v ∈ l, ((d.paragraph v.1).atEach needle change).fault = none) :
    ∃ d', Attempt.each (fun v d => changeParagraph needle change v.1 d) l d = { value := d' } ∧
      d'.body = d.body ∧ d'.sections = d.sections ∧
      ∀ id, d'.paragraph id =
        if id ∈ l.map (·.1) then ((d.paragraph id).atEach needle change).value
        else d.paragraph id := by
  induction l generalizing d with
  | nil => exact ⟨d, rfl, rfl, rfl, fun id => by simp⟩
  | cons v l ih =>
    obtain ⟨hv, hn⟩ := List.nodup_cons.1 hn
    have hpar := @paragraph_changeParagraph needle change d v.1
    have hother : ∀ u ∈ l, (changeParagraph needle change v.1 d).value.paragraph u.1 =
        d.paragraph u.1 := by
      intro u hu
      have hne : u.1 ≠ v.1 := fun e => hv (List.mem_map.2 ⟨u, hu, e⟩)
      rw [hpar, if_neg hne]
    obtain ⟨d', hd', hb, hs, hp⟩ := ih hn (changeParagraph needle change v.1 d).value fun u hu => by
      rw [hother u hu]
      exact hf u (List.mem_cons_of_mem _ hu)
    refine ⟨d', ?_, hb, hs, fun id => ?_⟩
    · rw [Attempt.each_cons_of_none]
      · exact hd'
      · exact hf v (List.mem_cons_self ..)
    · rw [hp, hpar, List.map_cons]
      by_cases hid : id = v.1
      · subst hid
        rw [if_neg hv, if_pos rfl, if_pos (List.mem_cons_self ..)]
      · simp only [hid, if_false, List.mem_cons, false_or]

/-- A paragraph that breaks the work off breaks it off when its turn comes. -/
theorem each_changeParagraph_fault (l : List Visit) (hn : (l.map (·.1)).Nodup) (d : Document)
    (hf : ∃ v ∈ l, ((d.paragraph v.1).atEach needle change).fault ≠ none) :
    (Attempt.each (fun v d => changeParagraph needle change v.1 d) l d).fault ≠ none := by
  induction l generalizing d with
  | nil => obtain ⟨v, hv, -⟩ := hf; cases hv
  | cons v l ih =>
    obtain ⟨hv, hn⟩ := List.nodup_cons.1 hn
    cases hfault : (changeParagraph needle change v.1 d).fault with
    | some e =>
      have hstep := Attempt.each_cons_of_fault
        (fun (v : Visit) d => changeParagraph needle change v.1 d) v l hfault
      rw [hstep, hfault]
      exact Option.some_ne_none e
    | none =>
      have hstep := Attempt.each_cons_of_none
        (fun (v : Visit) d => changeParagraph needle change v.1 d) v l hfault
      rw [hstep]
      obtain ⟨u, hu, hne⟩ := hf
      have huv : u ≠ v := by
        rintro rfl
        exact hne hfault
      have hu := (List.mem_cons.1 hu).resolve_left huv
      have hid : u.1 ≠ v.1 := fun e => hv (List.mem_map.2 ⟨u, hu, e⟩)
      refine ih hn _ ⟨u, hu, ?_⟩
      rw [paragraph_changeParagraph, if_neg hid]
      exact hne

end

theorem count_eq (d : Document) (needle : Text) :
    d.count needle = (d.lines.map (hits needle)).sum := by
  rw [count, List.length_flatMap, lines, List.map_map]
  rfl

/-- One value put in replaces its placeholder in every line and changes nothing else. -/
theorem setValue_spec {d : Document} (hs : d.IsStored) {tok : Text} (ht : IsInner tok)
    {value : Text} (hv : ∀ c ∈ value, isXmlChar c = true) :
    ∃ d', d.setValue tok value =
        { document := d', result := .ok (d.lines.map (hits (wrap tok))).sum } ∧
      d'.visits = d.visits ∧ d'.IsStored ∧
      d'.lines = d.lines.map (replaceAll (wrap tok) (Run.readBack value)) := by
  have hone : ∀ v ∈ d.visits, _ := fun v hv' =>
    Splice.atEach_putText hv (hs v hv') '$' ('\x7b' :: (tok ++ [Token.closing]))
  obtain ⟨d', hd', hb, hsec, hp⟩ := @each_changeParagraph (wrap tok) (Splice.putText value)
    d.visits d.visits_fst_nodup d fun v hv' => (hone v hv').1
  have hvis := visits_congr hb hsec
  have hpar : ∀ v ∈ d.visits, d'.paragraph v.1 =
      ((d.paragraph v.1).atEach (wrap tok) (Splice.putText value)).value := by
    intro v hv'
    rw [hp, if_pos (List.mem_map_of_mem hv')]
  refine ⟨d', ?_, hvis, ?_, ?_⟩
  · unfold setValue
    rw [ht.unwrap, ← count_eq]
    dsimp only
    rw [hd']
    rfl
  · intro v hv'
    rw [hvis] at hv'
    rw [hpar v hv']
    exact (hone v hv').2.1
  · unfold lines
    rw [hvis, List.map_map]
    refine List.map_congr_left fun v hv' => ?_
    rw [hpar v hv']
    exact (hone v hv').2.2

/-- A text that no document holds breaks the work off where its placeholder occurs. -/
theorem setValue_fault {d : Document} {tok : Text} (ht : IsInner tok) {value : Text}
    (hv : ¬ ∀ c ∈ value, isXmlChar c = true) {t : Text} (hl : t ∈ d.lines)
    (hh : 0 < hits (wrap tok) t) : ∃ e, (d.setValue tok value).result = .error e := by
  obtain ⟨v, hvis, rfl⟩ := List.mem_map.1 hl
  have hfault := Splice.atEach_putText_fault hv (wrap tok) hh
  have hne := @each_changeParagraph_fault (wrap tok) (Splice.putText value)
    d.visits d.visits_fst_nodup d
    ⟨v, hvis, by rw [Paragraph.atEach]; dsimp only; rw [hfault]; exact Option.some_ne_none _⟩
  obtain ⟨e, he⟩ := Option.ne_none_iff_exists'.1 hne
  refine ⟨e, ?_⟩
  unfold setValue filling
  rw [ht.unwrap]
  dsimp only
  rw [he]

/-! ## A map of texts -/

/-- What an entry puts in the place of which placeholder, if it holds a text that is put in. -/
def filler? (present : List Text) (e : Text × Value) : Option (Text × Text) :=
  if Token.unwrap e.1 ∈ present then
    match insertOf (Token.unwrap e.1) e.2 with
    | .text t => some (Token.unwrap e.1, t)
    | _ => none
  else none

/-- The texts that a map has for the placeholders of a document. -/
def fillers (d : Document) (m : DataMap) : Table Text Text := m.filterMap (filler? d.placeholders)

/-- The texts of a table as they are read back from a document. -/
def shown (fs : Table Text Text) : Table Text Text := fs.map fun f => (f.1, Run.readBack f.2)

/-- Whether a map holds texts only. -/
def HoldsTexts (m : DataMap) : Prop := ∀ e ∈ m, ∃ t, e.2 = Value.text t

/-- The filling with one more text put in. -/
def putOne (f : Filling) (g : Text × Text) : Filling :=
  match f.result with
  | .error _ => f
  | .ok n =>
    { document := (f.document.setValue g.1 g.2).document
      result := (f.document.setValue g.1 g.2).result.map (n + ·)
      log := f.log ++ (f.document.setValue g.1 g.2).log }

theorem insertOf_text (token t : Text) :
    insertOf token (.text t) = .nothing ∨ insertOf token (.text t) = .text t := by
  unfold insertOf
  simp only [Value.isTextual, Bool.not_true, Value.plain?, Bool.false_eq_true, if_false]
  split
  · exact Or.inl rfl
  · exact Or.inr rfl

theorem applyOne_eq (images : ImageReader) (present : List Text) (f : Filling) (k t : Text) :
    applyOne images present f k (.text t) =
      pure ((filler? present (k, .text t)).elim f (putOne f)) := by
  unfold applyOne filler? putOne
  cases hres : f.result with
  | error e =>
    dsimp only
    split
    · rcases insertOf_text (Token.unwrap k) t with h | h <;> rw [h] <;> rfl
    · rfl
  | ok n =>
    dsimp only
    by_cases hp : Token.unwrap k ∈ present
    · rw [if_neg (not_not_intro hp), if_pos hp]
      rcases insertOf_text (Token.unwrap k) t with h | h <;> rw [h] <;> rfl
    · rw [if_pos hp, if_neg hp]
      rfl

theorem applyFrom_eq (images : ImageReader) (present : List Text) {m : DataMap} (h : HoldsTexts m)
    (f : Filling) : applyFrom images present f m = pure ((m.filterMap (filler? present)).foldl putOne f) := by
  induction m generalizing f with
  | nil => rfl
  | cons e m ih =>
    obtain ⟨k, v⟩ := e
    obtain ⟨t, ht⟩ := h _ (List.mem_cons_self ..)
    simp only at ht
    subst ht
    have hm : HoldsTexts m := fun e he => h e (List.mem_cons_of_mem _ he)
    rw [applyFrom, applyOne_eq]
    show applyFrom images present _ m = _
    rw [ih hm, List.filterMap_cons]
    cases filler? present (k, .text t) <;> rfl

/-- A map of texts is put in filler by filler. -/
theorem run_apply (images : ImageReader) (d : Document) {m : DataMap} (h : HoldsTexts m) (w : World) :
    (Script.run (d.apply images m) w).1 =
      (fillers d m).foldl putOne { document := d, result := .ok 0 } := by
  unfold apply
  rw [applyFrom_eq _ _ h, Script.run_bind, Script.run_pure, Script.run_bind]
  rfl

/-! ## All fillers -/

theorem keys_shown (fs : Table Text Text) : (shown fs).keys = fs.keys := by
  rw [shown, Table.keys, List.map_map]
  rfl

theorem Proper.shown {fs : Table Text Text} (h : Proper fs) : Proper (Document.shown fs) :=
  ⟨fun u hu => h.inner u (keys_shown fs ▸ hu), keys_shown fs ▸ h.nodup⟩

theorem sum_map_add (f g : Text → Nat) (l : List Text) :
    (l.map fun t => f t + g t).sum = (l.map f).sum + (l.map g).sum := by
  induction l with
  | nil => rfl
  | cons t l ih => simp only [List.map_cons, List.sum_cons, ih]; omega

/-- Fillers that a document can hold are put in one after the other. -/
theorem foldl_putOne_spec {fs : Table Text Text} (h : Proper fs)
    (hv : ∀ f ∈ fs, ∀ c ∈ f.2, isXmlChar c = true) (d : Document) (hs : d.IsStored) (n : Nat) :
    ∃ d', fs.foldl putOne { document := d, result := .ok n } =
        { document := d', result := .ok (n + (d.lines.map (found (shown fs))).sum) } ∧
      d'.lines = d.lines.map (replaceEach (shown fs)) := by
  induction fs generalizing d n with
  | nil =>
    refine ⟨d, ?_, ?_⟩
    · simp [shown, found, List.map_const']
    · simp [shown, replaceEach]
  | cons f fs ih =>
    obtain ⟨tok, v⟩ := f
    obtain ⟨hi, -, hfs⟩ := h.tail
    obtain ⟨d₁, hset, -, hs₁, hl₁⟩ := setValue_spec hs hi (hv _ (List.mem_cons_self ..))
    obtain ⟨d', hd', hl'⟩ := ih hfs (fun f hf => hv f (List.mem_cons_of_mem _ hf)) d₁ hs₁
      (n + (d.lines.map (hits (wrap tok))).sum)
    refine ⟨d', ?_, ?_⟩
    · rw [List.foldl_cons]
      have hone : putOne { document := d, result := .ok n } (tok, v) =
          { document := d₁, result := .ok (n + (d.lines.map (hits (wrap tok))).sum) } := by
        unfold putOne
        simp only [hset]
        rfl
      rw [hone, hd', hl₁, List.map_map, Nat.add_assoc, ← sum_map_add]
      rfl
    · rw [hl', hl₁, List.map_map]
      rfl

theorem foldl_putOne_error {fs : Table Text Text} {f : Filling} {e : Fault}
    (h : f.result = .error e) : fs.foldl putOne f = f := by
  induction fs with
  | nil => rfl
  | cons g fs ih =>
    have hone : putOne f g = f := by
      unfold putOne
      rw [h]
    rw [List.foldl_cons, hone, ih]

/-- Where all went well, every filler whose placeholder occurred at first can be held by the
document: no earlier filler takes its placeholder away. -/
theorem storable_of_ok {l : List Text} {N : Nat} {fs : Table Text Text} (h : Proper fs)
    (hocc : ∀ u ∈ fs.keys, ∃ t ∈ l, 0 < hits (wrap u) t) (d : Document) (hs : d.IsStored) (n : Nat)
    (now : Text → Text) (hl : d.lines = l.map now)
    (hle : ∀ t, ∀ u ∈ fs.keys, hits (wrap u) t ≤ hits (wrap u) (now t))
    (hok : (fs.foldl putOne { document := d, result := .ok n }).result = .ok N) :
    ∀ f ∈ fs, ∀ c ∈ f.2, isXmlChar c = true := by
  induction fs generalizing d n now with
  | nil => intro f hf; cases hf
  | cons g fs ih =>
    obtain ⟨tok, v⟩ := g
    obtain ⟨hi, hn, hfs⟩ := h.tail
    rw [List.foldl_cons] at hok
    by_cases hv : ∀ c ∈ v, isXmlChar c = true
    · obtain ⟨d₁, hset, -, hs₁, hl₁⟩ := setValue_spec hs hi hv
      have hone : putOne { document := d, result := .ok n } (tok, v) =
          { document := d₁, result := .ok (n + (d.lines.map (hits (wrap tok))).sum) } := by
        unfold putOne
        simp only [hset]
        rfl
      rw [hone] at hok
      have hrest := ih hfs (fun u hu => hocc u (List.mem_cons_of_mem _ hu)) d₁ hs₁ _
        (fun t => replaceAll (wrap tok) (Run.readBack v) (now t))
        (by rw [hl₁, hl, List.map_map]; rfl)
        (fun t => Substitution.hits_le_of_mem h (hle t) _) hok
      intro f hf
      rcases List.mem_cons.1 hf with rfl | hf
      · exact hv
      · exact hrest f hf
    · obtain ⟨t, ht, hpos⟩ := hocc tok (List.mem_cons_self ..)
      have hpos' := Nat.lt_of_lt_of_le hpos (hle t tok (List.mem_cons_self ..))
      obtain ⟨e, he⟩ := setValue_fault hi hv (hl ▸ List.mem_map_of_mem ht) hpos'
      have hone : (putOne { document := d, result := .ok n } (tok, v)).result = .error e := by
        unfold putOne
        simp only [he]
        rfl
      rw [foldl_putOne_error hone, hone] at hok
      cases hok

theorem sum_map_le {f g : Text → Nat} {l : List Text} (h : ∀ t ∈ l, f t ≤ g t) :
    (l.map f).sum ≤ (l.map g).sum := by
  induction l with
  | nil => exact Nat.le_refl _
  | cons t l ih =>
    have ht := h t (List.mem_cons_self ..)
    have := ih fun u hu => h u (List.mem_cons_of_mem _ hu)
    simp only [List.map_cons, List.sum_cons]
    omega

theorem sum_map_eq_iff {f g : Text → Nat} {l : List Text} (h : ∀ t ∈ l, f t ≤ g t) :
    (l.map g).sum = (l.map f).sum ↔ ∀ t ∈ l, g t = f t := by
  induction l with
  | nil => simp
  | cons t l ih =>
    have ht := h t (List.mem_cons_self ..)
    have hl : ∀ u ∈ l, f u ≤ g u := fun u hu => h u (List.mem_cons_of_mem _ hu)
    have hsum := sum_map_le hl
    rw [List.forall_mem_cons, ← ih hl]
    simp only [List.map_cons, List.sum_cons]
    omega

/-! ## Placeholders of a document without links -/

theorem text_eq_of_noLinks {p : Paragraph} (h : ∀ x ∈ p.content, ∃ r, x = Inline.run r) :
    p.text = Splice.text p.runs := by
  unfold Paragraph.text Paragraph.runs Splice.text
  congr 1
  generalize p.content = c at h
  induction c with
  | nil => rfl
  | cons x c ih =>
    obtain ⟨r, rfl⟩ := h x (List.mem_cons_self ..)
    have := ih fun y hy => h y (List.mem_cons_of_mem _ hy)
    rw [List.map_cons, this]
    rfl

/-- A placeholder of a document occurs in what can be read in one of its paragraphs. -/
theorem exists_hit_of_mem_placeholders {d : Document} {u : Text} (hu : u ∈ d.placeholders) :
    IsInner u ∧ ∃ v ∈ d.visits, 0 < hits (wrap u) (d.paragraph v.1).text := by
  obtain ⟨v, hv, hf⟩ := List.mem_flatMap.1 (Token.mem_distinct.1 hu)
  have hi := Token.isInner_of_mem_find hf
  refine ⟨hi, v, hv, ?_⟩
  have hcount := Piece.hits_wrap hi (d.paragraph v.1).text 0
  rw [List.drop_zero] at hcount
  rw [hcount, List.count_pos_iff]
  exact Piece.mem_read_of_mem_scan (Token.mem_distinct.1 hf)

/-- A placeholder of a document without links occurs in one of its lines. -/
theorem mem_placeholders {d : Document} (hl : d.HasNoLinks) {u : Text} (hu : u ∈ d.placeholders) :
    IsInner u ∧ ∃ t ∈ d.lines, 0 < hits (wrap u) t := by
  obtain ⟨hi, v, hv, hhit⟩ := exists_hit_of_mem_placeholders hu
  rw [text_eq_of_noLinks (hl v hv)] at hhit
  exact ⟨hi, _, List.mem_map.2 ⟨v, hv, rfl⟩, hhit⟩

theorem mem_fillers_keys {present : List Text} {m : DataMap} {u : Text}
    (h : u ∈ Table.keys (m.filterMap (filler? present))) :
    u ∈ present ∧ u ∈ m.map fun e => Token.unwrap e.1 := by
  obtain ⟨f, hf, rfl⟩ := List.mem_map.1 h
  obtain ⟨e, he, hfe⟩ := List.mem_filterMap.1 hf
  unfold filler? at hfe
  split at hfe
  · rename_i hp
    split at hfe
    · injection hfe with hfe
      subst hfe
      exact ⟨hp, List.mem_map.2 ⟨e, he, rfl⟩⟩
    · cases hfe
  · cases hfe

theorem nodup_keys_fillers (present : List Text) {m : DataMap}
    (h : (m.map fun e => Token.unwrap e.1).Nodup) :
    (Table.keys (m.filterMap (filler? present))).Nodup := by
  induction m with
  | nil => exact List.nodup_nil
  | cons e m ih =>
    obtain ⟨he, hm⟩ := List.nodup_cons.1 h
    rw [List.filterMap_cons]
    cases hf : filler? present e with
    | none => exact ih hm
    | some f =>
      refine List.nodup_cons.2 ⟨fun hmem => he ?_, ih hm⟩
      have hkey : f.1 = Token.unwrap e.1 := by
        unfold filler? at hf
        split at hf
        · split at hf
          · injection hf with hf
            rw [← hf]
          · cases hf
        · cases hf
      show Token.unwrap e.1 ∈ _
      rw [← hkey]
      exact (mem_fillers_keys hmem).2

theorem proper_fillers {d : Document} (hl : d.HasNoLinks) {m : DataMap}
    (h : (m.map fun e => Token.unwrap e.1).Nodup) : Proper (fillers d m) :=
  ⟨fun _ hu => (mem_placeholders hl (mem_fillers_keys hu).1).1, nodup_keys_fillers _ h⟩

/-! ## When a map is put in at once -/

/-- Whether a filling is the document with all texts of a map put in at once: every placeholder
that the document had is replaced, and nothing else is. -/
def Substituted (d : Document) (m : DataMap) (f : Filling) : Prop :=
  f.result = .ok (d.lines.map (listed (fillers d m))).sum ∧
    f.document.lines = d.lines.map (substitute (shown (fillers d m)))

/-- Whether a document can hold the texts of a map, and none of them, going in after those before
it, brings another's placeholder about. -/
def Undisturbed (d : Document) (m : DataMap) : Prop :=
  (∀ f ∈ fillers d m, ∀ c ∈ f.2, isXmlChar c = true) ∧
    ∀ t ∈ d.lines, NothingArises t (shown (fillers d m)) t

theorem listed_shown (fs : Table Text Text) (t : Text) : listed (shown fs) t = listed fs t := by
  induction fs with
  | nil => rfl
  | cons f fs ih => exact congrArg (hits (wrap f.1) t + ·) ih

theorem substituted_iff_undisturbed (images : ImageReader) (d : Document) (hl : d.HasNoLinks)
    (hs : d.IsStored) {m : DataMap} (ht : HoldsTexts m) (hk : (m.map fun e => Token.unwrap e.1).Nodup) (w : World) :
    Substituted d m (Script.run (d.apply images m) w).1 ↔ Undisturbed d m := by
  have hp := proper_fillers hl hk
  have hsum : (d.lines.map (listed (fillers d m))).sum =
      (d.lines.map (listed (shown (fillers d m)))).sum :=
    congrArg List.sum (List.map_congr_left fun t _ => (listed_shown _ t).symm)
  have hle : ∀ t ∈ d.lines, listed (shown (fillers d m)) t ≤ found (shown (fillers d m)) t :=
    fun t _ => Substitution.listed_le_found (Proper.shown hp) fun _ _ => Nat.le_refl _
  have hnothing : (∀ t ∈ d.lines, found (shown (fillers d m)) t = listed (shown (fillers d m)) t) ↔
      ∀ t ∈ d.lines, NothingArises t (shown (fillers d m)) t :=
    forall₂_congr fun t _ =>
      Substitution.found_eq_listed_iff (Proper.shown hp) fun _ _ => Nat.le_refl _
  unfold Substituted Undisturbed
  rw [run_apply images d ht, hsum, ← hnothing, ← sum_map_eq_iff hle]
  constructor
  · rintro ⟨hok, -⟩
    have hv := storable_of_ok hp
      (fun u hu => (mem_placeholders hl (mem_fillers_keys hu).1).2) d hs 0 id (List.map_id _).symm
      (fun _ _ _ => Nat.le_refl _) hok
    obtain ⟨d', hd', -⟩ := foldl_putOne_spec hp hv d hs 0
    rw [hd', Nat.zero_add] at hok
    exact ⟨hv, Except.ok.inj hok⟩
  · rintro ⟨hv, heq⟩
    obtain ⟨d', hd', hlines⟩ := foldl_putOne_spec hp hv d hs 0
    rw [hd', Nat.zero_add]
    refine ⟨congrArg Except.ok heq, hlines.trans (List.map_congr_left fun t hmem => ?_)⟩
    have hna := hnothing.1 ((sum_map_eq_iff hle).1 heq) t hmem
    exact Substitution.replaceEach_eq_substitute (Proper.shown hp) hna

/-- What is put in at once does not depend on the order of the map. -/
theorem Substituted.perm {d : Document} {m m' : DataMap} {f : Filling} (hp : m.Perm m')
    (hk : (m.map fun e => Token.unwrap e.1).Nodup) (h : Substituted d m f) :
    Substituted d m' f := by
  have hfs : (fillers d m).Perm (fillers d m') := hp.filterMap _
  have hshown : (shown (fillers d m)).Perm (shown (fillers d m')) := hfs.map _
  have hn : (shown (fillers d m)).keys.Nodup :=
    (keys_shown (fillers d m)).symm ▸ nodup_keys_fillers d.placeholders hk
  obtain ⟨hres, hlines⟩ := h
  refine ⟨hres.trans ?_, hlines.trans ?_⟩
  · rw [List.map_congr_left fun t _ => Substitution.listed_perm hfs t]
  · exact List.map_congr_left fun t _ => Substitution.substitute_perm hshown hn t

/-- Texts without dollar signs are put in at once where the dollar sign only begins tokens. -/
theorem undisturbed_of_plain {d : Document} (hl : d.HasNoLinks) {m : DataMap}
    (hk : (m.map fun e => Token.unwrap e.1).Nodup)
    (hd : ∀ t ∈ d.lines, Substitution.Plain t)
    (hv : ∀ f ∈ fillers d m, ∀ c ∈ f.2, isXmlChar c = true ∧ c ≠ '$') : Undisturbed d m := by
  refine ⟨fun f hf c hc => (hv f hf c hc).1, fun t ht => ?_⟩
  refine Substitution.nothingArises_of_plain (Proper.shown (proper_fillers hl hk)) (hd t ht) ?_
  intro g hg hmem
  obtain ⟨f, hf, rfl⟩ := List.mem_map.1 hg
  obtain ⟨c, hc, he⟩ := List.mem_map.1 hmem
  split at he
  · exact absurd he (by decide)
  · exact (hv f hf c hc).2 he

/-- Putting in a map of texts is a simultaneous substitution just when nothing disturbs it, and then
no order of the map that is not disturbed either gives other lines or another count. -/
theorem apply_substitutes_iff (images : ImageReader) (d : Document) (hl : d.HasNoLinks)
    (hs : d.IsStored) {m : DataMap} (ht : HoldsTexts m) (hk : (m.map fun e => Token.unwrap e.1).Nodup) (w : World) :
    (Substituted d m (Script.run (d.apply images m) w).1 ↔ Undisturbed d m) ∧
      ∀ m', m.Perm m' → Undisturbed d m → Undisturbed d m' →
        (Script.run (d.apply images m') w).1.result = (Script.run (d.apply images m) w).1.result ∧
          (Script.run (d.apply images m') w).1.document.lines =
            (Script.run (d.apply images m) w).1.document.lines := by
  have hiff := substituted_iff_undisturbed images d hl hs ht hk w
  refine ⟨hiff, fun m' hp hu hu' => ?_⟩
  have ht' : HoldsTexts m' := fun e he => ht e (hp.mem_iff.2 he)
  have hk' : (m'.map fun e => Token.unwrap e.1).Nodup := (hp.map _).nodup_iff.1 hk
  obtain ⟨hres, hlines⟩ := (hiff.2 hu).perm hp hk
  obtain ⟨hres', hlines'⟩ := (substituted_iff_undisturbed images d hl hs ht' hk' w).2 hu'
  exact ⟨hres'.trans hres.symm, hlines'.trans hlines.symm⟩

/-- A document whose only paragraph holds the text. -/
def ofText (t : Text) : Document :=
  { body := [.paragraph 0], paragraphs := [{ content := [.run { text := t }] }] }

theorem visits_ofText (t : Text) : (ofText t).visits = [(0, none)] := by
  have hc : (ofText t).containers = [[.paragraph 0]] := rfl
  rw [visits, hc]
  simp [firstVisits, Block.visits, Block.tableVisits, Block.ownParagraphs]

theorem lines_ofText (t : Text) : (ofText t).lines = [t] := by
  rw [lines, visits_ofText]
  simp [ofText, paragraph, Paragraph.runs, Inline.run?, Splice.text]

theorem placeholders_ofText (t : Text) :
    (ofText t).placeholders = Token.distinct (Token.find t) := by
  rw [placeholders, visits_ofText]
  simp [ofText, paragraph, Paragraph.text, Inline.text]

theorem hasNoLinks_ofText (t : Text) : (ofText t).HasNoLinks := by
  intro v hv x hx
  rw [visits_ofText, List.mem_singleton] at hv
  subst hv
  exact ⟨_, List.mem_singleton.1 hx⟩

theorem isStored_ofText {t : Text} (h : Run.IsStored t) : (ofText t).IsStored := by
  intro v hv u hu
  rw [visits_ofText, List.mem_singleton] at hv
  subst hv
  rw [List.mem_singleton.1 hu]
  exact h

/-- A map whose first text is the placeholder of the second. -/
def crossing : DataMap := [(['a'], .text (wrap ['b'])), (['b'], .text ['x'])]

/-- The text with the placeholders of `crossing`. -/
def crossed : Text := wrap ['a'] ++ ' ' :: wrap ['b']

theorem holdsTexts_crossing : HoldsTexts crossing := by
  intro e he
  simp only [crossing, List.mem_cons, List.not_mem_nil, or_false] at he
  rcases he with rfl | rfl <;> exact ⟨_, rfl⟩

theorem isStored_crossed : Run.IsStored crossed := by
  have hall : crossed.all (fun c => isXmlChar c && c != '\r') = true := by decide
  intro c hc
  simpa using List.all_eq_true.1 hall c hc

theorem isXmlChar_of_all (fs : Table Text Text) (h : fs.all (fun f => f.2.all isXmlChar) = true) :
    ∀ f ∈ fs, ∀ c ∈ f.2, isXmlChar c = true :=
  fun f hf => List.all_eq_true.1 (List.all_eq_true.1 h f hf)

theorem fillers_crossing :
    fillers (ofText crossed) crossing = [(['a'], wrap ['b']), (['b'], ['x'])] := by
  rw [fillers, placeholders_ofText]
  rfl

theorem fillers_crossing_reverse :
    fillers (ofText crossed) crossing.reverse = [(['b'], ['x']), (['a'], wrap ['b'])] := by
  rw [fillers, placeholders_ofText]
  rfl

theorem lines_run_apply {images : ImageReader} {d : Document} (hl : d.HasNoLinks) (hs : d.IsStored) {m : DataMap}
    (ht : HoldsTexts m) (hk : (m.map fun e => Token.unwrap e.1).Nodup)
    (hv : ∀ f ∈ fillers d m, ∀ c ∈ f.2, isXmlChar c = true) (w : World) :
    (Script.run (d.apply images m) w).1.document.lines =
      d.lines.map (replaceEach (shown (fillers d m))) := by
  obtain ⟨d', hd', hlines⟩ := foldl_putOne_spec (proper_fillers hl hk) hv d hs 0
  rw [run_apply images d ht, hd', hlines]

/-- A text that was put in is read again: the second placeholder's text also goes into the first's,
and the order of the map shows. -/
theorem apply_rereads_texts :
    (ofText crossed).HasNoLinks ∧ (ofText crossed).IsStored ∧ HoldsTexts crossing ∧
      (crossing.map fun e => Token.unwrap e.1).Nodup ∧
      ¬ Substituted (ofText crossed) crossing
        (Script.run ((ofText crossed).apply Content.described crossing) {}).1 ∧
      (Script.run ((ofText crossed).apply Content.described crossing) {}).1.document.lines = [['x', ' ', 'x']] ∧
      (Script.run ((ofText crossed).apply Content.described crossing.reverse) {}).1.document.lines =
        [wrap ['b'] ++ [' ', 'x']] := by
  have hl := hasNoLinks_ofText crossed
  have hs := isStored_ofText isStored_crossed
  have hk : (crossing.map fun e => Token.unwrap e.1).Nodup := by decide
  refine ⟨hl, hs, holdsTexts_crossing, hk, fun h => ?_, ?_, ?_⟩
  · have hu := (substituted_iff_undisturbed _ _ hl hs holdsTexts_crossing hk {}).1 h
    rw [Undisturbed, lines_ofText, fillers_crossing] at hu
    exact absurd (hu.2 crossed (List.mem_singleton_self _)) (by decide)
  · have hv := isXmlChar_of_all (fillers (ofText crossed) crossing)
      (by rw [fillers_crossing]; decide)
    rw [lines_run_apply hl hs holdsTexts_crossing hk hv, fillers_crossing, lines_ofText]
    decide
  · have ht : HoldsTexts crossing.reverse := fun e he =>
      holdsTexts_crossing e (List.mem_reverse.1 he)
    have hv := isXmlChar_of_all (fillers (ofText crossed) crossing.reverse)
      (by rw [fillers_crossing_reverse]; decide)
    rw [lines_run_apply hl hs ht (by decide) hv, fillers_crossing_reverse, lines_ofText]
    decide

/-- The map that puts a digit in the place of each placeholder is put in at once. -/
theorem apply_substitutes_digits :
    (ofText crossed).HasNoLinks ∧ (ofText crossed).IsStored ∧
      Substituted (ofText crossed) [(['a'], .text ['1']), (['b'], .text ['2'])]
        (Script.run ((ofText crossed).apply Content.described
          [(['a'], .text ['1']), (['b'], .text ['2'])]) {}).1 := by
  have hl := hasNoLinks_ofText crossed
  have hs := isStored_ofText isStored_crossed
  have ht : HoldsTexts [(['a'], .text ['1']), (['b'], .text ['2'])] := by
    intro e he
    simp only [List.mem_cons, List.not_mem_nil, or_false] at he
    rcases he with rfl | rfl <;> exact ⟨_, rfl⟩
  have hf : fillers (ofText crossed) [(['a'], .text ['1']), (['b'], .text ['2'])] =
      [(['a'], ['1']), (['b'], ['2'])] := by
    rw [fillers, placeholders_ofText]
    rfl
  refine ⟨hl, hs, (apply_substitutes_iff _ _ hl hs ht (by decide) {}).1.2 ?_⟩
  rw [Undisturbed, hf, lines_ofText]
  exact ⟨isXmlChar_of_all _ (by decide), by decide⟩

end Document

end MailMerge
