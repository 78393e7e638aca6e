import MailMerge.Document.Filling
import MailMerge.Proofs.Storage.Running
/-!
# The edits of a map

An entry of a map whose placeholder a document has is an edit: it puts a text or a picture in every
place of the placeholder, or nothing, or it breaks the work off. Putting in a map is making its edits
one after the other.

* `run_apply_edits`: a map is put in edit by edit.
* `text_of_mem_edits`: the only text that an edit puts in the place of a picture is the mark.
* `run_apply_withoutSources`: entries that would put other texts there are as good as absent.
-/
namespace MailMerge.Document

/-- What is put in the place of a placeholder. -/
structure Edit where
  token : Text
  insert : Insert

/-- What a library that reads images finds where files are. -/
def looks (images : ImageReader) (files : FileSystem) (p : Text) : Look := (files.read p).map images

/-- The document after an edit, `look` telling what is found where images are said to be. -/
def Edit.on (look : Text → Look) (e : Edit) (d : Document) : Filling :=
  match e.insert with
  | .nothing => { document := d, result := .ok 0 }
  | .fault f => { document := d, result := .error f }
  | .text t => d.setValue e.token t
  | .picture a => d.setImage e.token a (look a.source)

/-- The edit of an entry, when its placeholder is present. -/
def edit? (present : List Text) (e : Text × Value) : Option Edit :=
  if Token.unwrap e.1 ∈ present then
    some ⟨Token.unwrap e.1, insertOf (Token.unwrap e.1) e.2⟩
  else none

/-- The edits of a map in a document. -/
def edits (d : Document) (m : DataMap) : List Edit := m.filterMap (edit? d.placeholders)

/-- A filling that goes on with what a further step makes of the document, unless it was broken
off. -/
def goOn (next : Document → Filling) (f : Filling) : Filling :=
  match f.result with
  | .error _ => f
  | .ok n =>
    { document := (next f.document).document
      result := (next f.document).result.map (n + ·)
      log := f.log ++ (next f.document).log }

/-- The document with edits made one after the other. -/
def edited (look : Text → Look) (es : List Edit) (d : Document) : Filling :=
  es.foldl (fun f e => goOn (e.on look) f) { document := d, result := .ok 0 }

/-! ## A map is put in edit by edit -/

theorem run_applyOne_edit (images : ImageReader) (present : List Text) (f : Filling) (k : Text)
    (v : Value) (w : World) :
    Script.run (applyOne images present f k v) w =
      ((edit? present (k, v)).elim f fun e => goOn (e.on (looks images w.files)) f, w) := by
  obtain ⟨d, result, log⟩ := f
  unfold applyOne edit? goOn
  dsimp only
  cases result with
  | error e =>
    by_cases hp : Token.unwrap k ∈ present
    · rw [if_pos hp]
      rfl
    · rw [if_neg hp]
      rfl
  | ok n =>
    dsimp only
    by_cases hp : Token.unwrap k ∈ present
    · rw [if_neg (not_not_intro hp), if_pos hp]
      dsimp only [Option.elim_some, Edit.on]
      cases insertOf (Token.unwrap k) v with
      | nothing => simp [Except.map, Script.run_pure]
      | text t => rfl
      | picture a => rfl
      | fault g => simp [Except.map, Script.run_pure]
    · rw [if_pos hp, if_neg hp]
      rfl

theorem run_applyFrom_edits (images : ImageReader) (present : List Text) (m : DataMap) (f : Filling)
    (w : World) :
    Script.run (applyFrom images present f m) w =
      ((m.filterMap (edit? present)).foldl (fun f e => goOn (e.on (looks images w.files)) f) f, w) := by
  induction m generalizing f with
  | nil => rfl
  | cons e m ih =>
    obtain ⟨k, v⟩ := e
    rw [applyFrom, Script.run_bind, run_applyOne_edit]
    dsimp only
    rw [ih, List.filterMap_cons]
    cases edit? present (k, v) <;> rfl

/-- A map is put in edit by edit. -/
theorem run_apply_edits (images : ImageReader) (d : Document) (m : DataMap) (w : World) :
    (Script.run (d.apply images m) w).1 = edited (looks images w.files) (d.edits m) d := by
  unfold apply
  rw [Script.run_bind, run_applyFrom_edits, Script.run_bind, Script.run_noteAll]
  rfl

/-! ## What is put in the place of pictures -/

/-- Whether a value may be put in the place of a picture: a picture, or the mark. -/
def isShowable : Value → Bool
  | .asset _ => true
  | .text t => t = codeErrorMark
  | _ => false

/-- The map without the values that may not be put in the place of the pictures they stand under,
like paths of images and texts of codes. -/
def withoutSources (m : DataMap) : DataMap :=
  m.filter fun e => !isPictureToken (Token.unwrap e.1) || isShowable e.2

section
variable {token : Text} {v : Value}

/-- In the place of a picture a value that is neither a picture nor the mark puts nothing. -/
theorem insertOf_of_not_isShowable (ht : isPictureToken token = true) (hv : isShowable v = false) :
    insertOf token v = .nothing := by
  cases v with
  | asset a => cases hv
  | text t =>
    have hne : t ≠ codeErrorMark := by simpa [isShowable] using hv
    simp [insertOf, Value.isTextual, Value.plain?, ht, hne]
  | int n =>
    cases hn : (Value.int n).plain? <;> simp [insertOf, Value.isTextual, hn, ht]
  | float x => simp [insertOf, Value.isTextual, Value.plain?, Value.shown?, ht]
  | decimal x => simp [insertOf, Value.isTextual, Value.plain?, ht]
  | _ => simp [insertOf, Value.isTextual]

theorem eq_codeErrorMark_of_insertOf (ht : isPictureToken token = true) {t : Text}
    (h : insertOf token v = .text t) : t = codeErrorMark := by
  cases hv : isShowable v with
  | false =>
    rw [insertOf_of_not_isShowable ht hv] at h
    cases h
  | true =>
    cases v with
    | asset a => cases h
    | text u =>
      have hu : u = codeErrorMark := by simpa [isShowable] using hv
      simp only [insertOf, Value.isTextual, Value.plain?, ht, hu] at h
      cases h
      rfl
    | _ => cases hv

end

/-- The only text that an edit puts in the place of a picture is the mark. -/
theorem text_of_mem_edits {d : Document} {m : DataMap} {e : Edit} (he : e ∈ d.edits m)
    (ht : isPictureToken e.token = true) {t : Text} (hi : e.insert = .text t) :
    t = codeErrorMark := by
  obtain ⟨⟨k, v⟩, -, h⟩ := List.mem_filterMap.1 he
  unfold edit? at h
  split at h
  · cases h
    exact eq_codeErrorMark_of_insertOf ht hi
  · cases h

theorem goOn_nothing (look : Text → Look) (token : Text) (f : Filling) :
    goOn (Edit.on look ⟨token, .nothing⟩) f = f := by
  obtain ⟨d, result, log⟩ := f
  cases result <;> simp [goOn, Edit.on, Except.map]

/-- What may not be put in the place of a picture is as good as absent. -/
theorem edited_withoutSources (look : Text → Look) (d : Document) (m : DataMap) :
    edited look (d.edits (withoutSources m)) d = edited look (d.edits m) d := by
  unfold edited
  generalize ({ document := d, result := .ok 0 } : Filling) = f
  induction m generalizing f with
  | nil => rfl
  | cons e m ih =>
    unfold edits withoutSources at ih ⊢
    rw [List.filter_cons, List.filterMap_cons]
    by_cases hkeep : (!isPictureToken (Token.unwrap e.1) || isShowable e.2) = true
    · rw [if_pos hkeep, List.filterMap_cons]
      cases edit? d.placeholders e with
      | none => exact ih f
      | some g => exact ih _
    · rw [if_neg hkeep]
      obtain ⟨ht, hv⟩ : isPictureToken (Token.unwrap e.1) = true ∧ isShowable e.2 = false := by
        simpa using hkeep
      cases he : edit? d.placeholders e with
      | none => exact ih f
      | some g =>
        have hg : g = ⟨Token.unwrap e.1, .nothing⟩ := by
          unfold edit? at he
          split at he
          · rw [insertOf_of_not_isShowable ht hv] at he
            exact (Option.some.inj he).symm
          · cases he
        rw [List.foldl_cons, hg, goOn_nothing]
        exact ih f

/-- Putting in a map does not depend on what stands under pictures, but for pictures and the
mark. -/
theorem run_apply_withoutSources (images : ImageReader) (d : Document) (m : DataMap) (w : World) :
    (Script.run (d.apply images (withoutSources m)) w).1 = (Script.run (d.apply images m) w).1 := by
  rw [run_apply_edits, run_apply_edits, edited_withoutSources]

end MailMerge.Document
