import MailMerge.Proofs.Document.Showing
/-!
# Pictures that are lacking

That an image is missing, that a file is no image, or that the library gives up reading it, is noticed
at one of two times. For an asset that keeps its aspect the image is measured before anything is
changed, and the document is left alone. An asset with a size of its own is not measured: the lack
shows when the picture is to be put in, and by then a paragraph in which the placeholder occurs has
been changed.

A lack that is noticed in measuring is passed over, but for a path that no file can have and for an
image that the library gives up reading: these break the work off.

* `setImage_of_keepAspect`, `setImage_of_ownSize`: the two times.
* `setImage_lacking`: when a document is left alone, and what becomes of it otherwise.
* `setImage_own_size_spoils`: a missing image with a size of its own takes its placeholder away.
-/
namespace MailMerge

open Token (wrap unwrap)

namespace Splice

/-! ## A run more -/

theorem length_edit {f : Run → List Inline} (hf : ∀ r, 0 < (f r).length) (i : Nat)
    (c : List Inline) : c.length ≤ (edit f i c).length := by
  induction c generalizing i with
  | nil => exact Nat.zero_le _
  | cons x c ih =>
    cases x with
    | link rs =>
      rw [edit_link]
      exact Nat.succ_le_succ (ih i)
    | run r =>
      cases i with
      | zero =>
        have := hf r
        simp only [edit, List.length_append, List.length_cons]
        omega
      | succ i => exact Nat.succ_le_succ (ih i)

theorem length_put (i : Nat) (t : Text) (c : List Inline) : c.length ≤ (put i t c).length :=
  length_edit (fun _ => by simp) i c

theorem length_clearBetween (first last : Nat) (c : List Inline) :
    c.length ≤ (clearBetween first last c).length := by
  unfold clearBetween
  generalize List.range' (first + 1) (last - first - 1) = l
  induction l generalizing c with
  | nil => exact Nat.le_refl _
  | cons i l ih => exact Nat.le_trans (length_put i [] c) (ih _)

/-- A picture that cannot be made leaves its run behind. -/
theorem length_putPicture_error (f : Fault) (s : Span) (c : List Inline) :
    c.length < (putPicture (.error f) s c).value.length := by
  simp only [putPicture, List.length_append, List.length_singleton]
  refine Nat.lt_succ_of_le (Nat.le_trans ?_ (length_edit (fun _ => by simp) _ _))
  split
  · exact Nat.le_refl _
  · exact Nat.le_trans (length_clearBetween ..) (length_put ..)

/-- It breaks the work off at the last occurrence. -/
theorem atEach_putPicture_error {needle : Text} {c : List Inline} (f : Fault)
    (h : spans needle c ≠ []) : (atEach needle (putPicture (.error f)) c).fault = some f ∧
      c.length < (atEach needle (putPicture (.error f)) c).value.length := by
  obtain ⟨s, l, hl⟩ := List.exists_cons_of_ne_nil (List.reverse_ne_nil_iff.2 h)
  rw [atEach_eq, hl, Attempt.each_cons_of_fault _ _ _ rfl]
  exact ⟨rfl, length_putPicture_error f s c⟩

end Splice

/-! ## When the lack shows -/

namespace Asset

section
variable {a : Asset} {look : Look} {f : Fault}

theorem picture_of_lack (h : a.pixels look = .error f) (size : Nat × Nat) :
    a.picture look size = .error f := by rw [picture, h]

/-- An image that is to keep its aspect is missed when it is measured. -/
theorem shownSize_of_lack (h : a.pixels look = .error f) (hk : a.keepAspect = true) :
    a.shownSize look = if isSkipped f then .ok none else .error f := by
  rw [shownSize, hk, h]
  rfl

end

end Asset

namespace Document

/-- What a picture that turns out to be lacking when it is put in does to a document: one of the
paragraphs in which the needle occurs has a run more, and nothing else is changed. -/
structure Spoiled (needle : Text) (v : Visit) (d d' : Document) : Prop where
  mem : v ∈ d.visits
  meets : (d.paragraph v.1).count needle ≠ 0
  body : d'.body = d.body
  sections : d'.sections = d.sections
  cells : d'.cells = d.cells
  others : ∀ id ≠ v.1, d'.paragraph id = d.paragraph id
  align : (d'.paragraph v.1).align = (d.paragraph v.1).align
  longer : (d.paragraph v.1).content.length < (d'.paragraph v.1).content.length

theorem Spoiled.ne {needle : Text} {v : Visit} {d d' : Document} (h : Spoiled needle v d d') :
    d' ≠ d := by
  intro he
  have := h.longer
  rw [he] at this
  exact Nat.lt_irrefl _ this

section
variable {needle : Text} {a : Asset} {f : Fault}

theorem changeVisit_lacking {v : Visit} {d : Document} (hv : v ∈ d.visits)
    (hc : (d.paragraph v.1).count needle ≠ 0) :
    (changeVisit needle a (.error f) v d).fault = some f ∧
      Spoiled needle v d (changeVisit needle a (.error f) v d).value := by
  have hspans : Splice.spans needle (d.paragraph v.1).content ≠ [] := by
    rwa [count_eq_length_spans, Ne, List.length_eq_zero_iff] at hc
  obtain ⟨hfault, hlen⟩ := Splice.atEach_putPicture_error f hspans
  have hone : changeVisit needle a (.error f) v d =
      changeParagraph needle (Splice.putPicture (.error f)) v.1 d := by
    have hbroken : (changeParagraph needle (Splice.putPicture (.error f)) v.1 d).fault = some f :=
      hfault
    rw [changeVisit, if_neg hc, Attempt.andThen, hbroken]
  have hpar := @paragraph_changeParagraph needle (Splice.putPicture (.error f)) d v.1
  rw [hone]
  refine ⟨hfault, hv, hc, rfl, rfl, rfl, fun id hid => ?_, ?_, ?_⟩
  · rw [hpar, if_neg hid]
  · rw [hpar, if_pos rfl]
    rfl
  · rw [hpar, if_pos rfl]
    exact hlen

/-- Visits pass until the needle is met. -/
theorem each_changeVisit_lacking {d : Document} (l : List Visit) (hl : ∀ v ∈ l, v ∈ d.visits)
    (h : ∃ v ∈ l, (d.paragraph v.1).count needle ≠ 0) :
    (Attempt.each (changeVisit needle a (.error f)) l d).fault = some f ∧
      ∃ v, Spoiled needle v d (Attempt.each (changeVisit needle a (.error f)) l d).value := by
  induction l with
  | nil =>
    obtain ⟨v, hv, -⟩ := h
    cases hv
  | cons v l ih =>
    obtain ⟨hv, hl⟩ := List.forall_mem_cons.1 hl
    by_cases hc : (d.paragraph v.1).count needle = 0
    · have hpass : changeVisit needle a (.error f) v d = { value := d } := by
        rw [changeVisit, if_pos hc]
      have hrest : ∃ v ∈ l, (d.paragraph v.1).count needle ≠ 0 := by
        obtain ⟨u, hu, hne⟩ := h
        refine ⟨u, (List.mem_cons.1 hu).resolve_left ?_, hne⟩
        rintro rfl
        exact hne hc
      have hstep := Attempt.each_cons_of_none (changeVisit needle a (.error f)) v l (x := d)
        (by rw [hpass])
      rw [hstep, hpass]
      exact ih hl hrest
    · obtain ⟨hfault, hspoiled⟩ := changeVisit_lacking (a := a) (f := f) hv hc
      rw [Attempt.each_cons_of_fault _ _ _ hfault]
      exact ⟨hfault, v, hspoiled⟩

theorem exists_of_count {d : Document} (h : d.count needle ≠ 0) :
    ∃ v ∈ d.visits, (d.paragraph v.1).count needle ≠ 0 := by
  refine Decidable.byContradiction fun hnone => h ?_
  rw [count, List.length_eq_zero_iff, List.flatMap_eq_nil_iff]
  intro v hv
  refine List.length_eq_zero_iff.1 (Decidable.byContradiction fun hne => hnone ⟨v, hv, hne⟩)

end

section
variable (d : Document) (tok : Text) {a : Asset} {look : Look} {f : Fault}

/-- The image of an asset that keeps its aspect is missed before the document is touched. -/
theorem setImage_of_keepAspect (h : a.pixels look = .error f) (hk : a.keepAspect = true) :
    (d.setImage tok a look).document = d ∧
      (d.setImage tok a look).result = if Asset.isSkipped f then .ok 0 else .error f := by
  unfold setImage
  rw [Asset.shownSize_of_lack h hk]
  cases Asset.isSkipped f <;> exact ⟨rfl, rfl⟩

/-- The image of an asset with a size of its own is missed where its placeholder is met. -/
theorem setImage_of_ownSize (h : a.pixels look = .error f) (hk : a.keepAspect = false) :
    (d.count (wrap (unwrap tok)) = 0 → d.setImage tok a look = { document := d, result := .ok 0 }) ∧
      (d.count (wrap (unwrap tok)) ≠ 0 → (d.setImage tok a look).result = .error f ∧
        ∃ v, Spoiled (wrap (unwrap tok)) v d (d.setImage tok a look).document) := by
  have hset : d.setImage tok a look = d.filling (wrap (unwrap tok))
      (Attempt.each (changeVisit (wrap (unwrap tok)) a (.error f)) d.visits d) := by
    have hsize : a.shownSize look = .ok (some (a.width, a.height)) := by
      simp [Asset.shownSize, hk]
    unfold setImage
    rw [hsize]
    dsimp only
    rw [Asset.picture_of_lack h]
  rw [hset]
  constructor
  · intro hnone
    rw [each_changeVisit_of_count a _ _ fun v hv => count_eq_zero_of_count hnone hv, filling, hnone]
  · intro hsome
    obtain ⟨hfault, hspoiled⟩ :=
      each_changeVisit_lacking (a := a) (f := f) d.visits (fun _ hv => hv) (exists_of_count hsome)
    rw [filling, hfault]
    exact ⟨rfl, hspoiled⟩

end

/-- A lacking image leaves a document alone just when it is missed before anything is changed, and
for a reason that is passed over, or when its placeholder does not occur. Otherwise the lack breaks
the work off; and where a placeholder was met by then its paragraph is spoiled. -/
theorem setImage_lacking {a : Asset} {look : Look} {f : Fault} (h : a.pixels look = .error f)
    (d : Document) (tok : Text) :
    ((d.setImage tok a look).document = d ∧ (d.setImage tok a look).result = .ok 0 ↔
      if a.keepAspect then Asset.isSkipped f = true else d.count (wrap (unwrap tok)) = 0) ∧
    (a.keepAspect = true → Asset.isSkipped f = false →
      (d.setImage tok a look).document = d ∧ (d.setImage tok a look).result = .error f) ∧
    (a.keepAspect = false → d.count (wrap (unwrap tok)) ≠ 0 →
      (d.setImage tok a look).result = .error f ∧
        ∃ v, Spoiled (wrap (unwrap tok)) v d (d.setImage tok a look).document) := by
  cases hk : a.keepAspect with
  | true =>
    obtain ⟨hdoc, hres⟩ := setImage_of_keepAspect d tok h hk
    rw [hdoc, hres]
    cases Asset.isSkipped f <;> simp
  | false =>
    obtain ⟨hnone, hsome⟩ := setImage_of_ownSize d tok h hk
    refine ⟨⟨fun hleft => ?_, fun hzero => ?_⟩, nofun, fun _ => hsome⟩
    · refine Decidable.byContradiction fun hc => ?_
      have hres := (hsome hc).1
      rw [hleft.2] at hres
      cases hres
    · rw [hnone hzero]
      exact ⟨rfl, rfl⟩

/-- Two placeholders in a paragraph, the second over two runs, and one in a cell. -/
def gallery : Document :=
  { body := [.paragraph 0, .table [(0, [.paragraph 1])] [[0]]]
    cells := [none]
    paragraphs := [{ content := [.run { text := wrap ['a'] ++ ['$'] },
        .run { bold := true, text := ['\x7b', 'a', '\x7d', 'z'] }] },
      { content := [.run { text := wrap ['a'] }] }] }

/-- A missing image. -/
def missing : Look := .error .absent

theorem pixels_portrait (keep : Bool) : { portrait with keepAspect := keep }.pixels missing =
    .error (.storage ⟨.absent, ['p'], none⟩) := rfl

/-- A missing image that was to keep its aspect leaves all three placeholders where they are. -/
theorem setImage_lacking_gallery :
    { portrait with keepAspect := true }.pixels missing =
        .error (.storage ⟨.absent, ['p'], none⟩) ∧
      gallery.count (wrap ['a']) = 3 ∧
      (gallery.setImage ['a'] { portrait with keepAspect := true } missing).document = gallery ∧
      (gallery.setImage ['a'] { portrait with keepAspect := true } missing).result = .ok 0 := by
  have hiff := (setImage_lacking (pixels_portrait true) gallery ['a']).1
  exact ⟨pixels_portrait true, by cbv, hiff.2 rfl⟩

/-- With a size of its own the missing image breaks the work off, and the second placeholder of the
paragraph is lost: of the text only the first one and the letter behind are left. -/
theorem setImage_own_size_spoils :
    { portrait with keepAspect := false }.pixels missing =
        .error (.storage ⟨.absent, ['p'], none⟩) ∧
      (gallery.setImage ['a'] { portrait with keepAspect := false } missing).result =
        .error (.storage ⟨.absent, ['p'], none⟩) ∧
      (gallery.setImage ['a'] { portrait with keepAspect := false } missing).document ≠ gallery ∧
      (gallery.setImage ['a'] { portrait with keepAspect := false } missing).document.lines =
        [wrap ['a'] ++ ['z'], wrap ['a']] := by
  have hcount : gallery.count (wrap (unwrap ['a'])) ≠ 0 := by cbv
  obtain ⟨hres, v, hspoiled⟩ := (setImage_of_ownSize gallery ['a'] (pixels_portrait false) rfl).2 hcount
  exact ⟨pixels_portrait false, hres, hspoiled.ne, by cbv⟩

end Document
end MailMerge
