import Mathlib
import MailMerge.Proofs.Resolution.Pictures
import MailMerge.Proofs.Storage.Looking
/-!
# Images that are found

An image placeholder is left alone where the data name no path, and where the path that they name can
not be read. Otherwise it stands for a picture of the file. Two looks are made at the path, one of them
at its normal form, but what the first finds the other one finds as well. What is too long stops all of
that: a path, or a name on its way, that cannot be looked at, and a size that cannot be read.

* `seek_eq_some_iff`, `seek_eq_error_iff`: what is sought is found where it can be read.
* `imageAsset_eq_ok`: a picture has a size and alignments, whatever the fields ask for.
* `image_answers`: which of the three becomes of an image, for all data and all file systems.
-/
namespace MailMerge.Resolution

/-- The path of an image, where the data name one. -/
def imageSource? (m : DataMap) (d : Descriptor) : Option Text := (sourceValue m d).imagePath?

/-- Whether a field writes a number with so many digits that it is not read. -/
def IsOverlong (field : Option Text) (digits : Nat) : Prop :=
  ∃ t, field = some t ∧ Placeholder.readNumber t = .tooLong digits

/-- The faults of resolving an image: its path is too long to be looked at, or its file is found and the
width, or else the height, has too many digits. -/
inductive ImageBreaks (m : DataMap) (d : Descriptor) (fs : FileSystem) : Fault → Prop
  | path {source} (hsource : imageSource? m d = some source)
    (hlook : fs.status (Path.ofText source).toText = .error .nameTooLong) :
    ImageBreaks m d fs (.storage ⟨.nameTooLong, (Path.ofText source).toText, none⟩)
  | width {source content digits} (hsource : imageSource? m d = some source)
    (hread : fs.read source = .ok content) (hwidth : IsOverlong (d.arg? 1) digits) :
    ImageBreaks m d fs (.unreadableNumber digits)
  | height {source content digits} (hsource : imageSource? m d = some source)
    (hread : fs.read source = .ok content) (hwidth : ∀ n, ¬ IsOverlong (d.arg? 1) n)
    (hheight : IsOverlong (d.arg? 2) digits) :
    ImageBreaks m d fs (.unreadableNumber digits)

/-! ## Sizes -/

section
variable {field : Option Text} {f : Fault} {n : Nat}

theorem wholeField_eq_error_iff {usual : Int} :
    wholeField field usual = .error f ↔ ∃ digits, IsOverlong field digits ∧ f = .unreadableNumber digits := by
  unfold wholeField IsOverlong
  cases field with
  | none => simp
  | some t => cases hread : Placeholder.readNumber t <;> simp [hread, eq_comm]

theorem dimension_eq_error_iff :
    (dimension field).1 = .error f ↔ ∃ digits, IsOverlong field digits ∧ f = .unreadableNumber digits := by
  rw [← wholeField_eq_error_iff]
  unfold dimension
  cases wholeField field usualEdge with
  | error e => exact Iff.of_eq (by simp)
  | ok n =>
    dsimp only
    split <;> simp

theorem dimension_eq_ok_iff : (∃ n, (dimension field).1 = .ok n) ↔ ∀ digits, ¬ IsOverlong field digits := by
  cases h : (dimension field).1 with
  | error f =>
    obtain ⟨digits, hlong, -⟩ := dimension_eq_error_iff.1 h
    simp only [reduceCtorEq, exists_false, false_iff]
    exact fun hno => hno digits hlong
  | ok n =>
    refine iff_of_true ⟨n, rfl⟩ fun digits hlong => ?_
    have herror := dimension_eq_error_iff.2 ⟨digits, hlong, rfl⟩
    rw [h] at herror
    cases herror

/-- A size that makes no sense gives way to one that does. -/
theorem dimension_pos (h : (dimension field).1 = .ok n) : 0 < n := by
  unfold dimension at h
  cases hfield : wholeField field usualEdge with
  | error e =>
    rw [hfield] at h
    cases h
  | ok k =>
    rw [hfield] at h
    dsimp only at h
    split at h
    · cases h
      decide
    · cases h
      omega

end

section
variable {d : Descriptor} {file : Text} {a : Asset} {f : Fault}

/-- A picture has a size and alignments, whatever the fields ask for. -/
theorem imageAsset_eq_ok (h : (imageAsset d file).1 = .ok a) :
    a.source = file ∧ 0 < a.width ∧ 0 < a.height ∧
      a.horizontal.isSome = true ∧ a.vertical.isSome = true := by
  unfold imageAsset at h
  dsimp only at h
  split at h
  · cases h
  · cases h
  · rename_i width height hwidth hheight
    cases h
    exact ⟨rfl, dimension_pos hwidth, dimension_pos hheight, rfl, rfl⟩

theorem imageAsset_eq_error_iff :
    (imageAsset d file).1 = .error f ↔ (dimension (d.arg? 1)).1 = .error f ∨
      (∃ n, (dimension (d.arg? 1)).1 = .ok n) ∧ (dimension (d.arg? 2)).1 = .error f := by
  unfold imageAsset
  dsimp only
  cases (dimension (d.arg? 1)).1 <;> cases (dimension (d.arg? 2)).1 <;> simp

end

/-! ## Files -/

section
variable {fs : FileSystem} {v : Value} {f : Fault} {file : Text}

/-- The file of an image is found where its path can be read. -/
theorem seek_eq_some_iff : seek fs v = .ok (some file) ↔ ∃ source content,
    v.imagePath? = some source ∧ fs.read source = .ok content ∧ fs.canonical source = .ok file := by
  constructor
  · intro h
    unfold seek at h
    cases hsource : v.imagePath? with
    | none =>
      rw [hsource] at h
      cases h
    | some source =>
      rw [hsource] at h
      dsimp only at h
      split at h
      · cases h
      · cases h
      · rename_i hprobed
        split at h
        · rename_i hreach
          obtain ⟨s, hs, hfile⟩ := Script.probed_eq_true_iff.1 hprobed
          cases hstatus : fs.status source with
          | error c =>
            rw [hstatus] at hreach
            cases hreach
          | ok s' =>
            have hsame : s' = s := Except.ok.inj ((FileSystem.status_ofText hstatus).symm.trans hs)
            obtain ⟨content, hread⟩ := FileSystem.read_iff_status.2
              ⟨s', hstatus, by simpa [hsame] using hfile⟩
            obtain ⟨file', hcanonical⟩ := FileSystem.exists_canonical_of_status hstatus
            rw [FileSystem.canonical_ofText hcanonical] at h
            cases h
            exact ⟨source, content, rfl, hread, hcanonical⟩
        · cases h
  · rintro ⟨source, content, hsource, hread, hcanonical⟩
    obtain ⟨s, hs, hfile⟩ := FileSystem.read_iff_status.1 ⟨content, hread⟩
    have hprobed : Script.probed (!·.isDirectory) (fs.status (Path.ofText source).toText) = .ok true :=
      Script.probed_eq_true_iff.2 ⟨s, FileSystem.status_ofText hs, by simp [hfile]⟩
    simp only [seek, hsource, hprobed, hs, Except.toBool, if_true,
      FileSystem.canonical_ofText hcanonical]

theorem seek_eq_error_iff : seek fs v = .error f ↔ ∃ source, v.imagePath? = some source ∧
    fs.status (Path.ofText source).toText = .error .nameTooLong ∧
    f = .storage ⟨.nameTooLong, (Path.ofText source).toText, none⟩ := by
  unfold seek
  cases v.imagePath? with
  | none => simp
  | some source =>
    dsimp only
    cases hprobed : Script.probed (!·.isDirectory) (fs.status (Path.ofText source).toText) with
    | error c =>
      obtain ⟨rfl, hlong⟩ := Script.probed_eq_error_iff.1 hprobed
      simp [hlong, eq_comm]
    | ok there =>
      have hno : fs.status (Path.ofText source).toText ≠ .error .nameTooLong := fun hlong => by
        rw [Script.probed_eq_error_iff.2 ⟨rfl, hlong⟩] at hprobed
        cases hprobed
      cases there with
      | false => simp [hno]
      | true =>
        obtain ⟨s, hs, -⟩ := Script.probed_eq_true_iff.1 hprobed
        obtain ⟨file, hcanonical⟩ := FileSystem.exists_canonical_of_status hs
        simp only [hcanonical]
        split <;> simp [hs]

theorem exists_seek_of_read {source : Text} {content : Content} (hsource : v.imagePath? = some source)
    (hread : fs.read source = .ok content) : ∃ file, seek fs v = .ok (some file) := by
  obtain ⟨s, hs, -⟩ := FileSystem.read_iff_status.1 ⟨content, hread⟩
  obtain ⟨file, hcanonical⟩ := FileSystem.exists_canonical_of_status hs
  exact ⟨file, seek_eq_some_iff.2 ⟨source, content, hsource, hread, hcanonical⟩⟩

theorem seek_eq_none_iff : seek fs v = .ok none ↔ ∀ source, v.imagePath? = some source →
    fs.status (Path.ofText source).toText ≠ .error .nameTooLong ∧
      ∀ content, fs.read source ≠ .ok content := by
  cases h : seek fs v with
  | error f =>
    obtain ⟨source, hsource, hlong, -⟩ := seek_eq_error_iff.1 h
    simp only [reduceCtorEq, false_iff]
    exact fun hno => (hno source hsource).1 hlong
  | ok found =>
    cases found with
    | some file =>
      obtain ⟨source, content, hsource, hread, -⟩ := seek_eq_some_iff.1 h
      simp only [Except.ok.injEq, reduceCtorEq, false_iff]
      exact fun hno => (hno source hsource).2 content hread
    | none =>
      simp only [true_iff]
      refine fun source hsource => ⟨fun hlong => ?_, fun content hread => ?_⟩
      · have herror := seek_eq_error_iff.2 ⟨source, hsource, hlong, rfl⟩
        rw [h] at herror
        cases herror
      · obtain ⟨file, hsome⟩ := exists_seek_of_read hsource hread
        rw [h] at hsome
        cases hsome

end

/-! ## Answers -/

section
variable {d : Descriptor} {sought : Except Fault (Option Text)}

theorem imageOf_eq_none_iff : imageOf d sought = .ok none ↔ sought = .ok none := by
  rcases sought with f | _ | file
  · simp [imageOf]
  · simp [imageOf]
  · cases h : (imageAsset d file).1 <;> simp [imageOf, h, Except.map]

theorem imageOf_eq_some_iff {v : Value} : imageOf d sought = .ok (some v) ↔
    ∃ file a, sought = .ok (some file) ∧ (imageAsset d file).1 = .ok a ∧ v = .asset a := by
  rcases sought with f | _ | file
  · simp [imageOf]
  · simp [imageOf]
  · cases h : (imageAsset d file).1 <;> simp [imageOf, h, Except.map, eq_comm]

theorem imageOf_eq_error_iff {f : Fault} : imageOf d sought = .error f ↔
    sought = .error f ∨ ∃ file, sought = .ok (some file) ∧ (imageAsset d file).1 = .error f := by
  rcases sought with f' | _ | file
  · simp [imageOf]
  · simp [imageOf]
  · cases h : (imageAsset d file).1 <;> simp [imageOf, h, Except.map]

end

/-- An image is left alone just where the data name no path, or one that can be looked at but not read.
Where it stands for something, that is a picture of the file that its path leads to, with a size and
with alignments. Its faults are those of what is too long. -/
theorem image_answers (m : DataMap) (d : Descriptor) (w : World) :
    ((Script.run (image m d) w).1 = .ok none ↔ ∀ source, imageSource? m d = some source →
      w.files.status (Path.ofText source).toText ≠ .error .nameTooLong ∧
        ∀ content, w.files.read source ≠ .ok content) ∧
    (∀ v, (Script.run (image m d) w).1 = .ok (some v) → ∃ a source content,
      v = .asset a ∧ imageSource? m d = some source ∧ w.files.read source = .ok content ∧
        w.files.canonical source = .ok a.source ∧ 0 < a.width ∧ 0 < a.height ∧
        a.horizontal.isSome = true ∧ a.vertical.isSome = true) ∧
    ∀ f, (Script.run (image m d) w).1 = .error f ↔ ImageBreaks m d w.files f := by
  rw [(run_image m d w).1]
  refine ⟨imageOf_eq_none_iff.trans seek_eq_none_iff, fun v h => ?_, fun f => ?_⟩
  · obtain ⟨file, a, hsought, hasset, rfl⟩ := imageOf_eq_some_iff.1 h
    obtain ⟨source, content, hsource, hread, hcanonical⟩ := seek_eq_some_iff.1 hsought
    obtain ⟨rfl, hpromises⟩ := imageAsset_eq_ok hasset
    exact ⟨a, source, content, rfl, hsource, hread, hcanonical, hpromises⟩
  · rw [imageOf_eq_error_iff, seek_eq_error_iff]
    constructor
    · rintro (⟨source, hsource, hlong, rfl⟩ | ⟨file, hsought, hasset⟩)
      · exact .path hsource hlong
      · obtain ⟨source, content, hsource, hread, -⟩ := seek_eq_some_iff.1 hsought
        rcases imageAsset_eq_error_iff.1 hasset with hwidth | ⟨hwidth, hheight⟩
        · obtain ⟨digits, hlong, rfl⟩ := dimension_eq_error_iff.1 hwidth
          exact .width hsource hread hlong
        · obtain ⟨digits, hlong, rfl⟩ := dimension_eq_error_iff.1 hheight
          exact .height hsource hread (dimension_eq_ok_iff.1 hwidth) hlong
    · intro h
      cases h with
      | path hsource hlong => exact Or.inl ⟨_, hsource, hlong, rfl⟩
      | width hsource hread hwidth =>
        obtain ⟨file, hsought⟩ := exists_seek_of_read hsource hread
        exact Or.inr ⟨file, hsought, imageAsset_eq_error_iff.2
          (Or.inl (dimension_eq_error_iff.2 ⟨_, hwidth, rfl⟩))⟩
      | height hsource hread hwidth hheight =>
        obtain ⟨file, hsought⟩ := exists_seek_of_read hsource hread
        exact Or.inr ⟨file, hsought, imageAsset_eq_error_iff.2
          (Or.inr ⟨dimension_eq_ok_iff.2 hwidth, dimension_eq_error_iff.2 ⟨_, hheight, rfl⟩⟩)⟩

/-! ## A file and a name that is too long -/

/-- A world with one image. -/
def oneImage : World where
  files := { nodes := [(["logo.png".toList], .file (.image 2 4) 0 false)] }

/-- A placeholder with a width. -/
def wideLogo : Descriptor := ⟨.image, "image:logo:30".toList, ["logo".toList, "30".toList]⟩

/-- Data that name the image. -/
def logoPath : DataMap := [("image:logo".toList, .text "/logo.png".toList)]

/-- The image is found, and its picture has a size. -/
theorem image_answers_logo :
    oneImage.files.read "/logo.png".toList = .ok (.image 2 4) ∧
      ∃ a, (Script.run (image logoPath wideLogo) oneImage).1 = .ok (some (.asset a)) ∧
        oneImage.files.canonical "/logo.png".toList = .ok a.source ∧ 0 < a.width ∧ 0 < a.height := by
  have hread : oneImage.files.read "/logo.png".toList = .ok (.image 2 4) := by cbv
  have hrun : (Script.run (image logoPath wideLogo) oneImage).1 = .ok (some (.asset
      { source := "/logo.png".toList, width := 30, height := 100, horizontal := some .center,
        vertical := some .middle })) := by cbv
  obtain ⟨-, hfound, -⟩ := image_answers logoPath wideLogo oneImage
  obtain ⟨a, source, content, heq, hsource, -, hcanonical, hwidth, hheight, -⟩ := hfound _ hrun
  cases heq
  cases hsource
  exact ⟨hread, _, hrun, hcanonical, hwidth, hheight⟩

/-- A name with more bytes than names have. -/
def longName : Text := List.replicate 300 'a'

/-- Looking for a file with too long a name breaks, although there is none. -/
theorem image_breaks_long_name :
    ∃ d, Placeholder.parse "image:x".toList = some d ∧ d.kind = .image ∧
      (Script.run (image [("image:x".toList, .text longName)] d) {}).1 =
        .error (.storage ⟨.nameTooLong, longName, none⟩) := by
  refine ⟨⟨.image, "image:x".toList, ["x".toList]⟩, by decide, rfl, ?_⟩
  have hlong : FileSystem.maxName < Text.byteLength longName := by decide +kernel
  have hpart : Path.IsPart longName := by
    refine ⟨by decide, fun h => ?_, by decide⟩
    exact absurd (List.eq_of_mem_replicate h) (by decide)
  have hnull : '\x00' ∉ longName := fun h => absurd (List.eq_of_mem_replicate h) (by decide)
  have htext : (Path.ofText longName).toText = longName := by
    rw [Path.ofText_of_isPart hpart]
    rfl
  have hsource : (Value.text longName).imagePath? = some longName := by decide +kernel
  rw [(run_image _ _ _).1, imageOf_eq_error_iff, seek_eq_error_iff]
  refine Or.inl ⟨longName, hsource, FileSystem.status_of_long_name hpart hnull hlong, ?_⟩
  rw [htext]

end MailMerge.Resolution
