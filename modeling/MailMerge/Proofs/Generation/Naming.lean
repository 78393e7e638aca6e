import MailMerge.Proofs.Generation.Atomicity
import MailMerge.Proofs.Generation.Faults
/-!
# Names that stay in their directory

Titles are texts of any kind: they may hold slashes, runs of dots, blanks and characters without a
written form. The name made from one begins with a letter, a digit or an underscore and has no slash,
so a document named after it is an entry of the directory it is made in, and one that is seen.

* `isSafe_ofTitle`, `ofTitle_of_isSafe`: names are safe, and safe titles are names already.
* `entry_of_locate`: whatever the files are, the path of such an entry leads to a place in the directory.
* `document_stays_in_directory`: for every title, every generator and every provider.
-/
namespace MailMerge

namespace OutputName

/-- Whether a text can be the name of a document: it has only unaccented letters, digits, dots,
underscores and dashes, and begins with none of the dots and dashes. -/
structure IsSafe (t : Text) : Prop where
  first : ∃ c r, t = c :: r ∧ (c.isAlphanum = true ∨ c = '_')
  chars : ∀ c ∈ t, c.isAlphanum = true ∨ c = '.' ∨ c = '_' ∨ c = '-'

section
variable {c : Char} {t : Text}

theorem isNameChar_iff :
    isNameChar c = true ↔ c.isAlphanum = true ∨ c = '.' ∨ c = '_' ∨ c = '-' := by
  simp [isNameChar, or_assoc]

theorem isLeading_eq_false_iff (h : isNameChar c = true) :
    isLeading c = false ↔ c.isAlphanum = true ∨ c = '_' := by
  rcases isNameChar_iff.1 h with h | rfl | rfl | rfl
  · refine iff_of_true ?_ (Or.inl h)
    rw [isLeading, Bool.or_eq_false_iff, beq_eq_false_iff_ne, beq_eq_false_iff_ne]
    constructor
    · rintro rfl
      exact absurd h (by decide)
    · rintro rfl
      exact absurd h (by decide)
  · exact iff_of_false (by decide) (by decide)
  · exact iff_of_true (by decide) (Or.inr rfl)
  · exact iff_of_false (by decide) (by decide)

theorem isBlank_of_isNameChar (h : isNameChar c = true) : isBlank c = false := by
  rcases isNameChar_iff.1 h with h | rfl | rfl | rfl
  · have hcode := code_of_isAlphanum h
    simp [isBlank]
    omega
  all_goals decide

/-- Only blanks become dashes. -/
theorem dashBlanks_eq_self (h : ∀ c ∈ t, isBlank c = false) : dashBlanks t = t := by
  induction t with
  | nil => rfl
  | cons c t ih =>
    have hcons : dashBlanks (c :: t) = c :: dashBlanks t :=
      if_neg (by rw [h c (List.mem_cons_self ..)]; exact Bool.false_ne_true)
    rw [hcons, ih fun d hd => h d (List.mem_cons_of_mem _ hd)]

/-- The name made from a title is safe, whatever is exposed when its leading dots and dashes go. -/
theorem isSafe_ofTitle (t : Text) : IsSafe (ofTitle t) := by
  refine ⟨?_, fun c hc => isNameChar_iff.1 (isNameChar_of_mem_ofTitle hc)⟩
  have hfirst : ∃ c r, ofTitle t = c :: r ∧ isLeading c = false := by
    unfold ofTitle
    dsimp only
    split
    · exact ⟨'d', "ocument".toList, rfl, by decide⟩
    · rename_i hne
      obtain ⟨c, r, hname⟩ := List.exists_cons_of_ne_nil (mt List.isEmpty_iff.2 hne)
      refine ⟨c, r, hname, ?_⟩
      have hhead := List.head?_dropWhile_not isLeading ((dashBlanks t.trim).filter isNameChar)
      rw [hname] at hhead
      simpa using hhead
  obtain ⟨c, r, hname, hlead⟩ := hfirst
  refine ⟨c, r, hname, ?_⟩
  exact (isLeading_eq_false_iff (isNameChar_of_mem_ofTitle (hname ▸ List.mem_cons_self ..))).1 hlead

/-- A title that is safe as it is names the document. -/
theorem ofTitle_of_isSafe (h : IsSafe t) : ofTitle t = t := by
  have hchars : ∀ c ∈ t, isNameChar c = true := fun c hc => isNameChar_iff.2 (h.chars c hc)
  have hblank : ∀ c ∈ t, isBlank c = false := fun c hc => isBlank_of_isNameChar (hchars c hc)
  obtain ⟨c, r, rfl, hc⟩ := h.first
  have hlead : isLeading c = false :=
    (isLeading_eq_false_iff (hchars c (List.mem_cons_self ..))).2 hc
  unfold ofTitle Text.trim
  rw [Text.trimBy_eq_self hblank, dashBlanks_eq_self hblank, List.filter_eq_self.2 hchars,
    List.dropWhile_cons_of_neg (by simp [hlead])]
  rfl

/-- A safe name is seen whatever ending it gets. -/
theorem IsSafe.head?_append_ne (h : IsSafe t) (u : Text) : (t ++ u).head? ≠ some '.' := by
  obtain ⟨c, r, rfl, hc⟩ := h.first
  rw [List.cons_append, List.head?_cons]
  rintro ⟨rfl⟩
  revert hc
  decide

end

end OutputName

namespace Generation

open MailMerge.Path (IsDown IsClean)

/-- Whether a path is that of an entry of a directory, itself and not below another entry, and one that
no dot hides. -/
def IsVisibleEntry (directory path : Path) : Prop :=
  ∃ n, path = directory.child n ∧ IsDown n ∧ n.head? ≠ some '.'

theorem isVisibleEntry_finalName (p : Provider) (format : OutputFormat) :
    IsVisibleEntry p.directory (p.directory.child (finalName p format)) :=
  ⟨_, rfl, isDown_finalName p format, (OutputName.isSafe_ofTitle p.outputName).head?_append_ne _⟩

/-- Wherever the path of an entry leads, a link there not being followed, is in the directory. -/
theorem entry_of_locate {directory path : Path} (h : IsVisibleEntry directory path)
    (hd : directory.IsClean) {fs : FileSystem} (hs : fs.IsSound) {q : Place}
    (hq : fs.locate false path.toText = .ok q) :
    ∃ r n, fs.MeansDirectory directory r ∧ q = r ++ [n] := by
  obtain ⟨n, rfl, hn, -⟩ := h
  obtain ⟨hfits, r, hm⟩ := FileSystem.fits_of_locate hs hd hn hq
  exact ⟨r, n, hm, Except.ok.inj (hq.symm.trans (hfits.locate hd hm (Or.inl rfl)))⟩

/-- Work that ends well gives the path that was planned. -/
theorem final_of_execute {g : Generator} {made : Plan} {c c' : AssetCache} {w w' : World} {path : Path}
    (h : perform (execute g made) c w = ((.ok path, c'), w')) : path = made.final := by
  obtain ⟨-, c₁, w₁, -, h⟩ := perform_bind_eq_ok_iff.1 h
  obtain ⟨staged, c₂, w₂, -, h⟩ := perform_bind_eq_ok_iff.1 h
  obtain ⟨rendered, c₃, w₃, -, h⟩ := perform_bind_eq_ok_iff.1 h
  obtain ⟨-, c₄, w₄, -, h⟩ := perform_bind_eq_ok_iff.1 h
  obtain ⟨-, c₅, w₅, -, h⟩ := perform_bind_eq_ok_iff.1 h
  rw [perform_pure] at h
  cases h
  rfl

/-- The path of a document is the one that was planned before anything was done. -/
theorem plan_of_generate {g : Generator} {p : Provider} {c c' : AssetCache} {w w' : World}
    {path : Path} (h : Script.run (g.generate c p) w = ((.ok path, c'), w')) :
    ∃ made, (plan p).perform w = (.ok made, w) ∧ path = made.final := by
  obtain ⟨made, c₁, w₁, hplan, hexecute⟩ := perform_bind_eq_ok_iff.1 h
  rw [perform_lift, Prod.mk.injEq, Prod.mk.injEq] at hplan
  obtain ⟨⟨hmade, -⟩, hw⟩ := hplan
  have hsame := perform_plan p w
  rw [show (plan p).perform w = (.ok made, w₁) from Prod.ext hmade hw] at hsame
  refine ⟨made, Prod.ext hmade (hw.trans hsame.1), final_of_execute hexecute⟩

/-- Names made from titles are safe, and safe titles are left as they are. So the path of a document is
that of a visible entry of the directory it is made in, whatever the title, the data, the template and
the converting program are; and whatever the files are when the path is used, it leads to a place in
that directory. -/
theorem document_stays_in_directory :
    (∀ t, OutputName.IsSafe (OutputName.ofTitle t)) ∧
    (∀ t, OutputName.IsSafe t → OutputName.ofTitle t = t) ∧
    (∀ t, OutputName.ofTitle (OutputName.ofTitle t) = OutputName.ofTitle t) ∧
    (∀ (p : Provider) (w w' : World) (made : Plan), (plan p).perform w = (.ok made, w') →
      IsVisibleEntry p.directory made.final ∧
      ∀ (fs : FileSystem) (q : Place), fs.IsSound → p.directory.IsClean →
        fs.locate false made.final.toText = .ok q →
        ∃ r n, fs.MeansDirectory p.directory r ∧ q = r ++ [n]) ∧
    ∀ (g : Generator) (c c' : AssetCache) (p : Provider) (w w' : World) (path : Path),
      Script.run (g.generate c p) w = ((.ok path, c'), w') →
      ∃ made, (plan p).perform w = (.ok made, w) ∧ path = made.final := by
  refine ⟨OutputName.isSafe_ofTitle, fun t => OutputName.ofTitle_of_isSafe, fun t => ?_, ?_, ?_⟩
  · exact OutputName.ofTitle_of_isSafe (OutputName.isSafe_ofTitle t)
  · intro p w w' made h
    have hplan := perform_plan p w
    rw [h] at hplan
    obtain ⟨-, data, format, place, -, -, -, rfl⟩ := hplan
    have hentry := isVisibleEntry_finalName p format
    exact ⟨hentry, fun fs q hs hd => entry_of_locate hentry hd hs⟩
  · exact fun g c c' p w w' path => plan_of_generate

/-- The letter is made at an entry of its directory, and its title is safe. -/
theorem document_stays_in_directory_letter :
    OutputName.ofTitle letter.outputName = letter.outputName ∧
    ∃ path c' w', Script.run (plainGenerator.generate shelfCache letter) { files := shelf } =
        ((.ok path, c'), w') ∧
      IsVisibleEntry letter.directory path ∧
      ∀ q, shelf.locate false path.toText = .ok q → q.dropLast = ["out".toList] := by
  obtain ⟨-, hsafe, -, hplanned, hgenerated⟩ := document_stays_in_directory
  refine ⟨hsafe _ ⟨⟨'o', "ld".toList, rfl, by decide⟩, ?_⟩, ?_⟩
  · intro c hc
    exact OutputName.isNameChar_iff.1 (List.all_eq_true.1
      (show letter.outputName.all OutputName.isNameChar = true by decide) c hc)
  · have hok := generate_shelf_ok
    generalize hrun : Script.run (plainGenerator.generate shelfCache letter) { files := shelf } = r
      at hok
    obtain ⟨⟨result, c'⟩, w'⟩ := r
    cases result with
    | error e => cases hok
    | ok path =>
      obtain ⟨made, hplan, rfl⟩ := hgenerated _ _ _ _ _ _ _ hrun
      obtain ⟨hentry, hplace⟩ := hplanned _ _ _ _ hplan
      refine ⟨_, c', w', rfl, hentry, fun q hq => ?_⟩
      obtain ⟨r, n, hm, rfl⟩ := hplace shelf q isSound_shelf isPlain_letter.clean hq
      rw [List.dropLast_concat, hm.unique isPlain_letter.meansDirectory]
      rfl

end Generation

end MailMerge
