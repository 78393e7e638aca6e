import MailMerge.Proofs.Generation.Stages
/-!
# Converting in a private directory

A program makes a file in a private directory, and the file is moved to where it is wanted.
`Workshop` is the two directories with the two names, `Working` says that nothing but these two files
has changed.

* `runIn_working`: what is wanted is what the program made, or the conversion fails.
* `convert_holding`: when the private directory has been removed, only what was wanted is new.
-/
namespace MailMerge.Generation

open FileSystem (Kept MeansDirectory AtMostFile Fits IsName kept_refl kept_put kept_drop)
open MailMerge.Path (IsDown IsClean)

/-- The two directories of a conversion, with the places they have and the names in them: the inner
one is private and gets what the program makes, the outer one gets what is wanted. -/
structure Workshop where
  files : FileSystem
  inner : Path
  innerPlace : Place
  made : Text
  outer : Path
  outerPlace : Place
  wanted : Text

/-- What is known of a workshop before the program is called. -/
structure Workshop.IsReady (k : Workshop) : Prop where
  sound : k.files.IsSound
  innerClean : k.inner.IsClean
  innerNames : k.inner.names ≠ []
  outerClean : k.outer.IsClean
  innerMeans : k.files.MeansDirectory k.inner k.innerPlace
  outerMeans : k.files.MeansDirectory k.outer k.outerPlace
  absent : k.files.get? (k.innerPlace ++ [k.made]) = none
  atMostFile : k.files.AtMostFile (k.outerPlace ++ [k.wanted])
  apart : k.innerPlace ++ [k.made] ≠ k.outerPlace ++ [k.wanted]
  madeDown : IsDown k.made
  wantedDown : IsDown k.wanted

/-- Whether a file system is that of the workshop but for the two files. -/
def Working (k : Workshop) (fs : FileSystem) : Prop :=
  Kept k.files (fun q => q = k.innerPlace ++ [k.made] ∨
    Fits k.outer k.wanted ∧ q = k.outerPlace ++ [k.wanted]) fs

section
variable {k : Workshop} {fs : FileSystem} {w : World}

theorem Workshop.IsReady.loose (hk : k.IsReady) {q : Place}
    (hq : q = k.innerPlace ++ [k.made] ∨
      Fits k.outer k.wanted ∧ q = k.outerPlace ++ [k.wanted]) : k.files.AtMostFile q := by
  rcases hq with rfl | ⟨-, rfl⟩
  · exact Or.inl hk.absent
  · exact hk.atMostFile

theorem Working.innerMeans (h : Working k fs) (hk : k.IsReady) :
    fs.MeansDirectory k.inner k.innerPlace :=
  hk.innerMeans.of_kept h fun _ => hk.loose

theorem Working.outerMeans (h : Working k fs) (hk : k.IsReady) :
    fs.MeansDirectory k.outer k.outerPlace :=
  hk.outerMeans.of_kept h fun _ => hk.loose

theorem Working.wanted (h : Working k fs) (hk : k.IsReady) :
    fs.AtMostFile (k.outerPlace ++ [k.wanted]) := h.atMostFile hk.atMostFile

/-! ## The call of the program -/

/-- What a program is told when it is called on a source. -/
def callOn (source inner : Path) (format : Text) : MailMerge.Conversion :=
  ⟨source.toText, inner.toText, source.stem, format⟩

/-- A call changes nothing but what the program makes. -/
theorem execute_working (hk : k.IsReady) (hw : w.files = k.files) (program : Text) {source : Path}
    {format : Text} (hmade : k.made = source.stem ++ '.' :: format) :
    Kept k.files (· = k.innerPlace ++ [k.made])
        (w.execute program (callOn source k.inner format)).2.files ∧
      ((w.execute program (callOn source k.inner format)).2.files.get?
          (k.innerPlace ++ [k.made]) = none ∨
        Fits k.inner k.made ∧ ∃ c t x, (w.execute program (callOn source k.inner format)).2.files.get?
          (k.innerPlace ++ [k.made]) = some (.file c t x)) := by
  have hnothing : Kept k.files (· = k.innerPlace ++ [k.made]) w.files ∧
      (w.files.get? (k.innerPlace ++ [k.made]) = none ∨
        Fits k.inner k.made ∧ ∃ c t x,
          w.files.get? (k.innerPlace ++ [k.made]) = some (.file c t x)) := by
    rw [hw]
    exact ⟨(kept_refl hk.sound).mono fun _ h => h.elim, Or.inl hk.absent⟩
  have htext : (callOn source k.inner format).directory ++ '/' :: (callOn source k.inner format).name
      ++ '.' :: (callOn source k.inner format).format = (k.inner.child k.made).toText := by
    rw [Path.toText_child, if_neg hk.innerNames, hmade]
    exact List.append_assoc k.inner.toText ('/' :: source.stem) _
  unfold World.execute
  cases hread : w.files.read program with
  | error e => exact hnothing
  | ok content =>
    cases content with
    | program prog =>
      dsimp only
      split
      · exact hnothing
      · unfold World.produce
        cases hmakes : prog.makes with
        | none => exact hnothing
        | some t =>
          dsimp only
          rw [htext]
          cases hwrite : w.files.write w.clock (k.inner.child k.made).toText
              (.text ((callOn source k.inner format).format ++ ':' :: t)) with
          | error e => exact hnothing
          | ok fs =>
            rw [hw] at hwrite
            have hnode : k.files.AtMostFile (k.innerPlace ++ [k.made]) := Or.inl hk.absent
            obtain ⟨hf, x, rfl⟩ := FileSystem.write_child hk.sound hk.innerClean hk.madeDown
              hk.innerMeans hnode hwrite
            have hnames := FileSystem.isName_child hk.sound hk.innerMeans hf.name
            exact ⟨kept_put hk.sound hnode.not_isDirectory hnames _ _ x,
              Or.inr ⟨hf, _, _, x, FileSystem.get?_put_self (by simp) _⟩⟩
    | _ => exact hnothing

/-! ## The move -/

/-- The file that is wanted is no directory. -/
theorem Working.status_wanted (h : Working k fs) (hk : k.IsReady) {st : Status}
    (hst : fs.status (k.outer.child k.wanted).toText = .ok st) : st.isDirectory = false := by
  unfold FileSystem.status FileSystem.find at hst
  cases hloc : fs.locate true (k.outer.child k.wanted).toText with
  | error e =>
    rw [hloc] at hst
    cases hst
  | ok q =>
    obtain ⟨hf, -⟩ := FileSystem.fits_of_locate h.sound hk.outerClean hk.wantedDown hloc
    cases (hf.locate hk.outerClean (h.outerMeans hk)
      (Or.inr (h.wanted hk).ne_link)).symm.trans hloc
    rw [hloc] at hst
    simp only [bind, Except.bind] at hst
    cases hnode : fs.get? (k.outerPlace ++ [k.wanted]) with
    | none =>
      rw [hnode] at hst
      cases hst
    | some node =>
      rw [hnode] at hst
      cases node with
      | directory t => exact absurd ⟨t, hnode⟩ (h.wanted hk).not_isDirectory
      | file c t x =>
        cases hst
        rfl
      | link t => exact absurd hnode ((h.wanted hk).ne_link t)

theorem perform_destination (h : Working k w.files) (hk : k.IsReady) (name : Text) :
    (Conversion.destination name (k.outer.child k.wanted).toText).perform w =
      (.ok (k.outer.child k.wanted).toText, w) := by
  unfold Conversion.destination
  rw [Task.perform_bind, Task.perform_script, Script.run_status]
  dsimp only
  cases hst : w.files.status (k.outer.child k.wanted).toText with
  | error e => rfl
  | ok st =>
    dsimp only
    rw [if_neg (by rw [h.status_wanted hk hst]; exact Bool.false_ne_true)]
    rfl

theorem Working.put_wanted (h : Working k fs) (hk : k.IsReady) (hf : Fits k.outer k.wanted)
    (c : Content) (t : Time) (x : Bool) :
    Working k (fs.put (k.outerPlace ++ [k.wanted]) (.file c t x)) :=
  h.andThen (kept_put h.sound (h.wanted hk).not_isDirectory
    (FileSystem.isName_child h.sound (h.outerMeans hk) hf.name) c t x) fun _ hq => Or.inr ⟨hf, hq⟩

theorem Working.drop_made (h : Working k fs) (hk : k.IsReady) :
    Working k (fs.drop (k.innerPlace ++ [k.made])) :=
  h.andThen (kept_drop h.sound (h.atMostFile (Or.inl hk.absent)).not_isDirectory)
    fun _ hq => Or.inl hq

/-- Moving what was made: it is where it is wanted, or the move fails. -/
theorem move_working (h : Working k w.files) (hk : k.IsReady) (hfits : Fits k.inner k.made)
    {c : Content} {t : Time} {x : Bool}
    (hfile : w.files.get? (k.innerPlace ++ [k.made]) = some (.file c t x)) :
    match (Conversion.move (k.inner.child k.made).toText k.made
      (k.outer.child k.wanted).toText).perform w with
    | (.ok _, w') => Working k w'.files ∧ Fits k.outer k.wanted ∧
        ∃ t x, w'.files.get? (k.outerPlace ++ [k.wanted]) = some (.file c t x)
    | (.error _, w') => Working k w'.files := by
  have hinner := h.innerMeans hk
  have houter := h.outerMeans hk
  unfold Conversion.move
  rw [Task.perform_bind, perform_destination h hk]
  dsimp only
  rw [Task.perform_bind, Task.perform_script, Script.run_rename]
  dsimp only
  cases hrename : w.files.rename (k.inner.child k.made).toText (k.outer.child k.wanted).toText with
  | ok fs =>
    obtain ⟨q, hm, hf, hdir, hmove⟩ := hfits.rename_file h.sound hk.innerClean hinner hfile
      hk.outerClean hk.wantedDown hrename
    obtain rfl := hm.unique houter
    rcases hmove with ⟨heq, -⟩ | ⟨-, rfl⟩
    · exact absurd heq hk.apart
    · exact ⟨(h.drop_made hk).put_wanted hk hf c t x, hf, t, x, FileSystem.get?_put_self (by simp) _⟩
  | error e =>
    -- what cannot be renamed is copied
    dsimp only [World.change]
    rw [Task.perform_bind, Task.perform_step, Script.run_read,
      hfits.read_file hk.innerClean hinner hfile]
    dsimp only
    rw [Task.perform_bind, Task.perform_step, Script.run_write]
    cases hwrite : w.files.write w.clock (k.outer.child k.wanted).toText c with
    | error e => exact h
    | ok fs =>
      obtain ⟨hf, x', rfl⟩ := FileSystem.write_child h.sound hk.outerClean hk.wantedDown houter
        (h.wanted hk) hwrite
      have hput := h.put_wanted hk hf c w.clock x'
      dsimp only [World.change]
      rw [Task.perform_step, Script.run_remove]
      cases hremove : (w.files.put (k.outerPlace ++ [k.wanted]) (.file c w.clock x')).remove
          (k.inner.child k.made).toText with
      | error e => exact hput
      | ok fs =>
        obtain ⟨q, hm, -, -, rfl⟩ := FileSystem.remove_child_ok hput.sound hk.innerClean
          hk.madeDown hremove
        obtain rfl := hm.unique (hput.innerMeans hk)
        refine ⟨hput.drop_made hk, hf, w.clock, x', ?_⟩
        exact (FileSystem.get?_drop_of_ne (by simp) (Ne.symm hk.apart)).trans
          (FileSystem.get?_put_self (by simp) _)

theorem working_refl (hk : k.IsReady) : Working k k.files :=
  (kept_refl hk.sound).mono fun _ h => h.elim

theorem working_of_made (h : Kept k.files (· = k.innerPlace ++ [k.made]) fs) : Working k fs :=
  h.mono fun _ => Or.inl

/-- Collecting what was made: it is where it is wanted, or it was not made, or it cannot be moved. -/
theorem collect_working (hk : k.IsReady)
    (hkept : Kept k.files (· = k.innerPlace ++ [k.made]) w.files)
    (hthere : w.files.get? (k.innerPlace ++ [k.made]) = none ∨ Fits k.inner k.made ∧
      ∃ c t x, w.files.get? (k.innerPlace ++ [k.made]) = some (.file c t x)) (code : Nat) :
    match (Conversion.collect k.inner k.made code (k.outer.child k.wanted)).perform w with
    | (.ok _, w') => Working k w'.files ∧ Fits k.outer k.wanted ∧ code = 0 ∧ ∃ c t x,
        w'.files.get? (k.outerPlace ++ [k.wanted]) = some (.file c t x) ∧
        w.files.read (k.inner.child k.made).toText = .ok c
    | (.error _, w') => Working k w'.files := by
  have hworking := working_of_made hkept
  unfold Conversion.collect
  dsimp only
  by_cases hcode : code = 0
  · rw [if_pos hcode, Task.perform_bind, Task.perform_step, Script.run_isFile]
    rcases hthere with hnone | ⟨hfits, c, t, x, hfile⟩
    · -- where nothing was made there is nothing to move
      obtain ⟨e, he⟩ := FileSystem.status_child_absent hkept.sound hk.innerClean
        hk.madeDown (hworking.innerMeans hk) hnone
      rw [he]
      unfold Script.probed
      dsimp only
      cases Script.meansAbsent e <;> exact hworking
    · have hinner := hworking.innerMeans hk
      have hmove := move_working hworking hk hfits hfile
      rw [hfits.status_file hk.innerClean hinner hfile]
      show match (Conversion.move (k.inner.child k.made).toText k.made
        (k.outer.child k.wanted).toText).perform w with
        | (.ok _, w') => _
        | (.error _, w') => _
      revert hmove
      generalize (Conversion.move (k.inner.child k.made).toText k.made
        (k.outer.child k.wanted).toText).perform w = r
      obtain ⟨result, w'⟩ := r
      cases result with
      | error e => exact id
      | ok u =>
        rintro ⟨hafter, hwanted, t', x', hget⟩
        exact ⟨hafter, hwanted, hcode, c, t', x', hget,
          hfits.read_file hk.innerClean hinner hfile⟩
  · rw [if_neg hcode]
    exact hworking

/-- A conversion in the private directory: what is wanted is what the program made, or the conversion
fails. -/
theorem runIn_working (hk : k.IsReady) (hw : w.files = k.files) (call : ConverterProgramCall)
    (source : Path) (format : Text) (hmade : k.made = source.stem ++ '.' :: format) :
    match (Conversion.runIn k.inner call format source (k.outer.child k.wanted)).perform w with
    | (.ok _, w') => Working k w'.files ∧ Fits k.outer k.wanted ∧ ∃ c t x,
        w'.files.get? (k.outerPlace ++ [k.wanted]) = some (.file c t x) ∧
        (w.execute call.program (callOn source k.inner format)).1 = .exited 0 ∧
        (w.execute call.program (callOn source k.inner format)).2.files.read
          (k.inner.child k.made).toText = .ok c
    | (.error _, w') => Working k w'.files := by
  have hstart : Working k w.files := hw ▸ working_refl hk
  have hrun : Script.run (Script.execute call.program
      ⟨source.toText, k.inner.toText, source.stem, format⟩) w =
        w.execute call.program (callOn source k.inner format) := rfl
  obtain ⟨hkept, hthere⟩ := execute_working hk hw call.program hmade
  unfold Conversion.runIn
  rw [← hmade]
  by_cases hnull : source.toText.contains '\x00' = true
  · rw [if_pos hnull]
    exact hstart
  · rw [if_neg hnull]
    rw [Task.perform_bind, Task.perform_script, hrun]
    generalize w.execute call.program (callOn source k.inner format) = r at hkept hthere
    obtain ⟨ending, w₁⟩ := r
    dsimp only at hkept hthere ⊢
    have hworking := working_of_made hkept
    cases hawait : Conversion.await call.seconds with
    | error e => cases ending <;> exact hworking
    | ok u =>
    cases ending with
    | timedOut => exact hworking
    | notStarted e => exact hworking
    | garbled e => exact hworking
    | exited code =>
      have hcollect := collect_working hk hkept hthere code
      dsimp only
      rw [Task.perform_bind, Task.perform_ofExcept]
      dsimp only
      revert hcollect
      generalize (Conversion.collect k.inner k.made code (k.outer.child k.wanted)).perform w₁ = r
      obtain ⟨result, w₂⟩ := r
      cases result with
      | error e => exact id
      | ok u =>
        rintro ⟨hafter, hwanted, rfl, c, t, x, hget, hread⟩
        exact ⟨hafter, hwanted, c, t, x, hget, rfl, hread⟩

end

/-! ## The private directory -/

/-- The workshop of a conversion that was given a private directory. -/
def workshopAt (s : Setting) (w : World) (n : Nat) (root : Place) (made wanted : Text) : Workshop where
  files := w.files.put (root ++ [privateStem n]) (.directory w.clock)
  inner := Conversion.privateRoot.child (privateStem n)
  innerPlace := root ++ [privateStem n]
  made := made
  outer := s.directory
  outerPlace := s.place
  wanted := wanted

/-- What is known before a private directory is made: its number is fresh, and in the root there is
nothing of its name. -/
structure IsPrivate (s : Setting) (w : World) (n : Nat) (root : Place) : Prop where
  fresh : s.start.fresh ≤ n
  means : w.files.MeansDirectory Conversion.privateRoot root
  fits : Fits Conversion.privateRoot (privateStem n)
  absent : w.files.get? (root ++ [privateStem n]) = none

/-- Whether a name is one under which something is wanted: that of an unfinished document, with an
ending. -/
structure IsWanted (s : Setting) (n : Text) : Prop where
  scratch : IsScratchName s.start.fresh n
  dot : '.' ∈ n
  down : IsDown n

section
variable {s : Setting} {own : Text → Prop} {w : World} {n : Nat} {root : Place} {made wanted : Text}

theorem isClean_privateRoot : Conversion.privateRoot.IsClean := Path.isClean_ofText _

theorem isScratch_private (hn : s.start.fresh ≤ n) (root : Place) :
    IsScratch s.start.fresh (root ++ [privateStem n]) :=
  isScratch_child (isScratchName_private hn) root

/-- The directory of the documents is not in the private one. -/
theorem Ground.not_prefix_private (g : Ground s) (hn : s.start.fresh ≤ n) :
    ¬ root ++ [privateStem n] <+: s.place :=
  fun hprefix => g.not_isScratch_place ((isScratch_private hn root).mono hprefix)

/-- What is wanted is not in the private directory. -/
theorem Ground.not_prefix_wanted (g : Ground s) (root : Place) (hn : s.start.fresh ≤ n)
    (hwanted : IsWanted s wanted) : ¬ root ++ [privateStem n] <+: s.place ++ [wanted] := by
  intro hprefix
  rcases List.prefix_concat_iff.1 hprefix with heq | hprefix
  · obtain ⟨-, heq⟩ := List.append_inj' heq rfl
    exact dot_not_mem_privateStem n (List.singleton_inj.1 heq ▸ hwanted.dot)
  · exact g.not_prefix_private hn hprefix

theorem isReady_workshopAt (h : Holding s own w) (g : Ground s) (hp : IsPrivate s w n root)
    (hmade : IsDown made) (hwanted : IsWanted s wanted) :
    (workshopAt s w n root made wanted).IsReady := by
  have hself : (w.files.put (root ++ [privateStem n]) (.directory w.clock)).get?
      (root ++ [privateStem n]) = some (.directory w.clock) :=
    FileSystem.get?_put_self (by simp) _
  have hmeans := hp.means.put_directory hp.absent w.clock
  have hout := g.not_prefix_wanted root hp.fresh hwanted
  refine {
    sound := FileSystem.isSound_put_directory h.kept.sound hp.absent
      (FileSystem.isName_child h.kept.sound hp.means hp.fits.name) _
    innerClean := isClean_privateRoot.child (isDown_private n).part
    innerNames := Path.child_names_ne_nil _ _
    outerClean := g.clean
    innerMeans := ⟨hp.fits.locate isClean_privateRoot hmeans (Or.inr fun t ht => ?_), _, hself⟩
    outerMeans := (h.meansDirectory g).put_directory hp.absent w.clock
    absent := ?_
    atMostFile := ?_
    apart := fun heq => hout ⟨[made], heq⟩
    madeDown := hmade
    wantedDown := hwanted.down }
  · cases hself.symm.trans ht
  · show (w.files.put _ _).get? (root ++ [privateStem n] ++ [made]) = none
    rw [FileSystem.get?_put_of_ne (by simp) (by simp)]
    refine h.absent g ((isScratch_private hp.fresh root).mono (List.prefix_append _ _))
      fun m _ _ heq => ?_
    obtain ⟨heq, -⟩ := List.append_inj' heq rfl
    exact g.not_prefix_private hp.fresh ⟨[], by rw [List.append_nil, heq]⟩
  · show FileSystem.AtMostFile (w.files.put _ _) (s.place ++ [wanted])
    unfold AtMostFile
    rw [FileSystem.get?_put_of_ne (by simp) fun heq => hout ⟨[], by rw [List.append_nil, heq]⟩]
    exact h.atMostFile g hwanted.scratch

/-- When the private directory has been removed, at most what was wanted is new. -/
theorem Working.kept_removed {fs fs' : FileSystem}
    (hworking : Working (workshopAt s w n root made wanted) fs)
    (hready : (workshopAt s w n root made wanted).IsReady) (h : Holding s own w) (g : Ground s)
    (hp : IsPrivate s w n root) (hwanted : IsWanted s wanted) (hcurrent : fs'.current = fs.current)
    (hget : ∀ r, fs'.get? r = if root ++ [privateStem n] <+: r then none else fs.get? r) :
    Kept w.files (· = s.place ++ [wanted]) fs' := by
  have hout := g.not_prefix_wanted root hp.fresh hwanted
  have hafter : fs'.get? (s.place ++ [wanted]) = fs.get? (s.place ++ [wanted]) := by
    rw [hget, if_neg hout]
  refine FileSystem.kept_of_get? h.kept.sound (hcurrent.trans hworking.current) (fun q hq => ?_)
    (h.atMostFile g hwanted.scratch).not_isDirectory ?_
  · rw [hget]
    by_cases hprefix : root ++ [privateStem n] <+: q
    · rw [if_pos hprefix]
      by_cases hself : q = root ++ [privateStem n]
      · rw [hself, hp.absent]
      · refine (h.absent g ((isScratch_private hp.fresh root).mono hprefix) fun m _ _ heq => ?_).symm
        subst heq
        rcases List.prefix_concat_iff.1 hprefix with heq | hprefix
        · exact hself heq.symm
        · exact g.not_prefix_private hp.fresh hprefix
    · rw [if_neg hprefix, hworking.same]
      · refine FileSystem.get?_put_of_ne (by simp) ?_ _
        rintro rfl
        exact hprefix List.prefix_rfl
      · rintro (rfl | ⟨-, heq⟩)
        · exact hprefix (List.prefix_append _ _)
        · exact hq heq
  · rw [hafter]
    rcases hworking.wanted hready with habsent | ⟨c, t, x, hfile⟩
    · exact Or.inl habsent
    · exact Or.inr ⟨⟨c, t, x, hfile⟩, hworking.sound.names _ _ hfile⟩

theorem run_isProgram (t : Text) (w : World) :
    (Script.run (Conversion.isProgram t) w).2 = w := by
  unfold Conversion.isProgram
  split
  · rfl
  · rw [Script.run_bind, Script.run_status]
    cases w.files.status t <;> rfl

theorem scratchStem_ne_nil (n : Nat) : scratchStem n ≠ [] := by
  intro h
  cases List.append_eq_nil_iff.1 h |>.1

theorem formatOf_scratch (p : Path) (n : Nat) (format : OutputFormat) :
    Conversion.formatOf (p.child (scratchStem n ++ '.' :: format.name)) = format.name := by
  unfold Conversion.formatOf
  cases format <;> rw [Path.ending_child p (scratchStem_ne_nil n) (by decide) (by decide)] <;> decide

theorem isEnding_name (format : OutputFormat) : IsEnding ('.' :: format.name) := by
  refine Or.inr ⟨_, rfl, ?_⟩
  cases format <;> decide

/-- Whether a file holds what a program made of a source that holds some content. -/
def IsConverted (s : Setting) (program format : Text) (content made : Content) : Prop :=
  ∃ w source inner, Near s w ∧ w.files.read source.toText = .ok content ∧
    (w.execute program (callOn source inner format)).1 = .exited 0 ∧
    (w.execute program (callOn source inner format)).2.files.read
      (inner.child (source.stem ++ '.' :: format)).toText = .ok made

/-- Removing the private directory: what is wanted stays, if it is there. -/
theorem remove_holding (h : Holding s own w) (g : Ground s) (hp : IsPrivate s w n root)
    (hready : (workshopAt s w n root made wanted).IsReady) (hwanted : IsWanted s wanted) {w₁ : World}
    (hworking : Working (workshopAt s w n root made wanted) w₁.files) (hfresh : w.fresh ≤ w₁.fresh)
    (hclock : w₁.clock = w.clock) :
    ∃ w₂, Script.run (Script.removeTree (Conversion.privateRoot.child (privateStem n)).toText) w₁ =
        (.ok (), w₂) ∧
      w₂.files.get? (s.place ++ [wanted]) = w₁.files.get? (s.place ++ [wanted]) ∧
      Holding s (fun m => own m ∨ m = wanted) w₂ := by
  have hmeans : w₁.files.MeansDirectory Conversion.privateRoot root :=
    (hp.means.put_directory hp.absent w.clock).of_kept hworking fun _ => hready.loose
  have hdir : w₁.files.IsDirectory (root ++ [privateStem n]) :=
    (hworking.innerMeans hready).2
  have hout := g.not_prefix_wanted root hp.fresh hwanted
  obtain ⟨fs, hremove, hcurrent, hget⟩ := hp.fits.removeTree isClean_privateRoot hmeans hdir
  have hkept := hworking.kept_removed hready h g hp hwanted hcurrent hget
  have hafter : fs.get? (s.place ++ [wanted]) = w₁.files.get? (s.place ++ [wanted]) := by
    rw [hget, if_neg hout]
  have hfitting : Kept w.files (fun q => Fits s.directory wanted ∧ q = s.place ++ [wanted]) fs := by
    refine hkept.restore ?_
    rintro q rfl
    by_cases hf : Fits s.directory wanted
    · exact Or.inl ⟨hf, rfl⟩
    · -- a name that does not fit is as it was
      right
      rw [hafter, hworking.same]
      · exact FileSystem.get?_put_of_ne (by simp)
          (fun heq => hout ⟨[], by rw [List.append_nil, heq]⟩) _
      · rintro (heq | ⟨hwants, -⟩)
        · exact hready.apart heq.symm
        · exact hf hwants
  refine ⟨{ w₁ with files := fs }, ?_, hafter, ?_⟩
  · rw [Script.run_removeTree, hremove]
    rfl
  · exact (h.change hfitting (Or.inl hwanted.scratch)).of_files rfl hfresh hclock

/-- What a conversion does in a private directory, up to and with the removal of that. -/
theorem private_holding (h : Holding s own w) (g : Ground s)
    (hown : ∀ m, own m → IsScratchName s.start.fresh m) (hp : IsPrivate s w n root) {r : Text}
    (hr : IsScratchName s.start.fresh r) {content : Content} {t : Time} {x : Bool}
    (hfile : w.files.get? (s.place ++ [r]) = some (.file content t x)) (format : Text)
    (hmade : IsDown ((s.directory.child r).stem ++ '.' :: format)) (hwanted : IsWanted s wanted)
    (call : ConverterProgramCall) (w₁ : World)
    (hfiles : w₁.files = w.files.put (root ++ [privateStem n]) (.directory w.clock))
    (hfresh : w.fresh ≤ w₁.fresh) (hclock : w₁.clock = w.clock) :
    match (Task.thenTidy (Conversion.runIn (Conversion.privateRoot.child (privateStem n)) call format
        (s.directory.child r) (s.directory.child wanted)) (do
          let _ ← Script.removeTree (Conversion.privateRoot.child (privateStem n)).toText
          pure ())).perform w₁ with
    | (.ok _, w') => Holding s (fun m => own m ∨ m = wanted) w' ∧ ∃ c t x,
        w'.files.get? (s.place ++ [wanted]) = some (.file c t x) ∧
          IsConverted s call.program format content c
    | (.error _, w') => Holding s (fun m => own m ∨ m = wanted) w' := by
  have hready := isReady_workshopAt h g hp hmade hwanted
  have hrun := runIn_working hready hfiles call (s.directory.child r) format rfl
  have hmeans := (h.meansDirectory g).put_directory hp.absent w.clock
  -- the world in which the program is called is that of the start but for scratch files
  have hnear : Near s w₁ := by
    refine ⟨hclock.trans h.clock, fun q hin hq => ?_⟩
    rw [hfiles, FileSystem.get?_put_of_ne (by simp)]
    · exact (h.near hown).same q hin hq
    · rintro rfl
      exact hq (isScratch_private hp.fresh root)
  have hread : w₁.files.read (s.directory.child r).toText = .ok content := by
    rw [hfiles]
    refine (h.own_of_get? g hr hfile).2.read_file g.clean hmeans (t := t) (x := x) ?_
    rw [FileSystem.get?_put_of_ne (by simp), hfile]
    intro heq
    rw [heq, hp.absent] at hfile
    cases hfile
  change match Task.perform (Conversion.runIn (Conversion.privateRoot.child (privateStem n)) call
      format (s.directory.child r) (s.directory.child wanted)) w₁ with
    | (.ok _, w') => _
    | (.error _, w') => _ at hrun
  rw [Task.perform_thenTidy, Script.run_bind]
  cases hresult : Task.perform (Conversion.runIn (Conversion.privateRoot.child (privateStem n)) call
      format (s.directory.child r) (s.directory.child wanted)) w₁ with
  | mk result w₂ =>
  have hfollows := Task.perform_follows hresult
  have hclock₂ : w₂.clock = w.clock := hfollows.clock.trans hclock
  have hfresh₂ : w.fresh ≤ w₂.fresh := Nat.le_trans hfresh hfollows.fresh
  rw [hresult] at hrun
  cases result with
  | ok u =>
    obtain ⟨hworking, -, c, t', x', hget, hexit, hmakes⟩ := hrun
    obtain ⟨w₃, hremove, hafter, hholding⟩ := remove_holding h g hp hready hwanted hworking hfresh₂
      hclock₂
    rw [hremove]
    exact ⟨hholding, c, t', x', hafter.trans hget, w₁, _, _, hnear, hread, hexit, hmakes⟩
  | error e =>
    obtain ⟨w₃, hremove, -, hholding⟩ := remove_holding h g hp hready hwanted hrun hfresh₂ hclock₂
    rw [hremove]
    exact hholding

/-- A conversion with a program: what is wanted is what the program made, or the conversion fails. -/
theorem convert_holding (h : Holding s own w) (g : Ground s)
    (hown : ∀ m, own m → IsScratchName s.start.fresh m) {j k : Nat}
    (hj : s.start.fresh ≤ j) {content : Content} {t : Time} {x : Bool}
    (hfile : w.files.get? (s.place ++ [scratchStem j ++ '.' :: OutputFormat.docx.name]) =
      some (.file content t x)) (hk : s.start.fresh ≤ k) (format : OutputFormat)
    (call : ConverterProgramCall) :
    match (Converter.ofProgram call
      (s.directory.child (scratchStem j ++ '.' :: OutputFormat.docx.name))
      (s.directory.child (scratchStem k ++ '.' :: format.name))).perform w with
    | (.ok _, w') => Holding s (fun m => own m ∨ m = scratchStem k ++ '.' :: format.name) w' ∧
        ∃ c t x, w'.files.get? (s.place ++ [scratchStem k ++ '.' :: format.name]) =
            some (.file c t x) ∧
          IsConverted s call.program format.name content c
    | (.error _, w') => Holding s (fun m => own m ∨ m = scratchStem k ++ '.' :: format.name) w' := by
  have hformats : ¬ format.name ∉ Conversion.formats := by cases format <;> decide
  have hwanted : IsWanted s (scratchStem k ++ '.' :: format.name) :=
    ⟨isScratchName_scratch hk (isEnding_name format), by simp,
      isDown_scratch k (isEnding_name format)⟩
  have hstays : Holding s (fun m => own m ∨ m = scratchStem k ++ '.' :: format.name) w :=
    h.mono (fun _ => Or.inl) fun m hm => hm.elim (h.names m) fun heq => Or.inl (heq ▸ hwanted.scratch)
  have hname : "docgen_convert_".toList ++ Text.ofNatPadded 8 w.fresh = privateStem w.fresh := rfl
  unfold Converter.ofProgram
  rw [formatOf_scratch]
  dsimp only
  rw [if_neg hformats, Task.perform_bind, Task.perform_script, run_isProgram]
  dsimp only
  by_cases hprogram : (!(Script.run (Conversion.isProgram call.program) w).1) = true
  · rw [if_pos hprogram]
    exact hstays
  · rw [if_neg hprogram, Task.perform_bind, Task.perform_script, Script.run_fresh]
    dsimp only
    rw [hname, Task.perform_bind, Task.perform_step, Script.run_makeDirectory]
    dsimp only
    cases hmake : w.files.makeDirectory w.clock
        (Conversion.privateRoot.child (privateStem w.fresh)).toText with
    | error e => exact hstays.of_files rfl (Nat.le_succ _) rfl
    | ok fs =>
      obtain ⟨root, hroot, hfits, hnone, rfl⟩ := FileSystem.makeDirectory_child_ok h.kept.sound
        isClean_privateRoot (isDown_private w.fresh) hmake
      have hstem : (s.directory.child (scratchStem j ++ '.' :: OutputFormat.docx.name)).stem =
          scratchStem j :=
        Path.stem_child _ (scratchStem_ne_nil j) (by decide) (by decide)
      have hrun := private_holding h g hown ⟨h.fresh, hroot, hfits, hnone⟩
        (isScratchName_scratch hj (isEnding_name .docx)) hfile format.name
        (by rw [hstem]; exact isDown_scratch j (isEnding_name format)) hwanted call { w with
          fresh := w.fresh + 1
          files := w.files.put (root ++ [privateStem w.fresh]) (.directory w.clock) }
        rfl (Nat.le_succ _) rfl
      dsimp only [World.change]
      rw [Task.perform_bind]
      revert hrun
      generalize Task.perform (Task.thenTidy _ _) _ = r
      obtain ⟨result, w₂⟩ := r
      cases result with
      | error e => exact id
      | ok u =>
        rintro ⟨hholding, c, t', x', hget, hconverted⟩
        exact ⟨hholding.of_files rfl (Nat.le_refl _) rfl, c, t', x', hget, hconverted⟩

end

end MailMerge.Generation
