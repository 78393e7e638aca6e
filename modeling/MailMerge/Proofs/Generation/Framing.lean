import MailMerge.Proofs.Generation.Faults
/-!
# What the work leaves alone

Wherever the directory of the documents and the cache are, and whatever fails, the work changes nothing
but places with names of its own, entries of the cache and, where it succeeds, the final name in the
directory. `Framed` says so of two file systems; unlike `Kept` it allows for the private directory of a
conversion, which may be there.

* `Own.locate`: a path with a name of the work means a place with such a name.
* `Framed.unique`: a path goes on meaning the directory that it meant, if it means any.
* `execute_framed`: the whole work of a plan.
-/
namespace MailMerge.Generation

open FileSystem (Kept MeansDirectory Fits kept_refl kept_of_write kept_of_remove kept_of_rename
  isName_of_locate)
open MailMerge.Path (IsDown)

/-! ## Paths with names of the work -/

/-- Whether a path has a name that the work takes, or is below one that has. -/
inductive Own (first : Nat) : Path → Prop
  | scratch {p : Path} {n : Text} (hp : p.IsClean) (hn : IsDown n) (hs : IsScratchName first n) :
    Own first (p.child n)
  | child {p : Path} {n : Text} (h : Own first p) (hn : IsDown n) : Own first (p.child n)

/-- Whether no link has a name that the work takes. -/
def Unlinked (first : Nat) (fs : FileSystem) : Prop :=
  ∀ q t, IsScratch first q → fs.get? q ≠ some (.link t)

section
variable {first : Nat} {fs fs' : FileSystem} {p : Path} {q : Place}

theorem Own.isClean (h : Own first p) : p.IsClean := by
  induction h with
  | scratch hp hn => exact hp.child hn.part
  | child _ hn ih => exact ih.child hn.part

theorem isScratch_concat {n : Text} (hn : IsScratchName first n) (q : Place) :
    IsScratch first (q ++ [n]) := ⟨n, by simp, hn⟩

/-- A path with a name of the work means a place with such a name. -/
theorem Own.locate (h : Own first p) (hs : fs.IsSound) (hl : Unlinked first fs) {follow : Bool}
    (hq : fs.locate follow p.toText = .ok q) : IsScratch first q := by
  induction h generalizing follow q with
  | scratch hp hn hname =>
    obtain ⟨hf, r, hm⟩ := FileSystem.fits_of_locate hs hp hn hq
    have hscratch := isScratch_concat hname r
    cases (hf.locate hp hm (Or.inr fun t => hl _ t hscratch)).symm.trans hq
    exact hscratch
  | @child p n h hn ih =>
    obtain ⟨hf, r, hm⟩ := FileSystem.fits_of_locate hs h.isClean hn hq
    have hscratch := (ih hm.1).mono (List.prefix_append r [n])
    cases (hf.locate h.isClean hm (Or.inr fun t => hl _ t hscratch)).symm.trans hq
    exact hscratch

theorem Own.write (h : Own first p) (hs : fs.IsSound) (hl : Unlinked first fs) {now : Time}
    {c : Content} (hw : fs.write now p.toText c = .ok fs') : Kept fs (IsScratch first) fs' :=
  (kept_of_write hs hw).mono fun _ hq => h.locate hs hl hq

theorem Own.remove (h : Own first p) (hs : fs.IsSound) (hl : Unlinked first fs)
    (hr : fs.remove p.toText = .ok fs') : Kept fs (IsScratch first) fs' :=
  (kept_of_remove hs hr).mono fun _ hq => h.locate hs hl hq.1

/-- Moving a file changes the place it leaves and the one it goes to. -/
theorem Own.rename (h : Own first p) (hs : fs.IsSound) (hl : Unlinked first fs) {b : Text}
    {loose : Place → Prop} (hb : ∀ q, fs.locate false b = .ok q → loose q)
    (hr : fs.rename p.toText b = .ok fs') :
    Kept fs (fun q => IsScratch first q ∨ loose q) fs' := by
  have hfile : ∀ q target, fs.locate false p.toText = .ok q → fs.get? q ≠ some (.link target) :=
    fun q target hq => hl q target (h.locate hs hl hq)
  exact (kept_of_rename hs hfile hr).mono fun q hq => hq.imp (h.locate hs hl) (hb q)

theorem Own.rename_own (h : Own first p) (hs : fs.IsSound) (hl : Unlinked first fs) {p' : Path}
    (h' : Own first p') (hr : fs.rename p.toText p'.toText = .ok fs') :
    Kept fs (IsScratch first) fs' :=
  (h.rename hs hl (fun _ hq => h'.locate hs hl hq) hr).mono fun _ hq => hq.elim id id

end

/-! ## Frames -/

/-- Whether a file system is another one but for some places and those with names of the work. At the
latter there may be files and directories. -/
structure Framed (first : Nat) (fs : FileSystem) (loose : Place → Prop) (fs' : FileSystem) : Prop where
  sound : fs'.IsSound
  current : fs'.current = fs.current
  same : ∀ q, ¬ IsScratch first q → ¬ loose q → fs'.get? q = fs.get? q
  directory_iff : ∀ q, ¬ IsScratch first q → (fs'.IsDirectory q ↔ fs.IsDirectory q)
  links : ∀ q t, fs'.get? q = some (.link t) → fs.get? q = some (.link t)

/-- Whether the names of the work are not in use. -/
def Unused (first : Nat) (fs : FileSystem) : Prop := ∀ q, IsScratch first q → fs.get? q = none

section
variable {first : Nat} {fs fs' fs'' : FileSystem} {loose : Place → Prop} {p : Path} {q r : Place}

theorem Unused.not_isScratch (h : Unused first fs) {node : Node} (hq : fs.get? q = some node) :
    ¬ IsScratch first q := by
  intro hscratch
  rw [h q hscratch] at hq
  cases hq

theorem Unused.unlinked (h : Unused first fs) : Unlinked first fs := fun q t hq ht => by
  rw [h q hq] at ht
  cases ht

theorem framed_of_kept (h : Kept fs (fun q => IsScratch first q ∨ loose q) fs') :
    Framed first fs loose fs' :=
  ⟨h.sound, h.current, fun q hq hl => h.same q fun h => h.elim hq hl, fun q _ => h.directory_iff q,
    h.links⟩

theorem Framed.unlinked (h : Framed first fs loose fs') (hunused : Unused first fs) :
    Unlinked first fs' := by
  exact fun q t hq ht => hunused.unlinked q t hq (h.links q t ht)

theorem Framed.andThen (h : Framed first fs loose fs')
    (h' : Kept fs' (fun q => IsScratch first q ∨ loose q) fs'') : Framed first fs loose fs'' :=
  ⟨h'.sound, h'.current.trans h.current,
    fun q hq hl => (h'.same q fun h => h.elim hq hl).trans (h.same q hq hl),
    fun q hq => (h'.directory_iff q).trans (h.directory_iff q hq),
    fun q t ht => h.links q t (h'.links q t ht)⟩

theorem Framed.mono {loose' : Place → Prop} (h : Framed first fs loose fs')
    (hsub : ∀ q, loose q → loose' q) : Framed first fs loose' fs' :=
  ⟨h.sound, h.current, fun q hq hl => h.same q hq fun h => hl (hsub q h), h.directory_iff, h.links⟩

theorem Framed.scratch (h : Framed first fs loose fs') (h' : Kept fs' (IsScratch first) fs'') :
    Framed first fs loose fs'' := h.andThen (h'.mono fun _ => Or.inl)

/-- A way to a directory leads where it led, if it led to one. -/
theorem Framed.leads_unique (h : Framed first fs loose fs') (hunused : Unused first fs)
    {links : Nat} {p q r : Place} {names : List Text} (hl : FileSystem.Leads fs' true links p names q)
    (hq : fs'.IsDirectory q) (hr : fs.walk true links p names = .ok r) (hdir : fs.IsDirectory r) :
    q = r := by
  induction hl with
  | done =>
    rw [FileSystem.walk] at hr
    exact Except.ok.inj hr
  | stay _ ih =>
    rw [FileSystem.walk, if_neg (by decide), if_pos rfl] at hr
    exact ih hq hr
  | up _ ih =>
    rw [FileSystem.walk, if_neg (by decide), if_neg (by decide), if_pos rfl] at hr
    exact ih hq hr
  | missing hn hg =>
    obtain ⟨t, ht⟩ := hq
    cases hg.symm.trans ht
  | file hn hg =>
    obtain ⟨t, ht⟩ := hq
    cases hg.symm.trans ht
  | @enter links p n t rest q hn hg _ ih =>
    -- where the way goes on, it went on before, unless it ended
    rw [hn.walk] at hr
    cases hold : fs.get? (p ++ [n]) with
    | none =>
      rw [hold] at hr
      dsimp only at hr
      split at hr
      · cases hr
        obtain ⟨m, hm⟩ := hdir
        cases hold.symm.trans hm
      · cases hr
    | some node =>
      rw [hold] at hr
      cases node with
      | directory m => exact ih hq hr
      | file c m x =>
        dsimp only at hr
        split at hr
        · cases hr
          obtain ⟨m, hm⟩ := hdir
          cases hold.symm.trans hm
        · cases hr
      | link target =>
        obtain ⟨m, hm⟩ := (h.directory_iff _ (hunused.not_isScratch hold)).1 ⟨t, hg⟩
        cases hold.symm.trans hm
  | stop hn hg hf => cases hf
  | @jump links p n target rest q hn hg _ _ ih =>
    rw [hn.walk, h.links _ _ hg] at hr
    simp only [Bool.not_true, Bool.and_false, Bool.false_eq_true, if_false] at hr
    exact ih hq hr

/-- A path means no other directory than before. -/
theorem Framed.unique (h : Framed first fs loose fs') (hunused : Unused first fs)
    (hm : fs'.MeansDirectory p q) (hr : fs.MeansDirectory p r) : q = r := by
  obtain ⟨hz, hne, hlen, hleads⟩ := FileSystem.locate_eq_ok_iff.1 hm.1
  obtain ⟨-, -, -, hleads'⟩ := FileSystem.locate_eq_ok_iff.1 hr.1
  have horigin : fs'.origin p.toText = fs.origin p.toText := by
    unfold FileSystem.origin
    rw [h.current]
  rw [horigin] at hleads
  exact h.leads_unique hunused hleads hm.2 (FileSystem.walk_eq_ok_iff.2 hleads') hr.2

/-! ## Directories that come and go -/

theorem Framed.makeDirectory (h : Framed first fs loose fs') (hunused : Unused first fs)
    (hp : Own first p) {now : Time} (hmake : fs'.makeDirectory now p.toText = .ok fs'') :
    Framed first fs loose fs'' := by
  obtain ⟨q, hq, hnone, rfl⟩ := FileSystem.makeDirectory_ok hmake
  have hscratch := hp.locate h.sound (h.unlinked hunused) hq
  have hne := FileSystem.ne_nil_of_absent hnone
  have hother : ∀ r, r ≠ q → (fs'.put q (.directory now)).get? r = fs'.get? r :=
    fun r hr => FileSystem.get?_put_of_ne hne hr _
  have hapart : ∀ r, ¬ IsScratch first r → r ≠ q := fun r hr heq => hr (heq ▸ hscratch)
  refine ⟨FileSystem.isSound_put_directory h.sound hnone (isName_of_locate h.sound hq) now,
    h.current, fun r hr hl => (hother r (hapart r hr)).trans (h.same r hr hl), fun r hr => ?_,
    fun r t ht => ?_⟩
  · unfold FileSystem.IsDirectory
    rw [hother r (hapart r hr)]
    exact h.directory_iff r hr
  · by_cases hrq : r = q
    · rw [hrq, FileSystem.get?_put_self hne] at ht
      cases ht
    · rw [hother r hrq] at ht
      exact h.links r t ht

theorem Framed.removeTree (h : Framed first fs loose fs') (hs : fs.IsSound)
    (hunused : Unused first fs) (hp : Own first p) (hremove : fs'.removeTree p.toText = .ok fs'') :
    Framed first fs loose fs'' := by
  obtain ⟨q, hq, -, rfl⟩ := FileSystem.removeTree_ok hremove
  have hscratch := hp.locate h.sound (h.unlinked hunused) hq
  have hne : q ≠ [] := by
    rintro rfl
    obtain ⟨n, hn, -⟩ := hscratch
    exact absurd hn List.not_mem_nil
  have hother : ∀ r, ¬ IsScratch first r → (fs'.prune q).get? r = fs'.get? r := fun r hr => by
    rw [FileSystem.get?_prune hne, if_neg fun hprefix => hr (hscratch.mono hprefix)]
  have hless : ∀ r node, (fs'.prune q).get? r = some node → fs'.get? r = some node := by
    intro r node hr
    rw [FileSystem.get?_prune hne] at hr
    split at hr
    · cases hr
    · exact hr
  have hdirectory : ∀ r, ¬ IsScratch first r → ((fs'.prune q).IsDirectory r ↔ fs.IsDirectory r) := by
    intro r hr
    unfold FileSystem.IsDirectory
    rw [hother r hr]
    exact h.directory_iff r hr
  refine ⟨⟨fun r node hr => h.sound.names r node (hless r node hr), fun r hr => ?_,
    fun r t hr => h.sound.targets r t (hless r _ hr)⟩, h.current,
    fun r hr hl => (hother r hr).trans (h.same r hr hl), hdirectory,
    fun r t hr => h.links r t (hless r _ hr)⟩
  -- the current directory is an old one, so it is not below what has gone
  have hold : fs.IsDirectory r := hs.current r (h.current ▸ hr)
  obtain ⟨t, ht⟩ := hold
  exact (hdirectory r (hunused.not_isScratch ht)).2 ⟨t, ht⟩

end

/-! ## The stages up to the filled document -/

section
variable {first : Nat} {w : World} {p : Path}

theorem Unlinked.of_kept {fs fs' : FileSystem} {loose : Place → Prop} (hl : Unlinked first fs)
    (h : Kept fs loose fs') : Unlinked first fs' := fun q t hq ht => hl q t hq (h.links q t ht)

theorem own_scratch {directory : Path} (hd : directory.IsClean) {n : Nat} (hn : first ≤ n)
    {ending : Text} (he : IsEnding ending) : Own first (directory.child (scratchStem n ++ ending)) :=
  .scratch hd (isDown_scratch n he) (isScratchName_scratch hn he)

theorem discard_kept (hp : Own first p) (hs : w.files.IsSound) (hl : Unlinked first w.files) :
    Kept w.files (IsScratch first) (Script.run (discard p) w).2.files := by
  unfold discard
  rw [Script.run_bind, Script.run_remove]
  cases hr : w.files.remove p.toText with
  | ok fs => exact hp.remove hs hl hr
  | error e => cases e <;> exact (kept_refl hs).mono fun _ h => h.elim

theorem stage_kept {template directory : Path} (ht : template.IsClean) (hd : directory.IsClean)
    (hs : w.files.IsSound) (hl : Unlinked first w.files) (hfresh : first ≤ w.fresh) :
    Kept w.files (IsScratch first) ((stage template directory).perform w).2.files ∧
      ∀ staged, ((stage template directory).perform w).1 = .ok staged → Own first staged := by
  have hown := own_scratch hd hfresh (isEnding_ending ht)
  have hlost : Kept w.files (IsScratch first) (Script.run
      (discard (directory.child (scratchStem w.fresh ++ template.ending)))
      { w with fresh := w.fresh + 1 }).2.files :=
    discard_kept (w := { w with fresh := w.fresh + 1 }) hown hs hl
  unfold stage
  rw [Task.perform_bind, Task.perform_script, run_scratchPath]
  dsimp only
  rw [Task.perform_bind, Task.perform_script, Script.run_read]
  dsimp only
  cases w.files.read template.toText with
  | error e =>
    rw [Task.perform_bind, Task.perform_script]
    exact ⟨hlost, nofun⟩
  | ok c =>
    dsimp only
    rw [Task.perform_bind, Task.perform_script, Script.run_write]
    dsimp only
    cases hwrite : w.files.write w.clock
        (directory.child (scratchStem w.fresh ++ template.ending)).toText c with
    | error e =>
      dsimp only [World.change]
      rw [Task.perform_bind, Task.perform_script]
      exact ⟨hlost, nofun⟩
    | ok fs =>
      refine ⟨hown.write hs hl hwrite, fun staged h => ?_⟩
      cases h
      exact hown

theorem render_kept (studio : Studio) (env : Environment) (kinds : List Kind)
    (images : ImageReader) {c : AssetCache}
    (hc : c.directory.IsClean) (hs : w.files.IsSound) (hl : Unlinked first w.files)
    (staged : Path) (hp : Own first p) (data : DataMap) :
    Kept w.files (fun q => IsScratch first q ∨ c.IsEntry w.files q)
      (perform (render (Engine.ofStudio studio env kinds) images staged p data) c w).2.files := by
  have hsame : Kept w.files (fun q => IsScratch first q ∨ c.IsEntry w.files q) w.files :=
    (kept_refl hs).mono fun _ h => h.elim
  unfold render
  rw [perform_bind, perform_lift, Task.perform_script, run_load?]
  dsimp only
  generalize w.files.read staged.toText = content
  cases content with
  | error e => exact hsame
  | ok content =>
  dsimp only
  cases content.document? with
  | none => exact hsame
  | some d =>
    dsimp only
    rw [perform_bind, perform_get]
    dsimp only
    rw [perform_bind, perform_lift, Task.perform_script]
    have hconfined : c.Confined w.files
        (Script.run (Engine.ofStudio studio env kinds c d.placeholders data) w).2.files :=
      run_ofStudio hs hc d.placeholders data
    have hentries : Kept w.files (fun q => IsScratch first q ∨ c.IsEntry w.files q) _ :=
      hconfined.mono fun _ => Or.inr
    revert hentries
    generalize Script.run (Engine.ofStudio studio env kinds c d.placeholders data) w = r
    obtain ⟨⟨values, c'⟩, w₁⟩ := r
    intro hentries
    dsimp only at hentries ⊢
    rw [perform_bind, perform_set]
    dsimp only
    unfold store
    cases values with
    | error e => cases e <;> exact hentries
    | ok values =>
      dsimp only
      rw [perform_bind, perform_lift, Task.perform_script]
      obtain ⟨hfiles, -⟩ := run_apply_files images d values w₁
      dsimp only
      rw [← hfiles] at hentries
      cases (Script.run (d.apply images values) w₁).1.result with
      | error f => exact hentries
      | ok count =>
        dsimp only
        rw [perform_bind, perform_lift, Task.perform_script, Script.run_write]
        cases hwrite : (Script.run (d.apply images values) w₁).2.files.write
            (Script.run (d.apply images values) w₁).2.clock p.toText
            (.document (Script.run (d.apply images values) w₁).1.document) with
        | error e => exact hentries
        | ok fs =>
          exact hentries.andThen (hp.write hentries.sound (hl.of_kept hentries) hwrite) fun _ => Or.inl

end

/-! ## Conversions -/

section
variable {first : Nat} {fs : FileSystem} {loose : Place → Prop} {w : World} {p source target : Path}

theorem Own.names_ne_nil (h : Own first p) : p.names ≠ [] := by
  cases h <;> exact Path.child_names_ne_nil _ _

theorem Own.inside (h : Own first p) (name : Text) :
    Conversion.inside p.toText name = (p.child name).toText := by
  unfold Conversion.inside
  rw [if_neg (Path.getLast?_toText h.isClean h.names_ne_nil), Path.toText_child,
    if_neg h.names_ne_nil]

/-- Where a file goes that is moved to a path of the work. -/
theorem Own.goal (h : Own first p) {name : Text} (hname : IsDown name) (files : FileSystem) :
    ∃ q, Own first q ∧ Conversion.goal files name p.toText = q.toText := by
  unfold Conversion.goal
  split
  · split
    · exact ⟨p.child name, h.child hname, h.inside name⟩
    · exact ⟨p, h, rfl⟩
  · exact ⟨p, h, rfl⟩

theorem Framed.move (h : Framed first fs loose w.files) (hunused : Unused first fs)
    (hsource : Own first source) (htarget : Own first target) {name : Text} (hname : IsDown name) :
    Framed first fs loose ((Conversion.move source.toText name target.toText).perform w).2.files := by
  have hl := h.unlinked hunused
  obtain ⟨goal, hgoal, htext⟩ := htarget.goal hname w.files
  unfold Conversion.move
  rw [Task.perform_bind]
  by_cases hocc : Conversion.IsOccupied w.files name target.toText
  · rw [Conversion.perform_destination_occupied hocc]
    exact h
  · rw [Conversion.perform_destination_free hocc, htext]
    dsimp only
    rw [Task.perform_bind, Task.perform_script, Script.run_rename]
    dsimp only
    cases hrename : w.files.rename source.toText goal.toText with
    | ok files =>
      exact h.scratch (hsource.rename_own h.sound hl hgoal hrename)
    | error e =>
      dsimp only [World.change]
      rw [Task.perform_bind, Task.perform_step, Script.run_read]
      cases w.files.read source.toText with
      | error e => exact h
      | ok content =>
        dsimp only
        rw [Task.perform_bind, Task.perform_step, Script.run_write]
        cases hwrite : w.files.write w.clock goal.toText content with
        | error e => exact h
        | ok files =>
          have hwritten := h.scratch (hgoal.write h.sound hl hwrite)
          dsimp only [World.change]
          rw [Task.perform_step, Script.run_remove]
          cases hremove : files.remove source.toText with
          | error e => exact hwritten
          | ok files' =>
            exact hwritten.scratch
              (hsource.remove hwritten.sound (hwritten.unlinked hunused) hremove)

theorem Framed.collect (h : Framed first fs loose w.files) (hunused : Unused first fs)
    {directory : Path} (hdirectory : Own first directory) (htarget : Own first target) {made : Text}
    (hmade : IsDown made) (code : Nat) :
    Framed first fs loose ((Conversion.collect directory made code target).perform w).2.files := by
  unfold Conversion.collect
  dsimp only
  by_cases hcode : code = 0
  · rw [if_pos hcode, Task.perform_bind, Task.perform_step, Script.run_isFile]
    rcases Script.probed (!·.isDirectory) (w.files.status (directory.child made).toText) with
      e | _ | _
    · exact h
    · exact h
    · exact h.move hunused (hdirectory.child hmade) htarget hmade
  · rw [if_neg hcode]
    exact h

/-- A program makes a file in the directory that it is given, if any. -/
theorem execute_kept (hs : w.files.IsSound) (hl : Unlinked first w.files) {directory : Path}
    (hdirectory : Own first directory) (program : Text) {format : Text}
    (hmade : IsDown (source.stem ++ '.' :: format)) :
    Kept w.files (IsScratch first) (w.execute program (callOn source directory format)).2.files := by
  have hsame : Kept w.files (IsScratch first) w.files := (kept_refl hs).mono fun _ h => h.elim
  have htext : (callOn source directory format).directory ++
      '/' :: (callOn source directory format).name ++ '.' :: (callOn source directory format).format =
        (directory.child (source.stem ++ '.' :: format)).toText := by
    rw [Path.toText_child, if_neg hdirectory.names_ne_nil]
    exact List.append_assoc directory.toText ('/' :: source.stem) _
  unfold World.execute
  split
  · exact hsame
  · rename_i prog _
    split
    · exact hsame
    · unfold World.produce
      cases prog.makes with
      | none => exact hsame
      | some t =>
        dsimp only
        rw [htext]
        cases hwrite : w.files.write w.clock (directory.child (source.stem ++ '.' :: format)).toText
            (.text ((callOn source directory format).format ++ ':' :: t)) with
        | error e => exact hsame
        | ok files => exact (hdirectory.child hmade).write hs hl hwrite
  · exact hsame

theorem Framed.runIn (h : Framed first fs loose w.files) (hunused : Unused first fs)
    {directory : Path} (hdirectory : Own first directory) (htarget : Own first target)
    (call : ConverterProgramCall) {format : Text} (hmade : IsDown (source.stem ++ '.' :: format)) :
    Framed first fs loose ((Conversion.runIn directory call format source target).perform w).2.files := by
  have hrun : Script.run (Script.execute call.program
      ⟨source.toText, directory.toText, source.stem, format⟩) w =
        w.execute call.program (callOn source directory format) := rfl
  have hexecuted := h.scratch
    (execute_kept h.sound (h.unlinked hunused) hdirectory call.program hmade)
  unfold Conversion.runIn
  by_cases hnull : source.toText.contains '\x00' = true
  · rw [if_pos hnull]
    exact h
  · rw [if_neg hnull, Task.perform_bind, Task.perform_script, hrun]
    revert hexecuted
    generalize w.execute call.program (callOn source directory format) = r
    obtain ⟨ending, w₁⟩ := r
    intro hexecuted
    cases ending with
    | notStarted e => exact hexecuted
    | timedOut =>
      dsimp only
      rw [Task.perform_bind, Task.perform_ofExcept]
      cases Conversion.await call.seconds <;> exact hexecuted
    | garbled e =>
      dsimp only
      rw [Task.perform_bind, Task.perform_ofExcept]
      cases Conversion.await call.seconds <;> exact hexecuted
    | exited code =>
      dsimp only
      rw [Task.perform_bind, Task.perform_ofExcept]
      cases Conversion.await call.seconds with
      | error e => exact hexecuted
      | ok u => exact hexecuted.collect hunused hdirectory htarget hmade code

/-- A conversion changes nothing but names of the work, even if its private directory stays. -/
theorem Framed.convert (h : Framed first fs loose w.files) (hs : fs.IsSound)
    (hunused : Unused first fs) (hfresh : first ≤ w.fresh) (htarget : Own first target)
    (call : ConverterProgramCall)
    (hmade : IsDown (source.stem ++ '.' :: Conversion.formatOf target)) :
    Framed first fs loose ((Converter.ofProgram call source target).perform w).2.files := by
  have hroom : Own first (Conversion.room w) :=
    .scratch isClean_privateRoot (isDown_private _) (isScratchName_private hfresh)
  have hname : Conversion.privateRoot.child
      ("docgen_convert_".toList ++ Text.ofNatPadded 8 w.fresh) = Conversion.room w := rfl
  unfold Converter.ofProgram
  dsimp only
  by_cases hformat : Conversion.formatOf target ∈ Conversion.formats
  · rw [if_neg (not_not.2 hformat), Task.perform_bind, Task.perform_script, run_isProgram]
    dsimp only
    by_cases hprogram : (!(Script.run (Conversion.isProgram call.program) w).1) = true
    · rw [if_pos hprogram]
      exact h
    · rw [if_neg hprogram, Task.perform_bind, Task.perform_script, Script.run_fresh]
      dsimp only
      rw [hname, Task.perform_bind, Task.perform_step, Script.run_makeDirectory]
      dsimp only
      cases hmake : w.files.makeDirectory w.clock (Conversion.room w).toText with
      | error e => exact h
      | ok files =>
        have hmoved := (h.makeDirectory hunused hroom hmake).runIn
          (w := { w with files := files, fresh := w.fresh + 1 }) hunused hroom htarget call hmade
        dsimp only [World.change]
        rw [Task.perform_bind, Task.perform_thenTidy, Script.run_bind, Script.run_removeTree]
        revert hmoved
        generalize Task.perform (Conversion.runIn _ _ _ _ _) _ = r
        obtain ⟨result, w₁⟩ := r
        intro hmoved
        have htidied : Framed first fs loose
            (w₁.change (w₁.files.removeTree (Conversion.room w).toText)).2.files := by
          cases hremove : w₁.files.removeTree (Conversion.room w).toText with
          | error e => exact hmoved
          | ok files => exact hmoved.removeTree hs hunused hroom hremove
        cases result <;> exact htidied
  · rw [if_pos hformat]
    exact h

end

/-! ## The final name -/

section
variable {first : Nat} {fs : FileSystem} {loose : Place → Prop} {w : World}
  {directory result : Path} {place : Place} {final : Text}

/-- Whether a place is loose, or that of the final name. -/
def Finally (loose : Place → Prop) (place : Place) (final : Text) (q : Place) : Prop :=
  loose q ∨ q = place ++ [final]

/-- Moving a file of the work onto the final name changes the place of that, or nothing. -/
theorem Framed.publish (h : Framed first fs loose w.files) (hunused : Unused first fs)
    (hr : Own first result) (hd : directory.IsClean) (hm : fs.MeansDirectory directory place)
    (hf : IsDown final) :
    match (publish result (directory.child final)).perform w with
    | (.ok _, w') => Framed first fs (Finally loose place final) w'.files
    | (.error _, w') => Framed first fs loose w'.files := by
  unfold Generation.publish
  rw [Task.perform_bind, Task.perform_script, Script.run_rename]
  dsimp only
  cases hrename : w.files.rename result.toText (directory.child final).toText with
  | error e => exact h
  | ok files =>
    have hloose : Framed first fs (Finally loose place final) w.files := h.mono fun _ => Or.inl
    refine hloose.andThen (hr.rename h.sound (h.unlinked hunused) (fun q hq => Or.inr ?_) hrename)
    obtain ⟨hfits, r, hm'⟩ := FileSystem.fits_of_locate h.sound hd hf hq
    cases (hfits.locate hd hm' (Or.inl rfl)).symm.trans hq
    rw [h.unique hunused hm' hm]

theorem Framed.discard (h : Framed first fs loose w.files) (hunused : Unused first fs) {p : Path}
    (hp : Own first p) : Framed first fs loose (Script.run (discard p) w).2.files :=
  h.scratch (discard_kept hp h.sound (h.unlinked hunused))

theorem Framed.finish (h : Framed first fs loose w.files) (hs : fs.IsSound)
    (hunused : Unused first fs) (hfresh : first ≤ w.fresh) (hd : directory.IsClean)
    (hm : fs.MeansDirectory directory place) (hf : IsDown final)
    (call? : Option ConverterProgramCall) (format : OutputFormat) {n : Nat} (hn : first ≤ n) :
    match (finish (call?.map Converter.ofProgram) format directory
      (directory.child (scratchStem n ++ '.' :: OutputFormat.docx.name))
      (directory.child final)).perform w with
    | (.ok _, w') => Framed first fs (Finally loose place final) w'.files
    | (.error _, w') => Framed first fs loose w'.files := by
  have hrendered := own_scratch hd hn (isEnding_name .docx)
  have hconverted := own_scratch hd hfresh (isEnding_name format)
  unfold Generation.finish
  by_cases hformat : format = .docx
  · rw [if_pos hformat]
    exact h.publish hunused hrendered hd hm hf
  · rw [if_neg hformat, Task.perform_bind, Task.perform_script, run_scratchPath]
    dsimp only
    rw [Task.perform_thenTidy]
    cases call? with
    | none => exact Framed.discard (w := { w with fresh := w.fresh + 1 }) h hunused hconverted
    | some call =>
      have hstem : (directory.child (scratchStem n ++ '.' :: OutputFormat.docx.name)).stem =
          scratchStem n :=
        Path.stem_child _ (scratchStem_ne_nil n) (by decide) (by decide)
      have hmade : IsDown ((directory.child (scratchStem n ++ '.' :: OutputFormat.docx.name)).stem ++
          '.' :: Conversion.formatOf (directory.child (scratchStem w.fresh ++ '.' :: format.name))) := by
        rw [hstem, formatOf_scratch]
        exact isDown_scratch n (isEnding_name format)
      have hconvert := h.convert (w := { w with fresh := w.fresh + 1 }) hs hunused
        (Nat.le_succ_of_le hfresh) hconverted call hmade
      rw [Option.map_some]
      dsimp only
      rw [Task.perform_bind]
      revert hconvert
      generalize Task.perform (Converter.ofProgram call _ _) _ = r
      obtain ⟨result, w₁⟩ := r
      intro hconvert
      cases result with
      | error e => exact hconvert.discard hunused hconverted
      | ok u =>
        have hpublish := hconvert.publish (w := w₁) hunused hconverted hd hm hf
        dsimp only
        revert hpublish
        generalize Task.perform (Generation.publish _ _) w₁ = r
        obtain ⟨result, w₂⟩ := r
        cases result <;> exact fun hpublish => hpublish.discard hunused hconverted

/-- Filling the copy of the template and finishing the document. -/
theorem produce_framed (studio : Studio) (env : Environment) (kinds : List Kind)
    (images : ImageReader) (call? : Option ConverterProgramCall) {c : AssetCache} (hs : fs.IsSound)
    (hunused : Unused first fs) (hc : c.directory.IsClean) (hd : directory.IsClean)
    (hm : fs.MeansDirectory directory place) (hf : IsDown final)
    (hkept : Kept fs (IsScratch first) w.files) (hfresh : first ≤ w.fresh) {n : Nat} (hn : first ≤ n)
    (staged : Path) (data : DataMap) (format : OutputFormat) :
    match perform (do
      render (Engine.ofStudio studio env kinds) images staged
        (directory.child (scratchStem n ++ '.' :: OutputFormat.docx.name)) data
      lift (finish (call?.map Converter.ofProgram) format directory
        (directory.child (scratchStem n ++ '.' :: OutputFormat.docx.name))
        (directory.child final))) c w with
    | ((.ok _, _), w') => Framed first fs (Finally (c.IsEntry fs) place final) w'.files
    | ((.error _, _), w') => Framed first fs (c.IsEntry fs) w'.files := by
  have hl := hunused.unlinked.of_kept hkept
  have hrender := render_kept studio env kinds images hc hkept.sound hl staged
    (own_scratch hd hn (isEnding_name .docx)) data
  -- what is an entry of the cache now was one at the start
  have hrendered : Framed first fs (c.IsEntry fs)
      (perform (render (Engine.ofStudio studio env kinds) images staged
        (directory.child (scratchStem n ++ '.' :: OutputFormat.docx.name)) data) c w).2.files :=
    framed_of_kept ((hkept.trans hrender).mono fun q hq => by
      rcases hq with hq | hq | hentry
      · exact Or.inl hq
      · exact Or.inl hq
      · exact hentry.of_kept hkept)
  have hfollows : World.Follows w (perform (render (Engine.ofStudio studio env kinds) images staged
      (directory.child (scratchStem n ++ '.' :: OutputFormat.docx.name)) data) c w).2 :=
    Script.run_follows _ w
  rw [perform_bind]
  revert hrendered hfollows
  generalize perform (render _ _ _ _ _) c w = r
  obtain ⟨⟨result, c'⟩, w₁⟩ := r
  intro hrendered hfollows
  cases result with
  | error e => exact hrendered
  | ok u =>
    have hfinish := Framed.finish (w := w₁) hrendered hs hunused (Nat.le_trans hfresh hfollows.fresh)
      hd hm hf call? format hn
    dsimp only
    rw [perform_lift]
    revert hfinish
    generalize Task.perform (Generation.finish _ _ _ _ _) w₁ = r
    obtain ⟨result, w₂⟩ := r
    cases result <;> exact id

/-- Whatever becomes of the work of a plan, nothing has changed but names of the work, entries of the
cache and, where the work succeeds, the final name. -/
theorem execute_framed (studio : Studio) (env : Environment) (kinds : List Kind)
    (images : ImageReader) (call? : Option ConverterProgramCall) {c : AssetCache} (hs : w.files.IsSound)
    (hunused : Unused w.fresh w.files) (hc : c.directory.IsClean) {template : Path}
    (ht : template.IsClean) (hd : directory.IsClean) (hm : w.files.MeansDirectory directory place)
    (hf : IsDown final) (data : DataMap) (format : OutputFormat) :
    match perform (execute ⟨Engine.ofStudio studio env kinds, images, call?.map Converter.ofProgram⟩
      ⟨data, template, directory, format, directory.child final⟩) c w with
    | ((.ok _, _), w') =>
      Framed w.fresh w.files (Finally (c.IsEntry w.files) place final) w'.files
    | ((.error _, _), w') => Framed w.fresh w.files (c.IsEntry w.files) w'.files := by
  unfold execute
  rw [perform_bind, perform_lift, Task.perform_script, Script.run_note]
  dsimp only
  rw [perform_bind, perform_lift]
  obtain ⟨hstaged, hown⟩ := stage_kept (w := { w with log := w.log ++ [.info "generation_started"] })
    ht hd hs hunused.unlinked (Nat.le_refl w.fresh)
  have hfollows : World.Follows _ ((stage template directory).perform
      { w with log := w.log ++ [.info "generation_started"] }).2 := Script.run_follows _ _
  revert hstaged hown hfollows
  generalize Task.perform (stage template directory) _ = r
  obtain ⟨result, w₁⟩ := r
  intro hstaged hown hfollows
  cases result with
  | error e => exact framed_of_kept (hstaged.mono fun _ => Or.inl)
  | ok staged =>
    have hfresh : w.fresh ≤ w₁.fresh := hfollows.fresh
    dsimp only
    rw [perform_bind, perform_lift, Task.perform_script, run_scratchPath]
    dsimp only
    rw [perform_bind, perform_thenTidy, Script.run_bind]
    have hproduce := produce_framed studio env kinds images call? (w := { w₁ with fresh := w₁.fresh + 1 }) hs
      hunused hc hd hm hf hstaged (Nat.le_succ_of_le hfresh) hfresh staged data format
    have hrendered := own_scratch hd hfresh (isEnding_name .docx)
    revert hproduce
    generalize perform _ c _ = r
    obtain ⟨⟨result, c'⟩, w₂⟩ := r
    cases result <;>
      exact fun hproduce => (hproduce.discard hunused (hown staged rfl)).discard hunused hrendered

end

end MailMerge.Generation
