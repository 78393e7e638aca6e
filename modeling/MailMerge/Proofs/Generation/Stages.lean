import MailMerge.Proofs.Generation.Scratch
import MailMerge.Proofs.Resolution.Confinement
/-!
# The stages of the work

What each stage of making a document does to the files: it copies the template, fills the copy and
writes the filled document, and moves it to its final name. A stage that fails leaves own files behind
at most.
-/
namespace MailMerge.Generation

open FileSystem (Fits kept_put kept_drop)
open MailMerge.Path (IsDown)

theorem isEnding_ending {p : Path} (hp : p.IsClean) : IsEnding p.ending := by
  have hname : '/' ∉ p.name := by
    unfold Path.name
    rw [List.getLastD_eq_getLast?]
    cases hlast : p.names.getLast? with
    | none => exact List.not_mem_nil
    | some n => exact (hp.names n (List.mem_of_getLast? hlast)).no_slash
  unfold Path.ending Path.splitName
  dsimp only
  split
  · refine Or.inr ⟨_, rfl, fun h => hname ?_⟩
    exact List.mem_reverse.1 (List.takeWhile_subset _ (List.mem_reverse.1 h))
  · exact Or.inl rfl

theorem run_scratchPath (directory : Path) (ending : Text) (w : World) :
    Script.run (scratchPath directory ending) w =
      (directory.child (scratchStem w.fresh ++ ending), { w with fresh := w.fresh + 1 }) := rfl

section
variable {s : Setting} {own : Text → Prop} {w : World} {n : Text}

/-- Writing a file under a name that was not in use makes it an own one. -/
theorem Holding.write (h : Holding s own w) (g : Ground s) (hn : IsScratchName s.start.fresh n)
    (hd : IsDown n) {c : Content} {fs : FileSystem}
    (hw : w.files.write w.clock (s.directory.child n).toText c = .ok fs) :
    Holding s (fun m => own m ∨ m = n) { w with files := fs } ∧
      ∃ x, fs.get? (s.place ++ [n]) = some (.file c w.clock x) := by
  have hm := h.meansDirectory g
  have hnode := h.atMostFile g hn
  obtain ⟨hf, x, rfl⟩ :=
    FileSystem.write_child h.kept.sound g.clean hd hm hnode hw
  have hput := kept_put h.kept.sound hnode.not_isDirectory
    (FileSystem.isName_child h.kept.sound hm hf.name) c w.clock x
  exact ⟨h.change (hput.mono fun _ hq => ⟨hf, hq⟩) (Or.inl hn), x,
    FileSystem.get?_put_self (by simp) _⟩

/-- The copy of the template, or nothing. -/
theorem stage_holding (h : Holding s (fun _ => False) w) (g : Ground s) {template : Path}
    (ht : template.IsClean) :
    match (stage template s.directory).perform w with
    | (.ok staged, w') => ∃ n c t x, staged = s.directory.child n ∧
        IsScratchName s.start.fresh n ∧ IsDown n ∧ Holding s (· = n) w' ∧
        w.files.read template.toText = .ok c ∧
        w'.files.get? (s.place ++ [n]) = some (.file c t x)
    | (.error _, w') => Holding s (fun _ => False) w' := by
  have he := isEnding_ending ht
  have hn := isScratchName_scratch h.fresh he
  have hd := isDown_scratch w.fresh he
  have hnext : Holding s (fun _ => False) { w with fresh := w.fresh + 1 } :=
    h.of_files rfl (Nat.le_succ _) rfl
  -- a copy that cannot be made is removed, if anything of it is there
  have hlost : Holding s (fun _ => False)
      (Script.run (discard (s.directory.child (scratchStem w.fresh ++ template.ending)))
        { w with fresh := w.fresh + 1 }).2 :=
    (discard_holding hnext g hn hd).1.congr fun m => ⟨fun hm => hm.1, fun hm => hm.elim⟩
  unfold stage
  rw [Task.perform_bind, Task.perform_script, run_scratchPath]
  dsimp only
  rw [Task.perform_bind, Task.perform_script, Script.run_read]
  dsimp only
  cases hread : w.files.read template.toText with
  | error e =>
    rw [Task.perform_bind, Task.perform_script]
    exact hlost
  | ok c =>
    dsimp only
    rw [Task.perform_bind, Task.perform_script, Script.run_write]
    dsimp only
    cases hwrite : w.files.write w.clock
        (s.directory.child (scratchStem w.fresh ++ template.ending)).toText c with
    | error e =>
      dsimp only [World.change]
      rw [Task.perform_bind, Task.perform_script]
      exact hlost
    | ok fs =>
      obtain ⟨hholding, x, hfile⟩ := hnext.write g hn hd hwrite
      exact ⟨_, c, w.clock, x, rfl, hn, hd,
        hholding.congr fun m => ⟨fun hm => hm.resolve_left id, Or.inr⟩, rfl, hfile⟩

/-! ## Filling -/

theorem run_applyOne (images : ImageReader) (present : List Text) (f : Filling) (k : Text) (v : Value)
    (w : World) : (Script.run (Document.applyOne images present f k v) w).2 = w := by
  unfold Document.applyOne
  cases f.result with
  | error e => rfl
  | ok m =>
    dsimp only
    split
    · rfl
    · split <;> rfl

/-- Filling a document changes no files. -/
theorem run_apply_files (images : ImageReader) (d : Document) (m : DataMap) (w : World) :
    (Script.run (d.apply images m) w).2.files = w.files ∧
      (Script.run (d.apply images m) w).2.fresh = w.fresh := by
  have hfrom : ∀ (l : DataMap) (f : Filling) (w : World),
      (Script.run (Document.applyFrom images d.placeholders f l) w).2 = w := by
    intro l
    induction l with
    | nil => exact fun _ _ => rfl
    | cons e l ih =>
      intro f w
      obtain ⟨k, v⟩ := e
      rw [Document.applyFrom, Script.run_bind, ih, run_applyOne]
  unfold Document.apply
  rw [Script.run_bind, Script.run_bind, hfrom, Script.run_noteAll]
  exact ⟨rfl, rfl⟩

theorem run_load? (p : Text) (w : World) :
    Script.run (Document.load? p) w =
      (match w.files.read p with
        | .ok c => c.document?
        | .error _ => none, w) := by
  unfold Document.load?
  rw [Script.run_bind, Script.run_read]
  cases w.files.read p <;> rfl

/-- Whether a world is the one at the start but for the cache and the files of the work. -/
structure Near (s : Setting) (w : World) : Prop where
  clock : w.clock = s.start.clock
  same : ∀ q, ¬ s.start.files.Inside s.cache.directory q → ¬ IsScratch s.start.fresh q →
    w.files.get? q = s.start.files.get? q

theorem Holding.near (h : Holding s own w) (hown : ∀ n, own n → IsScratchName s.start.fresh n) :
    Near s w := by
  refine ⟨h.clock, fun q hin hscratch => h.kept.same q ?_⟩
  rintro (hentry | ⟨n, hn, -, rfl⟩)
  · exact hin (inside_of_isEntry hentry)
  · exact hscratch (isScratch_child (hown n hn) _)

/-- Whether a document is a template with what an engine makes of its placeholders put in. -/
def IsFilled (s : Setting) (engine : Engine) (images : ImageReader) (data : DataMap)
    (template filled : Document) : Prop :=
  ∃ w values w', Near s w ∧ Near s w' ∧
    (Script.run (engine s.cache template.placeholders data) w).1.1 = .ok values ∧
    (Script.run (template.apply images values) w').1.document = filled ∧
    ∃ n, (Script.run (template.apply images values) w').1.result = .ok n

/-- The engine changes no files but entries of the cache. -/
theorem run_ofStudio {studio : Studio} {env : Environment} {kinds : List Kind} {c : AssetCache}
    (hs : w.files.IsSound) (hc : c.directory.IsClean) (tokens : List Text) (data : DataMap) :
    c.Confined w.files
      (Script.run (Engine.ofStudio studio env kinds c tokens data) w).2.files := by
  unfold Engine.ofStudio
  rw [Script.run_bind]
  exact Resolution.resolveAll_confined hs hc kinds tokens data

/-- The filled document, or own files as before. -/
theorem render_holding (studio : Studio) (env : Environment) (kinds : List Kind)
    (images : ImageReader)
    (h : Holding s own w) (g : Ground s) (hown : ∀ n, own n → IsScratchName s.start.fresh n)
    {m r : Text} (hm : IsScratchName s.start.fresh m) {template : Content} {t : Time} {x : Bool}
    (hfile : w.files.get? (s.place ++ [m]) = some (.file template t x))
    (hr : IsScratchName s.start.fresh r) (hd : IsDown r) (data : DataMap) :
    match perform (render (Engine.ofStudio studio env kinds) images (s.directory.child m)
      (s.directory.child r) data) s.cache w with
    | ((.ok _, _), w') => Holding s (fun n => own n ∨ n = r) w' ∧
        ∃ d filled t x, template.document? = some d ∧
          IsFilled s (Engine.ofStudio studio env kinds) images data d filled ∧
          w'.files.get? (s.place ++ [r]) = some (.file (.document filled) t x)
    | ((.error _, _), w') => Holding s own w' := by
  have hread := (h.own_of_get? g hm hfile).2.read_file g.clean (h.meansDirectory g) hfile
  unfold render
  rw [perform_bind, perform_lift, Task.perform_script, run_load?, hread]
  dsimp only
  cases htemplate : template.document? with
  | none => exact h
  | some d =>
    dsimp only
    rw [perform_bind, perform_get]
    dsimp only
    rw [perform_bind, perform_lift, Task.perform_script]
    have hconfined : s.cache.Confined w.files
        (Script.run (Engine.ofStudio studio env kinds s.cache d.placeholders data) w).2.files :=
      run_ofStudio h.kept.sound g.cacheClean d.placeholders data
    have hnext := h.confined hconfined (Script.run_follows _ w).fresh
      (Script.run_follows _ w).clock
    cases hvalues : Script.run (Engine.ofStudio studio env kinds s.cache d.placeholders data) w with
    | mk r₁ w₁ =>
      obtain ⟨values, c'⟩ := r₁
      rw [hvalues] at hnext
      dsimp only at hnext ⊢
      rw [perform_bind, perform_set]
      dsimp only
      unfold store
      cases values with
      | error e =>
        cases e <;> exact hnext
      | ok values =>
        dsimp only
        rw [perform_bind, perform_lift, Task.perform_script]
        obtain ⟨hfiles, hsame⟩ := run_apply_files images d values w₁
        have hafter : Holding s own (Script.run (d.apply images values) w₁).2 :=
          hnext.of_files hfiles (Nat.le_of_eq hsame.symm) (Script.run_follows _ _).clock
        dsimp only
        cases hresult : (Script.run (d.apply images values) w₁).1.result with
        | error f => exact hafter
        | ok count =>
          dsimp only
          rw [perform_bind, perform_lift, Task.perform_script, Script.run_write]
          cases hwrite : (Script.run (d.apply images values) w₁).2.files.write
              (Script.run (d.apply images values) w₁).2.clock (s.directory.child r).toText
              (.document (Script.run (d.apply images values) w₁).1.document) with
          | error e => exact hafter
          | ok fs =>
            obtain ⟨hholding, x', hget⟩ := hafter.write g hr hd hwrite
            exact ⟨hholding, d, _, _, x', rfl, ⟨w, values, w₁, h.near hown, hnext.near hown,
              by rw [hvalues], rfl, count, hresult⟩, hget⟩

/-! ## Publishing -/

/-- Moving an own file onto the final name: the name holds what the file held, or nothing has
changed. -/
theorem publish_holding (h : Holding s own w) (g : Ground s) {r : Text}
    (hr : IsScratchName s.start.fresh r) {c : Content} {t : Time} {x : Bool}
    (hfile : w.files.get? (s.place ++ [r]) = some (.file c t x)) (hf : IsDown s.final) :
    match (publish (s.directory.child r) (s.directory.child s.final)).perform w with
    | (.ok _, w') => Holding s (fun n => own n ∨ n = s.final) w' ∧ Fits s.directory s.final ∧
        w'.files.get? (s.place ++ [s.final]) = some (.file c t x)
    | (.error _, w') => Holding s own w' := by
  have hm := h.meansDirectory g
  obtain ⟨ho, hfits⟩ := h.own_of_get? g hr hfile
  have hne : s.place ++ [r] ≠ s.place ++ [s.final] := by
    intro heq
    obtain ⟨-, heq⟩ := List.append_inj' heq rfl
    exact g.final (List.singleton_inj.1 heq ▸ hr)
  unfold publish
  rw [Task.perform_bind, Task.perform_script, Script.run_rename]
  dsimp only
  cases hrename : w.files.rename (s.directory.child r).toText
      (s.directory.child s.final).toText with
  | error e => exact h
  | ok fs =>
    obtain ⟨q, hm', hfits', hdir, hmove⟩ := hfits.rename_file h.kept.sound g.clean hm hfile g.clean
      hf hrename
    obtain rfl := hm'.unique hm
    rcases hmove with ⟨heq, -⟩ | ⟨-, rfl⟩
    · exact absurd heq hne
    · have hdrop := kept_drop h.kept.sound (h.atMostFile g hr).not_isDirectory
      have hput := kept_put hdrop.sound (fun hd => hdir ((hdrop.directory_iff _).1 hd))
        (FileSystem.isName_child h.kept.sound hm hfits'.name) c t x
      have hmoved := (h.change (hdrop.mono fun _ hq => ⟨hfits, hq⟩) (Or.inl hr)).change
        (n := s.final) (hput.mono fun _ hq => ⟨hfits', hq⟩) (Or.inr rfl)
      refine ⟨hmoved.congr fun n => ⟨?_, fun hn => hn.imp_left Or.inl⟩, hfits',
        FileSystem.get?_put_self (by simp) _⟩
      rintro ((hn | rfl) | hn)
      · exact Or.inl hn
      · exact Or.inl ho
      · exact Or.inr hn

end

end MailMerge.Generation
