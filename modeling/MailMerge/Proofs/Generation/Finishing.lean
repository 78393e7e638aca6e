import MailMerge.Proofs.Generation.Converting
/-!
# From the template to the final name

The stages put together: whichever of them fails, the own files are removed again, and where none
fails the final name holds the document.

* `finish_holding`: converting and moving to the final name.
* `execute_holding`: the whole work of a plan.
-/
namespace MailMerge.Generation

open FileSystem (Fits)
open MailMerge.Path (IsDown)

/-- Whether a file of a format holds what becomes of a filled document: the document itself, or what
the program made of it. -/
def IsOutput (s : Setting) (call? : Option ConverterProgramCall) (format : OutputFormat)
    (filled output : Content) : Prop :=
  match format with
  | .docx => output = filled
  | .odt | .pdf => ∃ call, call? = some call ∧ IsConverted s call.program format.name filled output

theorem isOutput_of_converted {s : Setting} {call : ConverterProgramCall} {format : OutputFormat}
    {filled output : Content} (hformat : format ≠ .docx)
    (h : IsConverted s call.program format.name filled output) :
    IsOutput s (some call) format filled output := by
  cases format with
  | docx => exact absurd rfl hformat
  | odt => exact ⟨call, rfl, h⟩
  | pdf => exact ⟨call, rfl, h⟩

section
variable {s : Setting} {own own' : Text → Prop} {w : World} {n : Text}

/-- After an own file has been removed, the other own names are own. -/
theorem Holding.discard (h : Holding s own w) (g : Ground s) (hn : IsScratchName s.start.fresh n)
    (hd : IsDown n) (hsub : ∀ m, own m → m ≠ n → own' m)
    (hnames : ∀ m, own' m → IsScratchName s.start.fresh m ∨ m = s.final) :
    Holding s own' (Script.run (Generation.discard (s.directory.child n)) w).2 :=
  (discard_holding h g hn hd).1.mono (fun m hm => hsub m hm.1 hm.2) hnames

theorem Ground.ne_final (g : Ground s) (hn : IsScratchName s.start.fresh n) :
    s.place ++ [s.final] ≠ s.place ++ [n] := by
  intro heq
  obtain ⟨-, heq⟩ := List.append_inj' heq rfl
  exact g.final (List.singleton_inj.1 heq ▸ hn)

/-- Converting a filled document if its format asks for it, and moving it to the final name. -/
theorem finish_holding (h : Holding s own w) (g : Ground s)
    (hown : ∀ m, own m → IsScratchName s.start.fresh m) {j : Nat} (hj : s.start.fresh ≤ j)
    {content : Content} {t : Time} {x : Bool}
    (hfile : w.files.get? (s.place ++ [scratchStem j ++ '.' :: OutputFormat.docx.name]) =
      some (.file content t x))
    (hf : IsDown s.final) (format : OutputFormat) (call? : Option ConverterProgramCall) :
    match (finish (call?.map Converter.ofProgram) format s.directory
      (s.directory.child (scratchStem j ++ '.' :: OutputFormat.docx.name))
      (s.directory.child s.final)).perform w with
    | (.ok _, w') => Holding s (fun m => own m ∨ m = s.final) w' ∧ Fits s.directory s.final ∧
        ∃ c t x, w'.files.get? (s.place ++ [s.final]) = some (.file c t x) ∧
          IsOutput s call? format content c
    | (.error _, w') => Holding s own w' := by
  unfold finish
  by_cases hformat : format = .docx
  · subst hformat
    rw [if_pos rfl]
    have hpublish := publish_holding h g (isScratchName_scratch hj (isEnding_name .docx)) hfile hf
    revert hpublish
    generalize Task.perform (publish _ _) w = r
    obtain ⟨result, w₁⟩ := r
    cases result with
    | error e => exact id
    | ok u => exact fun ⟨hholding, hfits, hget⟩ => ⟨hholding, hfits, content, t, x, hget, rfl⟩
  · rw [if_neg hformat, Task.perform_bind, Task.perform_script, run_scratchPath]
    dsimp only
    rw [Task.perform_thenTidy]
    have hnext : Holding s own { w with fresh := w.fresh + 1 } := h.of_files rfl (Nat.le_succ _) rfl
    have hscratch := isScratchName_scratch h.fresh (isEnding_name format)
    have hdown := isDown_scratch w.fresh (isEnding_name format)
    cases call? with
    | none => exact hnext.discard g hscratch hdown (fun _ hm _ => hm) h.names
    | some call =>
      rw [Option.map_some]
      dsimp only
      rw [Task.perform_bind]
      have hconvert := convert_holding hnext g hown hj hfile h.fresh format call
      revert hconvert
      generalize Task.perform (Converter.ofProgram call _ _) _ = r
      obtain ⟨result, w₁⟩ := r
      cases result with
      | error e =>
        exact fun hconvert => hconvert.discard g hscratch hdown
          (fun m hm hne => hm.resolve_right hne) h.names
      | ok u =>
        rintro ⟨hconvert, c, t', x', hget, hconverted⟩
        dsimp only
        have hpublish := publish_holding hconvert g hscratch hget hf
        revert hpublish
        generalize Task.perform (publish _ _) w₁ = r
        obtain ⟨result, w₂⟩ := r
        cases result with
        | error e =>
          exact fun hpublish => hpublish.discard g hscratch hdown
            (fun m hm hne => hm.resolve_right hne) h.names
        | ok u =>
          rintro ⟨hpublish, hfits, hfinal⟩
          refine ⟨hpublish.discard g hscratch hdown (fun m hm hne => ?_) fun m hm => ?_, hfits, c, t',
            x', ?_, isOutput_of_converted hformat hconverted⟩
          · exact hm.imp_left fun hm => hm.resolve_right hne
          · exact hm.elim (h.names m) Or.inr
          · exact ((discard_holding hpublish g hscratch hdown).2 _ (g.ne_final hscratch)).trans hfinal

/-- Filling the copy of the template and finishing the document. -/
theorem produce_holding (studio : Studio) (env : Environment) (kinds : List Kind)
    (images : ImageReader)
    (h : Holding s own w) (g : Ground s) (hown : ∀ m, own m → IsScratchName s.start.fresh m)
    (hn : IsScratchName s.start.fresh n) {j : Nat} (hj : s.start.fresh ≤ j) {template : Content}
    {t : Time} {x : Bool} (hfile : w.files.get? (s.place ++ [n]) = some (.file template t x))
    (hf : IsDown s.final) (data : DataMap) (format : OutputFormat)
    (call? : Option ConverterProgramCall) :
    match perform (do
        render (Engine.ofStudio studio env kinds) images (s.directory.child n)
          (s.directory.child (scratchStem j ++ '.' :: OutputFormat.docx.name)) data
        lift (finish (call?.map Converter.ofProgram) format s.directory
          (s.directory.child (scratchStem j ++ '.' :: OutputFormat.docx.name))
          (s.directory.child s.final))) s.cache w with
    | ((.ok _, _), w') =>
        Holding s (fun m => (own m ∨ m = scratchStem j ++ '.' :: OutputFormat.docx.name) ∨
          m = s.final) w' ∧ Fits s.directory s.final ∧ ∃ d filled c t x,
          template.document? = some d ∧
          IsFilled s (Engine.ofStudio studio env kinds) images data d filled ∧
          w'.files.get? (s.place ++ [s.final]) = some (.file c t x) ∧
          IsOutput s call? format (.document filled) c
    | ((.error _, _), w') =>
        Holding s (fun m => own m ∨ m = scratchStem j ++ '.' :: OutputFormat.docx.name) w' := by
  have hr := isScratchName_scratch hj (isEnding_name .docx)
  have hrender := render_holding studio env kinds images h g hown hn hfile hr
    (isDown_scratch j (isEnding_name .docx)) data
  rw [perform_bind]
  revert hrender
  generalize perform (render _ _ _ _ _) s.cache w = r
  obtain ⟨⟨result, c'⟩, w₁⟩ := r
  cases result with
  | error e =>
    exact fun hrender => hrender.mono (fun _ => Or.inl) fun m hm =>
      hm.elim (h.names m) fun heq => Or.inl (heq ▸ hr)
  | ok u =>
    rintro ⟨hrender, d, filled, t', x', hd, hfilled, hget⟩
    dsimp only
    rw [perform_lift]
    have hfinish := finish_holding hrender g (fun m hm => hm.elim (hown m) fun heq => heq ▸ hr) hj hget
      hf format call?
    revert hfinish
    generalize Task.perform (finish _ _ _ _ _) w₁ = r
    obtain ⟨result, w₂⟩ := r
    cases result with
    | error e => exact id
    | ok u =>
      rintro ⟨hfinish, hfits, c, t₂, x₂, hfinal, houtput⟩
      exact ⟨hfinish, hfits, d, filled, c, t₂, x₂, hd, hfilled, hfinal, houtput⟩

/-- The whole work of a plan: the final name holds the document and nothing else has changed, or
nothing has changed. -/
theorem execute_holding (studio : Studio) (env : Environment) (kinds : List Kind)
    (images : ImageReader)
    (h : Holding s (fun _ => False) w) (g : Ground s) {template : Path} (ht : template.IsClean)
    (hf : IsDown s.final) (data : DataMap) (format : OutputFormat)
    (call? : Option ConverterProgramCall) :
    match perform (execute ⟨Engine.ofStudio studio env kinds, images, call?.map Converter.ofProgram⟩
      ⟨data, template, s.directory, format, s.directory.child s.final⟩) s.cache w with
    | ((.ok p, _), w') => p = s.directory.child s.final ∧ Holding s (· = s.final) w' ∧
        Fits s.directory s.final ∧ ∃ content d filled c t x,
          w.files.read template.toText = .ok content ∧ content.document? = some d ∧
          IsFilled s (Engine.ofStudio studio env kinds) images data d filled ∧
          w'.files.get? (s.place ++ [s.final]) = some (.file c t x) ∧
          IsOutput s call? format (.document filled) c
    | ((.error _, _), w') => Holding s (fun _ => False) w' := by
  have hnames : ∀ m, False → IsScratchName s.start.fresh m ∨ m = s.final := fun _ hm => hm.elim
  unfold execute
  rw [perform_bind, perform_lift, Task.perform_script, Script.run_note]
  dsimp only
  rw [perform_bind, perform_lift]
  have hstage := stage_holding (w := { w with log := w.log ++ [.info "generation_started"] })
    (h.of_files rfl (Nat.le_refl _) rfl) g ht
  revert hstage
  generalize Task.perform (stage _ _) _ = r
  obtain ⟨result, w₁⟩ := r
  cases result with
  | error e => exact id
  | ok staged =>
    rintro ⟨n, content, t, x, rfl, hn, hd, hstage, hread, hfile⟩
    dsimp only
    rw [perform_bind, perform_lift, Task.perform_script, run_scratchPath]
    dsimp only
    rw [perform_bind, perform_thenTidy, Script.run_bind]
    have hj := hstage.fresh
    have hr := isScratchName_scratch hj (isEnding_name .docx)
    have hdown := isDown_scratch w₁.fresh (isEnding_name .docx)
    have hproduce := produce_holding studio env kinds images
      (w := { w₁ with fresh := w₁.fresh + 1 }) (hstage.of_files rfl (Nat.le_succ _) rfl) g
      (fun m hm => hm ▸ hn) hn hj hfile hf data format call?
    revert hproduce
    generalize perform _ s.cache _ = r
    obtain ⟨⟨result, c'⟩, w₂⟩ := r
    cases result with
    | error e =>
      intro hproduce
      have hleft : Holding s (· = scratchStem w₁.fresh ++ '.' :: OutputFormat.docx.name) _ :=
        hproduce.discard g hn hd (fun m hm hne => hm.resolve_left hne) fun m hm => Or.inl (hm ▸ hr)
      exact hleft.discard g hr hdown (fun m hm hne => hne hm) hnames
    | ok u =>
      rintro ⟨hproduce, hfits, d, filled, c, t', x', hdoc, hfilled, hfinal, houtput⟩
      have hleft : Holding s (fun m => m = scratchStem w₁.fresh ++ '.' :: OutputFormat.docx.name ∨
          m = s.final) _ := hproduce.discard g hn hd
        (fun m hm hne => hm.imp_left fun hm => hm.resolve_left hne)
        (by
          rintro m (rfl | hm)
          · exact Or.inl hr
          · exact Or.inr hm)
      have hlast : Holding s (· = s.final) _ := hleft.discard g hr hdown
        (fun m hm hne => hm.resolve_left hne) fun m hm => Or.inr hm
      refine ⟨rfl, hlast.of_files rfl (Nat.le_refl _) rfl, hfits, content, d, filled, c, t', x', hread,
        hdoc, hfilled, ?_, houtput⟩
      refine ((discard_holding hleft g hr hdown).2 _ (g.ne_final hr)).trans ?_
      exact ((discard_holding hproduce g hn hd).2 _ (g.ne_final hn)).trans hfinal

end

end MailMerge.Generation
