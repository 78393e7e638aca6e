import MailMerge.Proofs.Generation.Framing
import MailMerge.Proofs.Storage.Trails
/-!
# Templates

The template of a document is copied and left as it is, also where the work fails. It is changed only
where its path leads over the final name, so that the document takes its place, or over an entry of the
cache.

* `generate_keeps_template`: for every request, every cache and every converting program.
-/
namespace MailMerge.Generation

section
variable {fs : FileSystem} {t : Text}

/-- What means a file can be read. -/
theorem MeansFile.read (h : MeansFile fs t) : ∃ content, fs.read t = .ok content :=
  FileSystem.read_iff_status.2 h

theorem meansDirectory_of_meansSomeDirectory {p : Path} (h : MeansSomeDirectory fs p.toText) :
    ∃ place, fs.MeansDirectory p place := by
  obtain ⟨s, hs, hdir⟩ := h
  exact FileSystem.meansDirectory_of_status hs hdir

/-- A file that is there goes on being read while nothing on its trail is loose. -/
theorem Framed.read {first : Nat} {loose : Place → Prop} {fs' : FileSystem}
    (h : Framed first fs loose fs') (hs : fs.IsSound) (hunused : Unused first fs) {content : Content}
    (hread : fs.read t = .ok content) (hloose : ∀ q ∈ fs.trail t, ¬ loose q) :
    fs'.read t = fs.read t := by
  rw [hread]
  refine FileSystem.read_congr hs h.current (fun q hq => ?_) hread
  obtain ⟨node, hnode⟩ := Option.ne_none_iff_exists'.1 (FileSystem.get?_ne_none_of_mem_trail hread hq)
  exact h.same q (hunused.not_isScratch hnode) (hloose q hq)

end

/-- The template is left as it is, whatever becomes of a request: where no document is made, unless the
way to the template leads over an entry of the cache, and where one is made, unless the way leads over
the final name. -/
theorem generate_keeps_template (studio : Studio) (env : Environment) (kinds : List Kind)
    (images : ImageReader) (call? : Option ConverterProgramCall) {c : AssetCache} {r : Request} {w : World}
    (hs : w.files.IsSound) (hcache : c.directory.IsClean) (htemplate : r.template.IsClean)
    (hdirectory : r.directory.IsClean) (hunused : Unused w.fresh w.files)
    (hentry : ∀ q ∈ w.files.trail r.template.toText, ¬ c.IsEntry w.files q) :
    match Script.run (Generator.generate
      ⟨Engine.ofStudio studio env kinds, images, call?.map Converter.ofProgram⟩ c r.provider) w with
    | ((.ok _, _), w') =>
      (∀ place, w.files.MeansDirectory r.directory place →
        place ++ [finalName r.provider r.format] ∉ w.files.trail r.template.toText) →
      w'.files.read r.template.toText = w.files.read r.template.toText
    | ((.error _, _), w') =>
      w'.files.read r.template.toText = w.files.read r.template.toText := by
  have hgenerate : Script.run (Generator.generate
      ⟨Engine.ofStudio studio env kinds, images, call?.map Converter.ofProgram⟩ c r.provider) w =
      perform (do
        let made ← lift (plan r.provider)
        execute ⟨Engine.ofStudio studio env kinds, images, call?.map Converter.ofProgram⟩ made) c w := rfl
  rw [hgenerate, perform_bind, perform_lift]
  cases hplan : (plan r.provider).perform w with
  | mk result w₁ =>
  cases result with
  | error e =>
    rw [perform_plan_request] at hplan
    obtain ⟨-, rfl⟩ := Prod.mk.inj hplan
    rfl
  | ok made =>
    obtain ⟨⟨hfile, hsome, rfl⟩, rfl⟩ := plan_eq_ok_iff.1 hplan
    obtain ⟨content, hread⟩ := hfile.read
    obtain ⟨place, hm⟩ := meansDirectory_of_meansSomeDirectory hsome
    have hexecute := execute_framed studio env kinds images call? (w := w₁) hs hunused hcache htemplate
      hdirectory hm (isDown_finalName r.provider r.format) (DataMap.xmlOnly r.data) r.format
    dsimp only [planOf] at hexecute ⊢
    revert hexecute
    generalize perform (execute _ _) c w₁ = result
    obtain ⟨⟨result, c'⟩, w₂⟩ := result
    cases result with
    | error e =>
      intro h
      exact h.read hs hunused hread hentry
    | ok path =>
      intro h hfinal
      refine h.read hs hunused hread fun q hq => ?_
      rintro (hloose | rfl)
      · exact hentry q hq hloose
      · exact hfinal place hm hq

/-- A letter that replaces the one on the shelf. -/
def reply : Request where
  template := fromRoot "t.docx"
  outputName := "old".toList
  directory := fromRoot "out"

theorem generate_keeps_template_reply : ∃ path c w',
    Script.run (plainGenerator.generate shelfCache reply.provider) { files := shelf } =
      ((.ok path, c), w') ∧
    w'.files.read reply.template.toText = .ok (.document {}) := by
  have htrail : shelf.trail reply.template.toText = [["t.docx".toList]] := by cbv
  have hmeans : ∀ place, shelf.MeansDirectory reply.directory place → place = ["out".toList] :=
    fun place hm => hm.unique isPlain_letter.meansDirectory
  have hok : (Script.run (plainGenerator.generate shelfCache reply.provider)
      { files := shelf }).1.1.toBool = true := generate_shelf_ok
  have hread : shelf.read reply.template.toText = .ok (.document {}) := by cbv
  have h := generate_keeps_template Resolution.dryStudio Resolution.newYear Kind.order Content.described none
    (c := shelfCache) (r := reply) (w := { files := shelf }) isSound_shelf
    (isTame_shelf.isClean_fromRoot rfl)
    (isTame_shelf.isClean_fromRoot rfl)
    (isTame_shelf.isClean_fromRoot rfl)
    unused_shelf
    (by
      -- a template is no picture
      rw [htrail]
      rintro q hq ⟨r, n, -, rfl, hending, -⟩
      have hn := congrArg List.getLast? (List.mem_singleton.1 hq)
      rw [List.getLast?_concat, List.getLast?_singleton, Option.some_inj] at hn
      rw [hn] at hending
      revert hending
      decide)
  cases hrun : Script.run (plainGenerator.generate shelfCache reply.provider)
      { files := shelf } with
  | mk answer w' =>
  obtain ⟨result, c⟩ := answer
  rw [hrun] at hok
  rw [show Script.run (Generator.generate ⟨Engine.ofStudio Resolution.dryStudio Resolution.newYear
    Kind.order, Content.described, Option.map Converter.ofProgram none⟩ shelfCache reply.provider) { files := shelf } =
      ((result, c), w') from hrun] at h
  cases result with
  | error e => cases hok
  | ok path =>
    refine ⟨path, c, w', rfl, (h fun place hm hfinal => ?_).trans hread⟩
    rw [hmeans place hm, htrail] at hfinal
    revert hfinal
    decide

/-! ## A document in the place of its template -/

def invitation : Document where
  body := [.paragraph 0]
  paragraphs := [{ content := [.run { text := "$\x7bn\x7d".toList }] }]

/-- A directory with a template, and an empty cache. -/
def desk : FileSystem where
  nodes := [(["out".toList], .directory 0),
    (["out".toList, "t.docx".toList], .file (.document invitation) 0 false),
    (["cache".toList], .directory 0)]

/-- An invitation that is to get the name of its template. -/
def invite : Request where
  data := [("n".toList, .text "x".toList)]
  template := (fromRoot "out").child "t.docx".toList
  outputName := "t".toList
  directory := fromRoot "out"

/-- What the template of the invitation says. -/
def wording (fs : FileSystem) : Option Text :=
  (fs.read invite.template.toText).toOption.bind fun content => content.document?.map Document.text

set_option maxRecDepth 100000 in
/-- The invitation takes the place of its template. -/
theorem generate_invite :
    (Script.run (plainGenerator.generate shelfCache invite.provider)
      { files := desk }).2.files.read invite.template.toText ≠ desk.read invite.template.toText := by
  have hbefore : wording desk = some "$\x7bn\x7d".toList := by cbv
  have hafter : wording (Script.run (plainGenerator.generate shelfCache invite.provider)
      { files := desk }).2.files = some "x".toList := by
    unfold plainGenerator shelfCache Resolution.newYear
    rw [Binary64.ofInt_hour]
    cbv
  intro h
  unfold wording at hbefore hafter
  rw [h, hbefore] at hafter
  revert hafter
  decide

end MailMerge.Generation
