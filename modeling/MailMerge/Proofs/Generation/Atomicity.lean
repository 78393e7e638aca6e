import Mathlib
import MailMerge.Proofs.Generation.Finishing
import MailMerge.Proofs.Resolution.Independence
/-!
# All or nothing

A document is either made whole, under its final name, or nothing has changed. The directory of the
documents is assumed to be disjoint from that of the cache, so its path means the same place whatever
happens in the cache, and the names of unfinished documents are assumed not to be in use.

* `generate_all_or_nothing`: for every provider, every cache and every converting program.
-/
namespace MailMerge

namespace OutputName

/-- Names are made of few characters. -/
theorem isNameChar_of_mem_ofTitle {t : Text} {c : Char} (h : c ∈ ofTitle t) : isNameChar c = true := by
  unfold ofTitle at h
  dsimp only at h
  split at h
  · exact List.all_eq_true.1 (show usual.all isNameChar = true by decide) c h
  · exact (List.mem_filter.1 ((List.dropWhile_sublist _).subset h)).2

end OutputName

namespace Generation

open MailMerge.Path (IsDown)

/-- The name that the document of a provider gets in a format. -/
def finalName (p : Provider) (format : OutputFormat) : Text :=
  OutputName.ofTitle p.outputName ++ '.' :: format.name

theorem isDown_finalName (p : Provider) (format : OutputFormat) : IsDown (finalName p format) := by
  refine Path.isDown_of_length ?_ fun h => ?_
  · rw [finalName, List.length_append, List.length_cons]
    have hname : 2 < format.name.length := by cases format <;> decide
    omega
  · rcases List.mem_append.1 h with h | h
    · exact absurd (OutputName.isNameChar_of_mem_ofTitle h) (by decide)
    · cases format <;> revert h <;> decide

/-- Planning changes nothing, and a plan is made only for a directory that is there. -/
theorem perform_plan (p : Provider) (w : World) :
    match (plan p).perform w with
    | (.ok made, w') => w' = w ∧ ∃ data format place, p.data = .map data ∧
        formatOf p.format = .ok (some format) ∧ w.files.MeansDirectory p.directory place ∧
        made = ⟨DataMap.xmlOnly data, p.template, p.directory, format,
          p.directory.child (finalName p format)⟩
    | (.error _, w') => w' = w := by
  unfold plan
  cases hdata : p.data with
  | map data =>
    dsimp only
    rw [Task.perform_bind, Task.perform_step, Script.run_isFile]
    cases Script.probed (!·.isDirectory) (w.files.status p.template.toText) with
    | error e => rfl
    | ok there =>
      cases there with
      | false => rfl
      | true =>
        dsimp only
        rw [if_neg (by decide), Task.perform_bind, Task.perform_step, Script.run_isDirectory]
        cases hstatus : w.files.status p.directory.toText with
        | error e =>
          unfold Script.probed
          dsimp only
          cases Script.meansAbsent e <;> rfl
        | ok st =>
          cases hst : st.isDirectory with
          | false =>
            unfold Script.probed
            dsimp only
            rw [hst]
            rfl
          | true =>
            obtain ⟨place, hm⟩ := FileSystem.meansDirectory_of_status hstatus hst
            unfold Script.probed
            dsimp only
            rw [hst, if_neg (by decide)]
            cases hformat : formatOf p.format with
            | error e => rfl
            | ok format? =>
              cases format? with
              | none => rfl
              | some format => exact ⟨rfl, data, format, place, rfl, rfl, hm, rfl⟩
  | _ => rfl

/-- What is known of a file system after work on documents: outside of the cache nothing has changed
but at some places, and no unfinished document is left anywhere. -/
def IsLeft (w : World) (cache : Path) (made : Place → Prop) (w' : World) : Prop :=
  (∀ q, ¬ w.files.Inside cache q → ¬ made q → w'.files.get? q = w.files.get? q) ∧
    ∀ q, IsScratch w.fresh q → w'.files.get? q = none

theorem Holding.isLeft {s : Setting} {own : Text → Prop} {w : World} {made : Place → Prop}
    (h : Holding s own w) (g : Ground s) (hown : ∀ n, own n → n = s.final)
    (hmade : ∀ n, own n → made (s.place ++ [n])) :
    IsLeft s.start s.cache.directory made w := by
  refine ⟨fun q hin hq => h.kept.same q ?_, fun q hq => h.absent g hq ?_⟩
  · rintro (hentry | ⟨n, hn, -, rfl⟩)
    · exact hin (inside_of_isEntry hentry)
    · exact hq (hmade n hn)
  · rintro n hn - rfl
    obtain rfl := hown n hn
    obtain ⟨m, hm, hscratch⟩ := hq
    rcases List.mem_append.1 hm with hm | hm
    · exact g.not_isScratch_place ⟨m, hm, hscratch⟩
    · exact g.final (List.mem_singleton.1 hm ▸ hscratch)

/-- A document is made whole or nothing has changed, and no unfinished document is left. The way to the
directory of the documents does not depend on the cache, nor on the document that is replaced: own
files could not be removed any more if it led there. -/
theorem generate_all_or_nothing (studio : Studio) (env : Environment) (kinds : List Kind)
    (images : ImageReader) (call? : Option ConverterProgramCall) {c : AssetCache} {p : Provider} {w : World}
    (hs : w.files.IsSound) (hcache : c.directory.IsClean) (htemplate : p.template.IsClean)
    (hdirectory : p.directory.IsClean)
    (hfirm : ∀ place format, w.files.MeansDirectory p.directory place →
      w.files.MeansFirmly p.directory place fun q =>
        w.files.Inside c.directory q ∨ q = place ++ [finalName p format])
    (hfresh : ∀ q, IsScratch w.fresh q → w.files.get? q = none)
    (hname : ∀ format, ¬ IsScratchName w.fresh (finalName p format)) :
    match Script.run (Generator.generate
      ⟨Engine.ofStudio studio env kinds, images, call?.map Converter.ofProgram⟩ c p) w with
    | ((.ok path, _), w') => ∃ place format data template d filled output,
        w.files.MeansDirectory p.directory place ∧ formatOf p.format = .ok (some format) ∧
        p.data = .map data ∧ w.files.read p.template.toText = .ok template ∧
        template.document? = some d ∧
        IsFilled ⟨w, c, p.directory, place, finalName p format⟩ (Engine.ofStudio studio env kinds)
          images (DataMap.xmlOnly data) d filled ∧
        IsOutput ⟨w, c, p.directory, place, finalName p format⟩ call? format (.document filled)
          output ∧
        path = p.directory.child (finalName p format) ∧ w'.files.read path.toText = .ok output ∧
        IsLeft w c.directory (· = place ++ [finalName p format]) w'
    | ((.error _, _), w') => IsLeft w c.directory (fun _ => False) w' := by
  have hgenerate : Script.run (Generator.generate
      ⟨Engine.ofStudio studio env kinds, images, call?.map Converter.ofProgram⟩ c p) w =
      perform (do
        let made ← lift (plan p)
        execute ⟨Engine.ofStudio studio env kinds, images, call?.map Converter.ofProgram⟩ made) c w := rfl
  rw [hgenerate, perform_bind, perform_lift]
  have hplan := perform_plan p w
  revert hplan
  generalize Task.perform (plan p) w = r
  obtain ⟨result, w₁⟩ := r
  cases result with
  | error e =>
    rintro rfl
    exact ⟨fun _ _ _ => rfl, hfresh⟩
  | ok made =>
    rintro ⟨rfl, data, format, place, hdata, hformat, hm, rfl⟩
    have g : Ground ⟨w₁, c, p.directory, place, finalName p format⟩ :=
      ⟨hs, hdirectory, hcache, hm.2, hfirm place format hm, hfresh, hname format⟩
    have hexecute := execute_holding studio env kinds images g.holding g
      htemplate (isDown_finalName p format) (DataMap.xmlOnly data) format call?
    dsimp only at hexecute ⊢
    revert hexecute
    generalize perform (execute _ _) c w₁ = r
    obtain ⟨⟨result, c'⟩, w₂⟩ := r
    cases result with
    | error e => exact fun h => h.isLeft g (fun _ hn => hn.elim) fun _ hn => hn.elim
    | ok path =>
      rintro ⟨rfl, h, hfits, template, d, filled, output, t, x, hread, hd, hfilled, hget, houtput⟩
      refine ⟨place, format, data, template, d, filled, output, hm, hformat, hdata, hread, hd, hfilled,
        houtput, rfl, ?_, h.isLeft g (fun _ hn => hn) fun _ hn => by rw [hn]⟩
      exact hfits.read_file hdirectory (h.meansDirectory g) hget

/-! ## A document that is replaced -/

/-- A directory with a document, a template beside it, and an empty cache. -/
def shelf : FileSystem where
  nodes := [(["out".toList], .directory 0),
    (["out".toList, "old.docx".toList], .file (.text "old".toList) 0 false),
    (["t.docx".toList], .file (.document {}) 0 false), (["cache".toList], .directory 0)]

/-- The path of a name in the root. -/
def fromRoot (name : String) : Path := { root := ['/'], names := [name.toList] }

def shelfCache : AssetCache := { directory := fromRoot "cache" }

def letter : Provider where
  data := .map []
  template := fromRoot "t.docx"
  outputName := "old".toList
  format := .text "docx".toList
  directory := fromRoot "out"

def plainGenerator : Generator :=
  ⟨Engine.ofStudio Resolution.dryStudio Resolution.newYear Kind.order, Content.described, none⟩

/-- Whether there are no links, and all names are names of nodes. -/
def IsTame (fs : FileSystem) : Prop :=
  ∀ q node, fs.get? q = some node → (∀ t, node ≠ .link t) ∧ ∀ n ∈ q, FileSystem.IsName n

/-- Whether a node is no link and its names are names of nodes. -/
def isTameNode (e : Place × Node) : Bool :=
  (match e.2 with
    | .link _ => false
    | _ => true) &&
    e.1.all fun n => decide (Text.byteLength n ≤ FileSystem.maxName ∧ n ≠ ['.'] ∧ n ≠ ['.', '.'] ∧ n ≠ [] ∧
      '/' ∉ n ∧ '\x00' ∉ n)

section
variable {fs : FileSystem} {name : String}

theorem mem_nodes (hkeys : (Table.keys fs.nodes).Nodup) {q : Place} {node : Node} (hq : q ≠ [])
    (h : fs.get? q = some node) : (q, node) ∈ fs.nodes := by
  rwa [FileSystem.get?, if_neg (by simpa using hq), Table.get?_eq_some_iff hkeys] at h

theorem isTame_of_nodes (hkeys : (Table.keys fs.nodes).Nodup)
    (hnodes : fs.nodes.all isTameNode = true) : IsTame fs := by
  intro q node h
  by_cases hq : q = []
  · subst hq
    cases h
    exact ⟨fun _ => nofun, fun n hn => absurd hn List.not_mem_nil⟩
  · obtain ⟨hnode, hnames⟩ :=
      Bool.and_eq_true_iff.1 (List.all_eq_true.1 hnodes _ (mem_nodes hkeys hq h))
    refine ⟨fun t ht => ?_, fun n hn => ?_⟩
    · subst ht
      cases hnode
    · obtain ⟨hlen, hhere, hup, hne, hslash, hnull⟩ :=
        of_decide_eq_true (List.all_eq_true.1 hnames n hn)
      exact ⟨⟨hlen, hhere, hup⟩, hne, hslash, hnull⟩

theorem IsTame.isSound (h : IsTame fs) (hcurrent : fs.current = []) : fs.IsSound :=
  ⟨fun _ _ hnode n hn => (h _ _ hnode).2 n hn, hcurrent ▸ FileSystem.chain_nil,
    fun _ target htarget => absurd rfl ((h _ _ htarget).1 target)⟩

/-- Where no name holds the sign that all marks of the work hold, no name of the work is in use. -/
theorem unused_of_nodes (hkeys : (Table.keys fs.nodes).Nodup)
    (hnodes : fs.nodes.all (fun e => e.1.all fun n => decide ('_' ∉ n)) = true) {first : Nat} (q : Place)
    (hq : IsScratch first q) : fs.get? q = none := by
  obtain ⟨n, hn, hname⟩ := hq
  cases hnode : fs.get? q with
  | none => rfl
  | some node =>
    have hmem := mem_nodes hkeys (List.ne_nil_of_mem hn) hnode
    exact absurd (mem_scratchName hname)
      (of_decide_eq_true (List.all_eq_true.1 (List.all_eq_true.1 hnodes _ hmem) n hn))

theorem isClean_fromRoot (hname : FileSystem.IsName name.toList) : (fromRoot name).IsClean :=
  ⟨Or.inr (Or.inl rfl), fun _ hn => List.mem_singleton.1 hn ▸ hname.isPart⟩

theorem IsTame.isClean_fromRoot (h : IsTame fs) {node : Node} (hnode : fs.get? [name.toList] = some node) :
    (fromRoot name).IsClean :=
  Generation.isClean_fromRoot ((h _ _ hnode).2 _ (List.mem_singleton_self _))

theorem IsTame.isPlain_fromRoot (h : IsTame fs) {t : Time}
    (hdir : fs.get? [name.toList] = some (.directory t)) : fs.IsPlain (fromRoot name) := by
  have hname := (h _ _ hdir).2 _ (List.mem_singleton_self _)
  have htext : (fromRoot name).toText = '/' :: name.toList := by
    simp [Path.toText, fromRoot, Text.join]
  refine ⟨Generation.isClean_fromRoot hname, rfl, ?_, ?_, ?_, ?_⟩
  · rw [htext, List.mem_cons, not_or]
    exact ⟨by decide, hname.no_null⟩
  · rw [htext, Text.byteLength_cons]
    have hshort : Text.byteLength name.toList ≤ 255 := hname.short
    have hslash : Char.utf8Size '/' = 1 := rfl
    have hmax : FileSystem.maxPath = 4095 := rfl
    omega
  · exact fun n hn => List.mem_singleton.1 hn ▸ hname.toIsStep
  · exact FileSystem.Chain.concat (p := []) FileSystem.chain_nil ⟨t, hdir⟩

end

theorem isTame_shelf : IsTame shelf := isTame_of_nodes (by decide) (by decide)

theorem unused_shelf {first : Nat} (q : Place) (hq : IsScratch first q) : shelf.get? q = none :=
  unused_of_nodes (by decide) (by decide) q hq

theorem isSound_shelf : shelf.IsSound := isTame_shelf.isSound rfl

theorem isPlain_letter : shelf.IsPlain letter.directory := isTame_shelf.isPlain_fromRoot (t := 0) rfl

theorem not_inside_shelf : ¬ shelf.Inside shelfCache.directory ["out".toList] := by
  rintro ⟨r, hm, hr⟩
  have hcache : shelf.IsPlain shelfCache.directory := isTame_shelf.isPlain_fromRoot (t := 0) rfl
  rw [hm.unique hcache.meansDirectory] at hr
  revert hr
  decide

set_option maxRecDepth 100000 in
theorem generate_shelf_ok : (Script.run (plainGenerator.generate shelfCache letter)
    { files := shelf }).1.1.toBool = true := by
  unfold plainGenerator shelfCache Resolution.newYear
  rw [Binary64.ofInt_hour]
  cbv

/-- The document is replaced, and nothing else has changed. -/
theorem generate_all_or_nothing_shelf : ∃ path c w',
    Script.run (plainGenerator.generate shelfCache letter) { files := shelf } =
      ((.ok path, c), w') ∧
    path = (fromRoot "out").child "old.docx".toList ∧
    IsLeft { files := shelf } shelfCache.directory (· = ["out".toList, "old.docx".toList]) w' := by
  have hformat : ∀ format, formatOf letter.format = .ok (some format) → format = .docx := by
    intro format h
    have hdocx : formatOf letter.format = .ok (some .docx) := by cbv
    rw [hdocx] at h
    cases h
    rfl
  have hmeans : ∀ place, shelf.MeansDirectory letter.directory place → place = ["out".toList] :=
    fun place hm => hm.unique isPlain_letter.meansDirectory
  have hok := generate_shelf_ok
  have h := generate_all_or_nothing Resolution.dryStudio Resolution.newYear Kind.order
    Content.described none
    (c := shelfCache) (p := letter) (w := { files := shelf }) isSound_shelf
    (isTame_shelf.isClean_fromRoot rfl)
    (isTame_shelf.isClean_fromRoot rfl)
    (isTame_shelf.isClean_fromRoot rfl)
    (by
      intro place format hm
      rw [hmeans place hm]
      exact isPlain_letter.meansFirmly_of_disjoint not_inside_shelf _)
    unused_shelf
    (by
      intro format hs
      have hmem := mem_scratchName hs
      revert hmem
      cases format <;> decide)
  revert hok h
  show (Script.run (plainGenerator.generate shelfCache letter) { files := shelf }).1.1.toBool = true →
    (match Script.run (plainGenerator.generate shelfCache letter) { files := shelf } with
      | ((.ok path, _), w') => _
      | ((.error _, _), w') => _) → _
  generalize Script.run (plainGenerator.generate shelfCache letter) { files := shelf } = r
  obtain ⟨⟨result, c⟩, w'⟩ := r
  cases result with
  | error e => exact nofun
  | ok path =>
    rintro - ⟨place, format, data, template, d, filled, output, hm, hf, -, -, -, -, -, rfl, -, hleft⟩
    rw [hformat format hf, hmeans place hm] at hleft
    exact ⟨_, c, w', rfl, by rw [hformat format hf]; rfl, hleft⟩

end Generation

end MailMerge
