import MailMerge.Proofs.Cache.Minding
import MailMerge.Proofs.Generation.Jobs
import MailMerge.Proofs.Generation.Phases
/-!
# Documents made at the same time

Runs that make documents at the same time take their steps in any order. Each has numbers of its own for
the names of its unfinished files, and a document of its own. They may share the directories in which they
keep their pictures. When all else that a run looks at is changed by no other one, none is disturbed. What a
run looks at is more than its template: the image that the data name may lie where another run puts its
document.

* `generate_undisturbed`: any number of runs, in any order of their steps.
* `generate_disturbed`: a run whose image is replaced by the document of another one.
-/
namespace MailMerge.Generation

section
variable {es : List Job} {w : World} {shelves : Place → Option Time} {drawn : Place → Option Content}

/-- Whether a place is one that a run of some changes. -/
def ChangedBy (es : List Job) (w : World) (i : Nat) (q : Place) : Prop :=
  ∃ e, es[i]? = some e ∧ e.script.Changes w q

/-- The runs, with the directories in which they keep their pictures together: each has a time that no
lifetime there is shorter than, and it is said what is drawn where a picture is missing. -/
def company (es : List Job) (w : World) (shelves : Place → Option Time) (drawn : Place → Option Content) :
    Company where
  start := w
  lifetime? := shelves
  drawn := drawn
  alters := ChangedBy es w
  first i := (es[i]?.map Job.firstDraft).getD 0
  bound i := (es[i]?.map fun e => (e.after w).drafts).getD 0

/-- What is known of runs before they begin: nothing has a name that a fresh number gives, the runs are apart
from each other, only files stand at the places for shared pictures, and each run minds what it shares: there
it only asks for pictures, and what else it looks at no other run changes. -/
structure AreReady (es : List Job) (w : World) (shelves : Place → Option Time)
    (drawn : Place → Option Content) : Prop where
  sound : w.files.IsSound
  unused : Unused w.fresh w.files
  drafts : ∀ r n, w.drafts ≤ n → w.files.get? (r ++ [AssetCache.scratchName n]) = none
  each : ∀ (i : Nat) (e : Job), es[i]? = some e → e.IsReady w
  apart : ∀ (i j : Nat) (e e' : Job), es[i]? = some e → es[j]? = some e' → i ≠ j → e.Apart e' w
  lifetimes : ∀ r L, shelves r = some L → 0 ≤ L ∧ w.files.IsDirectory r
  files : ∀ q, (company es w shelves drawn).Shelf q → w.files.AtMostFile q
  minds : ∀ (i : Nat) (e : Job), es[i]? = some e → ∃ sharing, (company es w shelves drawn).Minds
    (fun q => (∃ j, j ≠ i ∧ ChangedBy es w j q) ∧ ¬ e.IsOwn w q) i sharing
    (e.generator.generate e.cache e.provider) (w.withNumbers e.first e.firstDraft)

theorem AreReady.own (h : AreReady es w shelves drawn) {i : Nat} {e : Job} (hi : es[i]? = some e)
    {q : Place} (hq : e.IsOwn w q) : ¬ ∃ j, j ≠ i ∧ ChangedBy es w j q := by
  rintro ⟨j, hji, e', hj, hchanges⟩
  exact hq.not_changes (h.apart i j e e' hi hj (Ne.symm hji)) (h.each i e hi) (h.each j e' hj)
    h.sound h.unused h.drafts hchanges

theorem drafts_company {i n : Nat} (h : (company es w shelves drawn).Drafts i n) :
    ∃ e, es[i]? = some e ∧ e.TakesDraft w n := by
  obtain ⟨hfirst, hbound⟩ := h
  unfold company at hfirst hbound
  dsimp only at hfirst hbound
  cases hi : es[i]? with
  | none =>
    rw [hi] at hbound
    exact absurd hbound (Nat.not_lt_zero n)
  | some e =>
    rw [hi] at hfirst hbound
    exact ⟨e, rfl, hfirst, hbound⟩

theorem AreReady.isReady (h : AreReady es w shelves drawn) :
    (company es w shelves drawn).IsReady where
  sound := h.sound
  files := h.files
  lifetime r L hr := (h.lifetimes r L hr).1
  unused := by
    rintro i q ⟨r, n, -, rfl, hn, -⟩
    obtain ⟨e, hi, hn⟩ := drafts_company hn
    exact h.drafts r n (Nat.le_trans (h.each i e hi).firstDraft hn.1)
  apart i j n hij hi hj := by
    obtain ⟨e, hi, hn⟩ := drafts_company hi
    obtain ⟨e', hj, hn'⟩ := drafts_company hj
    exact (h.apart i j e e' hi hj hij).drafts n hn hn'

/-- How a run ends. -/
def Ends (es : List Job) (w : World) (i : Nat) (r : Except Abort Path × AssetCache)
    (hold : Company.Hold) : Prop :=
  ∀ e, es[i]? = some e → r = (e.alone w).1 ∧ hold.run = i ∧
    hold.alone.files = (e.alone w).2.files

/-- A run is safe in company. -/
theorem AreReady.safe (h : AreReady es w shelves drawn) {i : Nat} {e : Job} (hi : es[i]? = some e) :
    (company es w shelves drawn).discipline.Safe (Ends es w i) e.script ⟨i, w, none⟩ := by
  obtain ⟨sharing, hminds⟩ := h.minds i e hi
  have hloose : ∀ q, (∃ j, j ≠ i ∧ ChangedBy es w j q) ↔
      (∃ j, j ≠ i ∧ ChangedBy es w j q) ∧ ¬ e.IsOwn w q :=
    fun q => (and_iff_left_of_imp fun hq hown => h.own hi hown hq).symm
  have hfirst : (company es w shelves drawn).first i = e.firstDraft := by
    show (es[i]?.map Job.firstDraft).getD 0 = _
    rw [hi]
    rfl
  have hbound : (company es w shelves drawn).bound i = (e.after w).drafts := by
    show (es[i]?.map fun e => (e.after w).drafts).getD 0 = _
    rw [hi]
    rfl
  have hsafe := Company.safe_minds (v := w.withNumbers e.first e.firstDraft)
    (u := w) (d := e.firstDraft) h.isReady (hminds.of_iff hloose) rfl rfl
    (Nat.le_of_eq hfirst) (Nat.le_refl _) (fun _ => rfl) (Nat.le_of_eq hbound.symm)
    fun q hq => ⟨e, hi, (Script.changes_numbered _ _ _).2 hq⟩
  refine Discipline.Safe.bind hsafe ?_
  rintro ⟨r, n, d⟩ hold ⟨hr, hrun, hfiles⟩ e' hi'
  cases hi.symm.trans hi'
  unfold Job.alone Job.script
  rw [Script.run_numbered]
  exact ⟨hr, hrun, hfiles⟩

theorem AreReady.guarded (h : AreReady es w shelves drawn) :
    (company es w shelves drawn).discipline.Guarded (Ends es w) (es.map Job.script) w := by
  have htidy : (company es w shelves drawn).Tidy w := ⟨rfl, fun _ _ => .same, fun _ _ _ => rfl⟩
  refine ⟨htidy, fun i => ⟨i, w, none⟩, fun i => ⟨htidy, h.isReady.unused, FileSystem.agree_refl _ _,
    fun _ _ _ _ hnode => hnode, h.isReady.unused i⟩, fun _ _ hij => hij, fun i x hx => ?_⟩
  rw [List.getElem?_map, Option.map_eq_some_iff] at hx
  obtain ⟨e, hi, rfl⟩ := hx
  exact h.safe hi

theorem AreReady.not_isScratch_shelf (h : AreReady es w shelves drawn) {r : Place} {name : Text}
    (hr : (shelves r).isSome) (hname : ¬ IsScratchName w.fresh name) : ¬ IsScratch w.fresh (r ++ [name]) := by
  obtain ⟨L, hL⟩ := Option.isSome_iff_exists.1 hr
  obtain ⟨t, ht⟩ := (h.lifetimes r L hL).2
  rintro ⟨n, hn, hscratch⟩
  rcases List.mem_append.1 hn with hn | hn
  · exact h.unused.not_isScratch ht ⟨n, hn, hscratch⟩
  · exact hname (List.mem_singleton.1 hn ▸ hscratch)

/-- A run that has ended has the result that it has alone, and where only itself changes something it leaves
what it leaves alone. -/
theorem AreReady.ended (h : AreReady es w shelves drawn) (l : List Nat) {i : Nat} {e : Job}
    (hi : es[i]? = some e) {r : Except Abort Path × AssetCache}
    (hdone : (Interleaved.steps (es.map Job.script) w l).1[i]? = some (.done r)) :
    r = (e.alone w).1 ∧ ∀ q, ¬ (company es w shelves drawn).Shelf q →
      (¬ ∃ j, j ≠ i ∧ ChangedBy es w j q) →
        (Interleaved.steps (es.map Job.script) w l).2.files.get? q = (e.alone w).2.files.get? q := by
  obtain ⟨-, holds, hknows, -, hsafe⟩ := Discipline.guarded_steps h.guarded l
  obtain ⟨hr, hrun, hfiles⟩ : r = (e.alone w).1 ∧ (holds i).run = i ∧
    (holds i).alone.files = (e.alone w).2.files := hsafe i _ hdone e hi
  refine ⟨hr, fun q hshelf hothers => ?_⟩
  rw [← hfiles]
  refine (hknows i).agree.get? ?_
  rintro (hq | ⟨j, hj, hq⟩)
  · exact hshelf hq
  · exact hothers ⟨j, hrun ▸ hj, hq⟩

/-- What stands at a place for a picture has no name of an unfinished document. -/
theorem AreReady.left_shelf (h : AreReady es w shelves drawn) (l : List Nat) {q : Place}
    (hq : IsScratch w.fresh q) (hshelf : (company es w shelves drawn).Shelf q) :
    (Interleaved.steps (es.map Job.script) w l).2.files.get? q = none := by
  have hstands := (Discipline.guarded_steps h.guarded l).1.shelf q hshelf
  obtain ⟨r, name, hr, rfl, -⟩ := hshelf
  generalize hnode : (Interleaved.steps (es.map Job.script) w l).2.files.get? (r ++ [name]) = node
    at hstands
  cases hstands with
  | same => exact h.unused _ hq
  | gone _ => rfl
  | @drawn r' c k content heq hnone hdrawn =>
    obtain ⟨rfl, hname⟩ := List.append_inj' heq rfl
    refine absurd hq (h.not_isScratch_shelf hr ?_)
    rw [List.singleton_inj.1 hname]
    exact not_isScratchName_picture ⟨c, k, rfl⟩
  | draft hdraft content =>
    obtain ⟨r', n, -, heq, -⟩ := hdraft
    refine absurd hq (h.not_isScratch_shelf hr ?_)
    rw [List.singleton_inj.1 (List.append_inj' heq rfl).2]
    exact Bench.not_isScratchName_draft _ _

/-- A place of an unfinished document that a run changes has a number that the run takes. -/
theorem AreReady.hasNumber (h : AreReady es w shelves drawn) {i : Nat} {e : Job} (hi : es[i]? = some e)
    {q : Place} (hchanges : e.script.Changes w q) (hq : IsScratch w.fresh q) :
    HasNumber w.fresh (e.Takes w) q := by
  rcases Job.changes (h.each i e hi) h.sound h.unused h.drafts hchanges with
    hnumber | ⟨hplain, -⟩ | houtput
  · exact hnumber
  · exact absurd hq hplain
  · exact absurd hq (houtput.not_isScratch (h.each i e hi) h.unused)

/-- When all runs have ended no unfinished document is left. -/
theorem AreReady.left (h : AreReady es w shelves drawn) (l : List Nat)
    (hall : ∀ i, i < es.length → ∃ r,
      (Interleaved.steps (es.map Job.script) w l).1[i]? = some (.done r)) {q : Place}
    (hq : IsScratch w.fresh q) :
    (Interleaved.steps (es.map Job.script) w l).2.files.get? q = none := by
  by_cases hshelf : (company es w shelves drawn).Shelf q
  · exact h.left_shelf l hq hshelf
  · by_cases hchanged : ∃ i, ChangedBy es w i q
    · obtain ⟨i, e, hi, hchanges⟩ := hchanged
      have hnumber := h.hasNumber hi hchanges hq
      have hscratch : IsScratch e.first q := by
        obtain ⟨r, name, rest, n, rfl, -, hn, hnamed⟩ := hnumber
        exact ⟨name, by simp, n, hn.1, hnamed⟩
      obtain ⟨r, hdone⟩ := hall i (List.getElem?_eq_some_iff.1 hi).1
      rw [(h.ended l hi hdone).2 q hshelf (h.own hi (Or.inl hnumber)),
        Job.left (h.each i e hi) h.sound h.unused hscratch]
    · exact ((Discipline.guarded_steps h.guarded l).1.same q hshelf fun i hi =>
        hchanged ⟨i, hi⟩).trans (h.unused q hq)

/-- Runs do not disturb each other, whatever the order of their steps: where the turn of every run always
comes again all of them end, each that has ended has the result that it has alone and leaves what it leaves
alone at the place of its document, and when all have ended no unfinished file is left. -/
theorem generate_undisturbed (h : AreReady es w shelves drawn) :
    (∀ order : Nat → Nat, (∀ i, i < es.length → ∀ m, ∃ n, m ≤ n ∧ order n = i) →
      ∃ m, ∀ i, i < es.length → ∃ r, (Interleaved.steps (es.map Job.script) w
        (Interleaved.turnsOf order m)).1[i]? = some (.done r)) ∧
    ∀ l : List Nat,
      let pool := (Interleaved.steps (es.map Job.script) w l).1
      let files := (Interleaved.steps (es.map Job.script) w l).2.files
      (∀ (i : Nat) (e : Job), es[i]? = some e → ∀ r, pool[i]? = some (.done r) →
        r = (e.alone w).1 ∧ ∀ q, e.IsOutput w q → files.get? q = (e.alone w).2.files.get? q) ∧
      ((∀ i, i < es.length → ∃ r, pool[i]? = some (.done r)) →
        ∀ q, IsScratch w.fresh q → files.get? q = none) := by
  refine ⟨fun order hfair => ?_, fun l => ⟨fun i e hi r hdone => ?_, fun hall q hq => h.left l hall hq⟩⟩
  · have hdone := Interleaved.exists_all_done (es.map Job.script) w order
    rw [List.length_map] at hdone
    exact hdone hfair
  · obtain ⟨hresult, hfiles⟩ := h.ended l hi hdone
    refine ⟨hresult, fun q hq => hfiles q ?_ (h.own hi (Or.inr hq))⟩
    rintro ⟨r, n, -, rfl, hn⟩
    exact hq.not_isPicture ⟨r, n, rfl, hn⟩

end

/-! ## Two letters with one code -/

/-- A letter that shows a code. -/
def card : Document where
  body := [.paragraph 0]
  paragraphs := [{ content := [.run { text := "$\x7bqrcode:x\x7d".toList }] }]

/-- A template, and a directory of pictures with one that has expired. -/
def gallery (old : Text) : World where
  files :=
    { nodes := [(["out".toList], .directory 0), (["t.docx".toList], .file (.document card) 0 false),
        (["cache".toList], .directory 0), (["cache".toList, old], .file (.image 3 3) 0 false)] }
  clock := 100000000000

/-- A gallery where what has expired is not the picture of the code. -/
def parlour : World := gallery "old.png".toList

/-- A cache of pictures that is swept at every request. -/
def cardCache : AssetCache where
  directory := fromRoot "cache"
  interval := .zero false

/-- A day on which letters are made, with settings for that cache. -/
def cardDay : Environment where
  now := .ofDate ⟨2024, 7, 9, by decide⟩
  settings := { cacheDirectory := fromRoot "cache", sweepSeconds := .zero false }

/-- A run that makes a letter with a code, and keeps its pictures with those of others. -/
def coding (name : String) (first : Nat) : Job where
  studio := { render := fun _ => .ok (.image 3 3) }
  env := cardDay
  kinds := Kind.order
  images := Content.described
  call? := none
  cache := cardCache
  provider :=
    { letter with
      data := .map [("qrcode:x".toList, .text "hello".toList)]
      outputName := name.toList }
  first := first
  firstDraft := first

def cards : List Job := [coding "a" 0, coding "b" 4]

/-- What is asked for. -/
def code : AssetKey := ⟨"hello".toList, 100, "L".toList⟩

/-- The name of the picture of the code. -/
def codeName : Text :=
  "f8d2ce5c7caf524a7fbcd18f1664ae528037e01dc613e85c974821743de4c2bd.png".toList

/-- The picture of the code. -/
def codePicture : Asset where
  source := ((fromRoot "cache").child codeName).toText
  width := 100
  height := 100
  payload := some code.payload

/-- The letter that shows the code. -/
def shown : Document :=
  { card with
    paragraphs := [{ content := [.run { text := [] },
      .run { text := [], pictures := [{ width := 952500, height := 952500 }] }] }] }

theorem entryName_code (last : Option Time) :
    ({ cardCache with lastSweep := last } : AssetCache).entryName code = codeName := by
  show cardCache.entryName code = codeName
  decide +kernel

section
variable {e e' : Job} {q : Place} {n : Nat} {u : World} {old : Text}

theorem mem_cards : e ∈ cards ↔ e = coding "a" 0 ∨ e = coding "b" 4 := by
  rw [cards, List.mem_pair]

/-! ### The phases of a run alone -/

def stagedName (e : Job) : Text := scratchStem e.first ++ ".docx".toList

def renderedName (e : Job) : Text := scratchStem (e.first + 1) ++ ".docx".toList

def outPath (name : Text) : Path := (fromRoot "out").child name

def planned (e : Job) : Plan where
  data := [("qrcode:x".toList, .text "hello".toList)]
  template := fromRoot "t.docx"
  directory := fromRoot "out"
  format := .docx
  final := outPath (finalName e.provider .docx)

/-- The world of a run that has staged the template. -/
def begun (e : Job) (u : World) : World where
  files := u.files.put ["out".toList, stagedName e] (.file (.document card) u.clock false)
  clock := u.clock
  fresh := e.first + 2
  drafts := e.firstDraft
  log := u.log ++ [.info "generation_started"]

/-- The world of a run that has taken away the old picture. -/
def swept (e : Job) (u : World) (old : Text) : World :=
  { begun e u with
    files := (begun e u).files.drop ["cache".toList, old]
    log := u.log ++ [.info "generation_started", .info "asset_cache_swept"] }

/-- The world of a run whose code has been drawn. -/
def drawnWorld (e : Job) (u : World) (old : Text) : World :=
  { swept e u old with
    files := (swept e u old).files.put ["cache".toList, codeName] (.file (.image 3 3) u.clock false)
    drafts := e.firstDraft + 1 }

/-- The cache after a sweep. -/
def sweptCache : AssetCache := { cardCache with lastSweep := some 100000000000 }

/-- What is known of the first phases of a run. -/
structure Begins (e : Job) (u : World) (old : Text) : Prop where
  opening : Script.run ((opening e.provider).run.run e.cache) (u.withNumbers e.first e.firstDraft) =
    ((.ok (planned e, outPath (stagedName e), outPath (renderedName e), some card), cardCache), begun e u)
  sweep : Script.run cardCache.sweepIfDue (begun e u) = (sweptCache, swept e u old)
  tame : IsTame (swept e u old).files
  flat : (swept e u old).files.nodes.all (fun e => e.1.length < 2 || e.2 matches .file ..) = true
  keys : (Table.keys (swept e u old).files.nodes).Nodup
  current : (swept e u old).files.current = []
  cache : (swept e u old).files.get? ["cache".toList] = some (.directory 0)
  picture : (swept e u old).files.get? ["cache".toList, codeName] = none
  draft : (swept e u old).files.get? ["cache".toList, AssetCache.scratchName e.firstDraft] = none

theorem atMostFile_of_flat {fs : FileSystem} (hkeys : (Table.keys fs.nodes).Nodup)
    (hflat : fs.nodes.all (fun e => e.1.length < 2 || e.2 matches .file ..) = true) (r name : Text) :
    fs.AtMostFile [r, name] := by
  cases hnode : fs.get? [r, name] with
  | none => exact Or.inl hnode
  | some node =>
    have hfile := List.all_eq_true.1 hflat _ (mem_nodes hkeys (List.cons_ne_nil _ _) hnode)
    cases node with
    | file content t x => exact Or.inr ⟨content, t, x, hnode⟩
    | directory t => cases hfile
    | link t => cases hfile

theorem Begins.home (h : Begins e u old) : sweptCache.Home (swept e u old).files ["cache".toList] :=
  AssetCache.home_of_isPlain (h.tame.isSound h.current) (h.tame.isPlain_fromRoot h.cache) (by decide)
    fun name => atMostFile_of_flat h.keys h.flat _ name

theorem fits_cache {fs : FileSystem} (h : fs.IsPlain (fromRoot "cache")) (hn : n < 10 ^ 8) :
    FileSystem.Fits (cardCache.stagePath fs) (AssetCache.scratchName n) := by
  unfold AssetCache.stagePath
  rw [AssetCache.absolute_of_isPlain (show fs.IsPlain cardCache.directory from h)]
  exact AssetCache.fits_scratchName hn (by decide)

/-- The code is drawn. -/
theorem Begins.run_getOrCreate (h : Begins e u old) (he : e ∈ cards) :
    Script.run (cardCache.getOrCreate e.studio.render e.studio.parts code) (begun e u) =
      ((.found ((fromRoot "cache").child codeName), sweptCache), drawnWorld e u old) := by
  have hname : sweptCache.entryName code = codeName := entryName_code _
  have hdrawing : AssetCache.drawing e.studio.render code = .ok (.image 3 3) := by
    rcases mem_cards.1 he with rfl | rfl
    all_goals rfl
  have hfirst : e.firstDraft < 10 ^ 8 := by
    rcases mem_cards.1 he with rfl | rfl
    all_goals decide
  rw [AssetCache.getOrCreate_eq, Script.run_bind, h.sweep]
  refine (AssetCache.run_answerOf_drawn (w := swept e u old) h.home
    (by rw [hname]; exact h.picture) hdrawing
    (fits_cache (h.tame.isPlain_fromRoot h.cache) hfirst) h.draft).trans ?_
  rw [AssetCache.pathOf_keyOf, hname]
  rfl

/-- The values of a letter whose code has been resolved. -/
def valuesOf (e : Job) : Except Fault Resolution.Found → Except Abort DataMap
  | .error f => .error (.fault f)
  | .ok none => .ok (planned e).data
  | .ok (some v) => .ok (Table.insert (planned e).data Resolution.bare.raw v)

/-- What is left to do when the cache has answered. -/
def concluding (e : Job) (r : CacheAnswer × AssetCache) : Script (Except Abort Path × AssetCache) := do
  let (found, cache) ← Resolution.tell code r.2 r.1
  (closing e.generator (planned e) (outPath (stagedName e)) (outPath (renderedName e))
    (store e.images (outPath (renderedName e)) card (valuesOf e found))).run.run cache

/-- The letter with the picture that is found for the code. -/
def filled (r : Except Cause Content) : Filling :=
  let f := card.setImage "qrcode:x".toList codePicture (r.map Content.described)
  { f with result := f.result.map (0 + ·) }

/-- What is left to do when the letter is filled. -/
def ending (e : Job) (f : Filling) : Script (Except Abort Path × AssetCache) :=
  (closing e.generator (planned e) (outPath (stagedName e)) (outPath (renderedName e))
    (storing (outPath (renderedName e)) f)).run.run sweptCache

open Resolution in
theorem continuing_card (he : e ∈ cards) :
    continuing e.generator (planned e, outPath (stagedName e), outPath (renderedName e), some card)
      cardCache = cardCache.getOrCreate e.studio.render e.studio.parts code >>= concluding e := by
  have hengine : e.generator.engine = Engine.ofStudio e.studio cardDay Kind.order ∧
      e.generator.images = e.images := by
    rcases mem_cards.1 he with rfl | rfl
    all_goals exact ⟨rfl, rfl⟩
  have hplaceholders : card.placeholders = ["qrcode:x".toList] := by cbv
  have horder : inOrder Kind.order ["qrcode:x".toList] = [bare] := by decide +kernel
  have hrequest : request (planned e).data bare = .draw code := rfl
  have hresolved : isResolved (planned e).data bare = false := rfl
  unfold continuing
  dsimp only
  rw [hengine.1, hengine.2, hplaceholders]
  unfold Engine.ofStudio resolveAll
  rw [horder, show (planned e).data.unwrapKeys = (planned e).data from rfl]
  unfold resolveEach
  rw [hresolved, if_neg (by decide), resolve_qrcode rfl, symbol_eq, hrequest]
  dsimp only
  rw [show (symbolLevel (bare.arg? 2)).2 = [] from rfl, Script.noteAll, pure_bind]
  simp only [bind_assoc]
  congr 1
  funext r
  unfold concluding
  congr 1
  funext r
  obtain ⟨found, cache⟩ := r
  cases found with
  | error f => rfl
  | ok v? => cases v? <;> rfl

/-- When the code is found, its picture is read, and the letter filled with it. -/
theorem concluding_found (he : e ∈ cards) :
    concluding e (.found ((fromRoot "cache").child codeName), sweptCache) =
      Script.read codePicture.source >>= fun r => Script.noteAll (filled r).log >>= fun _ =>
        ending e (filled r) := by
  have himages : e.images = Content.described := by
    rcases mem_cards.1 he with rfl | rfl
    all_goals rfl
  have hplaceholders : card.placeholders = ["qrcode:x".toList] := by cbv
  have hvalues : valuesOf e (.ok (some (.asset codePicture))) =
      .ok [("qrcode:x".toList, .asset codePicture)] := by
    show Except.ok (Table.insert _ _ _) = _
    congr 1
  show (closing e.generator (planned e) (outPath (stagedName e)) (outPath (renderedName e))
    (store e.images (outPath (renderedName e)) card (valuesOf e (.ok (some (.asset codePicture)))))).run.run
      sweptCache = _
  rw [hvalues, himages, run_closing _ _ _ _ (run_store Content.described _ card _ sweptCache)]
  have happly : Document.applyFrom Content.described ["qrcode:x".toList]
      { document := card, result := .ok 0 } [("qrcode:x".toList, .asset codePicture)] =
        Script.read codePicture.source >>= fun r => pure (filled r) := by
    have htoken : ¬ Token.unwrap "qrcode:x".toList ∉ ["qrcode:x".toList] := by decide
    unfold Document.applyFrom Document.applyOne
    dsimp only
    rw [if_neg htoken]
    rfl
  unfold Document.apply
  rw [hplaceholders, happly]
  simp only [bind_assoc, pure_bind]
  rfl

theorem filled_image : filled (.ok (.image 3 3)) = { document := shown, result := .ok 1 } := by
  have hfit : (match Picture.fit codePicture (3, 3) with | .ok s => some s | .error _ => none) =
    some (100, 100) := by decide +kernel
  have hsize : codePicture.shownSize (.ok (.size 3 3)) = .ok (some (100, 100)) := by
    show (Picture.fit codePicture (3, 3)).map some = _
    revert hfit
    cases Picture.fit codePicture (3, 3) with
    | error f => exact fun h => nomatch h
    | ok s =>
      intro h
      rw [Option.some.inj h]
      rfl
  have hname : codePicture.fileName.all isXmlChar = true := by decide +kernel
  have hpicture : codePicture.picture (.ok (.size 3 3)) (100, 100) = .ok ⟨952500, 952500⟩ := by
    unfold Asset.picture
    rw [hname]
    rfl
  unfold filled Document.setImage
  rw [show Except.map Content.described (.ok (.image 3 3)) = .ok (.size 3 3) from rfl, hsize]
  dsimp only
  rw [hpicture]
  cbv

/-- A run whose picture has not gone is at the end of its phases. -/
theorem Begins.run_generate (h : Begins e u old) (he : e ∈ cards)
    (hread : Script.run (Script.read codePicture.source) (drawnWorld e u old) =
      (.ok (.image 3 3), drawnWorld e u old)) :
    Script.run (e.generator.generate e.cache e.provider) (u.withNumbers e.first e.firstDraft) =
      Script.run (ending e { document := shown, result := .ok 1 }) (drawnWorld e u old) := by
  rw [generate_eq, Script.run_bind, h.opening]
  show Script.run (continuing e.generator (planned e, outPath (stagedName e), outPath (renderedName e),
    some card) cardCache) (begun e u) = _
  rw [continuing_card he, Script.run_bind, h.run_getOrCreate he]
  show Script.run (concluding e (.found ((fromRoot "cache").child codeName), sweptCache))
    (drawnWorld e u old) = _
  rw [concluding_found he, Script.run_bind, hread]
  dsimp only
  rw [filled_image]
  rfl

/-! ### What the runs look at -/

set_option maxRecDepth 100000 in
theorem run_opening_cards (he : e ∈ cards) :
    Script.run ((opening e.provider).run.run e.cache)
        (parlour.withNumbers e.first e.firstDraft) =
      ((.ok (planned e, outPath (stagedName e), outPath (renderedName e), some card), cardCache),
        begun e parlour) := by
  rcases mem_cards.1 he with rfl | rfl
  all_goals cbv

set_option maxRecDepth 100000 in
theorem run_sweep_cards (he : e ∈ cards) :
    Script.run cardCache.sweepIfDue (begun e parlour) =
      (sweptCache, swept e parlour "old.png".toList) := by
  rcases mem_cards.1 he with rfl | rfl
  all_goals cbv

theorem begins_cards (he : e ∈ cards) : Begins e parlour "old.png".toList := by
  refine ⟨run_opening_cards he, run_sweep_cards he, isTame_of_nodes ?_ ?_, ?_, ?_, rfl, ?_, ?_, ?_⟩
  case refine_5 =>
    rcases mem_cards.1 he with rfl | rfl
    all_goals rfl
  all_goals
    rcases mem_cards.1 he with rfl | rfl
    all_goals decide

set_option maxRecDepth 100000 in
theorem looks_opening (he : e ∈ cards) (h : ((opening e.provider).run.run e.cache).Looks
      (parlour.withNumbers e.first e.firstDraft) q) :
    q ∈ [["t.docx".toList], ["out".toList], ["out".toList, stagedName e]] := by
  rcases mem_cards.1 he with rfl | rfl
  all_goals
    cbv at h
    rw [show List.Mem = fun (q : Place) l => q ∈ l from rfl] at h
    simp only [List.mem_cons, List.not_mem_nil, or_false, Except.ok.injEq] at h
    casesm* _ ∨ _
    all_goals
      subst_vars
      decide +kernel

set_option maxRecDepth 100000 in
theorem not_drafts_opening (he : e ∈ cards) : ¬ ((opening e.provider).run.run e.cache).Drafts
    (parlour.withNumbers e.first e.firstDraft) := by
  rcases mem_cards.1 he with rfl | rfl
  all_goals cbv

/-- The world of a run alone whose code has been drawn. -/
def drawnAlone (e : Job) : World := drawnWorld e parlour "old.png".toList

set_option maxRecDepth 100000 in
theorem looks_read (he : e ∈ cards) (h : (Script.read codePicture.source).Looks (drawnAlone e) q) :
    q ∈ [["cache".toList], ["cache".toList, codeName]] := by
  rcases mem_cards.1 he with rfl | rfl
  all_goals
    cbv at h
    rw [show List.Mem = fun (q : Place) l => q ∈ l from rfl] at h
    simp only [List.mem_cons, List.not_mem_nil, or_false, Except.ok.injEq] at h
    casesm* _ ∨ _
    all_goals
      subst_vars
      decide +kernel

set_option maxRecDepth 100000 in
theorem run_read (he : e ∈ cards) :
    Script.run (Script.read codePicture.source) (drawnAlone e) = (.ok (.image 3 3), drawnAlone e) := by
  rcases mem_cards.1 he with rfl | rfl
  all_goals cbv

set_option maxRecDepth 100000 in
theorem looks_ending (he : e ∈ cards)
    (h : (ending e { document := shown, result := .ok 1 }).Looks (drawnAlone e) q) :
    q ∈ [["out".toList], ["out".toList, stagedName e], ["out".toList, renderedName e],
      ["out".toList, finalName e.provider .docx]] := by
  rcases mem_cards.1 he with rfl | rfl
  all_goals
    cbv at h
    rw [show List.Mem = fun (q : Place) l => q ∈ l from rfl] at h
    simp only [List.mem_cons, List.not_mem_nil, or_false, Except.ok.injEq] at h
    casesm* _ ∨ _
    all_goals
      subst_vars
      decide +kernel

set_option maxRecDepth 100000 in
theorem not_drafts_ending (he : e ∈ cards) :
    ¬ (ending e { document := shown, result := .ok 1 }).Drafts (drawnAlone e) := by
  rcases mem_cards.1 he with rfl | rfl
  all_goals cbv

set_option maxRecDepth 100000 in
theorem run_ending (he : e ∈ cards) :
    let w := (Script.run (ending e { document := shown, result := .ok 1 }) (drawnAlone e)).2
    (w.fresh, w.drafts, w.files.get? ["out".toList, finalName e.provider .docx]) =
      (e.first + 2, e.firstDraft + 1, some (.file (.document shown) 100000000000 false)) := by
  rcases mem_cards.1 he with rfl | rfl
  all_goals cbv

/-! ### What the runs change, and what they share -/

/-- How long pictures are kept at least. -/
def keeping (r : Place) : Option Time := if r = ["cache".toList] then some 86400000000 else none

/-- What is drawn for every code. -/
def square (_ : Place) : Option Content := some (.image 3 3)

/-- A run, up to what is left to do when the letter is filled. -/
theorem run_card (he : e ∈ cards) :
    Script.run (e.generator.generate e.cache e.provider) (parlour.withNumbers e.first e.firstDraft) =
      Script.run (ending e { document := shown, result := .ok 1 }) (drawnAlone e) :=
  (begins_cards he).run_generate he (run_read he)

theorem isTame_parlour : IsTame parlour.files := isTame_of_nodes (by decide) (by decide)

theorem isSound_parlour : parlour.files.IsSound := isTame_parlour.isSound rfl

theorem unused_parlour {first : Nat} (q : Place) (hq : IsScratch first q) : parlour.files.get? q = none :=
  unused_of_nodes (by decide) (by decide) q hq

theorem takes_cards (he : e ∈ cards) : e.Takes parlour n ↔ e.first ≤ n ∧ n < e.first + 2 := by
  have hend : _ = e.first + 2 := congrArg Prod.fst (run_ending he)
  unfold Job.Takes Job.after
  rw [run_card he]
  dsimp only at hend
  rw [hend]

theorem takesDraft_cards (he : e ∈ cards) : e.TakesDraft parlour n ↔ n = e.firstDraft := by
  have hend : _ = e.firstDraft + 1 := congrArg (fun r => r.2.1) (run_ending he)
  unfold Job.TakesDraft Job.after
  rw [run_card he]
  dsimp only at hend
  rw [hend]
  omega

theorem get?_cards (he : e ∈ cards) :
    (e.alone parlour).2.files.get? ["out".toList, finalName e.provider .docx] =
      some (.file (.document shown) 100000000000 false) := by
  unfold Job.alone Job.script
  rw [Script.run_numbered, run_card he]
  exact congrArg (fun r => r.2.2) (run_ending he)

theorem isOutput_cards (he : e ∈ cards) :
    e.IsOutput parlour q ↔ q = ["out".toList, finalName e.provider .docx] := by
  have hprovider : e.provider.directory = letter.directory ∧ e.provider.format = letter.format := by
    rcases mem_cards.1 he with rfl | rfl
    all_goals exact ⟨rfl, rfl⟩
  have hformat : formatOf letter.format = .ok (some .docx) := by cbv
  have hout : parlour.files.IsPlain letter.directory := isTame_parlour.isPlain_fromRoot (t := 0) rfl
  unfold Job.IsOutput
  rw [hprovider.1, hprovider.2, hformat]
  constructor
  · rintro ⟨place, format, hm, hf, rfl⟩
    cases hf
    rw [hm.unique hout.meansDirectory]
    rfl
  · rintro rfl
    exact ⟨_, .docx, hout.meansDirectory, rfl, rfl⟩

theorem isReady_cards (he : e ∈ cards) : e.IsReady parlour := by
  have hname : ∀ format, '_' ∉ finalName e.provider format := by
    rcases mem_cards.1 he with rfl | rfl
    all_goals
      intro format
      cases format <;> decide
  obtain ⟨hcache, htemplate, hdirectory⟩ : e.cache = cardCache ∧
      e.provider.template = letter.template ∧ e.provider.directory = letter.directory := by
    rcases mem_cards.1 he with rfl | rfl
    all_goals exact ⟨rfl, rfl, rfl⟩
  have hout : parlour.files.IsPlain letter.directory := isTame_parlour.isPlain_fromRoot (t := 0) rfl
  have hinside : ¬ parlour.files.Inside cardCache.directory ["out".toList] := by
    rintro ⟨r, hm, hr⟩
    have hcache : parlour.files.IsPlain cardCache.directory := isTame_parlour.isPlain_fromRoot (t := 0) rfl
    rw [hm.unique hcache.meansDirectory] at hr
    revert hr
    decide
  refine ⟨?_, ?_, ?_, fun place format hm => ?_, Nat.zero_le _, Nat.zero_le _, fun format h =>
    hname format (mem_scratchName h)⟩
  · rw [hcache]
    exact isTame_parlour.isClean_fromRoot rfl
  · rw [htemplate]
    exact isTame_parlour.isClean_fromRoot rfl
  · rw [hdirectory]
    exact hout.clean
  · rw [hdirectory] at hm ⊢
    rw [hcache, hm.unique hout.meansDirectory]
    exact hout.meansFirmly_of_disjoint hinside _

theorem apart_cards (he : e ∈ cards) (he' : e' ∈ cards) (hne : e ≠ e') : e.Apart e' parlour := by
  have hdiffer : (e.first + 2 ≤ e'.first ∨ e'.first + 2 ≤ e.first) ∧ e.firstDraft ≠ e'.firstDraft ∧
      finalName e.provider .docx ≠ finalName e'.provider .docx := by
    rcases mem_cards.1 he with rfl | rfl <;> rcases mem_cards.1 he' with rfl | rfl
    · exact absurd rfl hne
    · decide
    · decide
    · exact absurd rfl hne
  refine ⟨fun n hn hn' => ?_, fun n hn hn' => ?_, fun q hq hq' => ?_⟩
  · rw [takes_cards he] at hn
    rw [takes_cards he'] at hn'
    omega
  · rw [takesDraft_cards he] at hn
    rw [takesDraft_cards he'] at hn'
    exact hdiffer.2.1 (hn.symm.trans hn')
  · rw [isOutput_cards he] at hq
    rw [isOutput_cards he', hq] at hq'
    exact hdiffer.2.2 (List.cons.inj (List.cons.inj hq').2).1

theorem drafts_parlour (r : Place) (n : Nat) :
    parlour.files.get? (r ++ [AssetCache.scratchName n]) = none := by
  refine Option.eq_none_iff_forall_ne_some.2 fun node hnode => ?_
  have hnames : parlour.files.nodes.all (fun e => e.1.all fun n => decide ('_' ∉ n)) = true := by decide
  have hmem := mem_nodes (by decide) (by simp) hnode
  refine absurd (List.mem_append_left _ (List.mem_append_left _ (by decide)))
    (of_decide_eq_true (List.all_eq_true.1 (List.all_eq_true.1 hnames _ hmem)
      (AssetCache.scratchName n) (by simp)))

/-- What is there and no picture, and not as deep as a document, no run changes. -/
theorem not_changedBy_cards (hthere : parlour.files.get? q ≠ none) (hpicture : ¬ IsPicture q)
    (hshort : q.length < 2) {i : Nat} : ¬ ChangedBy cards parlour i q := by
  rintro ⟨e, hi, hchanges⟩
  have he := List.mem_of_getElem? hi
  rcases Job.changes (isReady_cards he) isSound_parlour unused_parlour
    (fun r n _ => drafts_parlour r n) hchanges with h | ⟨-, h⟩ | h
  · exact hthere (unused_parlour _ (h.isScratch fun n hn => Nat.zero_le _))
  · exact hpicture h
  · rw [isOutput_cards he] at h
    subst h
    exact absurd hshort (Nat.lt_irrefl 2)

theorem isOwn_scratch (hn : e.Takes parlour n) :
    e.IsOwn parlour ["out".toList, scratchStem n ++ ".docx".toList] := by
  refine Or.inl ⟨["out".toList], _, [], n, rfl, ?_, hn, Or.inl ?_⟩
  · exact (show Unused 0 parlour.files from unused_parlour).not_isScratch
      (show parlour.files.get? ["out".toList] = some (.directory 0) from rfl)
  · exact cut_scratchStem n (isEnding_name .docx)

theorem shelf_cards (h : (company cards parlour keeping square).Shelf q) :
    ∃ name, q = ["cache".toList, name] := by
  obtain ⟨r, name, hr, rfl, -⟩ := h
  refine ⟨name, ?_⟩
  by_cases hcache : r = ["cache".toList]
  · rw [hcache]
    rfl
  · rw [show (company cards parlour keeping square).lifetime? r = none from if_neg hcache] at hr
    cases hr

/-- Whether other runs than one can change a place that is not its own. -/
def Loose (i : Nat) (e : Job) (q : Place) : Prop :=
  (∃ j, j ≠ i ∧ ChangedBy cards parlour j q) ∧ ¬ e.IsOwn parlour q

/-- The places of a run that are neither shared nor changed by another one. -/
def alonePlaces (e : Job) : List Place :=
  [[], ["t.docx".toList], ["out".toList], ["cache".toList], ["out".toList, stagedName e],
    ["out".toList, renderedName e], ["out".toList, finalName e.provider .docx]]

theorem clear_alonePlaces (he : e ∈ cards) (hq : q ∈ alonePlaces e) {i : Nat} :
    ¬ (company cards parlour keeping square).Shelf q ∧ ¬ Loose i e q := by
  have hnone : ¬ IsPicture [] := by
    rintro ⟨r, n, heq, -⟩
    exact List.cons_ne_nil _ _ (List.append_eq_nil_iff.1 heq.symm).2
  have hone : ∀ name, Text.endsIn AssetCache.ending name = false → ¬ IsPicture [name] := by
    rintro name hending ⟨r, n, heq, hn⟩
    obtain ⟨-, hname⟩ := List.append_inj' (show [] ++ [name] = r ++ [n] from heq) rfl
    rw [List.singleton_inj.1 hname, hn] at hending
    cases hending
  have hthere : parlour.files.get? q ≠ none → ¬ IsPicture q → q.length < 2 →
      ¬ (company cards parlour keeping square).Shelf q ∧ ¬ Loose i e q := by
    refine fun hthere hpicture hshort => ⟨fun h => ?_, ?_⟩
    · obtain ⟨_, rfl⟩ := shelf_cards h
      exact absurd hshort (Nat.lt_irrefl 2)
    · rintro ⟨⟨j, -, hj⟩, -⟩
      exact not_changedBy_cards hthere hpicture hshort hj
  have hown : ∀ name, q = ["out".toList, name] → e.IsOwn parlour q →
      ¬ (company cards parlour keeping square).Shelf q ∧ ¬ Loose i e q := by
    rintro name rfl hname
    refine ⟨fun h => ?_, fun h => h.2 hname⟩
    obtain ⟨_, heq⟩ := shelf_cards h
    exact absurd (List.cons.inj heq).1 (by decide)
  simp only [alonePlaces, List.mem_cons, List.not_mem_nil, or_false] at hq
  rcases hq with rfl | rfl | rfl | rfl | h | h | h
  · exact hthere (by decide) hnone (by decide)
  · exact hthere (by decide) (hone _ (by decide)) (by decide)
  · exact hthere (by decide) (hone _ (by decide)) (by decide)
  · exact hthere (by decide) (hone _ (by decide)) (by decide)
  · exact hown _ h (h ▸ isOwn_scratch ((takes_cards he).2 (by omega)))
  · exact hown _ h (h ▸ isOwn_scratch ((takes_cards he).2 (by omega)))
  · exact hown _ h (Or.inr ((isOutput_cards he).2 h))

theorem get?_codeName : parlour.files.get? ["cache".toList, codeName] = none := by decide

/-- A run reads a picture where there is one. -/
theorem not_grips_read {p : Text} {w : World} (h : w.files.get? q ≠ none) :
    ¬ (Script.read p).Grips w q := by
  rintro (⟨-, hgrips⟩ | hgrips)
  · exact hgrips ⟨trivial, h⟩
  · exact hgrips

theorem asks_card (he : e ∈ cards) {i : Nat} :
    (company cards parlour keeping square).Asks (Loose i e) i cardCache e.studio.render code
      ["cache".toList] (begun e parlour) := by
  have htame : IsTame (begun e parlour).files := by
    refine isTame_of_nodes ?_ ?_
    all_goals
      rcases mem_cards.1 he with rfl | rfl
      all_goals decide
  have hthere : (begun e parlour).files.get? ["cache".toList] = some (.directory 0) := by
    rcases mem_cards.1 he with rfl | rfl
    all_goals rfl
  have hplain : (begun e parlour).files.IsPlain (fromRoot "cache") := htame.isPlain_fromRoot hthere
  have hhome : cardCache.Home (begun e parlour).files ["cache".toList] := by
    refine AssetCache.home_of_isPlain (htame.isSound ?_) hplain (by decide) fun name =>
      atMostFile_of_flat ?_ ?_ _ name
    all_goals
      rcases mem_cards.1 he with rfl | rfl
      all_goals decide
  have hfirm : (begun e parlour).files.MeansFirmly cardCache.directory ["cache".toList] fun q =>
      (company cards parlour keeping square).Shelf q ∨ Loose i e q := by
    refine hplain.meansFirmly fun q hq => not_or.2 (clear_alonePlaces he ?_)
    rcases List.prefix_concat_iff.1 (show q <+: [] ++ ["cache".toList] from hq) with rfl | hq
    · simp [alonePlaces]
    · rw [List.prefix_nil.1 hq]
      simp [alonePlaces]
  have hname : cardCache.entryName code = codeName := entryName_code none
  refine ⟨⟨86400000000, rfl, Int.le_refl _⟩, hhome, hfirm, ?_, ?_, ?_, fun _ => ?_, ?_⟩
  · unfold AssetCache.stagePath
    rw [AssetCache.absolute_of_isPlain
      (show (begun e parlour).files.IsPlain cardCache.directory from hplain)]
    exact hfirm
  · exact clear_alonePlaces he (by simp [alonePlaces])
  · intro n hn
    obtain ⟨e', hi, hn⟩ := drafts_company hn
    have he' := List.mem_of_getElem? hi
    rw [(takesDraft_cards he').1 hn]
    refine fits_cache hplain ?_
    rcases mem_cards.1 he' with rfl | rfl
    all_goals decide
  · rcases mem_cards.1 he with rfl | rfl
    all_goals rfl
  · intro hdead
    rw [hname] at hdead
    exact absurd get?_codeName hdead.ne_none

theorem minds_card (he : e ∈ cards) {i : Nat} :
    (company cards parlour keeping square).Minds (Loose i e) i True
      (e.generator.generate e.cache e.provider) (parlour.withNumbers e.first e.firstDraft) := by
  have hclear : ∀ {q : Place}, q ∈ alonePlaces e →
      ¬ (company cards parlour keeping square).Shelf q ∧ ¬ Loose i e q := fun hq =>
    clear_alonePlaces he hq
  rw [generate_eq]
  refine Company.Minds.bind (Company.minds_of_looks (fun h => absurd h (not_drafts_opening he))
    fun q hq => Or.inl (hclear ?_)) ?_
  · have hq := looks_opening he hq
    unfold alonePlaces
    grind
  rw [(begins_cards he).opening]
  show Company.Minds _ _ _ _ (continuing e.generator (planned e, outPath (stagedName e),
    outPath (renderedName e), some card) cardCache) (begun e parlour)
  rw [continuing_card he]
  refine .ask trivial (asks_card he) ?_
  rw [(begins_cards he).run_getOrCreate he]
  show Company.Minds _ _ _ _ (concluding e (.found ((fromRoot "cache").child codeName), sweptCache))
    (drawnAlone e)
  rw [concluding_found he]
  refine Company.Minds.bind (Company.minds_of_looks (fun h => h.elim) fun q hq => ?_) ?_
  · rcases List.mem_pair.1 (looks_read he hq) with rfl | rfl
    · exact Or.inl (hclear (by simp [alonePlaces]))
    · -- the picture is there
      have hname : cardCache.entryName code = codeName := entryName_code none
      refine Or.inr ⟨⟨?_, fun hdead => hdead.ne_none get?_codeName⟩, not_grips_read ?_⟩
      · rw [← hname]
        exact Company.shelf_entry (r := ["cache".toList]) (L := 86400000000) rfl cardCache code
      · show (FileSystem.put _ _ _).get? _ ≠ none
        rw [FileSystem.get?_put_self (by simp)]
        exact nofun
  rw [run_read he]
  dsimp only
  rw [filled_image]
  refine Company.minds_of_looks (fun h => absurd h (not_drafts_ending he)) fun q hq =>
    Or.inl (hclear ?_)
  have hq := looks_ending he hq
  unfold alonePlaces
  grind

theorem areReady_cards : AreReady cards parlour keeping square where
  sound := isSound_parlour
  unused := unused_parlour
  drafts r n _ := drafts_parlour r n
  each _ _ hi := isReady_cards (List.mem_of_getElem? hi)
  apart i j e e' hi hj hij := by
    refine apart_cards (List.mem_of_getElem? hi) (List.mem_of_getElem? hj) ?_
    rintro rfl
    have hnodup : cards.Nodup := by
      rw [cards, List.nodup_cons, List.mem_singleton]
      exact ⟨fun h => absurd (congrArg Job.first h) (by decide), List.nodup_singleton _⟩
    exact hij ((List.getElem?_inj (List.getElem?_eq_some_iff.1 hi).1 hnodup).1 (hi.trans hj.symm))
  lifetimes r L hr := by
    unfold keeping at hr
    split at hr
    · obtain rfl : r = ["cache".toList] := ‹_›
      cases hr
      exact ⟨by decide, 0, rfl⟩
    · cases hr
  files q hq := by
    obtain ⟨name, rfl⟩ := shelf_cards hq
    have hkeys : (Table.keys parlour.files.nodes).Nodup := by decide
    exact atMostFile_of_flat hkeys (by decide) _ name
  minds _ _ hi := ⟨True, minds_card (List.mem_of_getElem? hi)⟩

/-- Two letters are made that show one code, which is drawn while an old picture is taken away, whatever the
order of the steps. -/
theorem generate_undisturbed_cards : AreReady cards parlour keeping square ∧
    ∀ order : Nat → Nat, (∀ i, i < cards.length → ∀ m, ∃ n, m ≤ n ∧ order n = i) →
      ∃ m, let files := (Interleaved.steps (cards.map Job.script) parlour
          (Interleaved.turnsOf order m)).2.files
        (∀ e ∈ cards, files.get? ["out".toList, finalName e.provider .docx] =
          some (.file (.document shown) 100000000000 false)) ∧
        ∀ q, IsScratch 0 q → files.get? q = none := by
  refine ⟨areReady_cards, fun order hfair => ?_⟩
  obtain ⟨hend, hsteps⟩ := generate_undisturbed areReady_cards
  obtain ⟨m, hdone⟩ := hend order hfair
  obtain ⟨heach, hleft⟩ := hsteps (Interleaved.turnsOf order m)
  refine ⟨m, fun e he => ?_, hleft hdone⟩
  obtain ⟨i, hi⟩ := List.mem_iff_getElem?.1 he
  obtain ⟨r, hr⟩ := hdone i (List.getElem?_eq_some_iff.1 hi).1
  rw [(heach i e hi r hr).2 _ ((isOutput_cards he).2 rfl), get?_cards he]

end

/-! ## A document in the place of an image -/

/-- A directory with an image that has the name of a document, templates, and an empty cache. -/
def album : World where
  files :=
    { nodes := [(["out".toList], .directory 0),
        (["out".toList, "b.docx".toList], .file (.image 3 2) 0 false),
        (["t.docx".toList], .file (.document {}) 0 false),
        (["p.docx".toList], .file (.document invitation) 0 false),
        (["cache".toList], .directory 0)] }

/-- A run that makes a copy of a letter. -/
def copying : Job :=
  { coding "b" 4 with provider := { letter with outputName := "b".toList } }

/-- A run that shows the image of the album. -/
def showing : Job :=
  { coding "a" 0 with
    provider := { letter with
      data := .map [("n".toList,
        .asset { source := "/out/b.docx".toList, width := 3, height := 2, keepAspect := false })]
      template := fromRoot "p.docx"
      outputName := "a".toList } }

/-- Whether a run that has ended has made its document. -/
def hasMade : Script (Except Abort Path × AssetCache) → Option Bool
  | .done r => some r.1.toBool
  | .step .. => none

theorem eq_done_of_hasMade {x : Script (Except Abort Path × AssetCache)} {b : Bool}
    (h : hasMade x = some b) : ∃ r, x = .done r ∧ r.1.toBool = b := by
  cases x with
  | done r => exact ⟨r, rfl, Option.some.inj h⟩
  | step s next => cases h

/-- Whether a run has made its document, and the next numbers in the end. -/
def outcome (r : (Except Abort Path × AssetCache) × World) : Bool × Nat × Nat :=
  (r.1.1.toBool, r.2.fresh, r.2.drafts)

set_option maxRecDepth 100000 in
theorem outcome_showing : outcome (Script.run
    (showing.generator.generate showing.cache showing.provider)
      (album.withNumbers showing.first showing.firstDraft)) = (true, 2, 0) := by
  cbv

theorem alone_showing : (showing.alone album).1.1.toBool = true := by
  unfold Job.alone Job.script
  rw [Script.run_numbered]
  exact congrArg Prod.fst outcome_showing

set_option maxRecDepth 100000 in
theorem steps_showing : (Interleaved.steps [showing.script, copying.script] album
    (List.replicate 11 1 ++ List.replicate 11 0)).1[0]?.bind hasMade = some false := by
  cbv

/-! ## A picture that is drawn anew -/

/-- A world where the picture of the code has expired. -/
def stale : World := gallery codeName

/-- What a script removes next. -/
def removes {α : Type} : Script α → Option Text
  | .step (.remove p) _ => some p
  | _ => none

set_option maxRecDepth 100000 in
theorem run_opening_stale :
    Script.run ((opening (coding "b" 4).provider).run.run cardCache) (stale.withNumbers 4 4) =
      ((.ok (planned (coding "b" 4), outPath (stagedName (coding "b" 4)),
        outPath (renderedName (coding "b" 4)), some card), cardCache), begun (coding "b" 4) stale) := by
  cbv

/-- The world when the second run has staged the template. -/
def entered : World := (begun (coding "b" 4) stale).withNumbers 0 0

set_option maxRecDepth 100000 in
theorem removes_entered {α : Type} (x : Script α) (f : AssetCache → Script α) :
    (Interleaved.steps [x, Script.numbered 6 4 (cardCache.sweepIfDue >>= f)] entered
      (List.replicate 5 1)).1[1]?.bind removes = some codePicture.source := by
  cbv

set_option maxRecDepth 100000 in
theorem steps_entered {α : Type} (x : Script α) (f : AssetCache → Script α) :
    (Interleaved.steps [x, Script.numbered 6 4 (cardCache.sweepIfDue >>= f)] entered
      (List.replicate 5 1)).2 = entered := by
  cbv

set_option maxRecDepth 100000 in
theorem begins_stale : Begins (coding "a" 0) stale codeName := by
  refine ⟨?_, ?_, isTame_of_nodes ?_ ?_, ?_, ?_, rfl, rfl, ?_, ?_⟩
  · cbv
  · cbv
  all_goals decide

set_option maxRecDepth 100000 in
theorem begins_entered : Begins (coding "a" 0) entered codeName := by
  refine ⟨?_, ?_, isTame_of_nodes ?_ ?_, ?_, ?_, rfl, rfl, ?_, ?_⟩
  · cbv
  · cbv
  all_goals decide

set_option maxRecDepth 100000 in
theorem run_read_stale : Script.run (Script.read codePicture.source) (drawnWorld (coding "a" 0) stale codeName) =
    (.ok (.image 3 3), drawnWorld (coding "a" 0) stale codeName) := by
  cbv

set_option maxRecDepth 100000 in
theorem run_ending_stale :
    let w := (Script.run (ending (coding "a" 0) { document := shown, result := .ok 1 })
      (drawnWorld (coding "a" 0) stale codeName)).2
    (w.fresh, w.drafts, w.files.get? ["out".toList, "a.docx".toList]) =
      (2, 1, some (.file (.document shown) 100000000000 false)) := by
  cbv

theorem run_stale : Script.run ((coding "a" 0).generator.generate cardCache (coding "a" 0).provider)
    (stale.withNumbers 0 0) = Script.run (ending (coding "a" 0) { document := shown, result := .ok 1 })
      (drawnWorld (coding "a" 0) stale codeName) :=
  begins_stale.run_generate (mem_cards.2 (Or.inl rfl)) run_read_stale

/-- The world when the second run has removed what the first one drew. -/
def bereft : World :=
  let w := drawnWorld (coding "a" 0) entered codeName
  { w with files := w.files.drop ["cache".toList, codeName] }

theorem filled_absent : filled (.error .absent) =
    { document := card, result := .ok 0, log := [.warning "image_unreadable"] } := rfl

set_option maxRecDepth 100000 in
theorem perform_remove : ((drawnWorld (coding "a" 0) entered codeName).withNumbers 0 0).perform
    (.remove codePicture.source) = (.ok (), bereft.withNumbers 0 0) := by
  cbv

set_option maxRecDepth 100000 in
theorem run_read_bereft : Script.run (Script.read codePicture.source) bereft = (.error .absent, bereft) := by
  cbv

set_option maxRecDepth 100000 in
theorem run_ending_bereft :
    let r := Script.run (ending (coding "a" 0) (filled (.error .absent)))
      { bereft with log := bereft.log ++ [.warning "image_unreadable"] }
    (r.1.1.toBool, r.2.files.get? ["out".toList, "a.docx".toList]) =
      (true, some (.file (.document card) 100000000000 false)) := by
  rw [filled_absent]
  cbv

theorem eq_step_of_removes {α : Type} {x : Script α} {p : Text} (h : removes x = some p) :
    ∃ next, x = .step (.remove p) next := by
  cases x with
  | done a => cases h
  | step s next =>
    cases s with
    | remove q =>
      obtain rfl := Option.some.inj h
      exact ⟨next, rfl⟩
    | _ => cases h

/-- The first run alone draws the code and shows it. -/
theorem alone_stale : ((coding "a" 0).alone stale).2.files.get? ["out".toList, "a.docx".toList] =
    some (.file (.document shown) 100000000000 false) := by
  unfold Job.alone Job.script
  rw [Script.run_numbered]
  show (Script.run ((coding "a" 0).generator.generate cardCache (coding "a" 0).provider)
    (stale.withNumbers 0 0)).2.files.get? _ = _
  rw [run_stale]
  exact congrArg (fun r => r.2.2) run_ending_stale

/-- The first part of a script with numbers of its own can be run without the others. -/
theorem exists_steps_numbered {α β : Type} {pool : List (Script α)} {i n d : Nat} {x : Script β}
    {f : β → Script α} (hs : pool[i]? = some (Script.numbered n d (x >>= f))) (w : World) :
    let r := Script.run x (w.withNumbers n d)
    ∃ l, Interleaved.steps pool w l =
      (pool.set i (Script.numbered r.2.fresh r.2.drafts (f r.1)), r.2.withNumbers w.fresh w.drafts) := by
  have hnumbered : Script.numbered n d (x >>= f) =
      Script.counted n d x >>= fun r => Script.numbered r.2.1 r.2.2 (f r.1) := by
    unfold Script.numbered
    rw [Script.counted_bind, bind_assoc]
  rw [hnumbered] at hs
  obtain ⟨l, hl⟩ := Interleaved.exists_steps_bind hs w
  rw [Script.run_counted] at hl
  exact ⟨l, hl⟩

section
variable {e : Job} {u : World} {old : Text} {pool : List (Script (Except Abort Path × AssetCache))} {i : Nat}

/-- A run can do its first phase without the others. -/
theorem exists_steps_opening (he : e ∈ cards)
    (hopening : Script.run ((opening e.provider).run.run e.cache) (u.withNumbers e.first e.firstDraft) =
      ((.ok (planned e, outPath (stagedName e), outPath (renderedName e), some card), cardCache), begun e u))
    (hi : pool[i]? = some e.script) :
    ∃ l, Interleaved.steps pool u l = (pool.set i (Script.numbered (e.first + 2) e.firstDraft
      (cardCache.getOrCreate e.studio.render e.studio.parts code >>= concluding e)),
        (begun e u).withNumbers u.fresh u.drafts) := by
  unfold Job.script at hi
  rw [generate_eq] at hi
  obtain ⟨l, hl⟩ := exists_steps_numbered hi u
  rw [hopening] at hl
  refine ⟨l, hl.trans ?_⟩
  rw [← continuing_card he]
  rfl

/-- A run can go on until it is answered without the others. -/
theorem Begins.exists_steps (h : Begins e u old) (he : e ∈ cards) (hi : pool[i]? = some e.script) :
    ∃ l, Interleaved.steps pool u l = (pool.set i (Script.numbered (e.first + 2) (e.firstDraft + 1)
      (concluding e (.found ((fromRoot "cache").child codeName), sweptCache))),
        (drawnWorld e u old).withNumbers u.fresh u.drafts) := by
  obtain ⟨l, hl⟩ := exists_steps_opening he h.opening hi
  obtain ⟨l', hl'⟩ := exists_steps_numbered
    (List.getElem?_set_self (List.getElem?_eq_some_iff.1 hi).1) ((begun e u).withNumbers u.fresh u.drafts)
  have hasked : Script.run (cardCache.getOrCreate e.studio.render e.studio.parts code)
    (((begun e u).withNumbers u.fresh u.drafts).withNumbers (e.first + 2) e.firstDraft) = _ :=
    h.run_getOrCreate he
  rw [hasked, List.set_set] at hl'
  refine ⟨l ++ l', ?_⟩
  rw [Interleaved.steps_append, hl]
  exact hl'

end

/-- The second run can be about to remove the picture when the first one has not begun. -/
theorem steps_removing : ∃ l next, Interleaved.steps (cards.map Job.script) stale l =
    ([(coding "a" 0).script, .step (.remove codePicture.source) next], entered) := by
  have hsecond : (cards.map Job.script)[1]? = some (coding "b" 4).script := rfl
  obtain ⟨l, hl⟩ := exists_steps_opening (mem_cards.2 (Or.inr rfl)) run_opening_stale hsecond
  have hopened : Interleaved.steps (cards.map Job.script) stale l =
      ([(coding "a" 0).script, Script.numbered 6 4 (cardCache.getOrCreate (coding "b" 4).studio.render
        (coding "b" 4).studio.parts code >>= concluding (coding "b" 4))], entered) := hl
  rw [AssetCache.getOrCreate_eq, bind_assoc] at hopened
  revert hopened
  generalize (coding "a" 0).script = x
  generalize (fun c : AssetCache => AssetCache.answerOf c _ _ _ >>= _) = f
  intro hopened
  have hremoves := removes_entered x f
  have hworld := steps_entered x f
  have hfirst := Interleaved.getElem?_steps_of_not_mem (i := 0) (l := List.replicate 5 1) (by decide)
    [x, Script.numbered 6 4 (cardCache.sweepIfDue >>= f)] entered
  have hlength := Interleaved.length_steps [x, Script.numbered 6 4 (cardCache.sweepIfDue >>= f)]
    entered (List.replicate 5 1)
  obtain ⟨⟨pool, w⟩, hr⟩ : ∃ r, Interleaved.steps [x, Script.numbered 6 4 (cardCache.sweepIfDue >>= f)]
    entered (List.replicate 5 1) = r := ⟨_, rfl⟩
  rw [hr] at hremoves hworld hfirst hlength
  obtain ⟨y, z, rfl⟩ := List.length_eq_two.1 hlength
  obtain rfl : y = x := Option.some.inj hfirst
  obtain rfl : w = entered := hworld
  obtain ⟨next, rfl⟩ : ∃ next, z = .step (.remove codePicture.source) next := eq_step_of_removes hremoves
  refine ⟨l ++ List.replicate 5 1, next, ?_⟩
  rw [Interleaved.steps_append, hopened, hr]

/-- While the second run is about to remove the picture that has expired the first one draws it anew, and then
finds nothing where it is to be shown. -/
theorem steps_stale : ∃ l r,
    (Interleaved.steps (cards.map Job.script) stale l).1[0]? = some (.done r) ∧ r.1.toBool = true ∧
    (Interleaved.steps (cards.map Job.script) stale l).2.files.get? ["out".toList, "a.docx".toList] =
      some (.file (.document card) 100000000000 false) := by
  have he : coding "a" 0 ∈ cards := mem_cards.2 (Or.inl rfl)
  obtain ⟨l, next, hremoving⟩ := steps_removing
  obtain ⟨l', hdrawn⟩ := begins_entered.exists_steps (i := 0) he
    (show [(coding "a" 0).script, .step (.remove codePicture.source) next][0]? = _ from rfl)
  -- the second run removes it
  have hgone : Interleaved.steps (cards.map Job.script) stale (l ++ l' ++ [1]) =
      ([Script.numbered 2 1 (concluding (coding "a" 0)
        (.found ((fromRoot "cache").child codeName), sweptCache)), next (.ok ())], bereft.withNumbers 0 0) := by
    have hnext : ([(coding "a" 0).script, Script.step (.remove codePicture.source) next].set 0
        (Script.numbered 2 1 (concluding (coding "a" 0)
          (.found ((fromRoot "cache").child codeName), sweptCache))))[1]? =
        some (.step (.remove codePicture.source) next) := rfl
    have hstep := Interleaved.stepAt_step (w := (drawnWorld (coding "a" 0) entered codeName).withNumbers 0 0) hnext
    rw [perform_remove] at hstep
    rw [Interleaved.steps_append, Interleaved.steps_append, hremoving, hdrawn]
    exact hstep
  -- the first run goes on to its end
  have hfirst : [Script.numbered 2 1 (concluding (coding "a" 0)
      (.found ((fromRoot "cache").child codeName), sweptCache)), next (.ok ())][0]? =
      some (Script.numbered 2 1 (concluding (coding "a" 0)
        (.found ((fromRoot "cache").child codeName), sweptCache) >>= pure)) := by
    rw [bind_pure]
    rfl
  obtain ⟨l'', hended⟩ := exists_steps_numbered hfirst (bereft.withNumbers 0 0)
  have hrun : Script.run (concluding (coding "a" 0)
      (.found ((fromRoot "cache").child codeName), sweptCache)) ((bereft.withNumbers 0 0).withNumbers 2 1) =
        Script.run (ending (coding "a" 0) (filled (.error .absent)))
          { bereft with log := bereft.log ++ [.warning "image_unreadable"] } := by
    show Script.run _ bereft = _
    rw [concluding_found he, Script.run_bind, run_read_bereft]
    rfl
  have hend := run_ending_bereft
  rw [← hrun] at hend
  obtain ⟨hmade, hdocument⟩ := Prod.mk.inj hend
  refine ⟨l ++ l' ++ [1] ++ l'', _, ?_, hmade, ?_⟩
  · rw [Interleaved.steps_append, hgone, hended]
    rfl
  · rw [Interleaved.steps_append, hgone, hended]
    exact hdocument

/-! ## What disturbs a run -/

/-- What is asked of two runs in one directory: they take different numbers, make different documents which
are nobody's template, and their cache is outside of the directory. -/
structure SharesRoom (e e' : Job) (w : World) : Prop where
  numbers : ∀ n, e.Takes w n → ¬ e'.Takes w n
  drafts : ∀ n, e.TakesDraft w n → ¬ e'.TakesDraft w n
  directories : e.provider.directory = fromRoot "out" ∧ e'.provider.directory = fromRoot "out"
  documents : finalName e.provider .docx ≠ finalName e'.provider .docx
  templates : ∀ template ∈ [e.provider.template, e'.provider.template],
    template ≠ outPath (finalName e.provider .docx) ∧ template ≠ outPath (finalName e'.provider .docx)
  caches : e.cache.directory = fromRoot "cache" ∧ e'.cache.directory = fromRoot "cache"

theorem sharesRoom_album : SharesRoom showing copying album := by
  have hbounds := congrArg Prod.snd outcome_showing
  refine ⟨fun n hn hn' => ?_, fun n hn hn' => ?_, ⟨rfl, rfl⟩, by decide, by decide, ⟨rfl, rfl⟩⟩
  · have hlow : 4 ≤ n := hn'.1
    have hhigh : n < 2 := Nat.lt_of_lt_of_eq hn.2 (congrArg Prod.fst hbounds)
    omega
  · have hhigh : n < 0 := Nat.lt_of_lt_of_eq hn.2 (congrArg Prod.snd hbounds)
    omega

theorem sharesRoom_stale : SharesRoom (coding "a" 0) (coding "b" 4) stale := by
  have hbounds := run_ending_stale
  rw [← run_stale] at hbounds
  refine ⟨fun n hn hn' => ?_, fun n hn hn' => ?_, ⟨rfl, rfl⟩, by decide, by decide, ⟨rfl, rfl⟩⟩
  · have hlow : 4 ≤ n := hn'.1
    have hhigh : n < 2 := Nat.lt_of_lt_of_eq hn.2 (congrArg Prod.fst hbounds)
    omega
  · have hlow : 4 ≤ n := hn'.1
    have hhigh : n < 1 := Nat.lt_of_lt_of_eq hn.2 (congrArg (fun r => r.2.1) hbounds)
    omega

/-- Runs that are asked no more of disturb each other: one puts its document in the place of an image that
the other one shows, or takes away, as one that has expired, a picture that the other one has drawn anew. -/
theorem generate_disturbed :
    (SharesRoom showing copying album ∧ (showing.alone album).1.1.toBool = true ∧
      ∃ l r, (Interleaved.steps [showing.script, copying.script] album l).1[0]? = some (.done r) ∧
        r.1.toBool = false) ∧
    (SharesRoom (coding "a" 0) (coding "b" 4) stale ∧
      ((coding "a" 0).alone stale).2.files.get? ["out".toList, "a.docx".toList] =
        some (.file (.document shown) 100000000000 false) ∧
      ∃ l r, (Interleaved.steps [(coding "a" 0).script, (coding "b" 4).script] stale l).1[0]? =
          some (.done r) ∧ r.1.toBool = true ∧
        (Interleaved.steps [(coding "a" 0).script, (coding "b" 4).script] stale l).2.files.get?
          ["out".toList, "a.docx".toList] = some (.file (.document card) 100000000000 false)) := by
  obtain ⟨x, hx, hmade⟩ := Option.bind_eq_some_iff.1 steps_showing
  obtain ⟨r, rfl, hr⟩ := eq_done_of_hasMade hmade
  exact ⟨⟨sharesRoom_album, alone_showing, _, r, hx, hr⟩, sharesRoom_stale, alone_stale, steps_stale⟩

end MailMerge.Generation
