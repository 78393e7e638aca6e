import MailMerge.Proofs.Generation.Conduct
/-!
# A run keeps to its rules

Whatever replies it gets, the work of a plan takes only steps that are permitted at its bench. There is
one lemma for each part of the work, from the cache up to the whole.

* `covers_getOrCreate`, `covers_resolveAll`, `works_render`: what is asked of the cache.
* `does_stage`, `does_convert`, `does_finish`: what is done to own files.
* `works_execute`: the whole work of a plan.
-/
namespace MailMerge.Generation

open FileSystem (IsName)
open MailMerge.Path (IsDown IsClean)

/-- Whether a script takes only steps that a run may take, and has a result as `Q` says. -/
abbrev Bench.Covers {α : Type} (b : Bench) (Q : α → Prop) (x : Script α) : Prop :=
  x.Obeys b.Permits b.Answers Q

section
variable {b : Bench} {α β : Type}

theorem covers_pure {Q : α → Prop} {a : α} (h : Q a) : b.Covers Q (pure a) := h

/-- A step that changes no files is always permitted. -/
theorem covers_look {s : Step} (h : ∀ w : World, (w.perform s).2.files = w.files) :
    b.Covers (b.Answers s) (Script.ask s) := ⟨.look h, fun _ hr => hr⟩

theorem covers_status (p : Text) : b.Covers (fun _ => True) (Script.status p) :=
  covers_look fun _ => rfl

theorem covers_canonical (p : Text) : b.Covers (fun _ => True) (Script.canonical p) :=
  covers_look fun _ => rfl

theorem covers_read (p : Text) : b.Covers (fun _ => True) (Script.read p) :=
  covers_look fun _ => rfl

theorem covers_now : b.Covers (fun _ => True) Script.now := covers_look fun _ => rfl

theorem covers_note (e : Event) : b.Covers (fun _ => True) (Script.note e) :=
  covers_look fun _ => rfl

theorem covers_fresh : b.Covers b.Mine Script.fresh := covers_look fun _ => rfl

theorem covers_draft : b.Covers b.Drafts Script.draft := covers_look fun _ => rfl

theorem covers_noteAll (l : List Event) : b.Covers (fun _ => True) (Script.noteAll l) := by
  induction l with
  | nil => exact trivial
  | cons e l ih => exact (covers_note e).bind fun _ _ => ih

theorem covers_probe (test : Status → Bool) (p : Text) :
    b.Covers (fun _ => True) (Script.probe test p) := by
  refine (covers_status p).bind fun r _ => ?_
  cases r with
  | ok s => exact covers_pure trivial
  | error e => exact covers_pure trivial

theorem covers_canReach (p : Text) : b.Covers (fun _ => True) (Script.canReach p) := by
  refine (covers_status p).bind fun r _ => ?_
  cases r with
  | ok s => exact covers_pure trivial
  | error e => exact covers_pure trivial

/-! ## The cache -/

variable {c : AssetCache}

theorem covers_evict (hc : c.directory.IsClean) {n : Text} (hn : IsDown n)
    (hending : Text.endsIn AssetCache.ending n = true) (now : Time) :
    b.Covers (fun _ => True) (c.evict now (c.directory.child n)) := by
  have hfailed : b.Covers (fun _ => True) (do
      Script.note (.warning "asset_cache_evict_failed")
      pure false : Script Bool) := (covers_note _).bind fun _ _ => covers_pure trivial
  have hremove : b.Covers (fun _ => True) (Script.remove (c.directory.child n).toText) :=
    ⟨.evict hc hn hending, fun _ _ => trivial⟩
  refine (covers_status _).bind fun r _ => ?_
  cases r with
  | error e =>
    cases e with
    | absent => exact covers_pure trivial
    | _ => exact hfailed
  | ok s =>
    dsimp only
    split
    · exact covers_pure trivial
    · refine hremove.bind fun r _ => ?_
      cases r with
      | ok u => exact covers_pure trivial
      | error e =>
        cases e with
        | absent => exact covers_pure trivial
        | _ => exact hfailed

/-- Whether paths are those of names in the directory of a cache that end like pictures. -/
def AreCandidates (c : AssetCache) (paths : List Path) : Prop :=
  ∃ names : List Text, paths = names.map c.directory.child ∧
    ∀ n ∈ names, IsDown n ∧ Text.endsIn AssetCache.ending n = true

theorem covers_evictAll (hc : c.directory.IsClean) (now : Time) {names : List Text}
    (hnames : ∀ n ∈ names, IsDown n ∧ Text.endsIn AssetCache.ending n = true) :
    b.Covers (fun _ => True) (c.evictAll now (names.map c.directory.child)) := by
  induction names with
  | nil => exact covers_pure trivial
  | cons n names ih =>
    obtain ⟨hn, hending⟩ := hnames n (List.mem_cons_self ..)
    refine (covers_evict hc hn hending now).bind fun gone _ => ?_
    exact (ih fun m hm => hnames m (List.mem_cons_of_mem _ hm)).bind fun _ _ => covers_pure trivial

theorem covers_candidates :
    b.Covers (fun r => ∀ paths, r = .ok paths → AreCandidates c paths) c.candidates := by
  refine (covers_probe _ _).bind fun r _ => ?_
  cases r with
  | error e => exact covers_pure nofun
  | ok there =>
    cases there with
    | false =>
      refine covers_pure fun paths h => ?_
      cases h
      exact ⟨[], rfl, fun _ h => absurd h List.not_mem_nil⟩
    | true =>
      refine Script.Obeys.bind (covers_look (s := .list c.directory.toText) fun _ => rfl)
        fun r hnames => ?_
      cases r with
      | error e => exact covers_pure nofun
      | ok names =>
        refine covers_pure fun paths h => ?_
        cases h
        refine ⟨_, rfl, fun n hn => ?_⟩
        obtain ⟨hn, hending⟩ := List.mem_filter.1 hn
        exact ⟨(hnames names rfl n hn).isDown, hending⟩

theorem covers_sweep (hc : c.directory.IsClean) :
    b.Covers (fun r => r.2.directory = c.directory) c.sweep := by
  refine covers_now.bind fun now _ => covers_candidates.bind fun r hpaths => ?_
  cases r with
  | error e => exact (covers_note _).bind fun _ _ => covers_pure rfl
  | ok paths =>
    obtain ⟨names, rfl, hnames⟩ := hpaths paths rfl
    refine (covers_evictAll hc now hnames).bind fun n _ => ?_
    dsimp only
    split
    · exact covers_pure rfl
    · exact (covers_note _).bind fun _ _ => covers_pure rfl

theorem covers_sweepIfDue (hc : c.directory.IsClean) :
    b.Covers (fun c' => c'.directory = c.directory) c.sweepIfDue := by
  refine covers_now.bind fun now _ => ?_
  show b.Covers _ (if c.isDue now then _ else _)
  split
  · exact (covers_sweep hc).bind fun r hr => covers_pure hr
  · exact covers_pure rfl

theorem covers_lookup (c : AssetCache) (key : Text) :
    b.Covers (fun _ => True) (c.lookup key) := by
  refine (covers_status _).bind fun r _ => ?_
  cases r with
  | error e => cases e <;> exact covers_pure trivial
  | ok s => exact covers_now.bind fun _ _ => covers_pure trivial

theorem covers_writeParts {p : Path} (hp : p.IsClean) {n : Nat} (hn : b.Drafts n) (content : Content)
    (parts : Nat) : b.Covers (fun _ => True)
      (AssetCache.writeParts (p.child (AssetCache.scratchName n)).toText content parts) := by
  have hfill : ∀ content, b.Covers (fun _ => True)
      (Script.fill (p.child (AssetCache.scratchName n)).toText content) :=
    fun content => ⟨.fill hp hn content, fun _ _ => trivial⟩
  induction parts with
  | zero => exact hfill content
  | succ parts ih => exact (hfill _).bind fun _ _ => ih

theorem covers_promote (hc : c.directory.IsClean) (parts : Nat) (k : AssetKey) (content : Content) :
    b.Covers (fun _ => True) (c.promote parts (c.keyOf k) content) := by
  unfold AssetCache.promote
  rw [AssetCache.pathOf_keyOf]
  refine (covers_canonical _).bind fun base _ => covers_draft.bind fun n hn => ?_
  have hclean := AssetCache.isClean_absolute (base.toOption.getD ['/']) hc
  have hcreate : b.Covers (fun _ => True) (Script.create
      ((AssetCache.absolute (base.toOption.getD ['/']) c.directory).child
        (AssetCache.scratchName n)).toText) := ⟨.create hclean hn, fun _ _ => trivial⟩
  refine hcreate.bind fun r _ => ?_
  cases r with
  | error e => exact covers_pure trivial
  | ok u =>
    refine (covers_writeParts hclean hn content parts).bind fun _ _ => ?_
    have hput : b.Covers (fun _ => True) (Script.rename
        ((AssetCache.absolute (base.toOption.getD ['/']) c.directory).child
          (AssetCache.scratchName n)).toText (c.directory.child (c.entryName k)).toText) :=
      ⟨.put hclean hn hc (c.isName_entry k) ⟨c, k, rfl⟩, fun _ _ => trivial⟩
    have hremove : b.Covers (fun _ => True) (Script.remove
        ((AssetCache.absolute (base.toOption.getD ['/']) c.directory).child
          (AssetCache.scratchName n)).toText) :=
      ⟨.evict hclean (AssetCache.isDown_scratchName n) (Bench.endsIn_scratchName n),
        fun _ _ => trivial⟩
    refine hput.bind fun r _ => ?_
    cases r with
    | ok u => exact covers_pure trivial
    | error e =>
      refine hremove.bind fun r _ => ?_
      cases r with
      | ok u => exact covers_pure trivial
      | error e => cases e <;> exact covers_pure trivial

theorem covers_getOrCreate (hc : c.directory.IsClean) (render : Renderer) (parts : Nat)
    (k : AssetKey) :
    b.Covers (fun r => r.2.directory = c.directory) (c.getOrCreate render parts k) := by
  refine (covers_sweepIfDue hc).bind fun c' hdir => ?_
  have hc' : c'.directory.IsClean := hdir ▸ hc
  refine (covers_lookup c' _).bind fun r _ => ?_
  cases r with
  | error t => exact covers_pure hdir
  | ok entry =>
    cases entry with
    | some e => exact covers_pure hdir
    | none =>
      dsimp only
      cases render k with
      | error f => exact covers_pure hdir
      | ok content =>
        dsimp only
        split
        · exact covers_pure hdir
        · exact (covers_promote hc' parts k content).bind fun _ _ => covers_pure hdir

/-! ## Resolving -/

theorem covers_image (m : DataMap) (d : Descriptor) :
    b.Covers (fun _ => True) (Resolution.image m d) := by
  unfold Resolution.image
  cases (Resolution.sourceValue m d).imagePath? with
  | none => exact (covers_note _).bind fun _ _ => covers_pure trivial
  | some source =>
    have hmissing : b.Covers (fun _ => True) (do
        Script.note (.warning "image_not_found")
        pure (.ok none) : Script (Except Fault Resolution.Found)) :=
      (covers_note _).bind fun _ _ => covers_pure trivial
    refine (covers_probe _ _).bind fun r _ => ?_
    cases r with
    | error e => exact covers_pure trivial
    | ok there =>
      cases there with
      | false => exact hmissing
      | true =>
        refine (covers_canReach _).bind fun reached _ => ?_
        cases reached with
        | false => exact hmissing
        | true =>
          refine (covers_canonical _).bind fun r _ => ?_
          cases r with
          | error e => exact covers_pure trivial
          | ok file => exact (covers_noteAll _).bind fun _ _ => covers_pure trivial

theorem covers_symbol (studio : Studio) (hc : c.directory.IsClean) (m : DataMap) (d : Descriptor) :
    b.Covers (fun r => r.2.directory = c.directory) (Resolution.symbol studio c m d) := by
  unfold Resolution.symbol
  cases Resolution.symbolText? m d with
  | none => exact covers_pure rfl
  | some payload =>
    dsimp only
    split
    · exact (covers_note _).bind fun _ _ => covers_pure rfl
    · split
      · exact covers_pure rfl
      · cases Resolution.wholeField (d.arg? 1) Resolution.usualEdge with
        | error f => exact covers_pure rfl
        | ok n =>
          refine (covers_noteAll _).bind fun _ _ =>
            (covers_getOrCreate hc studio.render studio.parts _).bind fun r hdir => ?_
          obtain ⟨answer, c'⟩ := r
          cases answer with
          | found p => exact covers_pure hdir
          | failed f => exact (covers_note _).bind fun _ _ => covers_pure hdir
          | broken t => exact covers_pure hdir

theorem covers_resolve (studio : Studio) (env : Environment) (hc : c.directory.IsClean)
    (m : DataMap) (d : Descriptor) :
    b.Covers (fun r => r.2.directory = c.directory) (Resolution.resolve studio env c m d) := by
  unfold Resolution.resolve
  cases Resolution.text? env m d with
  | some noted => exact (covers_noteAll _).bind fun _ _ => covers_pure rfl
  | none =>
    dsimp only
    split
    · exact (covers_image m d).bind fun _ _ => covers_pure rfl
    · exact covers_symbol studio hc m d

theorem covers_resolveEach (studio : Studio) (env : Environment) (hc : c.directory.IsClean)
    (m : DataMap) (ds : List Descriptor) :
    b.Covers (fun r => r.2.directory = c.directory) (Resolution.resolveEach studio env c m ds) := by
  induction ds generalizing c m with
  | nil => exact covers_pure rfl
  | cons d ds ih =>
    rw [Resolution.resolveEach]
    split
    · exact ih hc m
    · refine (covers_resolve studio env hc m d).bind fun r hdir => ?_
      obtain ⟨found, c'⟩ := r
      have hnext : ∀ m, b.Covers (fun r => r.2.directory = c.directory)
          (Resolution.resolveEach studio env c' m ds) := fun m =>
        (ih (show c'.directory.IsClean from hdir ▸ hc) m).mono fun r hr => hr.trans hdir
      cases found with
      | error f => exact covers_pure hdir
      | ok v? =>
        cases v? with
        | none => exact hnext m
        | some v => exact hnext _

/-! ## Documents -/

theorem covers_load? (p : Text) : b.Covers (fun _ => True) (Document.load? p) := by
  refine (covers_read p).bind fun r _ => ?_
  cases r with
  | ok content => exact covers_pure trivial
  | error e => exact covers_pure trivial

theorem covers_applyOne (images : ImageReader) (present : List Text) (f : Filling) (key : Text) (v : Value) :
    b.Covers (fun _ => True) (Document.applyOne images present f key v) := by
  unfold Document.applyOne
  cases f.result with
  | error e => exact covers_pure trivial
  | ok n =>
    dsimp only
    split
    · exact covers_pure trivial
    · cases Document.insertOf (Token.unwrap key) v with
      | nothing => exact covers_pure trivial
      | fault e => exact covers_pure trivial
      | text t => exact covers_pure trivial
      | picture a => exact (covers_read _).bind fun _ _ => covers_pure trivial

theorem covers_applyFrom (images : ImageReader) (present : List Text) (f : Filling) (m : List (Text × Value)) :
    b.Covers (fun _ => True) (Document.applyFrom images present f m) := by
  induction m generalizing f with
  | nil => exact covers_pure trivial
  | cons e m ih =>
    obtain ⟨k, v⟩ := e
    exact (covers_applyOne images present f k v).bind fun f' _ => ih f'

theorem covers_apply (images : ImageReader) (d : Document) (m : DataMap) :
    b.Covers (fun _ => True) (d.apply images m) := by
  refine (covers_applyFrom _ _ _ m).bind fun f _ => ?_
  exact (covers_noteAll _).bind fun _ _ => covers_pure trivial

/-! ## Tasks and works -/

/-- Whether a task takes only steps that a run may take, and has a result as `Q` says if it has one. -/
def Bench.Does (b : Bench) (Q : α → Prop) (x : Task α) : Prop :=
  b.Covers (fun r => ∀ a, r = .ok a → Q a) x.run

/-- The same of a work, which leaves the cache in its directory. -/
def Bench.Works (b : Bench) (Q : α → Prop) (x : Work α) : Prop :=
  ∀ c : AssetCache, c.directory.IsClean →
    b.Covers (fun r => (∀ a, r.1 = .ok a → Q a) ∧ r.2.directory.IsClean) (x.run.run c)

theorem does_pure {Q : α → Prop} {a : α} (h : Q a) : b.Does Q (pure a) := by
  intro a' heq
  cases heq
  exact h

theorem does_throw {Q : α → Prop} (e : Abort) : b.Does Q (throw e : Task α) := by
  intro a' heq
  cases heq

theorem does_fail {Q : α → Prop} (f : Failure) : b.Does Q (Task.fail f : Task α) := does_throw _

theorem does_script {Q : α → Prop} {x : Script α} (h : b.Covers Q x) :
    b.Does Q (liftM x : Task α) :=
  h.bind fun _ ha => covers_pure fun _ heq => Except.ok.inj heq ▸ ha

theorem does_ofExcept (r : Except Abort α) : b.Does (fun _ => True) (Task.ofExcept r) := by
  intro a' _
  exact trivial

theorem does_step {Q : α → Prop} {p : Text} {x : Script (Except Cause α)}
    (h : b.Covers (fun r => ∀ a, r = .ok a → Q a) x) : b.Does Q (Task.step p x) := by
  refine Script.Obeys.bind h fun r hr => ?_
  cases r with
  | ok a => exact does_pure (b := b) (hr a rfl)
  | error e => exact covers_pure nofun

theorem Bench.Does.bind {P : α → Prop} {Q : β → Prop} {x : Task α} {f : α → Task β}
    (hx : b.Does P x) (hf : ∀ a, P a → b.Does Q (f a)) : b.Does Q (x >>= f) := by
  refine Script.Obeys.bind hx fun r hr => ?_
  cases r with
  | ok a => exact hf a (hr a rfl)
  | error e => exact covers_pure nofun

theorem does_thenTidy {Q : α → Prop} {x : Task α} {tidy : Script Unit} (hx : b.Does Q x)
    (ht : b.Covers (fun _ => True) tidy) : b.Does Q (Task.thenTidy x tidy) :=
  Script.Obeys.bind hx fun _ hr => ht.bind fun _ _ => covers_pure hr

theorem works_pure {Q : α → Prop} {a : α} (h : Q a) : b.Works Q (pure a) :=
  fun _ hc => covers_pure ⟨fun _ heq => Except.ok.inj heq ▸ h, hc⟩

theorem works_throw {Q : α → Prop} (e : Abort) : b.Works Q (throw e : Work α) :=
  fun _ hc => covers_pure ⟨nofun, hc⟩

theorem works_get : b.Works (fun c => c.directory.IsClean) (get : Work AssetCache) := by
  intro c hc
  refine ⟨fun a heq => ?_, hc⟩
  cases heq
  exact hc

theorem works_set {c : AssetCache} (hc : c.directory.IsClean) :
    b.Works (fun _ => True) (set c : Work PUnit) := fun _ _ => ⟨fun _ _ => trivial, hc⟩

theorem works_lift {Q : α → Prop} {x : Task α} (h : b.Does Q x) : b.Works Q (lift x) :=
  fun _ hc => Script.Obeys.bind h fun _ hr => covers_pure ⟨hr, hc⟩

theorem Bench.Works.bind {P : α → Prop} {Q : β → Prop} {x : Work α} {f : α → Work β}
    (hx : b.Works P x) (hf : ∀ a, P a → b.Works Q (f a)) : b.Works Q (x >>= f) := by
  intro c hc
  refine Script.Obeys.bind (hx c hc) fun r hr => ?_
  obtain ⟨r, c'⟩ := r
  cases r with
  | ok a => exact hf a (hr.1 a rfl) c' hr.2
  | error e => exact covers_pure ⟨nofun, hr.2⟩

theorem works_thenTidy {Q : α → Prop} {x : Work α} {tidy : Script Unit} (hx : b.Works Q x)
    (ht : b.Covers (fun _ => True) tidy) : b.Works Q (thenTidy x tidy) := by
  intro c hc
  refine Script.Obeys.bind (hx c hc) fun r hr => ?_
  exact Script.Obeys.bind (Q := fun r' => r'.2 = r.2)
    (ht.bind fun _ _ => covers_pure rfl) fun r' hr' => covers_pure ⟨hr.1, hr' ▸ hr.2⟩

/-! ## The parts of the work -/

theorem covers_scratchPath (directory : Path) (ending : Text) :
    b.Covers (fun p => ∃ n, b.Mine n ∧ p = directory.child (scratchStem n ++ ending))
      (scratchPath directory ending) :=
  covers_fresh.bind fun n hn => covers_pure ⟨n, hn, rfl⟩

theorem covers_discard {p : Path} (hp : Taken b.Mine p) :
    b.Covers (fun _ => True) (discard p) := by
  have hremove : b.Covers (fun _ => True) (Script.remove p.toText) :=
    ⟨.remove hp, fun _ _ => trivial⟩
  refine hremove.bind fun r _ => ?_
  cases r with
  | ok u => exact covers_pure trivial
  | error e =>
    cases e with
    | absent => exact covers_pure trivial
    | _ => exact covers_note _

theorem covers_write {p : Path} (hp : Taken b.Mine p) (content : Content) :
    b.Covers (fun _ => True) (Script.write p.toText content) :=
  ⟨.write hp content, fun _ _ => trivial⟩

theorem does_stage {template directory : Path} (ht : template.IsClean) (hd : directory.IsClean) :
    b.Does (Taken b.Mine) (stage template directory) := by
  have hending := isEnding_ending ht
  refine (does_script (covers_scratchPath directory template.ending)).bind fun staged hstaged => ?_
  have htaken : Taken b.Mine staged := by
    obtain ⟨n, hn, rfl⟩ := hstaged
    exact taken_scratch hd hn hending
  have hlost : ∀ p e, b.Does (Taken b.Mine) (do
      discard staged
      Task.fail (.copy (.template template.toText ⟨e, p, none⟩)) : Task Path) := fun p e =>
    (does_script (covers_discard htaken)).bind fun _ _ => does_fail _
  refine (does_script (covers_read _)).bind fun r _ => ?_
  cases r with
  | error e => exact hlost _ e
  | ok content =>
    refine (does_script (covers_write htaken content)).bind fun r _ => ?_
    cases r with
    | error e => exact hlost _ e
    | ok u => exact does_pure htaken

theorem works_store (images : ImageReader) {rendered : Path} (hr : Taken b.Mine rendered) (d : Document)
    (values : Except Abort DataMap) : b.Works (fun _ => True) (store images rendered d values) := by
  unfold store
  cases values with
  | error e => cases e <;> exact works_throw _
  | ok values =>
    refine (works_lift (does_script (covers_apply images d values))).bind fun filled _ => ?_
    cases filled.result with
    | error f => exact works_throw _
    | ok count =>
      refine (works_lift (does_script (covers_write hr _))).bind fun r _ => ?_
      cases r with
      | ok u => exact works_pure trivial
      | error e => exact works_throw _

theorem works_render (studio : Studio) (env : Environment) (kinds : List Kind)
    (images : ImageReader) {staged rendered : Path} (hr : Taken b.Mine rendered) (data : DataMap) :
    b.Works (fun _ => True) (render (Engine.ofStudio studio env kinds) images staged rendered data) := by
  refine (works_lift (does_script (covers_load? _))).bind fun d? _ => ?_
  cases d? with
  | none => exact works_throw _
  | some d =>
    refine works_get.bind fun c hc => ?_
    have hengine : b.Covers (fun r => r.2.directory = c.directory)
        (Engine.ofStudio studio env kinds c d.placeholders data) :=
      (covers_resolveEach studio env hc _ _).bind fun r hdir => covers_pure hdir
    refine (works_lift (does_script hengine)).bind fun r hdir => ?_
    obtain ⟨values, c'⟩ := r
    exact (works_set (show c'.directory.IsClean from hdir ▸ hc)).bind fun _ _ =>
      works_store images hr d values

theorem does_publish {p : Path} (hp : Taken b.Mine p) :
    b.Does (fun _ => True) (publish p (b.directory.child b.final)) := by
  have hrename : b.Covers (fun _ => True)
      (Script.rename p.toText (b.directory.child b.final).toText) :=
    ⟨.publish hp, fun _ _ => trivial⟩
  refine (does_script hrename).bind fun r _ => ?_
  cases r with
  | ok u => exact does_pure trivial
  | error e => exact does_fail _

/-! ## Conversions -/

theorem does_destination (hb : b.IsReady) {target : Path} (ht : Taken b.Mine target) {name : Text}
    (hname : IsDown name) : b.Does (fun t => ∃ p, Taken b.Mine p ∧ t = p.toText)
      (Conversion.destination name target.toText) := by
  refine (does_script (covers_status _)).bind fun r _ => ?_
  cases r with
  | error e => exact does_pure ⟨target, ht, rfl⟩
  | ok s =>
    dsimp only
    split
    · refine (does_script (covers_canReach _)).bind fun there _ => ?_
      split
      · exact does_throw _
      · exact does_pure ⟨target.child name, ht.child hname, (ht.own hb.mine).inside name⟩
    · exact does_pure ⟨target, ht, rfl⟩

theorem does_move (hb : b.IsReady) {source target : Path} (hs : Taken b.Mine source)
    (ht : Taken b.Mine target) {name : Text} (hname : IsDown name) :
    b.Does (fun _ => True) (Conversion.move source.toText name target.toText) := by
  refine (does_destination hb ht hname).bind fun t hgoal => ?_
  obtain ⟨goal, hgoal, rfl⟩ := hgoal
  have hrename : b.Covers (fun _ => True) (Script.rename source.toText goal.toText) :=
    ⟨.move hs hgoal, fun _ _ => trivial⟩
  have hremove : b.Covers (fun _ => True) (Script.remove source.toText) :=
    ⟨.remove hs, fun _ _ => trivial⟩
  refine (does_script hrename).bind fun r _ => ?_
  cases r with
  | ok u => exact does_pure trivial
  | error e =>
    refine (does_step ((covers_read _).mono fun _ _ _ _ => trivial)).bind fun content _ => ?_
    refine (does_step ((covers_write hgoal content).mono fun _ _ _ _ => trivial)).bind fun _ _ => ?_
    exact does_step (hremove.mono fun _ _ _ _ => trivial)

theorem does_collect (hb : b.IsReady) {directory target : Path} (hd : Taken b.Mine directory)
    (ht : Taken b.Mine target) {made : Text} (hmade : IsDown made) (code : Nat) :
    b.Does (fun _ => True) (Conversion.collect directory made code target) := by
  have hfailed : b.Does (fun _ => True) (do
      Script.note (.error "conversion_failed")
      Task.fail (.conversion (.exited code)) : Task Unit) :=
    (does_script (covers_note _)).bind fun _ _ => does_fail _
  unfold Conversion.collect
  by_cases hcode : code = 0
  · dsimp only
    rw [if_pos hcode]
    refine (does_step ((covers_probe _ _).mono fun _ _ _ _ => trivial)).bind fun there _ => ?_
    split
    · exact does_move hb (hd.child hmade) ht hmade
    · exact hfailed
  · dsimp only
    rw [if_neg hcode]
    exact hfailed

theorem does_runIn (hb : b.IsReady) {directory source target : Path} (hd : Taken b.Mine directory)
    (ht : Taken b.Mine target) (call : ConverterProgramCall) {format : Text}
    (hmade : IsDown (source.stem ++ '.' :: format)) :
    b.Does (fun _ => True) (Conversion.runIn directory call format source target) := by
  have hexecute : b.Covers (fun _ => True) (Script.execute call.program
      ⟨source.toText, directory.toText, source.stem, format⟩) :=
    ⟨.execute hd hmade call.program, fun _ _ => trivial⟩
  unfold Conversion.runIn
  split
  · exact does_throw _
  · refine (does_script hexecute).bind fun ending _ => ?_
    cases ending with
    | notStarted e => exact does_fail _
    | timedOut => exact (does_ofExcept _).bind fun _ _ => does_fail _
    | garbled e => exact (does_ofExcept _).bind fun _ _ => does_throw _
    | exited code => exact (does_ofExcept _).bind fun _ _ => does_collect hb hd ht hmade code

theorem covers_isProgram (t : Text) : b.Covers (fun _ => True) (Conversion.isProgram t) := by
  unfold Conversion.isProgram
  split
  · exact covers_pure trivial
  · refine (covers_status t).bind fun r _ => ?_
    cases r with
    | ok s => exact covers_pure trivial
    | error e => exact covers_pure trivial

theorem does_convert (hb : b.IsReady) {source target : Path} (ht : Taken b.Mine target)
    (call : ConverterProgramCall)
    (hmade : IsDown (source.stem ++ '.' :: Conversion.formatOf target)) :
    b.Does (fun _ => True) (Converter.ofProgram call source target) := by
  have hwork : b.Does (fun _ => True) (do
      let n ← Script.fresh
      let directory := Conversion.privateRoot.child
        ("docgen_convert_".toList ++ Text.ofNatPadded 8 n)
      Task.step directory.toText (Script.makeDirectory directory.toText)
      Task.thenTidy
        (Conversion.runIn directory call (Conversion.formatOf target) source target) do
          let _ ← Script.removeTree directory.toText
          pure ()
      Script.note (.info "document_converted") : Task Unit) := by
    refine (does_script covers_fresh).bind fun n hn => ?_
    have hroom : Taken b.Mine (Conversion.privateRoot.child (privateStem n)) := taken_private hn
    have hmake : b.Covers (fun _ => True)
        (Script.makeDirectory (Conversion.privateRoot.child (privateStem n)).toText) :=
      ⟨.makeDirectory hroom, fun _ _ => trivial⟩
    have htree : b.Covers (fun _ => True)
        (Script.removeTree (Conversion.privateRoot.child (privateStem n)).toText) :=
      ⟨.removeTree hroom, fun _ _ => trivial⟩
    refine (does_step (hmake.mono fun _ _ _ _ => trivial)).bind fun _ _ => ?_
    refine Bench.Does.bind (does_thenTidy (does_runIn hb hroom ht call hmade)
      (htree.bind fun _ _ => covers_pure trivial)) fun _ _ => ?_
    exact does_script (covers_note _)
  unfold Converter.ofProgram
  dsimp only
  by_cases hformat : Conversion.formatOf target ∈ Conversion.formats
  · rw [if_neg (not_not.2 hformat)]
    refine (does_script (covers_isProgram call.program)).bind fun there _ => ?_
    split
    · exact does_fail _
    · exact hwork
  · rw [if_pos hformat]
    exact does_fail _

theorem does_finish (hb : b.IsReady) (call? : Option ConverterProgramCall) (format : OutputFormat)
    {n : Nat} (hn : b.Mine n) :
    b.Does (fun _ => True) (finish (call?.map Converter.ofProgram) format b.directory
      (b.directory.child (scratchStem n ++ '.' :: OutputFormat.docx.name))
      (b.directory.child b.final)) := by
  unfold finish
  split
  · exact does_publish (taken_scratch hb.clean hn (isEnding_name .docx))
  · refine (does_script (covers_scratchPath b.directory ('.' :: format.name))).bind
      fun converted hconverted => ?_
    obtain ⟨m, hm, rfl⟩ := hconverted
    have htaken := taken_scratch hb.clean hm (isEnding_name format)
    refine does_thenTidy ?_ (covers_discard htaken)
    cases call? with
    | none => exact does_fail _
    | some call =>
      have hmade : IsDown ((b.directory.child (scratchStem n ++ '.' :: OutputFormat.docx.name)).stem
          ++ '.' :: Conversion.formatOf (b.directory.child (scratchStem m ++ '.' :: format.name))) := by
        rw [Path.stem_child _ (scratchStem_ne_nil n) (by decide) (by decide), formatOf_scratch]
        exact isDown_scratch n (isEnding_name format)
      exact (does_convert hb htaken call hmade).bind fun _ _ => does_publish htaken

/-- The whole work of a plan takes only permitted steps. -/
theorem works_execute (hb : b.IsReady) (studio : Studio) (env : Environment) (kinds : List Kind)
    (images : ImageReader) (call? : Option ConverterProgramCall) {template : Path} (ht : template.IsClean)
    (data : DataMap) (format : OutputFormat) :
    b.Works (fun _ => True)
      (execute ⟨Engine.ofStudio studio env kinds, images, call?.map Converter.ofProgram⟩
        ⟨data, template, b.directory, format, b.directory.child b.final⟩) := by
  refine (works_lift (does_script (covers_note _))).bind fun _ _ => ?_
  refine (works_lift (does_stage ht hb.clean)).bind fun staged hstaged => ?_
  refine (works_lift (does_script (covers_scratchPath b.directory _))).bind
    fun rendered hrendered => ?_
  obtain ⟨n, hn, rfl⟩ := hrendered
  have htaken := taken_scratch hb.clean hn (isEnding_name .docx)
  refine Bench.Works.bind (works_thenTidy
    ((works_render studio env kinds images htaken data).bind fun _ _ =>
      works_lift (does_finish hb call? format hn))
    ((covers_discard hstaged).bind fun _ _ => covers_discard htaken)) fun _ _ => ?_
  exact (works_lift (does_script (covers_note _))).bind fun _ _ => works_pure trivial

end

end MailMerge.Generation
