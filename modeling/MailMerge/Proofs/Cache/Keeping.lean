import MailMerge.Proofs.Cache.Keys
import MailMerge.Proofs.Cache.Sweeping
import MailMerge.Proofs.Storage.Ways
/-!
# What requests do in a usable directory

A cache is at home at a place when its path and the path under which it writes first both mean that
place, entries can be located there, and nothing stands there but files (`Home`). At home sweeps
take nothing but expired files (`Swept`, `sweep_spares`), looking for an entry tells whether a live one is
there (`run_lookup_entry`), and a picture that is put there is the entry (`run_promote`).
-/
namespace MailMerge.AssetCache

open FileSystem (MeansDirectory Fits IsName AtMostFile Kept kept_refl kept_put)
open MailMerge.Path (IsClean)

/-- Whether a cache keeps its entries at a place where they can be located and nothing stands in
their way. -/
structure Home (c : AssetCache) (fs : FileSystem) (r : Place) : Prop where
  sound : fs.IsSound
  clean : c.directory.IsClean
  means : fs.MeansDirectory c.directory r
  stage : fs.MeansDirectory (c.stagePath fs) r
  short : ∀ k, Fits c.directory (c.entryName k)
  files : ∀ n, fs.AtMostFile (r ++ [n])

/-- Whether an expired file stands at a place. -/
def Stale (c : AssetCache) (now : Time) (r : Place) (fs : FileSystem) (q : Place) : Prop :=
  ∃ n content t x, q = r ++ [n] ∧ fs.get? q = some (.file content t x) ∧ c.expired t now = true

/-- Whether a file system is another one without some of the expired files at a place. -/
structure Swept (c : AssetCache) (now : Time) (r : Place) (fs fs' : FileSystem) : Prop where
  kept : Kept fs (c.Stale now r fs) fs'
  less : ∀ q, fs'.get? q = fs.get? q ∨ fs'.get? q = none

section
variable {c : AssetCache} {fs fs' : FileSystem} {r : Place} {loose : Place → Prop} {w : World}
  {now : Time}

theorem Home.stage_clean (h : c.Home fs r) : (c.stagePath fs).IsClean := isClean_absolute _ h.clean

theorem stagePath_of_kept (c : AssetCache) (hk : Kept fs loose fs') :
    c.stagePath fs' = c.stagePath fs := by
  rw [stagePath, stagePath, hk.current]

/-- Where only files change the cache stays at home. -/
theorem Home.of_kept (h : c.Home fs r) (hk : Kept fs loose fs')
    (hloose : ∀ q, loose q → fs.AtMostFile q) : c.Home fs' r where
  sound := hk.sound
  clean := h.clean
  means := h.means.of_kept hk hloose
  stage := by
    rw [c.stagePath_of_kept hk]
    exact h.stage.of_kept hk hloose
  short := h.short
  files n := hk.atMostFile (h.files n)

theorem Stale.atMostFile {q : Place} (h : c.Stale now r fs q) : fs.AtMostFile q := by
  obtain ⟨n, content, t, x, -, hfile, -⟩ := h
  exact Or.inr ⟨content, t, x, hfile⟩

theorem swept_refl (hs : fs.IsSound) : c.Swept now r fs fs :=
  ⟨(kept_refl hs).mono fun _ hq => hq.elim, fun _ => Or.inl rfl⟩

theorem Home.of_swept (h : c.Home fs r) (hs : c.Swept now r fs fs') : c.Home fs' r :=
  h.of_kept hs.kept fun _ hq => hq.atMostFile

/-- When the last sweep was does not matter. -/
theorem Home.touch (h : c.Home fs r) (last : Option Time) :
    ({ c with lastSweep := last } : AssetCache).Home fs r :=
  ⟨h.sound, h.clean, h.means, h.stage, h.short, h.files⟩

theorem Swept.of_touch {last : Option Time}
    (h : ({ c with lastSweep := last } : AssetCache).Swept now r fs fs') : c.Swept now r fs fs' :=
  ⟨h.kept, h.less⟩

/-! ## Sweeps -/

theorem Home.lodged (h : c.Home fs r) : c.Lodged fs r :=
  ⟨h.sound, h.clean, h.means, fun n => (h.files n).ne_link⟩

theorem swept_of_sheds {taken : Text → Prop} (h : FileSystem.Sheds r taken fs fs')
    (htaken : ∀ n, taken n → c.Takes now r fs n) : c.Swept now r fs fs' where
  kept := h.kept.mono fun _ ⟨n, hn, hq⟩ => by
    obtain ⟨content, t, x, hfile, hexpired⟩ := (htaken n hn).old
    exact ⟨n, content, t, x, hq, hq ▸ hfile, hexpired⟩
  less q := by
    obtain hsame | ⟨-, -, -, -, -, -, -, hnone⟩ := h.place q
    · exact Or.inl hsame
    · exact Or.inr hnone

/-- A sweep takes nothing but expired files. -/
theorem sweep_spares (h : c.Home w.files r) :
    ∃ count fs' log, Script.run c.sweep w =
        ((count, { c with lastSweep := some w.clock }), { w with files := fs', log := log }) ∧
      c.Swept w.clock r w.files fs' := by
  obtain ⟨taken, fs', log, hrun, -, hmem, hsheds⟩ := run_sweep h.lodged
  exact ⟨_, fs', log, hrun, swept_of_sheds hsheds fun n hn => ((hmem n).1 hn).2⟩

theorem sweepIfDue_spares (h : c.Home w.files r) :
    ∃ last fs' log, Script.run c.sweepIfDue w =
        ({ c with lastSweep := last }, { w with files := fs', log := log }) ∧
      c.Swept w.clock r w.files fs' := by
  rw [run_sweepIfDue]
  split
  · obtain ⟨count, fs', log, hrun, hswept⟩ := sweep_spares h
    exact ⟨some w.clock, fs', log, by rw [hrun], hswept⟩
  · exact ⟨c.lastSweep, w.files, w.log, rfl, swept_refl h.sound⟩

/-! ## Requests -/

section
variable {c' : AssetCache} {w' : World} {k : AssetKey} {key : Text} {render : Renderer}
  {parts : Nat}

/-- A live entry is the answer. -/
theorem run_getOrCreate_found {e : CacheEntry} (hsweep : Script.run c.sweepIfDue w = (c', w'))
    (hkey : c'.keyOf k = key) (hlookup : Script.run (c'.lookup key) w' = (.ok (some e), w')) :
    Script.run (c.getOrCreate render parts k) w = ((.found e.path, c'), w') := by
  unfold getOrCreate
  simp only [Script.run_bind, hsweep, hkey, hlookup]
  rfl

theorem run_getOrCreate_broken {t : Trouble} (hsweep : Script.run c.sweepIfDue w = (c', w'))
    (hkey : c'.keyOf k = key) (hlookup : Script.run (c'.lookup key) w' = (.error t, w')) :
    Script.run (c.getOrCreate render parts k) w = ((.broken t, c'), w') := by
  unfold getOrCreate
  simp only [Script.run_bind, hsweep, hkey, hlookup]
  rfl

theorem run_getOrCreate_refused {f : RenderFault} (hsweep : Script.run c.sweepIfDue w = (c', w'))
    (hkey : c'.keyOf k = key) (hlookup : Script.run (c'.lookup key) w' = (.ok none, w'))
    (hrender : render k = .error f) :
    Script.run (c.getOrCreate render parts k) w = ((.failed (.render f), c'), w') := by
  unfold getOrCreate
  simp only [Script.run_bind, hsweep, hkey, hlookup, hrender]
  rfl

theorem run_getOrCreate_empty {content : Content}
    (hsweep : Script.run c.sweepIfDue w = (c', w')) (hkey : c'.keyOf k = key)
    (hlookup : Script.run (c'.lookup key) w' = (.ok none, w'))
    (hrender : render k = .ok content) (hempty : content.isEmpty = true) :
    Script.run (c.getOrCreate render parts k) w = ((.failed .noData, c'), w') := by
  unfold getOrCreate
  simp only [Script.run_bind, hsweep, hkey, hlookup, hrender, hempty]
  rfl

/-- What is drawn is put under its key. -/
theorem run_getOrCreate_drawn {content : Content} {answer : CacheAnswer} {w'' : World}
    (hsweep : Script.run c.sweepIfDue w = (c', w')) (hkey : c'.keyOf k = key)
    (hlookup : Script.run (c'.lookup key) w' = (.ok none, w'))
    (hrender : render k = .ok content) (hsome : content.isEmpty = false)
    (hput : Script.run (c'.promote parts key content) w' = (answer, w'')) :
    Script.run (c.getOrCreate render parts k) w = ((answer, c'), w'') := by
  unfold getOrCreate
  simp only [Script.run_bind, hsweep, hkey, hlookup, hrender, hsome]
  rw [if_neg (by decide), Script.run_bind, hput]
  rfl

end

theorem run_request {k : AssetKey} {render : Renderer} {parts : Nat} {answer : CacheAnswer}
    {c' : AssetCache} {w' : World} (hsize : intText? k.size ≠ none)
    (hgot : Script.run (c.getOrCreate render parts k) w = ((answer, c'), w')) :
    Script.run (c.request render parts k) w = ((.ok answer, c'), w') := by
  obtain ⟨digits, hdigits⟩ := Option.ne_none_iff_exists'.1 hsize
  unfold request
  rw [hdigits]
  dsimp only
  rw [Script.run_bind, hgot]
  rfl

theorem run_request_unwritable {k : AssetKey} {c' : AssetCache} {w' : World}
    (hsize : intText? k.size = none) (hsweep : Script.run c.sweepIfDue w = (c', w'))
    (render : Renderer) (parts : Nat) :
    Script.run (c.request render parts k) w = ((.error .unwritableNumber, c'), w') := by
  unfold request
  rw [hsize]
  dsimp only
  rw [Script.run_bind, hsweep]
  rfl

/-! ## Looking for entries -/

theorem run_lookup_entry (h : c.Home w.files r) {k : AssetKey} {content : Content} {t : Time}
    {x : Bool} (hfile : w.files.get? (r ++ [c.entryName k]) = some (.file content t x)) :
    Script.run (c.lookup (c.keyOf k)) w =
      (.ok (if c.expired t w.clock then none
        else some ⟨c.keyOf k, c.pathOf (c.keyOf k), t⟩), w) := by
  have hstatus := (h.short k).status_file h.clean h.means hfile
  rw [← pathOf_keyOf] at hstatus
  rw [run_lookup, hstatus]
  rfl

theorem run_lookup_absent (hc : c.directory.IsClean) (hm : w.files.MeansDirectory c.directory r)
    {k : AssetKey} (hf : Fits c.directory (c.entryName k))
    (hnone : w.files.get? (r ++ [c.entryName k]) = none) :
    Script.run (c.lookup (c.keyOf k)) w = (.ok none, w) := by
  rw [run_lookup, pathOf_keyOf, hf.status_absent hc hm hnone]
  rfl

/-! ## Putting pictures -/

theorem scratchName_ne_entryName (n : Nat) (k : AssetKey) : scratchName n ≠ c.entryName k := by
  intro h
  have hmem : 't' ∈ c.entryName k := h ▸ List.mem_append_left _ (List.mem_append_left _ (by decide))
  exact absurd (c.mem_entryName k hmem) (by decide)

theorem scratchName_inj {m n : Nat} (h : scratchName m = scratchName n) : m = n :=
  Text.ofNatPadded_inj (List.append_cancel_left (List.append_cancel_right h))

/-- A picture that is put at home is the entry from then on. -/
theorem run_promote_home (h : c.Home w.files r)
    (hf : Fits (c.stagePath w.files) (scratchName w.drafts))
    (hnone : w.files.get? (r ++ [scratchName w.drafts]) = none) (parts : Nat) (k : AssetKey)
    (content : Content) :
    Script.run (c.promote parts (c.keyOf k) content) w =
      (.found (c.pathOf (c.keyOf k)),
        { w with
          files := w.files.put (r ++ [c.entryName k]) (.file content w.clock false)
          drafts := w.drafts + 1 }) := by
  have hne : r ++ [scratchName w.drafts] ≠ r ++ [c.entryName k] := fun e =>
    scratchName_ne_entryName _ k (List.singleton_inj.1 (List.append_cancel_left e))
  have hnode : w.files.AtMostFile (r ++ [scratchName w.drafts]) := Or.inl hnone
  -- the file that is written first is moved to its place
  have hdraft := kept_put h.sound hnode.not_isDirectory
    (FileSystem.isName_child h.sound h.stage hf.name) content w.clock false
  have hloose : ∀ q, q = r ++ [scratchName w.drafts] → w.files.AtMostFile q := fun _ hq => hq ▸ hnode
  have hmove := hf.rename_onto h.stage_clean (h.stage.of_kept hdraft hloose)
    (FileSystem.get?_put_self (by simp) _) (h.short k) h.clean (h.means.of_kept hdraft hloose)
    (hdraft.atMostFile (h.files _)) hne
  rw [FileSystem.drop_put hnone, ← pathOf_keyOf] at hmove
  obtain ⟨hput, -⟩ := run_promote_staged (hf.locate h.stage_clean h.stage (Or.inl rfl)) hnone parts
    (c.keyOf k) content
  exact hput _ hmove

/-- A picture that is put at home changes nothing else. -/
theorem run_promote (h : c.Home w.files r) (hf : Fits (c.stagePath w.files) (scratchName w.drafts))
    (hnone : w.files.get? (r ++ [scratchName w.drafts]) = none) (parts : Nat) (k : AssetKey)
    (content : Content) :
    ∃ fs', Script.run (c.promote parts (c.keyOf k) content) w =
        (.found (c.pathOf (c.keyOf k)), { w with files := fs', drafts := w.drafts + 1 }) ∧
      Kept w.files (· = r ++ [c.entryName k]) fs' ∧
      fs'.get? (r ++ [c.entryName k]) = some (.file content w.clock false) :=
  ⟨_, run_promote_home h hf hnone parts k content,
    kept_put h.sound (h.files (c.entryName k)).not_isDirectory
      (FileSystem.isName_child h.sound h.means (c.isName_entry k)) content w.clock false,
    FileSystem.get?_put_self (by simp) _⟩

/-! ## Directories without links -/

theorem mem_scratchName {n : Nat} {x : Char} (h : x ∈ scratchName n) :
    x ∈ scratchMark ++ Text.hexDigits ++ ending := by
  rcases List.mem_append.1 h with h | h
  · rcases List.mem_append.1 h with h | h
    · exact List.mem_append_left _ (List.mem_append_left _ h)
    · exact List.mem_append_left _
        (List.mem_append_right _ (Text.mem_hexDigits_of_mem_ofNatPadded h))
  · exact List.mem_append_right _ h

theorem byteLength_scratchName {n : Nat} (hn : n < 10 ^ 8) : Text.byteLength (scratchName n) = 17 := by
  have hascii : (scratchMark ++ Text.hexDigits ++ ending).all (fun x => x.utf8Size == 1) = true := by
    decide
  have hdigits : (Nat.toDigits 10 n).length ≤ 8 :=
    (Nat.length_toDigits_le_iff (by decide) (by decide)).2 hn
  rw [Text.byteLength_eq_length fun x hx =>
    beq_iff_eq.1 (List.all_eq_true.1 hascii x (mem_scratchName hx))]
  simp only [scratchName, Text.ofNatPadded, Text.padLeft, Text.ofNat, List.length_append,
    List.length_replicate]
  have hmark : scratchMark.length = 5 := rfl
  have hending : ending.length = 4 := rfl
  omega

/-- The first hundred million files that are written have names that fit. -/
theorem fits_scratchName {p : Path} {n : Nat} (hn : n < 10 ^ 8)
    (hshort : Text.byteLength p.toText + 18 ≤ FileSystem.maxPath) : Fits p (scratchName n) := by
  have hlength := byteLength_scratchName hn
  have hdown := isDown_scratchName n
  have hnull : '\x00' ∉ scratchName n := fun h => absurd (mem_scratchName h) (by decide)
  refine ⟨⟨⟨?_, hdown.part.ne_here, hdown.ne_up⟩, hdown.part.ne_nil, hdown.part.no_slash, hnull⟩, ?_⟩
  · rw [hlength]
    decide
  · have := Path.byteLength_toText_child_le p (scratchName n)
    omega

theorem fits_entryName {p : Path} (k : AssetKey)
    (hshort : Text.byteLength p.toText + 69 ≤ FileSystem.maxPath) : Fits p (c.entryName k) := by
  refine ⟨c.isName_entry k, ?_⟩
  have hlength := c.byteLength_entryName k
  have := Path.byteLength_toText_child_le p (c.entryName k)
  omega

theorem absolute_of_isPlain {p : Path} (h : fs.IsPlain p) (base : Text) : absolute base p = p := by
  have hfold : ∀ (l acc : List Text), (∀ n ∈ l, FileSystem.IsStep n) →
      l.foldl (fun l n => if n = ['.', '.'] then l.dropLast else l ++ [n]) acc = acc ++ l := by
    intro l
    induction l with
    | nil => exact fun acc _ => (List.append_nil acc).symm
    | cons n l ih =>
      intro acc hl
      rw [List.foldl_cons, if_neg (hl n (List.mem_cons_self ..)).ne_up,
        ih _ fun m hm => hl m (List.mem_cons_of_mem _ hm), List.append_assoc, List.singleton_append]
  unfold absolute Path.append
  rw [if_pos h.absolute]
  dsimp only
  rw [hfold p.names [] h.steps, List.nil_append]

/-- A cache in a directory that is reached without links is at home there. -/
theorem home_of_isPlain (hs : fs.IsSound) (h : fs.IsPlain c.directory)
    (hshort : Text.byteLength c.directory.toText + 69 ≤ FileSystem.maxPath)
    (hfiles : ∀ n, fs.AtMostFile (c.directory.names ++ [n])) : c.Home fs c.directory.names where
  sound := hs
  clean := h.clean
  means := h.meansDirectory
  stage := by
    rw [stagePath, absolute_of_isPlain h]
    exact h.meansDirectory
  short k := fits_entryName k hshort
  files := hfiles

end

end MailMerge.AssetCache
