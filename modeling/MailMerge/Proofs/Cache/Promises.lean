import MailMerge.Proofs.Cache.Outcomes
import MailMerge.Proofs.Cache.Serving
/-!
# What requests promise

A request is to give the path of a file that is young enough, or to say why there is none, and then to
leave everything as it was. The second promise is kept. The first one (`Keeps`) is not: the status of
the entry's path is asked for its time alone, so a young directory under the path is taken for a
picture, and of all the ways in which asking can fail only one counts as a miss.

* `request_failed_leaves`: a request that gives no path leaves what its sweep has left.
* `request_keeps_iff`: what stands in the way of the first promise (`Obstructed`), and nothing else.
-/
namespace MailMerge.AssetCache

open FileSystem (MeansDirectory Fits)

section
variable {c : AssetCache} {w : World} {render : Renderer} {parts : Nat} {k : AssetKey}

/-- Sweeps remove no directory, not even under the path of an entry. -/
theorem sweepIfDue_spares_directory (hs : w.files.IsSound) (hplain : w.files.IsPlain c.directory)
    {t : Time} (hthere : w.files.get? (c.directory.names ++ [c.entryName k]) = some (.directory t)) :
    (Script.run c.sweepIfDue w).2.files.MeansDirectory c.directory c.directory.names ∧
      (Script.run c.sweepIfDue w).2.files.get? (c.directory.names ++ [c.entryName k]) =
        some (.directory t) := by
  obtain ⟨hkept, -⟩ := sweepIfDue_confined hs hplain.clean
  obtain ⟨hremains, -, -⟩ := sweepIfDue_remains (c := c) (w := w)
  generalize (Script.run c.sweepIfDue w).2.files = fs' at hkept hremains ⊢
  have hplain' : fs'.IsPlain c.directory :=
    { hplain with chain := fun q hq => (hkept.directory_iff q).2 (hplain.chain q hq) }
  obtain ⟨t', ht'⟩ := (hkept.directory_iff _).2 ⟨t, hthere⟩
  refine ⟨hplain'.meansDirectory, ?_⟩
  cases hthere.symm.trans (hremains _ _ ht')
  exact ht'

/-- The clock of a request is that of its sweep. -/
theorem clock_sweepIfDue : (Script.run c.sweepIfDue w).2.clock = w.clock :=
  (Script.run_follows _ _).clock

/-! ## What failed requests leave -/

/-- A request that gives no path leaves what its sweep has left: nothing is there that was not there
before, with the same content and from the same time, and without a sweep nothing is gone. -/
theorem request_failed_leaves
    (h : ∀ p, (Script.run (c.request render parts k) w).1.1 ≠ .ok (.found p)) :
    (Script.run (c.request render parts k) w).2.files = (Script.run c.sweepIfDue w).2.files ∧
    (∀ q node, (Script.run (c.request render parts k) w).2.files.get? q = some node →
      w.files.get? q = some node) ∧
    (c.isDue w.clock = false →
      (Script.run (c.request render parts k) w).2.files = w.files) := by
  have hfiles := (run_request_outcome c render parts k w).files_eq h
  obtain ⟨hremains, -, hundue⟩ := sweepIfDue_remains (c := c) (w := w)
  rw [hfiles]
  exact ⟨rfl, hremains, hundue⟩

/-- An old directory in the place of an entry cannot be replaced. -/
theorem request_onto_directory (hs : w.files.IsSound) (hplain : w.files.IsPlain c.directory)
    (hfits : Fits c.directory (c.entryName k)) {t : Time}
    (hthere : w.files.get? (c.directory.names ++ [c.entryName k]) = some (.directory t))
    (hold : c.expired t w.clock = true) (p : Path) :
    (Script.run (c.request render parts k) w).1.1 ≠ .ok (.found p) := by
  obtain ⟨hmeans, hthere'⟩ := sweepIfDue_spares_directory hs hplain hthere
  have hstatus := hfits.status_directory hplain.clean hmeans hthere'
  rw [← clock_sweepIfDue] at hold
  rw [← pathOf_keyOf] at hstatus
  have houtcome := run_request_outcome c render parts k w
  intro hfound
  rw [hfound] at houtcome
  generalize (Script.run (c.request render parts k) w).2.files = fs at houtcome
  cases houtcome with
  | live hsize h hlive =>
    cases hstatus.symm.trans h
    cases hold.symm.trans hlive
  | drawn hsize h hrender hsome hq hdir =>
    rw [pathOf_keyOf, hfits.locate hplain.clean hmeans (Or.inl rfl)] at hq
    cases hq
    exact hdir ⟨t, hthere'⟩

end

/-- An empty directory with a directory in the place of the entry of an asset. -/
def crowded (k : AssetKey) : FileSystem :=
  nook.put (["c".toList] ++ [nookCache.entryName k]) (.directory 0)

section
variable (k : AssetKey)

theorem get?_crowded :
    (crowded k).get? (["c".toList] ++ [nookCache.entryName k]) = some (.directory 0) :=
  FileSystem.get?_put_self (by simp) _

theorem isSound_crowded : (crowded k).IsSound := by
  refine FileSystem.isSound_put_directory isSound_nook (nook_empty _) (fun n hn => ?_) 0
  rcases List.mem_append.1 hn with hn | hn
  · exact List.mem_singleton.1 hn ▸ isName_c
  · exact List.mem_singleton.1 hn ▸ nookCache.isName_entry k

theorem isPlain_crowded : (crowded k).IsPlain nookCache.directory :=
  { isPlain_nookCache with
    chain := FileSystem.Chain.concat (p := []) FileSystem.chain_nil ⟨0, by
      rw [crowded, FileSystem.get?_put_of_ne (by simp) (by simp)]
      rfl⟩ }

end

/-- After two days a sweep fails to remove the directory, and a picture that is drawn fails to replace
it. -/
theorem request_failed_leaves_crowded :
    let k : AssetKey := ⟨['p'], 1, ['q']⟩
    let w : World := { files := crowded k, clock := 172800000000 }
    (∀ p, (Script.run (nookCache.request label 1 k) w).1.1 ≠ .ok (.found p)) ∧
    (Script.run (nookCache.request label 1 k) w).2.files =
      (Script.run nookCache.sweepIfDue w).2.files ∧
    (∀ q node, (Script.run (nookCache.request label 1 k) w).2.files.get? q = some node →
      w.files.get? q = some node) ∧
    (nookCache.isDue w.clock = false →
      (Script.run (nookCache.request label 1 k) w).2.files = w.files) := by
  intro k w
  have hfailed : ∀ p, (Script.run (nookCache.request label 1 k) w).1.1 ≠ .ok (.found p) :=
    request_onto_directory (isSound_crowded k) (isPlain_crowded k) (fits_entryName k (by decide))
      (get?_crowded k) (by decide)
  exact ⟨hfailed, request_failed_leaves hfailed⟩

/-! ## What requests give -/

/-- What a request promises: the path of a file that is young enough at the time, or a fault. -/
inductive Keeps (c : AssetCache) (now : Time) (fs : FileSystem) : Except Fault CacheAnswer → Prop where
  | found {p t x} (hfile : fs.status p.toText = .ok ⟨false, t, x⟩) (hage : now - t ≤ c.lifetime) :
      Keeps c now fs (.ok (.found p))
  | failed (f) : Keeps c now fs (.ok (.failed f))

/-- What stands in the way of the promise, when `w` is the world after the sweep. -/
inductive Obstructed (c : AssetCache) (k : AssetKey) (w : World) (answer : Except Fault CacheAnswer) :
    Prop where
  /-- the size has too many digits for a key -/
  | unwritable (h : intText? k.size = none)
  /-- the path of the entry cannot be looked at -/
  | unreadable {e} (h : w.files.status (c.pathOf (c.keyOf k)).toText = .error e) (he : e ≠ .absent)
  /-- there is a directory under the path, young enough -/
  | directory {t x} (h : w.files.status (c.pathOf (c.keyOf k)).toText = .ok ⟨true, t, x⟩)
      (hlive : c.expired t w.clock = false)
  /-- no picture is young enough, and one is put -/
  | hasty {p} (h : c.Misses w.clock (w.files.status (c.pathOf (c.keyOf k)).toText))
      (hput : answer = .ok (.found p)) (hnegative : c.lifetime < 0)
  /-- the picture is put in the place of a link that the way to the directory leads through -/
  | undermined {p r} (h : c.Misses w.clock (w.files.status (c.pathOf (c.keyOf k)).toText))
      (hput : answer = .ok (.found p)) (hmeans : w.files.MeansDirectory c.directory r)
      (hway : r ++ [c.entryName k] ∈ w.files.trail c.directory.toText)

section
variable {c : AssetCache} {w : World} {render : Renderer} {parts : Nat} {k : AssetKey}
  {answer : Except Fault CacheAnswer} {fs : FileSystem}

theorem expired_eq_false_iff {modified now : Time} :
    c.expired modified now = false ↔ now - modified ≤ c.lifetime := by
  unfold expired
  rw [decide_eq_false_iff_not, Int.not_lt]

/-- What is young enough only has to be a file. -/
theorem obstructed_live_iff (hsize : intText? k.size ≠ none) {s : Status}
    (h : w.files.status (c.pathOf (c.keyOf k)).toText = .ok s)
    (hlive : c.expired s.modified w.clock = false) :
    c.Obstructed k w answer ↔ s.isDirectory = true := by
  have hhit : ¬ c.Misses w.clock (w.files.status (c.pathOf (c.keyOf k)).toText) := by
    rw [h, misses_ok_iff, hlive]
    exact Bool.false_ne_true
  constructor
  · intro hobstructed
    cases hobstructed with
    | unwritable hlong => exact absurd hlong hsize
    | unreadable herror => cases h.symm.trans herror
    | directory hdir => cases h.symm.trans hdir; rfl
    | hasty hmiss => exact absurd hmiss hhit
    | undermined hmiss => exact absurd hmiss hhit
  · intro hdir
    obtain ⟨isDirectory, t, x⟩ := s
    cases hdir
    exact .directory h hlive

/-- Where there is nothing to be used, only pictures that are put can break the promise. -/
theorem obstructed_miss_iff (hsize : intText? k.size ≠ none)
    (hmiss : c.Misses w.clock (w.files.status (c.pathOf (c.keyOf k)).toText)) :
    c.Obstructed k w answer ↔ ∃ p, answer = .ok (.found p) ∧
      (c.lifetime < 0 ∨ ∃ r, w.files.MeansDirectory c.directory r ∧
        r ++ [c.entryName k] ∈ w.files.trail c.directory.toText) := by
  constructor
  · intro hobstructed
    cases hobstructed with
    | unwritable hlong => exact absurd hlong hsize
    | unreadable herror he => exact absurd (misses_error_iff.1 (herror ▸ hmiss)) he
    | directory hdir hlive =>
      rw [hdir, misses_ok_iff, hlive] at hmiss
      cases hmiss
    | hasty _ hput hnegative => exact ⟨_, hput, Or.inl hnegative⟩
    | undermined _ hput hmeans hway => exact ⟨_, hput, Or.inr ⟨_, hmeans, hway⟩⟩
  · rintro ⟨p, hput, hnegative | ⟨r, hmeans, hway⟩⟩
    · exact .hasty hmiss hput hnegative
    · exact .undermined hmiss hput hmeans hway

/-- A picture that is put is a file under its path and of no age, unless the way there is lost. -/
theorem keeps_put_iff {content : Content} {q : Place} (hs : w.files.IsSound)
    (hc : c.directory.IsClean) (hq : w.files.locate false (c.pathOf (c.keyOf k)).toText = .ok q)
    (hdir : ¬ w.files.IsDirectory q) :
    c.Keeps w.clock (w.files.put q (.file content w.clock false))
        (.ok (.found (c.pathOf (c.keyOf k)))) ↔
      ¬ (c.lifetime < 0 ∨ ∃ r, w.files.MeansDirectory c.directory r ∧
        r ++ [c.entryName k] ∈ w.files.trail c.directory.toText) := by
  obtain ⟨hfits, r, hmeans, rfl⟩ := locate_entry hs hc hq
  rw [pathOf_keyOf]
  by_cases hway : r ++ [c.entryName k] ∈ w.files.trail c.directory.toText
  · refine iff_of_false (fun hkeeps => ?_) (not_not_intro (Or.inr ⟨r, hmeans, hway⟩))
    cases hkeeps with
    | found hfile =>
      exact FileSystem.status_child_put_file hc (c.isName_entry k).isDown hmeans hdir hway _ hfile
  · have hfile := hfits.status_file hc (hmeans.put_file (c := content) (m := w.clock) (x := false)
      hdir hway) (FileSystem.get?_put_self (by simp) _)
    have hlost : ¬ ∃ r, w.files.MeansDirectory c.directory r ∧
        r ++ [c.entryName k] ∈ w.files.trail c.directory.toText := by
      rintro ⟨r', hmeans', hway'⟩
      exact hway (hmeans.unique hmeans' ▸ hway')
    rw [or_iff_left hlost, Int.not_lt]
    constructor
    · intro hkeeps
      cases hkeeps with
      | found hfile' hage =>
        cases hfile.symm.trans hfile'
        rwa [Int.sub_self] at hage
    · intro hnonnegative
      refine .found hfile ?_
      rwa [Int.sub_self]

theorem Outcome.keeps_iff (h : Outcome c render k w answer fs) (hs : w.files.IsSound)
    (hc : c.directory.IsClean) : c.Keeps w.clock fs answer ↔ ¬ c.Obstructed k w answer := by
  cases h with
  | unwritable hsize => exact iff_of_false nofun (not_not_intro (.unwritable hsize))
  | broken hsize h he => exact iff_of_false nofun (not_not_intro (.unreadable h he))
  | @live s hsize h hlive =>
    rw [obstructed_live_iff hsize h hlive, Bool.not_eq_true]
    constructor
    · intro hkeeps
      cases hkeeps with
      | found hfile => cases h.symm.trans hfile; rfl
    · intro hfile
      obtain ⟨isDirectory, t, x⟩ := s
      cases hfile
      exact .found h (expired_eq_false_iff.1 hlive)
  | failed hsize h =>
    rw [obstructed_miss_iff hsize h]
    refine iff_of_true (.failed _) ?_
    rintro ⟨p, hput, -⟩
    cases hput
  | drawn hsize h hrender hsome hq hdir =>
    rw [keeps_put_iff hs hc hq hdir, obstructed_miss_iff hsize h]
    refine not_congr ⟨fun hlost => ⟨_, rfl, hlost⟩, ?_⟩
    rintro ⟨p, -, hlost⟩
    exact hlost

/-- A request gives the path of a file that is young enough, or a fault, just when nothing stands in
the way. -/
theorem request_keeps_iff (hs : w.files.IsSound) (hc : c.directory.IsClean) :
    c.Keeps w.clock (Script.run (c.request render parts k) w).2.files
        (Script.run (c.request render parts k) w).1.1 ↔
      ¬ c.Obstructed k (Script.run c.sweepIfDue w).2
        (Script.run (c.request render parts k) w).1.1 := by
  have hsound := (sweepIfDue_confined hs hc).1.sound
  have houtcome := (run_request_outcome c render parts k w).keeps_iff hsound hc
  rwa [clock_sweepIfDue] at houtcome

/-- A directory with a picture of two days and the picture of an asset, of one hour on the third day. -/
def stocked (k : AssetKey) : World where
  files := (nook.put (["c".toList] ++ ["old.png".toList]) (.file (.text ['o']) 0 false)).put
    (["c".toList] ++ [nookCache.entryName k]) (.file (.text ['n']) 172800000000 false)
  clock := 176400000000

theorem home_stocked (k : AssetKey) : nookCache.Home (stocked k).files ["c".toList] := by
  have hold : FileSystem.IsName "old.png".toList :=
    ⟨⟨by decide, by decide, by decide⟩, by decide, by decide, by decide⟩
  have hempty : nook.AtMostFile (["c".toList] ++ ["old.png".toList]) := Or.inl (nook_empty _)
  have hfirst := FileSystem.kept_put isSound_nook hempty.not_isDirectory
    (FileSystem.isName_child isSound_nook isPlain_nookCache.meansDirectory hold) (.text ['o']) 0 false
  have hhome := (home_nook (c := nookCache) rfl).of_kept hfirst fun q hq => hq ▸ hempty
  have hsecond := FileSystem.kept_put hhome.sound (hhome.files (nookCache.entryName k)).not_isDirectory
    (FileSystem.isName_child hhome.sound hhome.means (nookCache.isName_entry k))
    (.text ['n']) 172800000000 false
  exact hhome.of_kept hsecond fun q hq => hq ▸ hhome.files _

/-- The picture that is young enough is given. -/
theorem request_keeps_iff_stocked :
    let k : AssetKey := ⟨['p'], 1, ['q']⟩
    (stocked k).files.IsSound ∧ nookCache.directory.IsClean ∧
    ¬ nookCache.Obstructed k (Script.run nookCache.sweepIfDue (stocked k)).2
      (Script.run (nookCache.request label 1 k) (stocked k)).1.1 ∧
    nookCache.Keeps (stocked k).clock (Script.run (nookCache.request label 1 k) (stocked k)).2.files
      (Script.run (nookCache.request label 1 k) (stocked k)).1.1 := by
  intro k
  have hhome := home_stocked k
  have hthere : (stocked k).files.get? (["c".toList] ++ [nookCache.entryName k]) =
      some (.file (.text ['n']) 172800000000 false) := FileSystem.get?_put_self (by simp) _
  have hyoung : nookCache.expired 172800000000 176400000000 = false := by decide
  have hfree : ¬ nookCache.Obstructed k (Script.run nookCache.sweepIfDue (stocked k)).2
      (Script.run (nookCache.request label 1 k) (stocked k)).1.1 := by
    obtain ⟨last, fs', log, hsweep, hswept⟩ := sweepIfDue_spares (w := stocked k) hhome
    generalize (Script.run (nookCache.request label 1 k) (stocked k)).1.1 = answer
    have hstays := (hswept.kept.same _ fun hstale => by
      obtain ⟨n, content, t, x, -, hfile, hexpired⟩ := hstale
      cases hthere.symm.trans hfile
      cases hyoung.symm.trans hexpired).trans hthere
    have hstatus := (fits_entryName k (show Text.byteLength nookCache.directory.toText + 69 ≤ _ by
      decide)).status_file hhome.clean (hhome.of_swept hswept).means hstays
    rw [← pathOf_keyOf] at hstatus
    have hsize : intText? k.size ≠ none := by decide
    rw [hsweep, obstructed_live_iff (w := { stocked k with files := fs', log := log })
      (s := ⟨false, 172800000000, false⟩) hsize hstatus hyoung]
    exact Bool.false_ne_true
  exact ⟨hhome.sound, hhome.clean, hfree, (request_keeps_iff hhome.sound hhome.clean).2 hfree⟩

/-- A young directory in the place of an entry is given for a picture. -/
theorem request_finds_directory (hs : w.files.IsSound) (hplain : w.files.IsPlain c.directory)
    (hfits : Fits c.directory (c.entryName k)) (hsize : intText? k.size ≠ none) {t : Time}
    (hthere : w.files.get? (c.directory.names ++ [c.entryName k]) = some (.directory t))
    (hlive : c.expired t w.clock = false) :
    (Script.run (c.request render parts k) w).1.1 = .ok (.found (c.pathOf (c.keyOf k))) ∧
      (Script.run (c.request render parts k) w).2.files.status (c.pathOf (c.keyOf k)).toText =
        .ok ⟨true, t, true⟩ := by
  obtain ⟨hmeans, hthere'⟩ := sweepIfDue_spares_directory hs hplain hthere
  have hstatus := hfits.status_directory hplain.clean hmeans hthere'
  rw [← pathOf_keyOf] at hstatus
  rw [← clock_sweepIfDue] at hlive
  have hhit : ¬ c.Misses (Script.run c.sweepIfDue w).2.clock
      ((Script.run c.sweepIfDue w).2.files.status (c.pathOf (c.keyOf k)).toText) := by
    rw [hstatus, misses_ok_iff, hlive]
    exact Bool.false_ne_true
  have houtcome := run_request_outcome c render parts k w
  generalize (Script.run (c.request render parts k) w).1.1 = answer at houtcome ⊢
  generalize (Script.run (c.request render parts k) w).2.files = fs at houtcome ⊢
  cases houtcome with
  | unwritable hlong => exact absurd hlong hsize
  | broken _ h => cases hstatus.symm.trans h
  | live => exact ⟨rfl, hstatus⟩
  | failed _ hmiss => exact absurd hmiss hhit
  | drawn _ hmiss => exact absurd hmiss hhit

/-- The first request in a directory where only a new directory is gives the path of that. -/
theorem request_breaks_crowded :
    let k : AssetKey := ⟨['p'], 1, ['q']⟩
    let w : World := { files := crowded k }
    (Script.run (nookCache.request label 1 k) w).1.1 =
      .ok (.found (nookCache.pathOf (nookCache.keyOf k))) ∧
    (Script.run (nookCache.request label 1 k) w).2.files.status
      (nookCache.pathOf (nookCache.keyOf k)).toText = .ok ⟨true, 0, true⟩ ∧
    ¬ nookCache.Keeps w.clock (Script.run (nookCache.request label 1 k) w).2.files
      (Script.run (nookCache.request label 1 k) w).1.1 := by
  intro k w
  have hgiven : (Script.run (nookCache.request label 1 k) w).1.1 =
        .ok (.found (nookCache.pathOf (nookCache.keyOf k))) ∧
      (Script.run (nookCache.request label 1 k) w).2.files.status
        (nookCache.pathOf (nookCache.keyOf k)).toText = .ok ⟨true, 0, true⟩ :=
    request_finds_directory (isSound_crowded k) (isPlain_crowded k) (fits_entryName k (by decide))
      (by decide) (get?_crowded k) (by decide)
  obtain ⟨hfound, hdirectory⟩ := hgiven
  refine ⟨hfound, hdirectory, fun hkeeps => ?_⟩
  rw [hfound] at hkeeps
  cases hkeeps with
  | found hfile => cases hdirectory.symm.trans hfile

end

end MailMerge.AssetCache
