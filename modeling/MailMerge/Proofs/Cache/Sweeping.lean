import Mathlib
import MailMerge.Proofs.Cache.Confinement
import MailMerge.Proofs.Storage.Shedding
/-!
# What a sweep takes, and who can tell

A sweep goes through the directory of the cache once. It takes every expired file with the ending of
entries, whatever the rest of its name is, and counts it. Directories are left, and so is a file whose
path is too long to be looked at (`run_sweep`).

Looking for an entry does not use what is expired, so it finds the same before and after. Only a key
with a slash can tell: its path may lead through a file that is taken, which is an error while the file
is there, and an entry that is missing when it is gone (`lookup_of_sheds`).

* `Takes`: the files that a sweep takes.
* `sweep_exact`: for every directory of files and directories, every key and any number of sweeps.
* `sweep_left_and_seen`: a long path and a key with a slash.
-/
namespace MailMerge.AssetCache

open FileSystem (MeansDirectory Fits IsName Kept Sheds sheds_refl sheds_drop)
open MailMerge.Path (IsDown)

/-- Whether the directory of a cache stands at a place and has no links in it. -/
structure Lodged (c : AssetCache) (fs : FileSystem) (r : Place) : Prop where
  sound : fs.IsSound
  clean : c.directory.IsClean
  means : fs.MeansDirectory c.directory r
  unlinked : ∀ n target, fs.get? (r ++ [n]) ≠ some (.link target)

/-- Whether an expired file stands under a name in the directory of a cache, and its path can be looked
at. -/
structure Takes (c : AssetCache) (now : Time) (r : Place) (fs : FileSystem) (n : Text) : Prop where
  short : Text.byteLength (c.directory.child n).toText ≤ FileSystem.maxPath
  old : ∃ content t x, fs.get? (r ++ [n]) = some (.file content t x) ∧ c.expired t now = true

/-- A number of sweeps, one after the other. -/
def sweepTimes : Nat → AssetCache → Script AssetCache
  | 0, c => pure c
  | m + 1, c => do
    let (_, c) ← c.sweep
    sweepTimes m c

section
variable {c : AssetCache} {fs fs' : FileSystem} {r : Place} {now : Time} {n : Text} {w : World}
  {taken : Text → Prop}

theorem Lodged.touch (h : c.Lodged fs r) (last : Option Time) :
    ({ c with lastSweep := last } : AssetCache).Lodged fs r :=
  ⟨h.sound, h.clean, h.means, h.unlinked⟩

theorem Lodged.of_kept {loose : Place → Prop} (h : c.Lodged fs r) (hk : Kept fs loose fs')
    (hloose : ∀ q, loose q → fs.AtMostFile q) : c.Lodged fs' r :=
  ⟨hk.sound, h.clean, h.means.of_kept hk hloose, fun n target ht =>
    h.unlinked n target (hk.links _ _ ht)⟩

theorem Lodged.of_sheds (h : c.Lodged fs r) (hs : Sheds r taken fs fs') : c.Lodged fs' r :=
  h.of_kept hs.kept fun _ => hs.atMostFile

theorem Takes.fits (h : c.Takes now r fs n) (hl : c.Lodged fs r) : Fits c.directory n := by
  obtain ⟨content, t, x, hfile, -⟩ := h.old
  exact ⟨hl.sound.names _ _ hfile n (by simp), h.short⟩

/-- What is taken after some files have gone are the others that were taken before. -/
theorem takes_iff_of_sheds (hs : Sheds r taken fs fs') :
    c.Takes now r fs' n ↔ c.Takes now r fs n ∧ ¬ taken n := by
  constructor
  · rintro ⟨hshort, content, t, x, hfile, hexpired⟩
    exact ⟨⟨hshort, content, t, x, hs.before hfile, hexpired⟩, fun hn =>
      nomatch (hs.gone n hn).symm.trans hfile⟩
  · rintro ⟨⟨hshort, content, t, x, hfile, hexpired⟩, hn⟩
    refine ⟨hshort, content, t, x, (hs.kept.same _ ?_).trans hfile, hexpired⟩
    rintro ⟨m, hm, hplace⟩
    rw [List.singleton_inj.1 (List.append_cancel_left hplace)] at hn
    exact hn hm

/-! ## Sweeps -/

theorem evicted_of_takes (h : c.Lodged fs r) (ht : c.Takes now r fs n) :
    c.evicted now fs (c.directory.child n) = some (fs.drop (r ++ [n])) := by
  obtain ⟨content, t, x, hfile, hexpired⟩ := ht.old
  have hfits := ht.fits h
  exact evicted_eq_some_iff.2 ⟨_, hfits.status_file h.clean h.means hfile, hexpired,
    hfits.remove_file h.clean h.means hfile⟩

theorem evicted_of_not_takes (h : c.Lodged fs r) (hn : IsName n) (ht : ¬ c.Takes now r fs n) :
    c.evicted now fs (c.directory.child n) = none := by
  cases hevicted : c.evicted now fs (c.directory.child n) with
  | none => rfl
  | some fs' =>
    obtain ⟨s, hstatus, hexpired, hr⟩ := evicted_eq_some_iff.1 hevicted
    obtain ⟨q, hm, hthere, hdir, -⟩ := FileSystem.remove_child_ok h.sound h.clean hn.isDown hr
    obtain rfl : q = r := hm.unique h.means
    have hfits := FileSystem.fits_of_remove h.sound h.clean hn.isDown hr
    obtain hnone | ⟨content, t, x, hfile⟩ := FileSystem.atMostFile_iff.2 ⟨hdir, h.unlinked n⟩
    · exact absurd hnone hthere
    · rw [hfits.status_file h.clean hm hfile] at hstatus
      cases hstatus
      exact absurd ⟨hfits.short, content, t, x, hfile, hexpired⟩ ht

/-- Of some names, those of expired files are taken, each once. -/
theorem run_evictAll (h : c.Lodged w.files r) (now : Time) {names : List Text}
    (hnames : ∀ n ∈ names, IsName n) :
    ∃ (taken : List Text) (fs' : FileSystem) (log : List Event),
      Script.run (c.evictAll now (names.map c.directory.child)) w =
        (taken.length, { w with files := fs', log := log }) ∧
      taken.Nodup ∧ (∀ n, n ∈ taken ↔ n ∈ names ∧ c.Takes now r w.files n) ∧
      Sheds r (· ∈ taken) w.files fs' := by
  induction names generalizing w with
  | nil =>
    refine ⟨[], w.files, w.log, rfl, List.nodup_nil, fun n => by simp, ?_⟩
    exact (sheds_refl h.sound r).congr fun n => by simp
  | cons n names ih =>
    have hrest : ∀ m ∈ names, IsName m := fun m hm => hnames m (List.mem_cons_of_mem _ hm)
    obtain ⟨log, hrun⟩ := run_evict c now (c.directory.child n) w
    rw [List.map_cons, evictAll, Script.run_bind, hrun, Script.run_bind]
    by_cases ht : c.Takes now r w.files n
    · obtain ⟨content, t, x, hfile, -⟩ := ht.old
      have hfirst := sheds_drop h.sound hfile
      rw [evicted_of_takes h ht]
      dsimp only [Option.isSome, Option.getD]
      obtain ⟨taken, fs', log', hall, hnodup, hmem, hsheds⟩ :=
        ih (w := { w with files := w.files.drop (r ++ [n]), log := log }) (h.of_sheds hfirst) hrest
      -- the name may be listed again, but nothing stands under it any more
      have hmem' : ∀ m, m ∈ taken ↔ m ∈ names ∧ c.Takes now r w.files m ∧ m ≠ n := fun m => by
        rw [hmem, takes_iff_of_sheds hfirst]
      refine ⟨n :: taken, fs', log', ?_, ?_, fun m => ?_, ?_⟩
      · rw [hall]
        rfl
      · exact List.nodup_cons.2 ⟨fun hn => ((hmem' n).1 hn).2.2 rfl, hnodup⟩
      · by_cases hm : m = n
        · rw [hm]
          simp [ht]
        · simp [hm, hmem']
      · exact (hfirst.trans hsheds).congr fun m => List.mem_cons
    · rw [evicted_of_not_takes h (hnames n (List.mem_cons_self ..)) ht]
      dsimp only [Option.isSome, Option.getD]
      obtain ⟨taken, fs', log', hall, hnodup, hmem, hsheds⟩ :=
        ih (w := { w with log := log }) h hrest
      refine ⟨taken, fs', log', ?_, hnodup, fun m => ?_, hsheds⟩
      · rw [hall]
        rfl
      · rw [hmem, List.mem_cons]
        by_cases hm : m = n
        · rw [hm]
          simp [ht]
        · simp [hm]

theorem run_candidates_of_means (hm : w.files.MeansDirectory c.directory r) :
    Script.run c.candidates w =
      (.ok (((w.files.children r).filter (Text.endsIn ending)).map c.directory.child), w) := by
  obtain ⟨t, ht⟩ := hm.status
  unfold candidates
  rw [Script.run_bind, Script.run_isDirectory, ht]
  dsimp only [Script.probed]
  rw [Script.run_bind, Script.run_list, hm.list]
  rfl

/-- A sweep takes the expired files with the ending of entries, and counts them. -/
theorem run_sweep (h : c.Lodged w.files r) :
    ∃ (taken : List Text) (fs' : FileSystem) (log : List Event),
      Script.run c.sweep w =
        ((taken.length, { c with lastSweep := some w.clock }), { w with files := fs', log := log }) ∧
      taken.Nodup ∧
      (∀ n, n ∈ taken ↔ Text.endsIn ending n = true ∧ c.Takes w.clock r w.files n) ∧
      Sheds r (· ∈ taken) w.files fs' := by
  have hnames : ∀ n ∈ (w.files.children r).filter (Text.endsIn ending), IsName n := by
    intro n hn
    obtain ⟨node, hnode⟩ := FileSystem.mem_children (List.mem_filter.1 hn).1
    exact h.sound.names _ _ hnode n (by simp)
  obtain ⟨taken, fs', log, hrun, hnodup, hmem, hsheds⟩ := run_evictAll h w.clock hnames
  have hmem' : ∀ n, n ∈ taken ↔ Text.endsIn ending n = true ∧ c.Takes w.clock r w.files n := by
    intro n
    rw [hmem, List.mem_filter]
    constructor
    · exact fun ⟨⟨_, hending⟩, ht⟩ => ⟨hending, ht⟩
    · rintro ⟨hending, ht⟩
      obtain ⟨content, t, x, hfile, -⟩ := ht.old
      exact ⟨⟨FileSystem.mem_children_of_get? hfile, hending⟩, ht⟩
  unfold sweep
  rw [Script.run_bind, Script.run_now]
  dsimp only
  rw [Script.run_bind, run_candidates_of_means h.means]
  dsimp only
  rw [Script.run_bind, hrun]
  dsimp only
  split
  · exact ⟨taken, fs', log, rfl, hnodup, hmem', hsheds⟩
  · exact ⟨taken, fs', _, rfl, hnodup, hmem', hsheds⟩

/-- Sweeps one after the other, between which no time goes by, take nothing else. -/
theorem run_sweepTimes (h : c.Lodged w.files r) (m : Nat) :
    ∃ (taken : Text → Prop) (last : Option Time) (fs' : FileSystem) (log : List Event),
      Script.run (sweepTimes m c) w =
        ({ c with lastSweep := last }, { w with files := fs', log := log }) ∧
      (∀ n, taken n → c.Takes w.clock r w.files n) ∧ Sheds r taken w.files fs' := by
  induction m generalizing c w with
  | zero => exact ⟨_, c.lastSweep, w.files, w.log, rfl, fun _ h => h.elim, sheds_refl h.sound r⟩
  | succ m ih =>
    obtain ⟨taken, fs₁, log₁, hrun, -, hmem, hsheds⟩ := run_sweep h
    obtain ⟨taken', last, fs', log, hrest, htaken, hsheds'⟩ :=
      ih (c := { c with lastSweep := some w.clock }) (w := { w with files := fs₁, log := log₁ })
        ((h.touch _).of_sheds hsheds)
    refine ⟨_, last, fs', log, ?_, ?_, hsheds.trans hsheds'⟩
    · rw [sweepTimes, Script.run_bind, hrun]
      exact hrest
    · rintro n (hn | hn)
      · exact ((hmem n).1 hn).2
      · have hleft : c.Takes w.clock r fs₁ n := ⟨(htaken n hn).short, (htaken n hn).old⟩
        exact ((takes_iff_of_sheds hsheds).1 hleft).1

/-! ## Looking for entries -/

/-- Where expired files have gone the same is found, unless the path leads through one of them. -/
theorem lookup_of_sheds (hs : Sheds r taken fs fs') (htaken : ∀ n, taken n → c.Takes now r fs n)
    (key : Text) :
    c.looked key now (fs'.status (c.pathOf key).toText) =
        c.looked key now (fs.status (c.pathOf key).toText) ∨
      fs.status (c.pathOf key).toText = .error .notDirectory ∧
        fs'.status (c.pathOf key).toText = .error .absent := by
  obtain hsame | hthrough | ⟨n, content, t, x, hn, hfile, hbefore, hafter⟩ :=
    hs.status (c.pathOf key).toText
  · exact Or.inl (by rw [hsame])
  · exact Or.inr hthrough
  · obtain ⟨-, content', t', x', hfile', hexpired⟩ := htaken n hn
    cases hfile.symm.trans hfile'
    rw [hbefore, hafter]
    exact Or.inl (congrArg Except.ok (if_pos hexpired).symm)

/-- A key without a slash is that of an entry of the directory. -/
theorem pathOf_of_no_slash {key : Text} (h : '/' ∉ key) :
    c.pathOf key = c.directory.child (key ++ ending) ∧ IsDown (key ++ ending) := by
  have hlength : ending.length = 4 := rfl
  have hdown : IsDown (key ++ ending) := by
    refine Path.isDown_of_length ?_ fun hmem => ?_
    · rw [List.length_append]
      omega
    · exact (List.mem_append.1 hmem).elim h (by decide)
  exact ⟨by rw [pathOf, Path.ofText_of_isPart hdown.part]; rfl, hdown⟩

theorem slash_of_notDirectory (h : c.Lodged fs r) {key : Text}
    (hstatus : fs.status (c.pathOf key).toText = .error .notDirectory) : '/' ∈ key := by
  refine Decidable.byContradiction fun hkey => ?_
  obtain ⟨hpath, hdown⟩ := pathOf_of_no_slash (c := c) hkey
  have hlocate := FileSystem.locate_child_ne_notDirectory h.clean h.means hdown (h.unlinked _)
  rw [hpath] at hstatus
  unfold FileSystem.status FileSystem.find at hstatus
  cases hq : fs.locate true (c.directory.child (key ++ ending)).toText with
  | error e =>
    rw [hq] at hstatus
    cases hstatus
    exact hlocate hq
  | ok q =>
    rw [hq] at hstatus
    simp only [bind, Except.bind] at hstatus
    cases hnode : fs.get? q with
    | none =>
      rw [hnode] at hstatus
      cases hstatus
    | some node =>
      rw [hnode] at hstatus
      cases node <;> cases hstatus

/-- A sweep takes the expired files with the ending of entries whose paths can be looked at, counts them
and leaves everything else; and after any number of sweeps the same is found under every key, unless its
path leads through a file that was taken. -/
theorem sweep_exact (h : c.Lodged w.files r) :
    (∃ (taken : List Text) (fs' : FileSystem) (log : List Event),
      Script.run c.sweep w =
        ((taken.length, { c with lastSweep := some w.clock }), { w with files := fs', log := log }) ∧
      taken.Nodup ∧
      (∀ n, n ∈ taken ↔ Text.endsIn ending n = true ∧
        Text.byteLength (c.directory.child n).toText ≤ FileSystem.maxPath ∧
        ∃ content t x, w.files.get? (r ++ [n]) = some (.file content t x) ∧
          c.lifetime < w.clock - t) ∧
      (∀ n ∈ taken, fs'.get? (r ++ [n]) = none) ∧
      ∀ q, (∀ n ∈ taken, q ≠ r ++ [n]) → fs'.get? q = w.files.get? q) ∧
    ∀ (m : Nat) (key : Text),
      let before := (Script.run (c.lookup key) w).1
      let after := (Script.run (do let c' ← sweepTimes m c; c'.lookup key) w).1
      after = before ∨ '/' ∈ key ∧
        before = .error ⟨.notDirectory, (c.pathOf key).toText, none⟩ ∧ after = .ok none := by
  constructor
  · obtain ⟨taken, fs', log, hrun, hnodup, hmem, hsheds⟩ := run_sweep h
    refine ⟨taken, fs', log, hrun, hnodup, fun n => ?_, hsheds.gone, fun q hq => ?_⟩
    · rw [hmem]
      constructor
      · exact fun ⟨hending, hshort, hold⟩ => ⟨hending, hshort, by simpa [expired] using hold⟩
      · exact fun ⟨hending, hshort, hold⟩ => ⟨hending, hshort, by simpa [expired] using hold⟩
    · exact hsheds.kept.same q fun ⟨n, hn, hplace⟩ => hq n hn hplace
  · intro m key
    obtain ⟨taken, last, fs', log, hrun, htaken, hsheds⟩ := run_sweepTimes h m
    dsimp only
    rw [Script.run_bind, hrun, run_lookup, run_lookup]
    obtain hsame | ⟨hbefore, hafter⟩ := lookup_of_sheds hsheds htaken key
    · exact Or.inl hsame
    · refine Or.inr ⟨slash_of_notDirectory h hbefore, ?_, ?_⟩
      · rw [hbefore]
        rfl
      · show c.looked key w.clock (fs'.status (c.pathOf key).toText) = .ok none
        rw [hafter]
        rfl

end

/-! ## An attic -/

/-- A directory with an old picture and an old file that is none. -/
def attic : FileSystem where
  nodes := [(["c".toList], .directory 0),
    (["c".toList, "old.png".toList], .file (.text "x".toList) 0 false),
    (["c".toList, "old.txt".toList], .file (.text "x".toList) 0 false)]

/-- The path that goes into the attic, and then out of it and in again a number of times. -/
def winding : Nat → Path
  | 0 => { root := ['/'], names := ["c".toList] }
  | k + 1 => ((winding k).child "..".toList).child "c".toList

/-- A cache over the attic under a winding path. -/
def atticCache (k : Nat) : AssetCache := { directory := winding k }

/-- The attic two days later. -/
def atticWorld : World := { files := attic, clock := 2 * 86400000000 }

theorem get?_attic {q : Place} {node : Node} (h : attic.get? q = some node) :
    (∀ target, node ≠ .link target) ∧ ∀ n ∈ q, IsName n := by
  have hnames : ∀ n ∈ ["c".toList, "old.png".toList, "old.txt".toList], IsName n := by
    have hall : ∀ n ∈ ["c".toList, "old.png".toList, "old.txt".toList],
        Text.byteLength n ≤ FileSystem.maxName ∧ n ≠ ['.'] ∧ n ≠ ['.', '.'] ∧ n ≠ [] ∧ '/' ∉ n ∧
          '\x00' ∉ n := by decide
    intro n hn
    obtain ⟨hlen, hhere, hup, hne, hslash, hnull⟩ := hall n hn
    exact ⟨⟨hlen, hhere, hup⟩, hne, hslash, hnull⟩
  by_cases hq : q = []
  · subst hq
    cases h
    exact ⟨fun _ => nofun, fun n hn => absurd hn List.not_mem_nil⟩
  · rw [FileSystem.get?, if_neg (by simpa using hq),
      Table.get?_eq_some_iff (show (Table.keys attic.nodes).Nodup by decide)] at h
    simp only [attic, List.mem_cons, Prod.mk.injEq, List.not_mem_nil, or_false] at h
    rcases h with ⟨rfl, rfl⟩ | ⟨rfl, rfl⟩ | ⟨rfl, rfl⟩
    all_goals exact ⟨fun _ => nofun, fun n hn => hnames n (by
      revert n
      decide)⟩

theorem isSound_attic : attic.IsSound :=
  ⟨fun _ _ h => (get?_attic h).2, FileSystem.chain_nil, fun _ target h =>
    absurd rfl ((get?_attic h).1 target)⟩

theorem mem_names_winding {k : Nat} {n : Text} (h : n ∈ (winding k).names) :
    n = "c".toList ∨ n = "..".toList := by
  induction k with
  | zero => exact Or.inl (List.mem_singleton.1 h)
  | succ k ih =>
    rcases List.mem_append.1 h with h | h
    · rcases List.mem_append.1 h with h | h
      · exact ih h
      · exact Or.inr (List.mem_singleton.1 h)
    · exact Or.inl (List.mem_singleton.1 h)

theorem root_winding (k : Nat) : (winding k).root = ['/'] := by
  induction k with
  | zero => rfl
  | succ k ih => exact ih

theorem isClean_winding (k : Nat) : (winding k).IsClean := by
  refine ⟨Or.inr (Or.inl (root_winding k)), fun n hn => ?_⟩
  rcases mem_names_winding hn with rfl | rfl
  · exact ⟨by decide, by decide, by decide⟩
  · exact ⟨by decide, by decide, by decide⟩

/-- Each turn makes the path five bytes longer. -/
theorem byteLength_winding (k : Nat) : Text.byteLength (winding k).toText = 5 * k + 2 := by
  induction k with
  | zero => rfl
  | succ k ih =>
    have hnames : (winding k).names ≠ [] := by
      cases k with
      | zero => exact List.cons_ne_nil _ _
      | succ k => exact Path.child_names_ne_nil _ _
    rw [winding, Path.toText_child, if_neg (Path.child_names_ne_nil _ _), Path.toText_child,
      if_neg hnames, Text.byteLength_append, Text.byteLength_append, ih]
    show 5 * k + 2 + 3 + 2 = _
    omega

/-- However often the path turns, it goes into the attic. -/
theorem means_winding {k : Nat} (hk : 5 * k + 2 ≤ FileSystem.maxPath) :
    attic.MeansDirectory (winding k) ["c".toList] := by
  have hc : FileSystem.IsStep "c".toList := ⟨by decide, by decide, by decide⟩
  have hleads : ∀ k, FileSystem.Leads attic true FileSystem.maxLinks [] (winding k).names
      ["c".toList] := by
    intro k
    induction k with
    | zero => exact .enter hc rfl .done
    | succ k ih =>
      have hnames : (winding (k + 1)).names = (winding k).names ++ ["..".toList, "c".toList] := by
        simp [winding, Path.child]
      rw [hnames]
      exact ih.append ⟨0, rfl⟩ (List.cons_ne_nil _ _) fun _ => .up (.enter hc rfl .done)
  have habsolute : (winding k).isAbsolute = true := by
    rw [Path.isAbsolute, root_winding]
    rfl
  refine ⟨(FileSystem.locate_toText (isClean_winding k)).2 ⟨fun hnull => ?_, ?_, ?_⟩, 0, rfl⟩
  · obtain ⟨n, hn, hmem⟩ := Path.null_mem_toText hnull (isClean_winding k)
    rcases mem_names_winding hn with rfl | rfl <;> exact absurd hmem (by decide)
  · rw [byteLength_winding]
    exact hk
  · rw [if_pos habsolute]
    exact hleads k

theorem lodged_attic {k : Nat} (hk : 5 * k + 2 ≤ FileSystem.maxPath) :
    (atticCache k).Lodged attic ["c".toList] where
  sound := isSound_attic
  clean := isClean_winding k
  means := means_winding hk
  unlinked _ target ht := (get?_attic ht).1 target rfl

/-- The old picture is swept out of the attic, and nothing else is. -/
theorem sweep_exact_attic : ∃ count fs' log,
    Script.run (atticCache 0).sweep atticWorld =
      ((count, { atticCache 0 with lastSweep := some (2 * 86400000000) }),
        { atticWorld with files := fs', log := log }) ∧
    fs'.get? ["c".toList, "old.png".toList] = none ∧
    fs'.get? ["c".toList, "old.txt".toList] = some (.file (.text "x".toList) 0 false) := by
  obtain ⟨⟨taken, fs', log, hrun, -, hmem, hgone, hsame⟩, -⟩ :=
    sweep_exact (w := atticWorld) (lodged_attic (k := 0) (by decide))
  have hold : "old.png".toList ∈ taken :=
    (hmem _).2 ⟨by decide, by decide, .text "x".toList, 0, false, rfl, by decide⟩
  refine ⟨taken.length, fs', log, hrun, hgone _ hold, hsame _ fun n hn hplace => ?_⟩
  obtain ⟨hending, -⟩ := (hmem n).1 hn
  obtain rfl : "old.txt".toList = n := List.singleton_inj.1 (List.cons.inj hplace).2
  revert hending
  decide

/-- The old picture is not taken when the path to the attic turns so often that no byte is left for it.
-/
theorem not_takes_winding (now : Time) : ¬ (atticCache 818).Takes now ["c".toList] attic
    "old.png".toList := by
  intro h
  have hshort := h.short
  have hnames : (winding 818).names ≠ [] := Path.child_names_ne_nil _ _
  have hlength : Text.byteLength ((atticCache 818).directory.child "old.png".toList).toText = 4100 := by
    show Text.byteLength ((winding 818).child "old.png".toList).toText = _
    rw [Path.toText_child, if_neg hnames, Text.byteLength_append, byteLength_winding]
    rfl
  rw [hlength] at hshort
  exact absurd hshort (by decide)

set_option maxRecDepth 100000 in
/-- A key with a slash tells whether there was a sweep, and under a path with many turns an old picture
is left. -/
theorem sweep_left_and_seen :
    (Script.run ((atticCache 0).lookup "old.png/x".toList) atticWorld).1 =
      .error ⟨.notDirectory, "/c/old.png/x.png".toList, none⟩ ∧
    (Script.run (do
      let c ← sweepTimes 1 (atticCache 0)
      c.lookup "old.png/x".toList) atticWorld).1 = .ok none ∧
    (atticCache 818).Lodged attic ["c".toList] ∧
    (atticCache 818).expired 0 atticWorld.clock = true ∧
    (Script.run (atticCache 818).sweep atticWorld).2.files.get? ["c".toList, "old.png".toList] =
      some (.file (.text "x".toList) 0 false) := by
  have hlodged := lodged_attic (k := 818) (by decide)
  refine ⟨?_, ?_, hlodged, by decide, ?_⟩
  · unfold atticCache
    rw [Binary64.ofInt_hour]
    cbv
  · unfold atticCache
    rw [Binary64.ofInt_hour]
    cbv
  obtain ⟨taken, fs', log, hrun, -, hmem, hsheds⟩ := run_sweep (w := atticWorld) hlodged
  rw [hrun]
  refine hsheds.kept.same ["c".toList, "old.png".toList] ?_
  rintro ⟨n, hn, hplace⟩
  obtain rfl : "old.png".toList = n := List.singleton_inj.1 (List.cons.inj hplace).2
  exact not_takes_winding _ ((hmem _).1 hn).2

end MailMerge.AssetCache
