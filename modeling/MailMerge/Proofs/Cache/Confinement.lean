import MailMerge.Proofs.Cache.Entries
import MailMerge.Proofs.Storage.NewFiles
/-!
# The cache keeps to its directory

Whatever is asked of the cache, files come and go in its own directory only
(`getOrCreate_confined`). The file in which a picture is being written may be made elsewhere, when the
path of the directory leads back up over links; it is gone before the answer is given.

* `run_candidates_cases`, `run_lookup`: what is looked at, whatever stands in the directory.
* `run_promote_cases`: putting a picture puts it, or fails and leaves everything as it was.
-/
namespace MailMerge.AssetCache

open FileSystem (Kept MeansDirectory Fits IsName kept_refl kept_put kept_drop rootPath)
open MailMerge.Path (IsPart IsDown IsClean)

/-- Whether a name is that of a picture in a cache. -/
def IsPictureName (n : Text) : Prop := ∃ (c : AssetCache) (k : AssetKey), n = c.entryName k

/-- Whether a place is that of an entry: it is in the directory of the cache under a name with the
ending of entries, is no directory, and is in use or for a picture. -/
def IsEntry (c : AssetCache) (fs : FileSystem) (q : Place) : Prop :=
  ∃ r n, fs.MeansDirectory c.directory r ∧ q = r ++ [n] ∧ Text.endsIn ending n = true ∧
    ¬ fs.IsDirectory q ∧ (fs.get? q ≠ none ∨ IsPictureName n)

/-- Whether a file system is another one but for entries of the cache. -/
def Confined (c : AssetCache) (fs fs' : FileSystem) : Prop := Kept fs (c.IsEntry fs) fs'

theorem IsPictureName.endsIn {n : Text} (h : IsPictureName n) : Text.endsIn ending n = true := by
  obtain ⟨c, k, rfl⟩ := h
  exact List.isSuffixOf_iff_suffix.2 (List.suffix_append _ _)

section
variable {c : AssetCache} {fs fs' fs'' : FileSystem}

theorem confined_refl (hs : fs.IsSound) : Confined c fs fs :=
  (kept_refl hs).mono fun _ h => h.elim

/-- What is an entry after some changes is one before, or is what has changed. -/
theorem IsEntry.of_kept {loose : Place → Prop} (h : Kept fs loose fs') {q : Place}
    (hq : c.IsEntry fs' q) : loose q ∨ c.IsEntry fs q := by
  by_cases hl : loose q
  · exact Or.inl hl
  · obtain ⟨r, n, hm, rfl, hending, hdir, hthere⟩ := hq
    rw [h.same _ hl] at hthere
    exact Or.inr ⟨r, n, h.meansDirectory hm, rfl, hending, fun hd => hdir ((h.directory_iff _).2 hd),
      hthere⟩

theorem Confined.trans (h : Confined c fs fs') (h' : Confined c fs' fs'') : Confined c fs fs'' :=
  h.andThen h' fun _ hq => (hq.of_kept h).elim id id

/-- A cache over the same directory has the same entries. -/
theorem Confined.congr {c' : AssetCache} (h : Confined c fs fs')
    (hdir : c'.directory = c.directory) : Confined c' fs fs' := by
  refine h.mono fun q hq => ?_
  unfold IsEntry at hq ⊢
  rwa [hdir]

end

/-! ## Sweeps -/

section
variable {c : AssetCache} {w : World}

theorem evict_confined (hs : w.files.IsSound) (hc : c.directory.IsClean) {n : Text} (hn : IsName n)
    (hending : Text.endsIn ending n = true) (now : Time) :
    Confined c w.files (Script.run (c.evict now (c.directory.child n)) w).2.files := by
  obtain ⟨log, hrun⟩ := run_evict c now (c.directory.child n) w
  rw [hrun]
  cases hevicted : c.evicted now w.files (c.directory.child n) with
  | none => exact confined_refl hs
  | some fs =>
    obtain ⟨-, -, -, hr⟩ := evicted_eq_some_iff.1 hevicted
    obtain ⟨q, hm, hthere, hdir, rfl⟩ := FileSystem.remove_child_ok hs hc hn.isDown hr
    refine (kept_drop hs hdir).mono ?_
    rintro r rfl
    exact ⟨q, n, hm, rfl, hending, hdir, Or.inl hthere⟩

theorem evictAll_confined (hs : w.files.IsSound) (hc : c.directory.IsClean) (now : Time)
    {names : List Text} (hnames : ∀ n ∈ names, IsName n ∧ Text.endsIn ending n = true) :
    Confined c w.files (Script.run (c.evictAll now (names.map c.directory.child)) w).2.files := by
  induction names generalizing w with
  | nil => exact confined_refl hs
  | cons n names ih =>
    obtain ⟨hn, hending⟩ := hnames n (List.mem_cons_self ..)
    have hfirst := evict_confined (w := w) hs hc hn hending now
    rw [List.map_cons, evictAll, Script.run_bind, Script.run_bind]
    exact hfirst.trans (ih hfirst.sound fun m hm => hnames m (List.mem_cons_of_mem _ hm))

/-- The candidates are the names in the directory that have the ending of entries, and looking for
them changes nothing. -/
theorem run_candidates_cases (c : AssetCache) (w : World) :
    (∃ e, Script.run c.candidates w = (.error e, w)) ∨ Script.run c.candidates w = (.ok [], w) ∨
    ∃ names, w.files.list c.directory.toText = .ok names ∧ Script.run c.candidates w =
      (.ok ((names.filter (Text.endsIn ending)).map c.directory.child), w) := by
  unfold candidates
  rw [Script.run_bind, Script.run_isDirectory]
  dsimp only
  cases Script.probed (·.isDirectory) (w.files.status c.directory.toText) with
  | error e => exact Or.inl ⟨e, rfl⟩
  | ok there =>
    cases there with
    | false => exact Or.inr (Or.inl rfl)
    | true =>
      dsimp only
      rw [Script.run_bind, Script.run_list]
      dsimp only
      cases w.files.list c.directory.toText with
      | error e => exact Or.inl ⟨e, rfl⟩
      | ok names => exact Or.inr (Or.inr ⟨names, rfl, rfl⟩)

theorem run_candidates_world (c : AssetCache) (w : World) : (Script.run c.candidates w).2 = w := by
  rcases run_candidates_cases c w with ⟨e, hrun⟩ | hrun | ⟨names, -, hrun⟩ <;> rw [hrun]

theorem names_of_candidates (hs : w.files.IsSound) {paths : List Path}
    (h : (Script.run c.candidates w).1 = .ok paths) :
    ∃ names : List Text, paths = names.map c.directory.child ∧
      ∀ n ∈ names, IsName n ∧ Text.endsIn ending n = true := by
  rcases run_candidates_cases c w with ⟨e, hrun⟩ | hrun | ⟨names, hlist, hrun⟩
  · rw [hrun] at h
    cases h
  · rw [hrun] at h
    cases h
    exact ⟨[], rfl, fun _ h => absurd h List.not_mem_nil⟩
  · rw [hrun] at h
    cases h
    refine ⟨_, rfl, fun n hn => ?_⟩
    obtain ⟨hn, hending⟩ := List.mem_filter.1 hn
    exact ⟨FileSystem.isName_of_list hs hlist n hn, hending⟩

theorem sweep_confined (hs : w.files.IsSound) (hc : c.directory.IsClean) :
    Confined c w.files (Script.run c.sweep w).2.files ∧
      (Script.run c.sweep w).1.2.directory = c.directory := by
  unfold sweep
  rw [Script.run_bind, Script.run_now]
  dsimp only
  rw [Script.run_bind, run_candidates_world]
  cases hr : (Script.run c.candidates w).1 with
  | error e => exact ⟨confined_refl hs, rfl⟩
  | ok paths =>
    obtain ⟨names, rfl, hnames⟩ := names_of_candidates hs hr
    dsimp only
    rw [Script.run_bind]
    have hall := evictAll_confined hs hc w.clock hnames
    split
    · exact ⟨hall, rfl⟩
    · exact ⟨hall, rfl⟩

theorem sweepIfDue_confined (hs : w.files.IsSound) (hc : c.directory.IsClean) :
    Confined c w.files (Script.run c.sweepIfDue w).2.files ∧
      (Script.run c.sweepIfDue w).1.directory = c.directory := by
  rw [run_sweepIfDue]
  split
  · exact sweep_confined hs hc
  · exact ⟨confined_refl hs, rfl⟩

end

/-! ## Pictures that are written -/

theorem isDown_scratchName (n : Nat) : IsDown (scratchName n) := by
  refine Path.isDown_of_length ?_ fun h => ?_
  · have hmark : scratchMark.length = 5 := rfl
    rw [scratchName, List.length_append, List.length_append]
    omega
  · rcases List.mem_append.1 h with h | h
    · rcases List.mem_append.1 h with h | h
      · revert h
        decide
      · have hdigit := Text.mem_hexDigits_of_mem_ofNatPadded h
        revert hdigit
        decide
    · revert h
      decide

theorem isClean_absolute (base : Text) {p : Path} (hp : p.IsClean) : (absolute base p).IsClean := by
  have hq : ((Path.ofText base).append p).IsClean := by
    unfold Path.append
    split
    · exact hp
    · refine ⟨(Path.isClean_ofText base).root, fun n hn => ?_⟩
      rcases List.mem_append.1 hn with hn | hn
      · exact (Path.isClean_ofText base).names n hn
      · exact hp.names n hn
  have hfold : ∀ (l acc : List Text), (∀ n ∈ l, IsPart n) → (∀ n ∈ acc, IsPart n) →
      ∀ n ∈ l.foldl (fun l n => if n = ['.', '.'] then l.dropLast else l ++ [n]) acc, IsPart n := by
    intro l
    induction l with
    | nil => exact fun acc _ hacc => hacc
    | cons m l ih =>
      intro acc hl hacc
      refine ih _ (fun n hn => hl n (List.mem_cons_of_mem _ hn)) fun n hn => ?_
      dsimp only at hn
      split at hn
      · exact hacc n (List.dropLast_subset _ hn)
      · rcases List.mem_append.1 hn with hn | hn
        · exact hacc n hn
        · exact List.mem_singleton.1 hn ▸ hl m (List.mem_cons_self ..)
  exact ⟨hq.root, hfold _ [] hq.names fun _ h => absurd h List.not_mem_nil⟩

/-- The path of the directory under which pictures are written before they are moved. -/
def stagePath (c : AssetCache) (fs : FileSystem) : Path :=
  absolute (rootPath fs.current) c.directory

section
variable {c : AssetCache} {w : World}

/-- What is written into a file is there in the end. -/
theorem run_writeParts {t : Text} {q : Place} {c₀ : Content} {m : Time} {x : Bool}
    (h : w.files.find false t = .ok (q, .file c₀ m x)) (content : Content) (parts : Nat) :
    Script.run (writeParts t content parts) w =
      ((), { w with files := w.files.put q (.file content w.clock x) }) := by
  obtain ⟨hq, hfile⟩ := FileSystem.find_eq_ok_iff.1 h
  have hnode : w.files.AtMostFile q := Or.inr ⟨_, _, _, hfile⟩
  induction parts generalizing w c₀ m with
  | zero => rw [writeParts, Script.run_fill, FileSystem.fill_of_find h]
  | succ parts ih =>
    have hthere := FileSystem.find_put_file (c := .fragment content) (m := w.clock) (x := x) hq hnode
    obtain ⟨hq', hfile'⟩ := FileSystem.find_eq_ok_iff.1 hthere
    have hrest := ih (w := { w with files := w.files.put q (.file (.fragment content) w.clock x) })
      hthere hq' hfile' (Or.inr ⟨_, _, _, hfile'⟩)
    rw [writeParts, Script.run_bind, Script.run_fill, FileSystem.fill_of_find h]
    dsimp only at hrest ⊢
    rw [hrest, FileSystem.put_put]

/-- A picture that cannot be written first is not put. -/
theorem run_promote_unstaged {e : Cause}
    (hcreate : w.files.create w.clock ((c.stagePath w.files).child (scratchName w.drafts)).toText =
      .error e) (parts : Nat) (key : Text) (content : Content) :
    Script.run (c.promote parts key content) w =
      (.failed (.notStaged c.directory.toText
        ⟨e, ((c.stagePath w.files).child (scratchName w.drafts)).toText, none⟩),
        { w with drafts := w.drafts + 1 }) := by
  unfold promote
  rw [Script.run_bind, Script.run_canonical, FileSystem.canonical_here]
  dsimp only [Except.toOption, Option.getD]
  rw [Script.run_bind, Script.run_draft]
  dsimp only
  rw [Script.run_bind, Script.run_create]
  dsimp only
  rw [← stagePath, hcreate]
  rfl

/-- A picture that is written first is moved to its place, or gone again. -/
theorem run_promote_staged {q : Place}
    (hq : w.files.locate false ((c.stagePath w.files).child (scratchName w.drafts)).toText = .ok q)
    (hnone : w.files.get? q = none) (parts : Nat) (key : Text) (content : Content) :
    (∀ fs, (w.files.put q (.file content w.clock false)).rename
        ((c.stagePath w.files).child (scratchName w.drafts)).toText (c.pathOf key).toText = .ok fs →
      Script.run (c.promote parts key content) w =
        (.found (c.pathOf key), { w with drafts := w.drafts + 1, files := fs })) ∧
    ∀ e, (w.files.put q (.file content w.clock false)).rename
        ((c.stagePath w.files).child (scratchName w.drafts)).toText (c.pathOf key).toText = .error e →
      ∃ f, Script.run (c.promote parts key content) w =
        (.failed f, { w with drafts := w.drafts + 1 }) := by
  have hcreate := FileSystem.create_of_locate hq hnone w.clock
  have hnode : w.files.AtMostFile q := Or.inl hnone
  have hwrite := run_writeParts
    (w := { w with drafts := w.drafts + 1, files := w.files.put q (.file (.text []) w.clock false) })
    (FileSystem.find_put_file hq hnode) content parts
  unfold promote
  rw [Script.run_bind, Script.run_canonical, FileSystem.canonical_here]
  dsimp only [Except.toOption, Option.getD]
  rw [Script.run_bind, Script.run_draft]
  dsimp only
  rw [Script.run_bind, Script.run_create]
  dsimp only
  rw [← stagePath, hcreate]
  dsimp only [World.change]
  rw [Script.run_bind, hwrite]
  dsimp only
  rw [Script.run_bind, Script.run_rename, FileSystem.put_put]
  constructor
  · intro fs hrename
    rw [hrename]
    rfl
  · intro e hrename
    rw [hrename]
    dsimp only [World.change]
    rw [Script.run_bind, Script.run_remove, FileSystem.remove_put_file hq hnone]
    exact ⟨_, rfl⟩

/-- A picture is put under its path, where there is no directory, or everything stays as it is. -/
theorem run_promote_cases (c : AssetCache) (parts : Nat) (key : Text) (content : Content)
    (w : World) :
    (∃ f, Script.run (c.promote parts key content) w =
      (.failed f, { w with drafts := w.drafts + 1 })) ∨
    ∃ q, w.files.locate false (c.pathOf key).toText = .ok q ∧ ¬ w.files.IsDirectory q ∧
      Script.run (c.promote parts key content) w = (.found (c.pathOf key),
        { w with
          drafts := w.drafts + 1
          files := w.files.put q (.file content w.clock false) }) := by
  cases hcreate : w.files.create w.clock
      ((c.stagePath w.files).child (scratchName w.drafts)).toText with
  | error e => exact Or.inl ⟨_, run_promote_unstaged hcreate parts key content⟩
  | ok fs =>
    obtain ⟨q, hq, hnone, -⟩ := FileSystem.put_ok hcreate
    have hnode : w.files.AtMostFile q := Or.inl hnone
    obtain ⟨hmoved, hlost⟩ := run_promote_staged hq hnone parts key content
    cases hrename : (w.files.put q (.file content w.clock false)).rename
        ((c.stagePath w.files).child (scratchName w.drafts)).toText (c.pathOf key).toText with
    | error e => exact Or.inl (hlost e hrename)
    | ok fs =>
      refine Or.inr ?_
      rw [hmoved fs hrename]
      obtain ⟨p, node, r, hfind, -, hr, hdir, hmove⟩ := FileSystem.rename_ok hrename
      cases (FileSystem.find_put_file hq hnode).symm.trans hfind
      refine ⟨r, (FileSystem.locate_put_file hnode).1 hr, ?_, ?_⟩
      · rintro ⟨t, ht⟩
        refine hdir ⟨t, ?_⟩
        rw [FileSystem.get?_put_of_ne (FileSystem.ne_nil_of_absent hnone), ht]
        rintro rfl
        cases hnone.symm.trans ht
      · rcases hmove with ⟨rfl, rfl⟩ | ⟨-, rfl⟩
        · rfl
        · rw [FileSystem.drop_put hnone]

/-- The entry of an asset is in the directory of the cache. -/
theorem locate_entry (hs : w.files.IsSound) (hc : c.directory.IsClean) {k : AssetKey} {q : Place}
    (h : w.files.locate false (c.pathOf (c.keyOf k)).toText = .ok q) :
    Fits c.directory (c.entryName k) ∧
      ∃ r, w.files.MeansDirectory c.directory r ∧ q = r ++ [c.entryName k] := by
  rw [pathOf_keyOf] at h
  obtain ⟨hfits, r, hmeans⟩ := FileSystem.fits_of_locate hs hc (c.isName_entry k).isDown h
  cases (hfits.locate hc hmeans (Or.inl rfl)).symm.trans h
  exact ⟨hfits, r, hmeans, rfl⟩

theorem promote_confined (hs : w.files.IsSound) (hc : c.directory.IsClean) (parts : Nat)
    (k : AssetKey) (content : Content) :
    Confined c w.files (Script.run (c.promote parts (c.keyOf k) content) w).2.files := by
  rcases run_promote_cases c parts (c.keyOf k) content w with ⟨f, hrun⟩ | ⟨q, hq, hdir, hrun⟩
  · rw [hrun]
    exact confined_refl hs
  · obtain ⟨-, r, hmeans, rfl⟩ := locate_entry hs hc hq
    have hput := kept_put hs hdir (FileSystem.isName_child hs hmeans (c.isName_entry k)) content
      w.clock false
    have hpicture : IsPictureName (c.entryName k) := ⟨c, k, rfl⟩
    rw [hrun]
    refine hput.mono ?_
    rintro q rfl
    exact ⟨r, c.entryName k, hmeans, rfl, hpicture.endsIn, hdir, Or.inr hpicture⟩

/-! ## Entries that are asked for -/

/-- What is said of an entry when the look at its path gave `r`. -/
def looked (c : AssetCache) (key : Text) (now : Time) (r : Except Cause Status) :
    Except Trouble (Option CacheEntry) :=
  match r with
  | .error .absent => .ok none
  | .error e => .error ⟨e, (c.pathOf key).toText, none⟩
  | .ok s => .ok (if c.expired s.modified now then none else some ⟨key, c.pathOf key, s.modified⟩)

theorem run_lookup (c : AssetCache) (key : Text) (w : World) :
    Script.run (c.lookup key) w =
      (c.looked key w.clock (w.files.status (c.pathOf key).toText), w) := by
  unfold lookup looked
  rw [Script.run_bind, Script.run_status]
  dsimp only
  cases w.files.status (c.pathOf key).toText with
  | error e => cases e <;> rfl
  | ok s => rfl

/-- Whatever is asked of the cache, only its entries change. -/
theorem getOrCreate_confined (hs : w.files.IsSound) (hc : c.directory.IsClean) (render : Renderer)
    (parts : Nat) (k : AssetKey) :
    Confined c w.files (Script.run (c.getOrCreate render parts k) w).2.files ∧
      (Script.run (c.getOrCreate render parts k) w).1.2.directory = c.directory := by
  obtain ⟨hswept, hdir⟩ := sweepIfDue_confined (w := w) hs hc
  unfold getOrCreate
  rw [Script.run_bind]
  generalize Script.run c.sweepIfDue w = r at hswept hdir
  obtain ⟨c', w'⟩ := r
  dsimp only at hswept hdir ⊢
  rw [Script.run_bind, run_lookup]
  have hc' : c'.directory.IsClean := hdir ▸ hc
  dsimp only
  cases c'.looked (c'.keyOf k) w'.clock (w'.files.status (c'.pathOf (c'.keyOf k)).toText) with
  | error t => exact ⟨hswept, hdir⟩
  | ok entry =>
    cases entry with
    | some e => exact ⟨hswept, hdir⟩
    | none =>
      dsimp only
      cases render k with
      | error f => exact ⟨hswept, hdir⟩
      | ok content =>
        dsimp only
        split
        · exact ⟨hswept, hdir⟩
        · rw [Script.run_bind]
          exact ⟨hswept.trans ((promote_confined hswept.sound hc' parts k content).congr hdir.symm),
            hdir⟩

end

end MailMerge.AssetCache
