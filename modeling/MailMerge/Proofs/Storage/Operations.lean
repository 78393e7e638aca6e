import MailMerge.Proofs.Storage.Frame
/-!
# Operations on names in directories

What the operations do to a name in a directory, told by what stands at its place.

* `write_ok`, `remove_ok`, `rename_ok`, `put_ok`, `removeTree_ok`: what an operation has done that has
  succeeded, whatever its path is.
* `fits_of_locate`: what can be located fits, and is in a directory.
* `write_child`, `remove_child_ok`, `put_child_ok`: what is known when an operation has succeeded.
* `Fits.remove_file`, `Fits.rename_file`, `Fits.removeTree`: what operations make of what is there.
* `Fits.create_absent`, `Fits.rename_onto`, `Fits.status_absent`: when operations succeed, and how they
  fail where there is nothing.
-/
namespace MailMerge.FileSystem

open MailMerge.Path (IsDown IsClean)

/-! ## What a successful operation has done -/

section
variable {fs fs' : FileSystem} {follow : Bool} {q : Place} {t : Text} {node : Node}

theorem find_eq_ok_iff :
    fs.find follow t = .ok (q, node) ↔ fs.locate follow t = .ok q ∧ fs.get? q = some node := by
  unfold FileSystem.find
  cases hq : fs.locate follow t with
  | error e => simp [bind, Except.bind]
  | ok r =>
    simp only [bind, Except.bind, Except.ok.injEq]
    cases hnode : fs.get? r with
    | none =>
      simp only [reduceCtorEq, false_iff, not_and]
      rintro rfl h
      cases hnode.symm.trans h
    | some n =>
      simp only [Except.ok.injEq, Prod.mk.injEq]
      constructor
      · rintro ⟨rfl, rfl⟩
        exact ⟨rfl, hnode⟩
      · rintro ⟨rfl, h⟩
        exact ⟨rfl, Option.some.inj (hnode.symm.trans h)⟩

/-- What has been written is a file where no directory was. -/
theorem write_ok {now : Time} {c : Content} (h : fs.write now t c = .ok fs') :
    ∃ q x, fs.locate true t = .ok q ∧ ¬ fs.IsDirectory q ∧ fs' = fs.put q (.file c now x) := by
  unfold FileSystem.write at h
  cases hq : fs.locate true t with
  | error e =>
    rw [hq] at h
    cases h
  | ok q =>
    rw [hq] at h
    simp only [bind, Except.bind] at h
    have hdir : ¬ fs.IsDirectory q := by
      rintro ⟨m, hm⟩
      rw [hm] at h
      cases h
    split at h
    · cases h
    · cases h
      exact ⟨q, _, rfl, hdir, rfl⟩
    · cases h
      exact ⟨q, _, rfl, hdir, rfl⟩

/-- What has been removed was there, and no directory. -/
theorem remove_ok (h : fs.remove t = .ok fs') :
    ∃ q node, fs.find false t = .ok (q, node) ∧ ¬ fs.IsDirectory q ∧ fs' = fs.drop q := by
  unfold FileSystem.remove at h
  cases hfind : fs.find false t with
  | error e =>
    rw [hfind] at h
    cases h
  | ok found =>
    obtain ⟨q, node⟩ := found
    rw [hfind] at h
    simp only [bind, Except.bind] at h
    obtain ⟨-, hnode⟩ := find_eq_ok_iff.1 hfind
    have hdir : ¬ fs.IsDirectory q := by
      rintro ⟨m, hm⟩
      cases hnode.symm.trans hm
      cases h
    refine ⟨q, node, rfl, hdir, ?_⟩
    split at h
    · cases h
    · rename_i heq
      cases heq
      cases h
      rfl

/-- What has been moved is no directory, and has not gone onto one. -/
theorem rename_ok {a b : Text} (h : fs.rename a b = .ok fs') :
    ∃ q node q', fs.find false a = .ok (q, node) ∧ ¬ fs.IsDirectory q ∧
      fs.locate false b = .ok q' ∧ ¬ fs.IsDirectory q' ∧
      (q = q' ∧ fs' = fs ∨ q ≠ q' ∧ fs' = (fs.drop q).put q' node) := by
  unfold FileSystem.rename at h
  cases hfind : fs.find false a with
  | error e =>
    rw [hfind] at h
    cases h
  | ok found =>
    obtain ⟨q, node⟩ := found
    rw [hfind] at h
    obtain ⟨-, hnode⟩ := find_eq_ok_iff.1 hfind
    cases hq' : fs.locate false b with
    | error e =>
      rw [hq'] at h
      cases h
    | ok q' =>
      rw [hq'] at h
      simp only [bind, Except.bind] at h
      have hdir : ¬ fs.IsDirectory q := by
        rintro ⟨m, hm⟩
        cases hnode.symm.trans hm
        cases h
      have hfree : ¬ fs.IsDirectory q' := by
        rintro ⟨m, hm⟩
        rw [hm] at h
        cases node with
        | directory m' => exact hdir ⟨m', hnode⟩
        | file => cases h
        | link => cases h
      refine ⟨q, node, q', rfl, hdir, rfl, hfree, ?_⟩
      split at h
      · cases h
      · cases h
      · split at h <;> cases h
        · exact Or.inl ⟨‹_›, rfl⟩
        · exact Or.inr ⟨‹_›, rfl⟩

/-- What has been put only where there is nothing was not there. -/
theorem put_ok (h : (do
      let q ← fs.locate false t
      match fs.get? q with
      | some _ => .error .present
      | none => .ok (fs.put q node) : Except Cause FileSystem) = .ok fs') :
    ∃ q, fs.locate false t = .ok q ∧ fs.get? q = none ∧ fs' = fs.put q node := by
  cases hq : fs.locate false t with
  | error e =>
    rw [hq] at h
    cases h
  | ok q =>
    rw [hq] at h
    simp only [bind, Except.bind] at h
    split at h
    · cases h
    · cases h
      exact ⟨q, rfl, ‹_›, rfl⟩

/-- Only a directory that is not there can be made. -/
theorem makeDirectory_ok {now : Time} (h : fs.makeDirectory now t = .ok fs') :
    ∃ q, fs.locate false t = .ok q ∧ fs.get? q = none ∧ fs' = fs.put q (.directory now) := put_ok h

/-- The file system without a place and everything below it. -/
def prune (fs : FileSystem) (q : Place) : FileSystem :=
  { fs with nodes := fs.nodes.filter fun e => !q.isPrefixOf e.1 }

theorem get?_prune (hq : q ≠ []) (r : Place) :
    (fs.prune q).get? r = if q <+: r then none else fs.get? r := by
  by_cases hr : r = []
  · subst hr
    rw [if_neg (by simpa using hq)]
    rfl
  · have hne : ¬ r.isEmpty = true := by simpa using hr
    have hkeep : (!q.isPrefixOf r) = true ↔ ¬ q <+: r := by
      rw [Bool.not_eq_true', ← Bool.not_eq_true, List.isPrefixOf_iff_prefix]
    unfold get?
    rw [if_neg hne, if_neg hne, prune, Table.get?_filter fs.nodes (fun k => !q.isPrefixOf k)]
    by_cases hpre : q <+: r
    · rw [if_pos hpre, if_neg fun h => hkeep.1 h hpre]
    · rw [if_neg hpre, if_pos (hkeep.2 hpre)]

/-- What has been removed with everything in it was a directory. -/
theorem removeTree_ok (h : fs.removeTree t = .ok fs') :
    ∃ q, fs.locate false t = .ok q ∧ fs.IsDirectory q ∧ fs' = fs.prune q := by
  unfold FileSystem.removeTree at h
  cases hfind : fs.find false t with
  | error e =>
    rw [hfind] at h
    cases h
  | ok found =>
    obtain ⟨q, node⟩ := found
    rw [hfind] at h
    simp only [bind, Except.bind] at h
    obtain ⟨hq, hnode⟩ := find_eq_ok_iff.1 hfind
    split at h
    · rename_i heq
      cases heq
      cases h
      exact ⟨q, hq, ⟨_, hnode⟩, rfl⟩
    · cases h

/-! ### What it has left alone -/

theorem kept_of_write (hs : fs.IsSound) {now : Time} {c : Content}
    (h : fs.write now t c = .ok fs') : Kept fs (fun r => fs.locate true t = .ok r) fs' := by
  obtain ⟨q, x, hq, hdir, rfl⟩ := write_ok h
  exact (kept_put hs hdir (isName_of_locate hs hq) c now x).mono fun r hr => hr ▸ hq

theorem kept_of_remove (hs : fs.IsSound) (h : fs.remove t = .ok fs') :
    Kept fs (fun r => fs.locate false t = .ok r ∧ fs.get? r ≠ none) fs' := by
  obtain ⟨q, node, hfind, hdir, rfl⟩ := remove_ok h
  obtain ⟨hq, hnode⟩ := find_eq_ok_iff.1 hfind
  exact (kept_drop hs hdir).mono fun r hr => hr ▸ ⟨hq, by rw [hnode]; exact nofun⟩

/-- Moving a file changes the place it leaves and the one it goes to. -/
theorem kept_of_rename (hs : fs.IsSound) {a b : Text}
    (hfile : ∀ q target, fs.locate false a = .ok q → fs.get? q ≠ some (.link target))
    (h : fs.rename a b = .ok fs') :
    Kept fs (fun r => fs.locate false a = .ok r ∨ fs.locate false b = .ok r) fs' := by
  obtain ⟨q, node, q', hfind, hdir, hq', hfree, hmove⟩ := rename_ok h
  obtain ⟨hq, hnode⟩ := find_eq_ok_iff.1 hfind
  rcases hmove with ⟨-, rfl⟩ | ⟨-, rfl⟩
  · exact (kept_refl hs).mono fun _ h => h.elim
  · cases node with
    | directory m => exact absurd ⟨m, hnode⟩ hdir
    | link target => exact absurd hnode (hfile q target hq)
    | file c m x =>
      have hdrop := kept_drop hs hdir
      have hput := kept_put hdrop.sound (fun hd => hfree ((hdrop.directory_iff _).1 hd))
        (isName_of_locate hs hq') c m x
      refine (hdrop.trans hput).mono ?_
      rintro r (rfl | rfl)
      · exact Or.inl hq
      · exact Or.inr hq'

theorem kept_of_create (hs : fs.IsSound) {now : Time} (h : fs.create now t = .ok fs') :
    Kept fs (fun r => fs.locate false t = .ok r) fs' := by
  obtain ⟨q, hq, hnone, rfl⟩ := put_ok h
  have hnode : fs.AtMostFile q := Or.inl hnone
  exact (kept_put hs hnode.not_isDirectory (isName_of_locate hs hq) _ _ _).mono fun r hr => hr ▸ hq

theorem kept_fill (hs : fs.IsSound) (now : Time) (t : Text) (c : Content) :
    Kept fs (fun r => fs.locate false t = .ok r) (fs.fill now t c) := by
  unfold FileSystem.fill
  split
  · rename_i q c' m x hfind
    obtain ⟨hq, hnode⟩ := find_eq_ok_iff.1 hfind
    have hfile : fs.AtMostFile q := Or.inr ⟨c', m, x, hnode⟩
    exact (kept_put hs hfile.not_isDirectory (isName_of_locate hs hq) _ _ _).mono
      fun r hr => hr ▸ hq
  · exact (kept_refl hs).mono fun _ h => h.elim

end

/-! ## Names in directories -/

/-- Whether a name of a directory can be located: it is a name, and its path is not too long. -/
structure Fits (p : Path) (n : Text) : Prop where
  name : IsName n
  short : Text.byteLength (p.child n).toText ≤ maxPath

section
variable {fs fs' : FileSystem} {follow : Bool} {p : Path} {n : Text} {q r : Place}

theorem leads_last (hn : IsStep n)
    (hlast : follow = false ∨ ∀ t, fs.get? (q ++ [n]) ≠ some (.link t)) (links : Nat) :
    Leads fs follow links q [n] (q ++ [n]) := by
  cases hnode : fs.get? (q ++ [n]) with
  | none => exact .missing hn hnode
  | some node =>
    cases node with
    | directory t => exact .enter hn hnode .done
    | file c t x => exact .file hn hnode
    | link t =>
      refine .stop hn hnode ?_
      exact hlast.resolve_right fun h => h t hnode

theorem Fits.locate (hf : Fits p n) (hp : p.IsClean) (hm : fs.MeansDirectory p q)
    (hlast : follow = false ∨ ∀ t, fs.get? (q ++ [n]) ≠ some (.link t)) :
    fs.locate follow (p.child n).toText = .ok (q ++ [n]) :=
  locate_child hp hf.name hm.1 hm.2 hf.short (leads_last hf.name.toIsStep hlast)

/-- What can be located fits. -/
theorem fits_of_locate (hs : fs.IsSound) (hp : p.IsClean) (hn : IsDown n)
    (h : fs.locate follow (p.child n).toText = .ok r) :
    Fits p n ∧ ∃ q, fs.MeansDirectory p q := by
  obtain ⟨hz, hlen, hleads⟩ := (locate_toText (hp.child hn.part)).1 h
  have hchain : fs.Chain (if (p.child n).isAbsolute then [] else fs.current) := by
    split
    · exact chain_nil
    · exact hs.current
  obtain ⟨links, q, hdir, hq, hlast⟩ := hleads.split rfl hchain
  have hstep : IsStep n := by
    cases hlast with
    | stay => exact absurd rfl hn.part.ne_here
    | up => exact absurd rfl hn.ne_up
    | missing hstep => exact hstep
    | file hstep => exact hstep
    | enter hstep => exact hstep
    | stop hstep => exact hstep
    | jump hstep => exact hstep
  have hnull : '\x00' ∉ n := fun h => hz (Path.mem_toText (List.mem_append_right _ (by simp)) h)
  have hname : IsName n :=
    { toIsStep := hstep, ne_nil := hn.part.ne_nil, no_slash := hn.part.no_slash, no_null := hnull }
  refine ⟨⟨hname, hlen⟩, q, (locate_toText hp).2 ⟨fun h => hz (Path.null_mem_child hp h), ?_, hdir⟩,
    hq.isDirectory⟩
  exact Nat.le_trans (Path.byteLength_toText_le hn.part.ne_nil) hlen

theorem isName_of_meansDirectory (hs : fs.IsSound) (hm : fs.MeansDirectory p q) :
    ∀ m ∈ q, IsName m := isName_of_locate hs hm.1

theorem isName_child (hs : fs.IsSound) (hm : fs.MeansDirectory p q) (hn : IsName n) :
    ∀ m ∈ q ++ [n], IsName m := by
  intro m hm'
  rcases List.mem_append.1 hm' with hm' | hm'
  · exact isName_of_meansDirectory hs hm m hm'
  · rw [List.mem_singleton.1 hm']
    exact hn

/-- Finding a name in a directory. -/
theorem Fits.find (hf : Fits p n) (hp : p.IsClean) (hm : fs.MeansDirectory p q)
    (hlast : follow = false ∨ ∀ t, fs.get? (q ++ [n]) ≠ some (.link t)) :
    fs.find follow (p.child n).toText =
      match fs.get? (q ++ [n]) with
      | some node => .ok (q ++ [n], node)
      | none => .error .absent := by
  unfold FileSystem.find
  rw [hf.locate hp hm hlast]
  rfl

theorem Fits.find_file (hf : Fits p n) (hp : p.IsClean) (hm : fs.MeansDirectory p q) {c : Content}
    {t : Time} {x : Bool} (hfile : fs.get? (q ++ [n]) = some (.file c t x)) :
    fs.find follow (p.child n).toText = .ok (q ++ [n], .file c t x) := by
  have hnode : fs.AtMostFile (q ++ [n]) := Or.inr ⟨c, t, x, hfile⟩
  rw [hf.find hp hm (Or.inr hnode.ne_link), hfile]

/-- A name that is not there is not found. -/
theorem find_child_absent (follow : Bool) (hs : fs.IsSound) (hp : p.IsClean) (hn : IsDown n)
    (hm : fs.MeansDirectory p q) (hnone : fs.get? (q ++ [n]) = none) :
    ∃ e, fs.find follow (p.child n).toText = .error e := by
  cases hloc : fs.locate follow (p.child n).toText with
  | error e => exact ⟨e, by simp only [FileSystem.find, hloc, bind, Except.bind]⟩
  | ok r =>
    obtain ⟨hf, -⟩ := fits_of_locate hs hp hn hloc
    have hnode : fs.AtMostFile (q ++ [n]) := Or.inl hnone
    rw [hf.find hp hm (Or.inr hnode.ne_link), hnone]
    exact ⟨_, rfl⟩

/-- Writing under a name where there is nothing or a file puts a file there. -/
theorem write_child (hs : fs.IsSound) (hp : p.IsClean) (hn : IsDown n)
    (hm : fs.MeansDirectory p q) (hnode : fs.AtMostFile (q ++ [n])) {now : Time} {c : Content}
    (h : fs.write now (p.child n).toText c = .ok fs') :
    Fits p n ∧ ∃ x, fs' = fs.put (q ++ [n]) (.file c now x) := by
  obtain ⟨r, x, hloc, -, rfl⟩ := write_ok h
  obtain ⟨hf, -⟩ := fits_of_locate hs hp hn hloc
  cases (hf.locate hp hm (Or.inr hnode.ne_link)).symm.trans hloc
  exact ⟨hf, x, rfl⟩

/-- Removing a name that is not there fails. -/
theorem remove_child_absent (hs : fs.IsSound) (hp : p.IsClean) (hn : IsDown n)
    (hm : fs.MeansDirectory p q) (hnone : fs.get? (q ++ [n]) = none) :
    ∃ e, fs.remove (p.child n).toText = .error e := by
  obtain ⟨e, he⟩ := find_child_absent false hs hp hn hm hnone
  exact ⟨e, by simp only [FileSystem.remove, he, bind, Except.bind]⟩

theorem status_child_absent (hs : fs.IsSound) (hp : p.IsClean) (hn : IsDown n)
    (hm : fs.MeansDirectory p q) (hnone : fs.get? (q ++ [n]) = none) :
    ∃ e, fs.status (p.child n).toText = .error e := by
  obtain ⟨e, he⟩ := find_child_absent true hs hp hn hm hnone
  exact ⟨e, by simp only [FileSystem.status, he, bind, Except.bind]⟩

/-- Removing a file takes it away. -/
theorem Fits.remove_file (hf : Fits p n) (hp : p.IsClean) (hm : fs.MeansDirectory p q) {c : Content}
    {t : Time} {x : Bool} (hfile : fs.get? (q ++ [n]) = some (.file c t x)) :
    fs.remove (p.child n).toText = .ok (fs.drop (q ++ [n])) := by
  unfold FileSystem.remove
  rw [hf.find_file hp hm hfile]
  rfl

/-- Moving a file to a name in a directory puts it under that name, where there was no directory. -/
theorem Fits.rename_file {a b : Text} {p' : Path} (hf : Fits p a) (hs : fs.IsSound) (hp : p.IsClean)
    (hm : fs.MeansDirectory p q) {c : Content} {t : Time} {x : Bool}
    (hfile : fs.get? (q ++ [a]) = some (.file c t x)) (hp' : p'.IsClean) (hb : IsDown b)
    (h : fs.rename (p.child a).toText (p'.child b).toText = .ok fs') :
    ∃ q', fs.MeansDirectory p' q' ∧ Fits p' b ∧ ¬ fs.IsDirectory (q' ++ [b]) ∧
      ((q ++ [a] = q' ++ [b] ∧ fs' = fs) ∨ (q ++ [a] ≠ q' ++ [b] ∧
        fs' = (fs.drop (q ++ [a])).put (q' ++ [b]) (.file c t x))) := by
  obtain ⟨r, node, r', hfind, -, hloc, hfree, hmove⟩ := rename_ok h
  cases (hf.find_file hp hm hfile).symm.trans hfind
  obtain ⟨hf', q', hm'⟩ := fits_of_locate hs hp' hb hloc
  cases (hf'.locate hp' hm' (Or.inl rfl)).symm.trans hloc
  exact ⟨q', hm', hf', hfree, hmove⟩

theorem fits_of_remove (hs : fs.IsSound) (hp : p.IsClean) (hn : IsDown n)
    (h : fs.remove (p.child n).toText = .ok fs') : Fits p n := by
  obtain ⟨r, node, hfind, -, -⟩ := remove_ok h
  exact (fits_of_locate hs hp hn (find_eq_ok_iff.1 hfind).1).1

/-- What can be removed is there, and is no directory. -/
theorem remove_child_ok (hs : fs.IsSound) (hp : p.IsClean) (hn : IsDown n)
    (h : fs.remove (p.child n).toText = .ok fs') :
    ∃ q, fs.MeansDirectory p q ∧ fs.get? (q ++ [n]) ≠ none ∧ ¬ fs.IsDirectory (q ++ [n]) ∧
      fs' = fs.drop (q ++ [n]) := by
  obtain ⟨r, node, hfind, hdir, rfl⟩ := remove_ok h
  obtain ⟨hloc, hnode⟩ := find_eq_ok_iff.1 hfind
  obtain ⟨hf, q, hm⟩ := fits_of_locate hs hp hn hloc
  cases (hf.locate hp hm (Or.inl rfl)).symm.trans hloc
  exact ⟨q, hm, by rw [hnode]; exact nofun, hdir, rfl⟩

theorem Fits.read_file (hf : Fits p n) (hp : p.IsClean) (hm : fs.MeansDirectory p q) {c : Content}
    {t : Time} {x : Bool} (hfile : fs.get? (q ++ [n]) = some (.file c t x)) :
    fs.read (p.child n).toText = .ok c := by
  unfold FileSystem.read
  rw [hf.find_file hp hm hfile]
  rfl

/-- What can be read under a name where there is at most a file is what the file holds. -/
theorem read_child (hs : fs.IsSound) (hp : p.IsClean) (hn : IsDown n) (hm : fs.MeansDirectory p q)
    (hnode : fs.AtMostFile (q ++ [n])) {c : Content} (h : fs.read (p.child n).toText = .ok c) :
    ∃ t x, fs.get? (q ++ [n]) = some (.file c t x) := by
  obtain hnone | ⟨c', t, x, hfile⟩ := hnode
  · obtain ⟨e, he⟩ := find_child_absent true hs hp hn hm hnone
    simp only [FileSystem.read, he, bind, Except.bind] at h
    cases h
  · cases hloc : fs.locate true (p.child n).toText with
    | error e =>
      simp only [FileSystem.read, FileSystem.find, hloc, bind, Except.bind] at h
      cases h
    | ok r =>
      rw [(fits_of_locate hs hp hn hloc).1.read_file hp hm hfile] at h
      cases h
      exact ⟨t, x, hfile⟩

theorem Fits.status_file (hf : Fits p n) (hp : p.IsClean) (hm : fs.MeansDirectory p q) {c : Content}
    {t : Time} {x : Bool} (hfile : fs.get? (q ++ [n]) = some (.file c t x)) :
    fs.status (p.child n).toText = .ok ⟨false, t, x⟩ := by
  unfold FileSystem.status
  rw [hf.find_file hp hm hfile]
  rfl

theorem Fits.status_directory (hf : Fits p n) (hp : p.IsClean) (hm : fs.MeansDirectory p q) {t : Time}
    (hdir : fs.get? (q ++ [n]) = some (.directory t)) :
    fs.status (p.child n).toText = .ok ⟨true, t, true⟩ := by
  unfold FileSystem.status
  rw [hf.find hp hm (Or.inr fun _ h => nomatch hdir.symm.trans h), hdir]
  rfl

/-- What is put only where there is nothing is put under a name that is not there. -/
theorem put_child_ok (hs : fs.IsSound) (hp : p.IsClean) (hn : IsDown n)
    {node : Node} (h : (do
      let r ← fs.locate false (p.child n).toText
      match fs.get? r with
      | some _ => .error .present
      | none => .ok (fs.put r node) : Except Cause FileSystem) = .ok fs') :
    ∃ q, fs.MeansDirectory p q ∧ Fits p n ∧ fs.get? (q ++ [n]) = none ∧
      fs' = fs.put (q ++ [n]) node := by
  obtain ⟨r, hloc, hnone, rfl⟩ := put_ok h
  obtain ⟨hf, q, hm⟩ := fits_of_locate hs hp hn hloc
  cases (hf.locate hp hm (Or.inl rfl)).symm.trans hloc
  exact ⟨q, hm, hf, hnone, rfl⟩

/-- Only a file that is not there can be made. -/
theorem create_child_ok (hs : fs.IsSound) (hp : p.IsClean) (hn : IsDown n)
    {now : Time} (h : fs.create now (p.child n).toText = .ok fs') :
    ∃ q, fs.MeansDirectory p q ∧ Fits p n ∧ fs.get? (q ++ [n]) = none ∧
      fs' = fs.put (q ++ [n]) (.file (.text []) now false) :=
  put_child_ok hs hp hn h

theorem makeDirectory_child_ok (hs : fs.IsSound) (hp : p.IsClean) (hn : IsDown n) {now : Time}
    (h : fs.makeDirectory now (p.child n).toText = .ok fs') :
    ∃ q, fs.MeansDirectory p q ∧ Fits p n ∧ fs.get? (q ++ [n]) = none ∧
      fs' = fs.put (q ++ [n]) (.directory now) :=
  put_child_ok hs hp hn h

/-- Removing a directory with everything in it. -/
theorem Fits.removeTree (hf : Fits p n) (hp : p.IsClean) (hm : fs.MeansDirectory p q)
    (hdir : fs.IsDirectory (q ++ [n])) :
    ∃ fs', fs.removeTree (p.child n).toText = .ok fs' ∧ fs'.current = fs.current ∧
      ∀ r, fs'.get? r = if q ++ [n] <+: r then none else fs.get? r := by
  obtain ⟨t, ht⟩ := hdir
  refine ⟨fs.prune (q ++ [n]), ?_, rfl, get?_prune (by simp)⟩
  unfold FileSystem.removeTree
  rw [hf.find hp hm (Or.inl rfl), ht]
  rfl

/-- Filling a file puts what it holds. -/
theorem Fits.fill_file (hf : Fits p n) (hp : p.IsClean) (hm : fs.MeansDirectory p q) {c : Content}
    {t : Time} {x : Bool} (hfile : fs.get? (q ++ [n]) = some (.file c t x)) (now : Time)
    (c' : Content) : fs.fill now (p.child n).toText c' = fs.put (q ++ [n]) (.file c' now x) := by
  unfold FileSystem.fill
  rw [hf.find_file hp hm hfile]

/-- What has lost its name is not seen to be filled. -/
theorem Fits.fill_absent (hf : Fits p n) (hp : p.IsClean) (hm : fs.MeansDirectory p q)
    (hnone : fs.get? (q ++ [n]) = none) (now : Time) (c : Content) :
    fs.fill now (p.child n).toText c = fs := by
  unfold FileSystem.fill
  rw [hf.find hp hm (Or.inl rfl), hnone]

theorem mem_children (h : n ∈ fs.children q) : ∃ node, fs.get? (q ++ [n]) = some node := by
  unfold children at h
  obtain ⟨⟨r, node⟩, hmem, hr⟩ := List.mem_filterMap.1 h
  dsimp only at hr
  split at hr
  · rename_i hcond
    simp only [Bool.and_eq_true, decide_eq_true_eq, Bool.not_eq_true', List.isEmpty_eq_false_iff]
      at hcond
    obtain ⟨hdrop, hne⟩ := hcond
    have hlast : r = q ++ [n] := by
      rw [List.getLast?_eq_some_getLast hne] at hr
      rw [← hdrop, ← Option.some.inj hr, List.dropLast_concat_getLast]
    subst hlast
    have hkey : q ++ [n] ∈ Table.keys fs.nodes := List.mem_map_of_mem hmem
    cases hget : Table.get? fs.nodes (q ++ [n]) with
    | none => exact absurd hkey ((Table.get?_eq_none_iff _ _).1 hget)
    | some node' => exact ⟨node', by rw [get?, if_neg (by simp), hget]⟩
  · cases hr

theorem mem_children_of_get? {node : Node} (h : fs.get? (q ++ [n]) = some node) :
    n ∈ fs.children q := by
  rw [get?, if_neg (by simp)] at h
  exact List.mem_filterMap.2 ⟨_, Table.mem_of_get? h, by simp⟩

/-- What is listed are names of nodes. -/
theorem isName_of_list (hs : fs.IsSound) {t : Text} {names : List Text}
    (h : fs.list t = .ok names) : ∀ n ∈ names, IsName n := by
  intro n hn
  unfold FileSystem.list at h
  cases hfind : fs.find true t with
  | error e =>
    rw [hfind] at h
    cases h
  | ok found =>
    obtain ⟨q, node⟩ := found
    rw [hfind] at h
    cases node with
    | directory m =>
      cases h
      obtain ⟨node, hnode⟩ := mem_children hn
      exact hs.names _ _ hnode n (by simp)
    | file c m x => cases h
    | link target => cases h

theorem MeansDirectory.status (hm : fs.MeansDirectory p q) :
    ∃ t, fs.status p.toText = .ok ⟨true, t, true⟩ := by
  obtain ⟨hloc, t, ht⟩ := hm
  refine ⟨t, ?_⟩
  unfold FileSystem.status FileSystem.find
  simp only [hloc, ht, bind, Except.bind]

theorem MeansDirectory.list (hm : fs.MeansDirectory p q) :
    fs.list p.toText = .ok (fs.children q) := by
  obtain ⟨hloc, t, ht⟩ := hm
  unfold FileSystem.list FileSystem.find
  simp only [hloc, ht, bind, Except.bind]

theorem Fits.status_absent (hf : Fits p n) (hp : p.IsClean) (hm : fs.MeansDirectory p q)
    (hnone : fs.get? (q ++ [n]) = none) : fs.status (p.child n).toText = .error .absent := by
  unfold FileSystem.status
  rw [hf.find hp hm (Or.inr (AtMostFile.ne_link (Or.inl hnone))), hnone]
  rfl

/-- A name whose path is too long is not looked at. -/
theorem status_of_not_fits (hn : IsName n) (h : ¬ Fits p n) :
    ∃ e, e ≠ .absent ∧ fs.status (p.child n).toText = .error e := by
  have hlong : maxPath < Text.byteLength (p.child n).toText :=
    Nat.lt_of_not_le fun hshort => h ⟨hn, hshort⟩
  have hne : ¬ (p.child n).toText.isEmpty = true := fun hempty => by
    rw [List.isEmpty_iff.1 hempty] at hlong
    exact Nat.not_lt_zero _ hlong
  have hloc : ∃ e, e ≠ Cause.absent ∧ fs.locate true (p.child n).toText = .error e := by
    unfold locate
    by_cases hnull : (p.child n).toText.contains '\x00' = true
    · exact ⟨.nullCharacter, by decide, if_pos hnull⟩
    · rw [if_neg hnull, if_neg hne, if_pos hlong]
      exact ⟨.nameTooLong, by decide, rfl⟩
  obtain ⟨e, he, hloc⟩ := hloc
  exact ⟨e, he, by simp only [FileSystem.status, FileSystem.find, hloc, bind, Except.bind]⟩

theorem Fits.remove_absent (hf : Fits p n) (hp : p.IsClean) (hm : fs.MeansDirectory p q)
    (hnone : fs.get? (q ++ [n]) = none) : fs.remove (p.child n).toText = .error .absent := by
  unfold FileSystem.remove
  rw [hf.find hp hm (Or.inl rfl), hnone]
  rfl

/-- A file is made where there is nothing. -/
theorem create_of_locate {t : Text} (h : fs.locate false t = .ok q) (hnone : fs.get? q = none)
    (now : Time) : fs.create now t = .ok (fs.put q (.file (.text []) now false)) := by
  unfold FileSystem.create
  simp only [h, hnone, bind, Except.bind]

theorem Fits.create_absent (hf : Fits p n) (hp : p.IsClean) (hm : fs.MeansDirectory p q)
    (hnone : fs.get? (q ++ [n]) = none) (now : Time) :
    fs.create now (p.child n).toText = .ok (fs.put (q ++ [n]) (.file (.text []) now false)) :=
  create_of_locate (hf.locate hp hm (Or.inl rfl)) hnone now

/-- What is not there is not moved. -/
theorem Fits.rename_absent {b : Text} {p' : Path} (hf : Fits p n) (hp : p.IsClean)
    (hm : fs.MeansDirectory p q) (hnone : fs.get? (q ++ [n]) = none) :
    fs.rename (p.child n).toText (p'.child b).toText = .error .absent := by
  unfold FileSystem.rename
  rw [hf.find hp hm (Or.inl rfl), hnone]
  rfl

/-- A file is moved to another name where there is nothing or a file. -/
theorem Fits.rename_onto {a b : Text} {p' : Path} {q' : Place} (hf : Fits p a) (hp : p.IsClean)
    (hm : fs.MeansDirectory p q) {c : Content} {t : Time} {x : Bool}
    (hfile : fs.get? (q ++ [a]) = some (.file c t x)) (hf' : Fits p' b) (hp' : p'.IsClean)
    (hm' : fs.MeansDirectory p' q') (hnode : fs.AtMostFile (q' ++ [b]))
    (hne : q ++ [a] ≠ q' ++ [b]) :
    fs.rename (p.child a).toText (p'.child b).toText =
      .ok ((fs.drop (q ++ [a])).put (q' ++ [b]) (.file c t x)) := by
  unfold FileSystem.rename
  rw [hf.find_file hp hm hfile, hf'.locate hp' hm' (Or.inl rfl)]
  simp only [bind, Except.bind]
  rcases hnode with hnone | ⟨c', t', x', hthere⟩
  · simp only [hnone, if_neg hne]
  · simp only [hthere, if_neg hne]

end

end MailMerge.FileSystem
