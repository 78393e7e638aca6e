import MailMerge.Proofs.Storage.Paths
import MailMerge.Proofs.Table
/-!
# What changes leave alone

`Kept fs loose fs'` says that one file system is another one but for what stands at the places of
`loose`, and that no directory or link is new. Such changes never make a path mean a directory that it
did not mean before (`Kept.meansDirectory`).

* `kept_put`, `kept_drop`: single changes.
* `MeansDirectory.of_kept`: where only files change, paths go on meaning the directories they mean.
-/
namespace MailMerge.FileSystem

/-- Whether a path means a directory at a place. -/
def MeansDirectory (fs : FileSystem) (p : Path) (q : Place) : Prop :=
  fs.locate true p.toText = .ok q ∧ fs.IsDirectory q

/-- Whether there is nothing at a place, or a file. -/
def AtMostFile (fs : FileSystem) (q : Place) : Prop :=
  fs.get? q = none ∨ ∃ c t x, fs.get? q = some (.file c t x)

/-- Whether a file system is another one but for what stands at some places, without new directories
and links. -/
structure Kept (fs : FileSystem) (loose : Place → Prop) (fs' : FileSystem) : Prop where
  sound : fs'.IsSound
  current : fs'.current = fs.current
  same : ∀ q, ¬ loose q → fs'.get? q = fs.get? q
  directory_iff : ∀ q, fs'.IsDirectory q ↔ fs.IsDirectory q
  links : ∀ q t, fs'.get? q = some (.link t) → fs.get? q = some (.link t)

section
variable {fs fs' fs'' : FileSystem} {loose loose' : Place → Prop} {p q : Place}

theorem get?_nil (fs : FileSystem) : fs.get? [] = some (.directory 0) := rfl

theorem isDirectory_nil (fs : FileSystem) : fs.IsDirectory [] := ⟨0, rfl⟩

theorem kept_refl (hs : fs.IsSound) : Kept fs (fun _ => False) fs :=
  ⟨hs, rfl, fun _ _ => rfl, fun _ => Iff.rfl, fun _ _ h => h⟩

theorem Kept.mono (h : Kept fs loose fs') (hsub : ∀ q, loose q → loose' q) : Kept fs loose' fs' :=
  ⟨h.sound, h.current, fun q hq => h.same q fun hl => hq (hsub q hl), h.directory_iff, h.links⟩

theorem Kept.trans (h : Kept fs loose fs') (h' : Kept fs' loose' fs'') :
    Kept fs (fun q => loose q ∨ loose' q) fs'' where
  sound := h'.sound
  current := h'.current.trans h.current
  same q hq := (h'.same q fun hl => hq (Or.inr hl)).trans (h.same q fun hl => hq (Or.inl hl))
  directory_iff q := (h'.directory_iff q).trans (h.directory_iff q)
  links q t ht := h.links q t (h'.links q t ht)

theorem Kept.andThen (h : Kept fs loose fs') (h' : Kept fs' loose' fs'')
    (hsub : ∀ q, loose' q → loose q) : Kept fs loose fs'' :=
  (h.trans h').mono fun q hq => hq.elim id (hsub q)

theorem AtMostFile.not_isDirectory (h : fs.AtMostFile q) : ¬ fs.IsDirectory q := by
  rintro ⟨t, ht⟩
  rcases h with hnone | ⟨c, t', x, hfile⟩
  · rw [hnone] at ht
    cases ht
  · rw [hfile] at ht
    cases ht

theorem AtMostFile.ne_link (h : fs.AtMostFile q) (t : Text) : fs.get? q ≠ some (.link t) := by
  intro ht
  rcases h with hnone | ⟨c, t', x, hfile⟩
  · rw [hnone] at ht
    cases ht
  · rw [hfile] at ht
    cases ht

/-- What is neither a directory nor a link is a file, if there is anything. -/
theorem atMostFile_iff : fs.AtMostFile q ↔
    ¬ fs.IsDirectory q ∧ ∀ target, fs.get? q ≠ some (.link target) := by
  refine ⟨fun h => ⟨h.not_isDirectory, h.ne_link⟩, fun ⟨hdir, hlink⟩ => ?_⟩
  cases hnode : fs.get? q with
  | none => exact Or.inl hnode
  | some node =>
    cases node with
    | directory t => exact absurd ⟨t, hnode⟩ hdir
    | file c t x => exact Or.inr ⟨c, t, x, hnode⟩
    | link target => exact absurd hnode (hlink target)

theorem Kept.atMostFile (h : Kept fs loose fs') (hq : fs.AtMostFile q) : fs'.AtMostFile q :=
  atMostFile_iff.2 ⟨fun hdir => hq.not_isDirectory ((h.directory_iff q).1 hdir), fun target ht =>
    hq.ne_link target (h.links q target ht)⟩

/-- A change of places that are as they were is none. -/
theorem Kept.restore (h : Kept fs loose fs') (hback : ∀ q, loose q → loose' q ∨ fs'.get? q = fs.get? q) :
    Kept fs loose' fs' := by
  refine ⟨h.sound, h.current, fun q hq => ?_, h.directory_iff, h.links⟩
  by_cases hl : loose q
  · exact (hback q hl).resolve_left hq
  · exact h.same q hl

/-! ## Ways -/

theorem Kept.origin (h : Kept fs loose fs') (t : Text) : fs'.origin t = fs.origin t := by
  unfold FileSystem.origin
  rw [h.current]

/-- No path means a directory that it did not mean before. -/
theorem Kept.meansDirectory (h : Kept fs loose fs') {p : Path} (hm : fs'.MeansDirectory p q) :
    fs.MeansDirectory p q := by
  obtain ⟨hloc, hdir⟩ := hm
  obtain ⟨hz, hne, hlen, hleads⟩ := locate_eq_ok_iff.1 hloc
  refine ⟨locate_eq_ok_iff.2 ⟨hz, hne, hlen, ?_⟩, (h.directory_iff q).1 hdir⟩
  rw [← h.origin]
  exact hleads.mono hdir (fun r => (h.directory_iff r).1) h.links

theorem MeansDirectory.unique {p : Path} {r : Place} (h : fs.MeansDirectory p q)
    (h' : fs.MeansDirectory p r) : q = r :=
  Except.ok.inj (h.1.symm.trans h'.1)

theorem meansDirectory_of_status {p : Path} {st : Status} (h : fs.status p.toText = .ok st)
    (hd : st.isDirectory = true) : ∃ q, fs.MeansDirectory p q := by
  unfold FileSystem.status FileSystem.find at h
  cases hloc : fs.locate true p.toText with
  | error e =>
    rw [hloc] at h
    cases h
  | ok q =>
    rw [hloc] at h
    simp only [bind, Except.bind] at h
    cases hnode : fs.get? q with
    | none =>
      rw [hnode] at h
      cases h
    | some node =>
      rw [hnode] at h
      cases node with
      | directory t => exact ⟨q, hloc, t, hnode⟩
      | file c t x =>
        cases h
        cases hd
      | link t => cases h

/-- A path goes on meaning a directory while nothing on the way goes. -/
theorem MeansDirectory.grow {p : Path} (h : fs.MeansDirectory p q)
    (hcurrent : fs'.current = fs.current)
    (hkept : ∀ r node, fs.get? r = some node → (∀ c t x, node ≠ .file c t x) →
      fs'.get? r = some node) : fs'.MeansDirectory p q := by
  obtain ⟨hloc, t, ht⟩ := h
  obtain ⟨hz, hne, hlen, hleads⟩ := locate_eq_ok_iff.1 hloc
  refine ⟨locate_eq_ok_iff.2 ⟨hz, hne, hlen, ?_⟩, t, hkept q _ ht (fun _ _ _ => nofun)⟩
  have horigin : fs'.origin p.toText = fs.origin p.toText := by
    unfold FileSystem.origin
    rw [hcurrent]
  rw [horigin]
  refine hleads.mono ⟨t, ht⟩ (fun r hr => ?_) fun r target hr => hkept r _ hr (fun _ _ _ => nofun)
  obtain ⟨t, ht⟩ := hr
  exact ⟨t, hkept r _ ht (fun _ _ _ => nofun)⟩

/-- A path goes on meaning a directory when nothing but files changes. -/
theorem MeansDirectory.of_kept {p : Path} (hm : fs.MeansDirectory p q) (h : Kept fs loose fs')
    (hloose : ∀ r, loose r → fs.AtMostFile r) : fs'.MeansDirectory p q := by
  refine hm.grow h.current fun r node hr hfile => ?_
  rw [h.same r fun hl => ?_, hr]
  rcases hloose r hl with hnone | ⟨c, t, x, hsome⟩
  · rw [hnone] at hr
    cases hr
  · rw [hsome] at hr
    exact hfile c t x (Option.some.inj hr).symm

/-! ## Single changes -/

theorem ne_nil_of_not_isDirectory (h : ¬ fs.IsDirectory p) : p ≠ [] := by
  rintro rfl
  exact h fs.isDirectory_nil

/-- Directories are there as before where the place of a change was none and is none. -/
theorem isDirectory_of_get? (hsame : ∀ q, q ≠ p → fs'.get? q = fs.get? q)
    (hp : ¬ fs.IsDirectory p) (hp' : ¬ fs'.IsDirectory p) (q : Place) :
    fs'.IsDirectory q ↔ fs.IsDirectory q := by
  by_cases hq : q = p
  · subst hq
    exact iff_of_false hp' hp
  · unfold IsDirectory
    rw [hsame q hq]

/-- A change of one place that makes no directory and no link. -/
theorem kept_of_get? (hs : fs.IsSound) (hcurrent : fs'.current = fs.current)
    (hsame : ∀ q, q ≠ p → fs'.get? q = fs.get? q) (hp : ¬ fs.IsDirectory p)
    (hnode : fs'.get? p = none ∨
      (∃ c t x, fs'.get? p = some (.file c t x)) ∧ ∀ n ∈ p, IsName n) :
    Kept fs (· = p) fs' := by
  have hp' : ¬ fs'.IsDirectory p := by
    rintro ⟨t, ht⟩
    rcases hnode with hnone | ⟨⟨c, t', x, hfile⟩, -⟩
    · rw [hnone] at ht
      cases ht
    · rw [hfile] at ht
      cases ht
  have hdirectory := isDirectory_of_get? hsame hp hp'
  have hlinks : ∀ q t, fs'.get? q = some (.link t) → fs.get? q = some (.link t) := by
    intro q t ht
    by_cases hq : q = p
    · subst hq
      rcases hnode with hnone | ⟨⟨c, t', x, hfile⟩, -⟩
      · rw [hnone] at ht
        cases ht
      · rw [hfile] at ht
        cases ht
    · rwa [hsame q hq] at ht
  refine ⟨⟨fun q node hget => ?_, fun q hq => ?_, fun q t ht => hs.targets q t (hlinks q t ht)⟩,
    hcurrent, hsame, hdirectory, hlinks⟩
  · by_cases hq : q = p
    · subst hq
      rcases hnode with hnone | ⟨-, hnames⟩
      · rw [hnone] at hget
        cases hget
      · exact hnames
    · rw [hsame q hq] at hget
      exact hs.names q node hget
  · rw [hcurrent] at hq
    exact (hdirectory q).2 (hs.current q hq)

theorem get?_put_self (hp : p ≠ []) (n : Node) : (fs.put p n).get? p = some n := by
  rw [get?_put fs p p n hp, if_pos rfl]

theorem get?_put_of_ne (hp : p ≠ []) (hq : q ≠ p) (n : Node) : (fs.put p n).get? q = fs.get? q := by
  rw [get?_put fs p q n hp, if_neg (Ne.symm hq)]

theorem get?_drop_self (hp : p ≠ []) : (fs.drop p).get? p = none := by
  rw [get?_drop fs p p hp, if_pos rfl]

theorem get?_drop_of_ne (hp : p ≠ []) (hq : q ≠ p) : (fs.drop p).get? q = fs.get? q := by
  rw [get?_drop fs p q hp, if_neg (Ne.symm hq)]

theorem get?_move_source (hp : p ≠ []) (hq : q ≠ []) (hne : p ≠ q) (n : Node) :
    ((fs.drop p).put q n).get? p = none := by
  rw [get?_put_of_ne hq hne, get?_drop_self hp]

theorem get?_move_of_ne {r : Place} (hp : p ≠ []) (hq : q ≠ []) (hrp : r ≠ p) (hrq : r ≠ q) (n : Node) :
    ((fs.drop p).put q n).get? r = fs.get? r := by
  rw [get?_put_of_ne hq hrq, get?_drop_of_ne hp hrp]

theorem ne_nil_of_absent (h : fs.get? p = none) : p ≠ [] := by
  rintro rfl
  rw [get?_nil] at h
  cases h

/-- A new directory changes no ways. -/
theorem MeansDirectory.put_directory {p : Path} (h : fs.MeansDirectory p q) {r : Place}
    (hnone : fs.get? r = none) (t : Time) : (fs.put r (.directory t)).MeansDirectory p q := by
  refine h.grow rfl fun r' node hr _ => ?_
  rw [get?_put_of_ne (ne_nil_of_absent hnone), hr]
  rintro rfl
  rw [hnone] at hr
  cases hr

/-- A new directory leaves a file system sound. -/
theorem isSound_put_directory (hs : fs.IsSound) (hnone : fs.get? p = none)
    (hnames : ∀ n ∈ p, IsName n) (t : Time) : (fs.put p (.directory t)).IsSound := by
  have hne := ne_nil_of_absent hnone
  refine ⟨fun q node hget => ?_, fun q hq => ?_, fun q target hget => ?_⟩
  · by_cases hq : q = p
    · exact hq ▸ hnames
    · rw [get?_put_of_ne hne hq] at hget
      exact hs.names q node hget
  · obtain ⟨t', ht'⟩ := hs.current q hq
    refine ⟨t', ?_⟩
    rw [get?_put_of_ne hne, ht']
    rintro rfl
    rw [hnone] at ht'
    cases ht'
  · by_cases hq : q = p
    · rw [hq, get?_put_self hne] at hget
      cases hget
    · rw [get?_put_of_ne hne hq] at hget
      exact hs.targets q target hget

theorem kept_put (hs : fs.IsSound) (hp : ¬ fs.IsDirectory p) (hnames : ∀ n ∈ p, IsName n)
    (c : Content) (t : Time) (x : Bool) : Kept fs (· = p) (fs.put p (.file c t x)) :=
  kept_of_get? hs rfl (fun _ hq => get?_put_of_ne (ne_nil_of_not_isDirectory hp) hq _) hp
    (Or.inr ⟨⟨c, t, x, get?_put_self (ne_nil_of_not_isDirectory hp) _⟩, hnames⟩)

theorem kept_drop (hs : fs.IsSound) (hp : ¬ fs.IsDirectory p) : Kept fs (· = p) (fs.drop p) :=
  kept_of_get? hs rfl (fun _ hq => get?_drop_of_ne (ne_nil_of_not_isDirectory hp) hq) hp
    (Or.inl (get?_drop_self (ne_nil_of_not_isDirectory hp)))

end

end MailMerge.FileSystem
