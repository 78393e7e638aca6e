import MailMerge.Proofs.Cache.Confinement
import MailMerge.Proofs.Generation.Running
import MailMerge.Proofs.Storage.Ways
/-!
# Scratch files

Documents are made in files with names that nobody else uses. `Ground` is what is known before the
work begins, `Holding` what is known in the middle of it: nothing has changed but entries of the cache
and own files in the directory.

* `Holding.absent`: no place with such a name is in use, but for own files.
* `Holding.meansDirectory`: the directory goes on meaning the same place.
* `discard_holding`: removing an own file takes it away for good.
-/
namespace MailMerge

namespace Generation

open FileSystem (Kept MeansDirectory MeansFirmly Inside AtMostFile Fits IsName kept_put kept_drop)
open MailMerge.Path (IsDown)

/-! ## Names -/

/-- The name of an unfinished document, without its ending. -/
def scratchStem (n : Nat) : Text := scratchMark ++ Text.padLeft 32 '0' (Nat.toDigits 16 n)

/-- What the names of the private directories of conversions begin with. -/
def privateMark : Text := "docgen_convert_".toList

/-- The name of the private directory of a conversion. -/
def privateStem (n : Nat) : Text := privateMark ++ Text.ofNatPadded 8 n

/-- Whether a name is one that work takes which begins when `first` is the next fresh number. -/
def IsScratchName (first : Nat) (name : Text) : Prop :=
  ∃ n, first ≤ n ∧ ((Text.cut '.' name).1 = scratchStem n ∨ (Text.cut '.' name).1 = privateStem n)

/-- Whether a place is that of a scratch file or below one. -/
def IsScratch (first : Nat) (q : Place) : Prop := ∃ name ∈ q, IsScratchName first name

/-- Whether a text is the ending of a name. -/
def IsEnding (t : Text) : Prop := t = [] ∨ ∃ r, t = '.' :: r ∧ '/' ∉ r

theorem mem_scratchStem {n : Nat} {c : Char} (h : c ∈ scratchStem n) :
    c ∈ scratchMark ++ Text.hexDigits := by
  rcases List.mem_append.1 h with h | h
  · exact List.mem_append_left _ h
  · exact List.mem_append_right _
      (Text.mem_hexDigits_of_mem_padLeft (by decide) (by decide) h)

theorem cut_scratchStem (n : Nat) {ending : Text} (he : IsEnding ending) :
    (Text.cut '.' (scratchStem n ++ ending)).1 = scratchStem n := by
  have hdot : '.' ∉ scratchStem n := fun h => by
    have := mem_scratchStem h
    revert this
    decide
  rcases he with rfl | ⟨r, rfl, -⟩
  · rw [List.append_nil, Text.cut_of_not_mem hdot]
  · rw [Text.cut_append hdot]

theorem isDown_scratch (n : Nat) {ending : Text} (he : IsEnding ending) :
    IsDown (scratchStem n ++ ending) := by
  refine Path.isDown_of_length ?_ fun h => ?_
  · rw [List.length_append, scratchStem, List.length_append]
    have hmark : scratchMark.length = 7 := rfl
    omega
  · rcases List.mem_append.1 h with h | h
    · have := mem_scratchStem h
      revert this
      decide
    · rcases he with rfl | ⟨r, rfl, hr⟩
      · exact absurd h List.not_mem_nil
      · exact hr ((List.mem_cons.1 h).resolve_left (by decide))

theorem isScratchName_scratch {first n : Nat} (h : first ≤ n) {ending : Text}
    (he : IsEnding ending) : IsScratchName first (scratchStem n ++ ending) :=
  ⟨n, h, Or.inl (cut_scratchStem n he)⟩

theorem mem_privateStem {n : Nat} {c : Char} (h : c ∈ privateStem n) :
    c ∈ privateMark ++ Text.hexDigits := by
  rcases List.mem_append.1 h with h | h
  · exact List.mem_append_left _ h
  · exact List.mem_append_right _ (Text.mem_hexDigits_of_mem_ofNatPadded h)

theorem dot_not_mem_privateStem (n : Nat) : '.' ∉ privateStem n := fun h => by
  have := mem_privateStem h
  revert this
  decide

theorem isDown_private (n : Nat) : IsDown (privateStem n) := by
  refine Path.isDown_of_length ?_ fun h => ?_
  · rw [privateStem, List.length_append]
    have hmark : privateMark.length = 15 := rfl
    omega
  · have := mem_privateStem h
    revert this
    decide

theorem isScratchName_private {first n : Nat} (h : first ≤ n) :
    IsScratchName first (privateStem n) :=
  ⟨n, h, Or.inr (by rw [Text.cut_of_not_mem (dot_not_mem_privateStem n)])⟩

theorem mem_scratchName {first : Nat} {name : Text} (h : IsScratchName first name) : '_' ∈ name := by
  obtain ⟨n, -, h⟩ := h
  have hmem : '_' ∈ (Text.cut '.' name).1 := by
    rcases h with h | h
    · rw [h]
      exact List.mem_append_left _ (by decide)
    · rw [h]
      exact List.mem_append_left _ (by decide)
  exact Text.mem_of_mem_cut hmem

/-- Pictures in a cache have other names. -/
theorem not_isScratchName_picture {first : Nat} {name : Text} (h : AssetCache.IsPictureName name) :
    ¬ IsScratchName first name := by
  obtain ⟨c, k, rfl⟩ := h
  intro hs
  have hmem := c.mem_entryName k (mem_scratchName hs)
  revert hmem
  decide

/-! ## Before the work and in the middle of it -/

/-- What the work begins with: the world, the cache, the directory of the documents with its place, and
the name that the document is to get. -/
structure Setting where
  start : World
  cache : AssetCache
  directory : Path
  place : Place
  final : Text

/-- Whether a place is one where the cache keeps something. -/
def Setting.IsEntry (s : Setting) (q : Place) : Prop := s.cache.IsEntry s.start.files q

/-- What is known before the work begins: the directory of the documents is disjoint from that of the
cache, so its path means the same whatever happens there, and whatever happens to the document that is
to be replaced; and the names of unfinished documents are not in use. -/
structure Ground (s : Setting) : Prop where
  sound : s.start.files.IsSound
  clean : s.directory.IsClean
  cacheClean : s.cache.directory.IsClean
  isDirectory : s.start.files.IsDirectory s.place
  firm : s.start.files.MeansFirmly s.directory s.place fun q =>
    s.start.files.Inside s.cache.directory q ∨ q = s.place ++ [s.final]
  fresh : ∀ q, IsScratch s.start.fresh q → s.start.files.get? q = none
  final : ¬ IsScratchName s.start.fresh s.final

/-- What is known in the middle of the work: nothing has changed but what the cache keeps and own
names in the directory. -/
structure Holding (s : Setting) (own : Text → Prop) (w : World) : Prop where
  kept : Kept s.start.files
    (fun q => s.IsEntry q ∨ ∃ n, own n ∧ Fits s.directory n ∧ q = s.place ++ [n]) w.files
  names : ∀ n, own n → IsScratchName s.start.fresh n ∨ n = s.final
  fresh : s.start.fresh ≤ w.fresh
  clock : w.clock = s.start.clock

section
variable {s : Setting} {own own' : Text → Prop} {w w' : World} {n : Text} {q : Place}

theorem inside_of_isEntry (h : s.IsEntry q) : s.start.files.Inside s.cache.directory q := by
  obtain ⟨r, n, hm, rfl, -⟩ := h
  exact ⟨r, hm, List.prefix_append _ _⟩

theorem isScratch_child (hn : IsScratchName s.start.fresh n) (q : Place) :
    IsScratch s.start.fresh (q ++ [n]) :=
  ⟨n, by simp, hn⟩

theorem IsScratch.mono {first : Nat} {p : Place} (h : IsScratch first p) (hp : p <+: q) :
    IsScratch first q := by
  obtain ⟨n, hn, hs⟩ := h
  exact ⟨n, hp.subset hn, hs⟩

theorem Ground.absent (g : Ground s) (hn : IsScratchName s.start.fresh n) :
    s.start.files.get? (s.place ++ [n]) = none :=
  g.fresh _ (isScratch_child hn _)

theorem Ground.not_isScratch_place (g : Ground s) : ¬ IsScratch s.start.fresh s.place := by
  intro hscratch
  obtain ⟨t, ht⟩ := g.isDirectory
  rw [g.fresh _ hscratch] at ht
  cases ht

/-- The cache keeps nothing under the names of unfinished documents. -/
theorem Ground.not_entry_scratch (g : Ground s) (hq : IsScratch s.start.fresh q) : ¬ s.IsEntry q := by
  rintro ⟨r, m, hm, rfl, -, -, hthere | hpicture⟩
  · exact hthere (g.fresh _ hq)
  · obtain ⟨n, hn, hs⟩ := hq
    rcases List.mem_append.1 hn with hn | hn
    · exact AtMostFile.not_isDirectory (Or.inl (g.fresh r ⟨n, hn, hs⟩)) hm.2
    · rw [List.mem_singleton.1 hn] at hs
      exact not_isScratchName_picture hpicture hs

theorem Ground.holding (g : Ground s) : Holding s (fun _ => False) s.start :=
  ⟨(FileSystem.kept_refl g.sound).mono fun _ h => h.elim, fun _ h => h.elim, Nat.le_refl _, rfl⟩

/-- A world with the same files, and fresh numbers beyond. -/
theorem Holding.of_files (h : Holding s own w) (hw : w'.files = w.files)
    (hfresh : w.fresh ≤ w'.fresh) (hclock : w'.clock = w.clock) : Holding s own w' :=
  ⟨hw ▸ h.kept, h.names, Nat.le_trans h.fresh hfresh, hclock.trans h.clock⟩

theorem Holding.mono (h : Holding s own w) (hsub : ∀ n, own n → own' n)
    (hnames : ∀ n, own' n → IsScratchName s.start.fresh n ∨ n = s.final) : Holding s own' w := by
  refine ⟨h.kept.mono fun q hq => ?_, hnames, h.fresh, h.clock⟩
  exact hq.imp_right fun ⟨n, hn, hq⟩ => ⟨n, hsub n hn, hq⟩

/-- The same own names, told in another way. -/
theorem Holding.congr (h : Holding s own w) (hiff : ∀ n, own n ↔ own' n) : Holding s own' w :=
  h.mono (fun n => (hiff n).1) fun n hn => h.names n ((hiff n).2 hn)

/-- No place with the name of an unfinished document is in use, but for own files. -/
theorem Holding.absent (h : Holding s own w) (g : Ground s) (hq : IsScratch s.start.fresh q)
    (hown : ∀ n, own n → Fits s.directory n → q ≠ s.place ++ [n]) : w.files.get? q = none := by
  rw [h.kept.same, g.fresh q hq]
  rintro (hentry | ⟨n, hn, hf, heq⟩)
  · exact g.not_entry_scratch hq hentry
  · exact hown n hn hf heq

/-- Where there is an unfinished document, it is an own file, and its name fits. -/
theorem Holding.own_of_get? (h : Holding s own w) (g : Ground s)
    (hn : IsScratchName s.start.fresh n) {node : Node}
    (hnode : w.files.get? (s.place ++ [n]) = some node) : own n ∧ Fits s.directory n := by
  refine Classical.byContradiction fun hnot => ?_
  rw [h.absent g (isScratch_child hn _)] at hnode
  · cases hnode
  · intro m hm hf heq
    obtain ⟨-, heq⟩ := List.append_inj' heq rfl
    obtain rfl := List.singleton_inj.1 heq
    exact hnot ⟨hm, hf⟩

theorem Holding.atMostFile (h : Holding s own w) (g : Ground s) (hn : IsScratchName s.start.fresh n) :
    w.files.AtMostFile (s.place ++ [n]) :=
  h.kept.atMostFile (Or.inl (g.absent hn))

/-- The directory goes on meaning the same place. -/
theorem Holding.meansDirectory (h : Holding s own w) (g : Ground s) :
    w.files.MeansDirectory s.directory s.place := by
  refine ⟨g.firm w.files h.kept.current fun r node hr hloose => ?_,
    (h.kept.directory_iff _).2 g.isDirectory⟩
  rw [h.kept.same r, hr]
  rintro (hentry | ⟨n, hn, -, rfl⟩)
  · exact hloose (Or.inl (inside_of_isEntry hentry))
  · rcases h.names n hn with hscratch | rfl
    · rw [g.absent hscratch] at hr
      cases hr
    · exact hloose (Or.inr rfl)

/-- What the cache keeps may change. -/
theorem Holding.confined (h : Holding s own w) (hw : s.cache.Confined w.files w'.files)
    (hfresh : w.fresh ≤ w'.fresh) (hclock : w'.clock = w.clock) : Holding s own w' := by
  refine ⟨h.kept.andThen hw fun q hq => ?_, h.names, Nat.le_trans h.fresh hfresh,
    hclock.trans h.clock⟩
  exact (hq.of_kept h.kept).elim id Or.inl

/-- A change of one place of the directory makes its name an own one. -/
theorem Holding.change (h : Holding s own w) {fs : FileSystem}
    (hkept : Kept w.files (fun q => Fits s.directory n ∧ q = s.place ++ [n]) fs)
    (hname : IsScratchName s.start.fresh n ∨ n = s.final) :
    Holding s (fun m => own m ∨ m = n) { w with files := fs } := by
  refine ⟨(h.kept.trans hkept).mono ?_, ?_, h.fresh, h.clock⟩
  · rintro q ((hentry | ⟨m, hm, hq⟩) | hq)
    · exact Or.inl hentry
    · exact Or.inr ⟨m, Or.inl hm, hq⟩
    · exact Or.inr ⟨n, Or.inr rfl, hq⟩
  · rintro m (hm | rfl)
    · exact h.names m hm
    · exact hname

/-- An own name is given up when there is nothing under it any more. -/
theorem Holding.giveUp (h : Holding s own w) (g : Ground s) (hn : IsScratchName s.start.fresh n)
    (hnone : w.files.get? (s.place ++ [n]) = none) : Holding s (fun m => own m ∧ m ≠ n) w := by
  refine ⟨h.kept.restore fun q hq => ?_, fun m hm => h.names m hm.1, h.fresh, h.clock⟩
  rcases hq with hentry | ⟨m, hm, hf, rfl⟩
  · exact Or.inl (Or.inl hentry)
  · by_cases hmn : m = n
    · subst hmn
      exact Or.inr (by rw [hnone, g.absent hn])
    · exact Or.inl (Or.inr ⟨m, ⟨hm, hmn⟩, hf, rfl⟩)

/-- Removing an own file takes it away for good, and nothing else. -/
theorem discard_holding (h : Holding s own w) (g : Ground s) (hn : IsScratchName s.start.fresh n)
    (hd : IsDown n) :
    Holding s (fun m => own m ∧ m ≠ n) (Script.run (discard (s.directory.child n)) w).2 ∧
      ∀ q, q ≠ s.place ++ [n] →
        (Script.run (discard (s.directory.child n)) w).2.files.get? q = w.files.get? q := by
  have hm := h.meansDirectory g
  unfold discard
  rw [Script.run_bind, Script.run_remove]
  rcases h.atMostFile g hn with hnone | ⟨c, t, x, hfile⟩
  · obtain ⟨e, he⟩ :=
      FileSystem.remove_child_absent h.kept.sound g.clean hd hm hnone
    rw [he]
    have hgone := h.giveUp g hn hnone
    cases e <;> exact ⟨hgone.of_files rfl (Nat.le_refl _) rfl, fun _ _ => rfl⟩
  · obtain ⟨ho, hf⟩ := h.own_of_get? g hn hfile
    rw [hf.remove_file g.clean hm hfile]
    have hdrop := kept_drop h.kept.sound (h.atMostFile g hn).not_isDirectory
    have hnext : Holding s own { w with files := w.files.drop (s.place ++ [n]) } :=
      ⟨h.kept.andThen hdrop fun q hq => Or.inr ⟨n, ho, hf, hq⟩, h.names, h.fresh, h.clock⟩
    exact ⟨hnext.giveUp g hn (FileSystem.get?_drop_self (by simp)),
      fun q hq => FileSystem.get?_drop_of_ne (by simp) hq⟩

end

end Generation

end MailMerge
