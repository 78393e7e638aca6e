import MailMerge.Proofs.Cache.Keeping
import MailMerge.Proofs.Storage.Discipline
/-!
# A directory that caches share

Callers in any number keep their caches in one directory (`Site`) and work there without a lock. What
holds all the time is that only files have changed, that every entry is whole, and that no file has a
name that is still to be given away (`Site.Tidy`). A caller that puts a picture holds a file of its own,
which others may sweep away but do not write (`Hold`, `Site.discipline`). `Touches.allows` says that
whoever keeps to its own file, to whole entries and to taking files away leaves the others knowing what
they know.
-/
namespace MailMerge.AssetCache

open FileSystem (MeansDirectory AtMostFile IsName Kept kept_refl kept_put kept_drop)

/-- Caches in one directory of a file system, what everybody draws for them, and assets that are told
apart by their entries. -/
structure Site where
  files : FileSystem
  place : Place
  caches : List AssetCache
  render : Renderer
  assets : List (AssetCache × AssetKey)
  sound : files.IsSound
  unlinked : ∀ n target, files.get? (place ++ [n]) ≠ some (.link target)
  lodged : ∀ c ∈ caches, c.directory.IsClean ∧ files.MeansDirectory c.directory place
  distinct : ∀ a ∈ assets, ∀ b ∈ assets, a.1.entryName a.2 = b.1.entryName b.2 → a.2 = b.2

/-- Whether a node is a file with the picture of an asset. -/
def IsWhole (render : Renderer) (k : AssetKey) (node : Node) : Prop :=
  ∃ content t x, render k = .ok content ∧ node = .file content t x

/-- What a caller holds while a picture is put: nothing, a number for a file, the file in a directory
that is being written, or the file that is written. The file can be swept away at any time. -/
inductive Hold where
  | nothing
  | number (n : Nat)
  | draft (n : Nat) (q : Place)
  | whole (n : Nat) (q : Place) (content : Content)

/-- The number of the file. -/
def Hold.number? : Hold → Option Nat
  | .nothing => none
  | .number n | .draft n _ | .whole n _ _ => some n

namespace Site

/-- What holds of the world all the time. -/
structure Tidy (S : Site) (w : World) : Prop where
  kept : Kept S.files S.files.AtMostFile w.files
  whole : ∀ a ∈ S.assets, ∀ node,
    w.files.get? (S.place ++ [a.1.entryName a.2]) = some node → IsWhole S.render a.2 node
  vacant : ∀ n, w.drafts ≤ n → ∀ q, w.files.get? (q ++ [scratchName n]) = none

/-- Whether nothing has the name with a number but in one directory. -/
def OnlyIn (n : Nat) (q : Place) (w : World) : Prop :=
  n < w.drafts ∧ ∀ q', q' ≠ q → w.files.get? (q' ++ [scratchName n]) = none

/-- What a caller knows of the file that it holds. -/
def Knows : Hold → World → Prop
  | .nothing, _ => True
  | .number n, w => n < w.drafts ∧ ∀ q, w.files.get? (q ++ [scratchName n]) = none
  | .draft n q, w => OnlyIn n q w ∧ w.files.AtMostFile (q ++ [scratchName n])
  | .whole n q content, w => OnlyIn n q w ∧ ∀ node,
      w.files.get? (q ++ [scratchName n]) = some node → ∃ t x, node = .file content t x

/-- Nobody holds a file with the number of another one. -/
def discipline (S : Site) : Discipline Hold where
  inv := S.Tidy
  knows := Knows
  apart h g := ∀ n, h.number? = some n → g.number? ≠ some n
  apart_symm hapart n hg hh := hapart n hh hg

theorem timeless_discipline (S : Site) : S.discipline.Timeless where
  inv _ hw := ⟨hw.kept, hw.whole, hw.vacant⟩
  knows {h _} _ hh := by
    cases h with
    | nothing => exact hh
    | number n => exact hh
    | draft n q => exact hh
    | whole n q content => exact hh

/-- What a caller that holds `h` may do to the world: files may go, its own file may change, and entries
may become whole pictures. -/
structure Touches (S : Site) (h : Hold) (w w' : World) : Prop where
  kept : Kept w.files w.files.AtMostFile w'.files
  drafts : w.drafts ≤ w'.drafts
  places : ∀ p, w'.files.get? p = w.files.get? p ∨ w'.files.get? p = none ∨
    (∃ n q, h.number? = some n ∧ p = q ++ [scratchName n]) ∨
    ∃ a ∈ S.assets, p = S.place ++ [a.1.entryName a.2] ∧
      ∃ node, w'.files.get? p = some node ∧ IsWhole S.render a.2 node

section
variable {S : Site} {h h' : Hold} {w w' : World}

theorem concat_inj {q q' : Place} {m n : Text} (h : q ++ [m] = q' ++ [n]) : q = q' ∧ m = n := by
  obtain ⟨hq, hn⟩ := List.append_inj' h rfl
  exact ⟨hq, List.singleton_inj.1 hn⟩

theorem Knows.lt (hh : Knows h w) {n : Nat} (hn : h.number? = some n) : n < w.drafts := by
  cases h with
  | nothing => cases hn
  | number m =>
    cases hn
    exact hh.1
  | draft m q =>
    cases hn
    exact hh.1.1
  | whole m q content =>
    cases hn
    exact hh.1.1

/-- A file that somebody else holds stays as it is or goes. -/
theorem Touches.scratch (ht : S.Touches h w w') {n : Nat} (hn : h.number? ≠ some n) (q : Place) :
    w'.files.get? (q ++ [scratchName n]) = w.files.get? (q ++ [scratchName n]) ∨
      w'.files.get? (q ++ [scratchName n]) = none := by
  obtain hsame | hnone | ⟨m, q', hm, hplace⟩ | ⟨a, -, hplace, -⟩ := ht.places (q ++ [scratchName n])
  · exact Or.inl hsame
  · exact Or.inr hnone
  · exact absurd hm (scratchName_inj (concat_inj hplace).2 ▸ hn)
  · exact absurd (concat_inj hplace).2 (scratchName_ne_entryName n a.2)

/-- No file gets a name that nobody holds. -/
theorem Touches.scratch_none (ht : S.Touches h w w') {n : Nat} (hn : h.number? ≠ some n) {q : Place}
    (hnone : w.files.get? (q ++ [scratchName n]) = none) :
    w'.files.get? (q ++ [scratchName n]) = none := by
  obtain hsame | hgone := ht.scratch hn q
  · exact hsame.trans hnone
  · exact hgone

/-- What a caller does keeps the world tidy. -/
theorem Touches.tidy (ht : S.Touches h w w') (hw : S.Tidy w) (hh : Knows h w) : S.Tidy w' where
  kept := hw.kept.andThen ht.kept fun p hp => by
    -- where there is at most a file now there was at most a file before
    by_cases hbefore : S.files.AtMostFile p
    · exact hbefore
    · have hsame := hw.kept.same p hbefore
      unfold FileSystem.AtMostFile at hp ⊢
      rwa [hsame] at hp
  whole a ha node hnode := by
    obtain hsame | hnone | ⟨n, q, -, hplace⟩ | ⟨b, hb, hplace, node', hnode', hwhole⟩ :=
      ht.places (S.place ++ [a.1.entryName a.2])
    · exact hw.whole a ha node (hsame.symm.trans hnode)
    · exact nomatch hnone.symm.trans hnode
    · exact absurd (concat_inj hplace).2.symm (scratchName_ne_entryName n a.2)
    · rw [S.distinct a ha b hb (concat_inj hplace).2]
      cases hnode'.symm.trans hnode
      exact hwhole
  vacant n hn q := by
    have hdrafts := Nat.le_trans ht.drafts hn
    exact ht.scratch_none (fun hnumber => Nat.not_lt.2 hdrafts (hh.lt hnumber)) (hw.vacant n hdrafts q)

/-- What a caller knows goes on to hold when another one does something. -/
theorem Touches.knows (ht : S.Touches h w w') {g : Hold} (hg : Knows g w)
    (hapart : ∀ n, h.number? = some n → g.number? ≠ some n) : Knows g w' := by
  have hfree : ∀ n, g.number? = some n → h.number? ≠ some n := fun n hn hh => hapart n hh hn
  have honly : ∀ n q, g.number? = some n → OnlyIn n q w → OnlyIn n q w' := fun n q hn ho =>
    ⟨Nat.lt_of_lt_of_le ho.1 ht.drafts, fun q' hq' => ht.scratch_none (hfree n hn) (ho.2 q' hq')⟩
  cases g with
  | nothing => exact hg
  | number n =>
    exact ⟨Nat.lt_of_lt_of_le hg.1 ht.drafts, fun q => ht.scratch_none (hfree n rfl) (hg.2 q)⟩
  | draft n q => exact ⟨honly n q rfl hg.1, ht.kept.atMostFile hg.2⟩
  | whole n q content =>
    refine ⟨honly n q rfl hg.1, fun node hnode => ?_⟩
    obtain hsame | hnone := ht.scratch (hfree n rfl) q
    · exact hg.2 node (hsame.symm.trans hnode)
    · exact nomatch hnone.symm.trans hnode

/-- What touches nothing else is allowed, when what is held next is known and has the number of what was
held or a new one. -/
theorem Touches.allows (ht : S.Touches h w w') (hw : S.Tidy w) (hh : Knows h w) (hh' : Knows h' w')
    (hnumber : ∀ n, h'.number? = some n → h.number? = some n ∨ w.drafts ≤ n) :
    S.discipline.Allows h w h' w' where
  inv := ht.tidy hw hh
  knows := hh'
  others g hapart hg := by
    refine ⟨ht.knows hg hapart, fun n hn hgn => ?_⟩
    obtain hold | hnew := hnumber n hn
    · exact hapart n hold hgn
    · exact Nat.not_lt.2 hnew (Knows.lt hg hgn)

/-! ## Single changes -/

theorem touches_same (hs : w.files.IsSound) (hfiles : w'.files = w.files)
    (hdrafts : w.drafts ≤ w'.drafts) : S.Touches h w w' where
  kept := by
    rw [hfiles]
    exact (kept_refl hs).mono fun _ hq => hq.elim
  drafts := hdrafts
  places p := Or.inl (by rw [hfiles])

/-- A file goes. -/
theorem touches_drop (hs : w.files.IsSound) {p : Place} (hnode : w.files.AtMostFile p) :
    S.Touches h w { w with files := w.files.drop p } where
  kept := (kept_drop hs hnode.not_isDirectory).mono fun _ hp => hp ▸ hnode
  drafts := Nat.le_refl _
  places p' := by
    rw [FileSystem.get?_drop w.files _ _ (FileSystem.ne_nil_of_not_isDirectory hnode.not_isDirectory)]
    split
    · exact Or.inr (Or.inl rfl)
    · exact Or.inl rfl

/-- The own file is made or written. -/
theorem touches_own (hs : w.files.IsSound) {n : Nat} (hn : h.number? = some n) {q : Place}
    (hnode : w.files.AtMostFile (q ++ [scratchName n]))
    (hnames : ∀ m ∈ q ++ [scratchName n], IsName m) (content : Content) (t : Time) (x : Bool) :
    S.Touches h w { w with files := w.files.put (q ++ [scratchName n]) (.file content t x) } where
  kept := (kept_put hs hnode.not_isDirectory hnames content t x).mono fun _ hp => hp ▸ hnode
  drafts := Nat.le_refl _
  places p := by
    by_cases hp : p = q ++ [scratchName n]
    · exact Or.inr (Or.inr (Or.inl ⟨n, q, hn, hp⟩))
    · exact Or.inl (FileSystem.get?_put_of_ne (by simp) hp _)

/-- A whole picture is moved to its entry. -/
theorem touches_entry (hs : w.files.IsSound) {p : Place} (hnode : w.files.AtMostFile p)
    {a : AssetCache × AssetKey} (ha : a ∈ S.assets)
    (hentry : w.files.AtMostFile (S.place ++ [a.1.entryName a.2]))
    (hnames : ∀ m ∈ S.place ++ [a.1.entryName a.2], IsName m) {content : Content}
    (hrender : S.render a.2 = .ok content) (t : Time) (x : Bool) :
    S.Touches h w
      { w with
        files := (w.files.drop p).put (S.place ++ [a.1.entryName a.2]) (.file content t x) } where
  kept := by
    have hdrop := kept_drop hs hnode.not_isDirectory
    have hput := kept_put hdrop.sound (hdrop.atMostFile hentry).not_isDirectory hnames content t x
    refine (hdrop.trans hput).mono fun p' hp' => ?_
    obtain rfl | rfl := hp'
    · exact hnode
    · exact hentry
  drafts := Nat.le_refl _
  places p' := by
    by_cases hp' : p' = S.place ++ [a.1.entryName a.2]
    · subst hp'
      exact Or.inr (Or.inr (Or.inr ⟨a, ha, rfl, _, FileSystem.get?_put_self (by simp) _, content, t, x,
        hrender, rfl⟩))
    · dsimp only
      rw [FileSystem.get?_put_of_ne (by simp) hp', FileSystem.get?_drop w.files _ _
        (FileSystem.ne_nil_of_not_isDirectory hnode.not_isDirectory)]
      split
      · exact Or.inr (Or.inl rfl)
      · exact Or.inl rfl

end

end Site

end MailMerge.AssetCache
