import MailMerge.Proofs.Cache.Keeping
import MailMerge.Proofs.Storage.Discipline
import MailMerge.Proofs.Storage.Noninterference
/-!
# Runs that share directories of pictures

Runs in any number keep their pictures in directories that they share (`Company`), and take their steps in
any order. Each of them is beside the run that it is alone (`Beside`): what it looks at is the same, but in
the shared directories others may have taken what has expired, or have drawn what is missing. A picture that
is there, and had not expired when the runs began, stays there. `Touches.allows` says that who keeps to that
leaves the others beside the runs that they are alone.

* `Stands`: what can stand at the place of a picture.
* `Tidy.live`: a picture that has expired was there at the beginning.
-/
namespace MailMerge

open FileSystem (Agree AtMostFile IsName)

/-- What runs share: the world that they begin in, directories in which they keep pictures, each with a
time that no lifetime there is shorter than, and what is drawn where a picture is missing. For each run it
says which places it alters when it runs alone, and from which number to which its drafts are. -/
structure Company where
  start : World
  lifetime? : Place → Option Time
  drawn : Place → Option Content
  alters : Nat → Place → Prop
  first : Nat → Nat
  bound : Nat → Nat

namespace Company

open AssetCache (scratchName ending)

/-- Whether a number is one of the drafts of a run. -/
def Drafts (S : Company) (i n : Nat) : Prop := S.first i ≤ n ∧ n < S.bound i

/-- Whether a place is one for a picture in a shared directory. -/
def Shelf (S : Company) (q : Place) : Prop :=
  ∃ r n, (S.lifetime? r).isSome ∧ q = r ++ [n] ∧ Text.endsIn ending n = true

/-- Whether a place is one for a draft of a run in a shared directory. -/
def IsDraft (S : Company) (i : Nat) (q : Place) : Prop :=
  ∃ r n, (S.lifetime? r).isSome ∧ q = r ++ [scratchName n] ∧ S.Drafts i n ∧ IsName (scratchName n)

/-- Whether a picture stands at a place at the beginning that may have expired. -/
def Dead (S : Company) (q : Place) : Prop :=
  ∃ r n L content t x, S.lifetime? r = some L ∧ q = r ++ [n] ∧
    S.start.files.get? q = some (.file content t x) ∧ L < S.start.clock - t

/-- Whether a place is one of another run's, or one for a picture. -/
def Loose (S : Company) (i : Nat) (q : Place) : Prop := S.Shelf q ∨ ∃ j, j ≠ i ∧ S.alters j q

/-- What is assumed of a company: at the places for pictures there are only files, no lifetime is negative,
and no two runs have a draft of one name, which is not there at the beginning. -/
structure IsReady (S : Company) : Prop where
  sound : S.start.files.IsSound
  files : ∀ q, S.Shelf q → S.start.files.AtMostFile q
  lifetime : ∀ r L, S.lifetime? r = some L → 0 ≤ L
  unused : ∀ i q, S.IsDraft i q → S.start.files.get? q = none
  apart : ∀ i j n, i ≠ j → S.Drafts i n → ¬ S.Drafts j n

/-- What can stand at the place of a picture: what stood there at the beginning, nothing where that may
have expired, what is drawn where nothing stood, or a draft. -/
inductive Stands (S : Company) (q : Place) : Option Node → Prop
  | same : Stands S q (S.start.files.get? q)
  | gone (h : S.Dead q) : Stands S q none
  | drawn {r : Place} {c : AssetCache} {k : AssetKey} {content : Content}
      (hq : q = r ++ [c.entryName k]) (hnone : S.start.files.get? q = none)
      (h : S.drawn q = some content) : Stands S q (some (.file content S.start.clock false))
  | draft {i : Nat} (h : S.IsDraft i q) (content : Content) :
      Stands S q (some (.file content S.start.clock false))

/-- What holds of the world all the time. -/
structure Tidy (S : Company) (w : World) : Prop where
  clock : w.clock = S.start.clock
  shelf : ∀ q, S.Shelf q → S.Stands q (w.files.get? q)
  same : ∀ q, ¬ S.Shelf q → (∀ i, ¬ S.alters i q) → w.files.get? q = S.start.files.get? q

/-- What belongs to a run: its number, the world that it would be in alone, and its draft, if it writes
one. -/
structure Hold where
  run : Nat
  alone : World
  draft : Option (Place × Content) := none

/-- What stands at the place of a draft of the run. -/
def Hold.node? (h : Hold) (now : Time) (q : Place) : Option Node :=
  match h.draft with
  | some (p, content) => if q = p then some (.file content now false) else none
  | none => none

/-- Whether a run is beside the run that it is alone. -/
structure Beside (S : Company) (h : Hold) (w : World) : Prop where
  tidy : S.Tidy h.alone
  clear : ∀ i q, S.IsDraft i q → h.alone.files.get? q = none
  agree : Agree (S.Loose h.run) h.alone.files w.files
  live : ∀ q node, S.Shelf q → ¬ S.Dead q → h.alone.files.get? q = some node →
    w.files.get? q = some node
  draft : ∀ q, S.IsDraft h.run q → w.files.get? q = h.node? S.start.clock q

/-- Each run is beside the run that it is alone. -/
def discipline (S : Company) : Discipline Hold where
  inv := S.Tidy
  knows := S.Beside
  apart h g := h.run ≠ g.run
  apart_symm h := h.symm

/-- What a run may do at the places for pictures: it may take what may have expired, write its own drafts,
and put what is drawn where nothing stood. -/
def Serves (S : Company) (i : Nat) (w w' : World) (q : Place) : Prop :=
  w'.files.get? q = w.files.get? q ∨ (S.Dead q ∧ w'.files.get? q = none) ∨
    (S.IsDraft i q ∧ (w'.files.get? q = none ∨
      ∃ content, w'.files.get? q = some (.file content S.start.clock false))) ∨
    ∃ (r : Place) (c : AssetCache) (k : AssetKey) (content : Content), q = r ++ [c.entryName k] ∧
      S.start.files.get? q = none ∧ S.drawn q = some content ∧
        w'.files.get? q = some (.file content S.start.clock false)

/-- What a run may do to the world. -/
structure Touches (S : Company) (i : Nat) (w w' : World) : Prop where
  clock : w'.clock = w.clock
  agree : Agree (fun q => S.Shelf q ∨ S.alters i q) w.files w'.files
  shelf : ∀ q, S.Shelf q → S.Serves i w w' q

section
variable {S : Company} {i j n : Nat} {h g : Hold} {w w' v : World} {q r : Place} {L now : Time}
  {c : AssetCache} {k : AssetKey}

/-! ## Places -/

theorem IsDraft.shelf (h : S.IsDraft i q) : S.Shelf q := by
  obtain ⟨r, n, hr, rfl, -, -⟩ := h
  exact ⟨r, _, hr, rfl, List.isSuffixOf_iff_suffix.2 (List.suffix_append _ _)⟩

theorem shelf_entry (hr : S.lifetime? r = some L) (c : AssetCache) (k : AssetKey) :
    S.Shelf (r ++ [c.entryName k]) :=
  ⟨r, _, by rw [hr]; rfl, rfl, List.isSuffixOf_iff_suffix.2 (List.suffix_append _ _)⟩

theorem IsDraft.ne_nil (h : S.IsDraft i q) : q ≠ [] := by
  obtain ⟨r, n, -, rfl, -, -⟩ := h
  simp

theorem IsDraft.ne_entry (h : S.IsDraft i q) (c : AssetCache) (k : AssetKey) :
    q ≠ r ++ [c.entryName k] := by
  obtain ⟨r', n, -, rfl, -, -⟩ := h
  intro heq
  exact AssetCache.scratchName_ne_entryName n k
    (List.singleton_inj.1 (List.append_inj' heq rfl).2)

/-- A draft is one of one run. -/
theorem IsDraft.unique (hS : S.IsReady) (h : S.IsDraft i q) (h' : S.IsDraft j q) : i = j := by
  obtain ⟨r, n, -, rfl, hn, -⟩ := h
  obtain ⟨r', n', -, heq, hn', -⟩ := h'
  obtain rfl := AssetCache.scratchName_inj (List.singleton_inj.1 (List.append_inj' heq rfl).2)
  exact Classical.byContradiction fun hne => hS.apart i j n hne hn hn'

theorem IsDraft.not_dead (hS : S.IsReady) (h : S.IsDraft i q) : ¬ S.Dead q := by
  rintro ⟨-, -, -, content, t, x, -, -, hfile, -⟩
  cases (hS.unused i q h).symm.trans hfile

theorem Dead.ne_none (h : S.Dead q) : S.start.files.get? q ≠ none := by
  obtain ⟨-, -, -, content, t, x, -, -, hfile, -⟩ := h
  rw [hfile]
  exact nofun

/-! ## What stands there -/

theorem Tidy.atMostFile (hw : S.Tidy w) (hS : S.IsReady) (hq : S.Shelf q) : w.files.AtMostFile q := by
  have hstands := hw.shelf q hq
  revert hstands
  generalize hnode : w.files.get? q = node?
  intro hstands
  cases hstands with
  | same =>
    obtain hnone | ⟨content, t, x, hfile⟩ := hS.files q hq
    · exact Or.inl (hnode.trans hnone)
    · exact Or.inr ⟨content, t, x, hnode.trans hfile⟩
  | gone hdead => exact Or.inl hnode
  | drawn hentry hnone hdrawn => exact Or.inr ⟨_, _, _, hnode⟩
  | draft hdraft content => exact Or.inr ⟨_, _, _, hnode⟩

/-- What stands at the place of a picture stands under the name of a node. -/
theorem Tidy.isName (hw : S.Tidy w) (hS : S.IsReady) {n : Text} (hq : S.Shelf (r ++ [n]))
    (hthere : w.files.get? (r ++ [n]) ≠ none) : IsName n := by
  have hstands := hw.shelf _ hq
  revert hstands hthere
  generalize w.files.get? (r ++ [n]) = node?
  intro hthere hstands
  cases hstands with
  | same =>
    obtain ⟨node, hnode⟩ := Option.ne_none_iff_exists'.1 hthere
    exact hS.sound.names _ node hnode n (by simp)
  | gone hdead => exact absurd rfl hthere
  | @drawn r' c k content heq hnone hdrawn =>
    rw [List.singleton_inj.1 (List.append_inj' heq rfl).2]
    exact c.isName_entry k
  | draft hdraft content =>
    obtain ⟨r', m, -, heq, -, hname⟩ := hdraft
    rw [List.singleton_inj.1 (List.append_inj' heq rfl).2]
    exact hname

/-- A picture that has expired was there at the beginning. -/
theorem Tidy.dead (hw : S.Tidy w) (hS : S.IsReady) (hr : S.lifetime? r = some L) {n : Text}
    (hq : S.Shelf (r ++ [n])) {content : Content} {t : Time} {x : Bool}
    (hfile : w.files.get? (r ++ [n]) = some (.file content t x)) (hold : L < S.start.clock - t) :
    S.Dead (r ++ [n]) := by
  have hnew : ¬ L < S.start.clock - S.start.clock := by
    have hpos := hS.lifetime r L hr
    rw [Int.sub_self]
    exact Int.not_lt.2 hpos
  have hstands := hw.shelf _ hq
  rw [hfile] at hstands
  generalize hnode : some (Node.file content t x) = node? at hstands
  cases hstands with
  | same => exact ⟨r, n, L, content, t, x, hr, rfl, hnode.symm, hold⟩
  | gone hdead => exact hdead
  | drawn hentry hnone hdrawn =>
    cases hnode
    exact absurd hold hnew
  | draft hdraft content =>
    cases hnode
    exact absurd hold hnew

/-- What stands where an expired picture stood is that picture or nothing. -/
theorem Tidy.of_dead (hw : S.Tidy w) (hS : S.IsReady) (hq : S.Shelf q) (hdead : S.Dead q) :
    w.files.get? q = S.start.files.get? q ∨ w.files.get? q = none := by
  have hstands := hw.shelf q hq
  revert hstands
  generalize w.files.get? q = node?
  intro hstands
  cases hstands with
  | same => exact Or.inl rfl
  | gone _ => exact Or.inr rfl
  | drawn hentry hnone hdrawn => exact absurd hnone hdead.ne_none
  | draft hdraft content => exact absurd hdead (hdraft.not_dead hS)

/-- Where no expired picture stood and nothing stands, nothing stood. -/
theorem Tidy.start_none (hw : S.Tidy w) (hq : S.Shelf q) (hdead : ¬ S.Dead q)
    (hnone : w.files.get? q = none) : S.start.files.get? q = none := by
  have hstands := hw.shelf q hq
  rw [hnone] at hstands
  generalize hnode : (none : Option Node) = node? at hstands
  cases hstands with
  | same => rfl
  | gone h => exact absurd h hdead
  | drawn => cases hnode
  | draft => cases hnode

/-- A picture that stands for an asset is the one that stood there, or the one that is drawn. -/
theorem Tidy.entry (hw : S.Tidy w) (hq : S.Shelf (r ++ [c.entryName k])) {node : Node}
    (hnode : w.files.get? (r ++ [c.entryName k]) = some node) :
    S.start.files.get? (r ++ [c.entryName k]) = some node ∨
      S.start.files.get? (r ++ [c.entryName k]) = none ∧
        ∃ content, S.drawn (r ++ [c.entryName k]) = some content ∧
          node = .file content S.start.clock false := by
  have hstands := hw.shelf _ hq
  rw [hnode] at hstands
  generalize heq : some node = node? at hstands
  cases hstands with
  | same => exact Or.inl rfl
  | gone _ => cases heq
  | drawn _ hnone hdrawn =>
    cases heq
    exact Or.inr ⟨hnone, _, hdrawn, rfl⟩
  | draft hdraft content => exact absurd rfl (hdraft.ne_entry c k)

/-! ## What others do -/

/-- What a run does keeps the world tidy. -/
theorem Touches.tidy (ht : S.Touches i w w') (hS : S.IsReady) (hw : S.Tidy w) : S.Tidy w' where
  clock := ht.clock.trans hw.clock
  shelf q hq := by
    obtain hsame | ⟨hdead, hnone⟩ | ⟨hdraft, hnone | ⟨content, hfile⟩⟩ |
      ⟨r, c, k, content, hentry, hnone, hdrawn, hfile⟩ := ht.shelf q hq
    · rw [hsame]
      exact hw.shelf q hq
    · rw [hnone]
      exact .gone hdead
    · rw [hnone, ← hS.unused i q hdraft]
      exact .same
    · rw [hfile]
      exact .draft hdraft content
    · rw [hfile]
      exact .drawn hentry hnone hdrawn
  same q hq halters := by
    refine (ht.agree.get? ?_).trans (hw.same q hq halters)
    exact fun hloose => hloose.elim hq (halters i)

/-- A picture that has not expired stays. -/
theorem Serves.live (hs : S.Serves i w w' q) (hg : S.Beside g w) (hq : S.Shelf q) {node : Node}
    (hdead : ¬ S.Dead q) (hnode : g.alone.files.get? q = some node) :
    w'.files.get? q = some node := by
  have hbefore := hg.live q node hq hdead hnode
  obtain hsame | ⟨hd, -⟩ | ⟨hdraft, -⟩ | ⟨r, c, k, content, rfl, hnone, hdrawn, hfile⟩ := hs
  · exact hsame.trans hbefore
  · exact absurd hd hdead
  · cases (hg.clear i q hdraft).symm.trans hnode
  · -- what is put there again is what was drawn
    obtain hstart | ⟨-, content', hdrawn', rfl⟩ := hg.tidy.entry hq hnode
    · cases hnone.symm.trans hstart
    · cases hdrawn.symm.trans hdrawn'
      exact hfile

/-- The drafts of a run are left alone by another one. -/
theorem Serves.draft (hs : S.Serves i w w' q) (hS : S.IsReady) (hne : i ≠ j) (hq : S.IsDraft j q) :
    w'.files.get? q = w.files.get? q := by
  obtain hsame | ⟨hd, -⟩ | ⟨hdraft, -⟩ | ⟨r, c, k, content, hentry, -⟩ := hs
  · exact hsame
  · exact absurd hd (hq.not_dead hS)
  · exact absurd (hdraft.unique hS hq) hne
  · exact absurd hentry (hq.ne_entry c k)

/-- What a run does leaves the others beside the runs that they are alone. -/
theorem Touches.beside (ht : S.Touches i w w') (hS : S.IsReady) (hg : S.Beside g w)
    (hne : i ≠ g.run) : S.Beside g w' where
  tidy := hg.tidy
  clear := hg.clear
  agree := by
    refine hg.agree.trans (ht.agree.mono ?_)
    rintro q (hq | hq)
    · exact Or.inl hq
    · exact Or.inr ⟨i, hne, hq⟩
  live q _ hq hdead hnode := (ht.shelf q hq).live hg hq hdead hnode
  draft q hq := ((ht.shelf q hq.shelf).draft hS hne hq).trans (hg.draft q hq)

/-- A run may touch what it may touch, when it is beside the run that it is alone then. -/
theorem Touches.allows (ht : S.Touches h.run w w') (hS : S.IsReady) (hw : S.Tidy w) {h' : Hold}
    (hrun : h'.run = h.run) (hh' : S.Beside h' w') : S.discipline.Allows h w h' w' where
  inv := ht.tidy hS hw
  knows := hh'
  others _ hapart hg :=
    ⟨ht.beside hS hg hapart, fun heq => hapart (hrun.symm.trans heq)⟩

theorem touches_refl (S : Company) (i : Nat) (w : World) : S.Touches i w w :=
  ⟨rfl, FileSystem.agree_refl _ _, fun _ _ => Or.inl rfl⟩

/-- Only the files of the run alone, and its clock, matter. -/
theorem Beside.congr (hh : S.Beside h w) {v : World} (hfiles : v.files = h.alone.files)
    (hclock : v.clock = h.alone.clock) : S.Beside { h with alone := v } w where
  tidy := by
    have ht := hh.tidy
    exact ⟨hclock.trans ht.clock, hfiles ▸ ht.shelf, hfiles ▸ ht.same⟩
  clear := by
    rw [hfiles]
    exact hh.clear
  agree := by
    rw [hfiles]
    exact hh.agree
  live := by
    rw [hfiles]
    exact hh.live
  draft := hh.draft

/-- A run that has done something at the places for pictures is beside the run that it is alone when its
draft is what it has written. -/
theorem Beside.serves (hh : S.Beside h w) (hagree : Agree S.Shelf w.files w'.files)
    (hshelf : ∀ q, S.Shelf q → S.Serves h.run w w' q) (draft : Option (Place × Content))
    (hdraft : ∀ q, S.IsDraft h.run q →
      w'.files.get? q = ({ h with draft := draft } : Hold).node? S.start.clock q) :
    S.Beside { h with draft := draft } w' where
  tidy := hh.tidy
  clear := hh.clear
  agree := hh.agree.trans (hagree.mono fun _ hq => Or.inl hq)
  live q _ hq hdead hnode := (hshelf q hq).live hh hq hdead hnode
  draft := hdraft

/-! ## Steps outside of the shared directories -/

/-- A step that looks at nothing loose does what it does alone. -/
theorem Beside.step (hh : S.Beside h w) (hw : S.Tidy w) {s : Step} (hs : ¬ s.Counts)
    (hsees : ∀ q, s.Sees h.alone.files q → ¬ S.Loose h.run q)
    (halters : ∀ q, (h.alone.perform s).2.files.get? q ≠ h.alone.files.get? q → S.alters h.run q) :
    (w.perform s).1 = (h.alone.perform s).1 ∧ S.Touches h.run w (w.perform s).2 ∧
      S.Beside { h with alone := (h.alone.perform s).2 } (w.perform s).2 := by
  have hmatched : Matched (S.Loose h.run) h.alone w :=
    ⟨hh.agree, hw.clock.trans hh.tidy.clock.symm⟩
  have hm := hmatched.perform hs hsees
  have hsame : ∀ q, S.Shelf q →
      (h.alone.perform s).2.files.get? q = h.alone.files.get? q ∧
        (w.perform s).2.files.get? q = w.files.get? q := fun q hq => hm.same (Or.inl hq)
  refine ⟨hm.reply, ⟨(World.perform_follows w s).clock, ?_, fun q hq => Or.inl (hsame q hq).2⟩,
    ⟨⟨(World.perform_follows h.alone s).clock.trans hh.tidy.clock, fun q hq => ?_, fun q hq hno => ?_⟩,
      fun i q hq => ?_, (hm.matched hmatched).files, fun q node hq hdead hnode => ?_, fun q hq => ?_⟩⟩
  · exact (hm.frame hmatched halters).mono fun q hq => Or.inr hq
  · rw [(hsame q hq).1]
    exact hh.tidy.shelf q hq
  · refine Eq.trans ?_ (hh.tidy.same q hq hno)
    exact Classical.byContradiction fun hne => hno h.run (halters q hne)
  · exact (hsame q hq.shelf).1.trans (hh.clear i q hq)
  · rw [(hsame q hq).1] at hnode
    exact (hsame q hq).2.trans (hh.live q node hq hdead hnode)
  · exact (hsame q hq.shelf).2.trans (hh.draft q hq)

/-- A look at pictures that have not expired, and at what is not loose, shows what it shows alone. -/
theorem Beside.peek (hh : S.Beside h w) (hw : S.Tidy w) {s : Step} (hs : s.Peers)
    (hsees : ∀ q, s.Sees h.alone.files q → ¬ S.Loose h.run q ∨
      S.Shelf q ∧ ¬ S.Dead q ∧ h.alone.files.get? q ≠ none) :
    w.perform s = ((h.alone.perform s).1, w) ∧ (h.alone.perform s).2 = h.alone := by
  have hmatched : Matched (S.Loose h.run) h.alone w :=
    ⟨hh.agree, hw.clock.trans hh.tidy.clock.symm⟩
  obtain ⟨halone, hperform⟩ := hmatched.peek hs fun q hq => by
    obtain hfast | ⟨hshelf, hdead, hthere⟩ := hsees q hq
    · exact hh.agree.get? hfast
    · obtain ⟨node, hnode⟩ := Option.ne_none_iff_exists'.1 hthere
      exact (hh.live q node hshelf hdead hnode).trans hnode.symm
  exact ⟨hperform, congrArg Prod.snd halone⟩

end

end Company

end MailMerge
