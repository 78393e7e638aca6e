import MailMerge.Proofs.Cache.Keys
import MailMerge.Proofs.Generation.Framing
import MailMerge.Proofs.Storage.Rules
/-!
# What a run may change

A run that makes a document has numbers of its own. What it may change is told by these: places with a
name that one of its numbers gives, pictures, and the place of its document (`Bench.May`).

* `HasNumber.unique`: the number of a place with a name of the work is one number.
* `Bench.Permits`: the steps that a run may take.
* `Bench.Holds.permitted`: such a step changes only what the run may change, and leaves the ways as
  they are.
-/
namespace MailMerge.Generation

open FileSystem (Kept MeansDirectory Fits IsName kept_refl kept_put kept_drop isName_of_locate)
open MailMerge.Path (IsDown IsClean)

/-! ## Numbers of places -/

/-- Whether a name is one that a number gives. -/
def IsNamed (n : Nat) (name : Text) : Prop :=
  (Text.cut '.' name).1 = scratchStem n ∨ (Text.cut '.' name).1 = privateStem n

/-- Whether the first name of the work on the way to a place is one that some number gives. -/
def HasNumber (first : Nat) (mine : Nat → Prop) (q : Place) : Prop :=
  ∃ r name rest n, q = r ++ name :: rest ∧ ¬ IsScratch first r ∧ mine n ∧ IsNamed n name

section
variable {first : Nat} {mine mine' : Nat → Prop} {q : Place}

theorem scratchStem_inj {m n : Nat} (h : scratchStem m = scratchStem n) : m = n :=
  Text.padLeft_toDigits_inj (by decide) (by decide) (List.append_cancel_left h)

theorem privateStem_inj {m n : Nat} (h : privateStem m = privateStem n) : m = n :=
  Text.ofNatPadded_inj (List.append_cancel_left h)

theorem scratchStem_ne_privateStem (m n : Nat) : scratchStem m ≠ privateStem n := by
  intro h
  -- the second mark goes on with a letter that is no digit
  have hmem : 'o' ∈ Text.padLeft 32 '0' (Nat.toDigits 16 m) := by
    have hrest := congrArg (List.drop 7) h
    rw [scratchStem, List.drop_left' (by decide), privateStem,
      List.drop_append_of_le_length (by decide)] at hrest
    rw [hrest]
    exact List.mem_append_left _ (by decide)
  exact absurd (Text.mem_hexDigits_of_mem_padLeft (by decide) (by decide) hmem) (by decide)

theorem IsNamed.unique {m n : Nat} {name : Text} (h : IsNamed m name) (h' : IsNamed n name) :
    m = n := by
  rcases h with h | h <;> rcases h' with h' | h'
  · exact scratchStem_inj (h.symm.trans h')
  · exact absurd (h.symm.trans h') (scratchStem_ne_privateStem m n)
  · exact absurd (h'.symm.trans h) (scratchStem_ne_privateStem n m)
  · exact privateStem_inj (h.symm.trans h')

theorem IsNamed.isScratchName {n : Nat} {name : Text} (h : IsNamed n name) (hn : first ≤ n) :
    IsScratchName first name := ⟨n, hn, h⟩

theorem HasNumber.isScratch (h : HasNumber first mine q) (hmine : ∀ n, mine n → first ≤ n) :
    IsScratch first q := by
  obtain ⟨r, name, rest, n, rfl, -, hn, hnamed⟩ := h
  exact ⟨name, by simp, hnamed.isScratchName (hmine n hn)⟩

theorem HasNumber.append (h : HasNumber first mine q) (t : Place) : HasNumber first mine (q ++ t) := by
  obtain ⟨r, name, rest, n, rfl, hr, hn, hnamed⟩ := h
  exact ⟨r, name, rest ++ t, n, by simp, hr, hn, hnamed⟩

/-- The first name of the work on a way is one name. -/
theorem first_unique {r r' rest rest' : Place} {name name' : Text}
    (h : r ++ name :: rest = r' ++ name' :: rest') (hr : ¬ IsScratch first r)
    (hr' : ¬ IsScratch first r') (hname : IsScratchName first name)
    (hname' : IsScratchName first name') : name = name' := by
  rcases List.append_eq_append_iff.1 h with ⟨a, rfl, hrest⟩ | ⟨a, rfl, hrest⟩
  · cases a with
    | nil => exact (List.cons.inj hrest).1
    | cons m a =>
      obtain ⟨rfl, -⟩ := List.cons.inj hrest
      exact absurd ⟨name, by simp, hname⟩ hr'
  · cases a with
    | nil => exact (List.cons.inj hrest).1.symm
    | cons m a =>
      obtain ⟨rfl, -⟩ := List.cons.inj hrest
      exact absurd ⟨name', by simp, hname'⟩ hr

/-- A place has one number. -/
theorem HasNumber.unique (h : HasNumber first mine q) (h' : HasNumber first mine' q)
    (hmine : ∀ n, mine n → first ≤ n) (hmine' : ∀ n, mine' n → first ≤ n) :
    ∃ n, mine n ∧ mine' n := by
  obtain ⟨r, name, rest, n, rfl, hr, hn, hnamed⟩ := h
  obtain ⟨r', name', rest', n', heq, hr', hn', hnamed'⟩ := h'
  obtain rfl := first_unique heq hr hr' (hnamed.isScratchName (hmine n hn))
    (hnamed'.isScratchName (hmine' n' hn'))
  obtain rfl := hnamed.unique hnamed'
  exact ⟨n, hn, hn'⟩

end

/-! ## Paths with numbers -/

/-- Whether a path has a name that one of some numbers gives, or is below one that has. -/
inductive Taken (mine : Nat → Prop) : Path → Prop
  | named {p : Path} {n : Nat} {name : Text} (hp : p.IsClean) (hdown : IsDown name) (hn : mine n)
      (h : IsNamed n name) : Taken mine (p.child name)
  | child {p : Path} {name : Text} (h : Taken mine p) (hdown : IsDown name) :
      Taken mine (p.child name)

theorem Taken.own {first : Nat} {mine : Nat → Prop} {p : Path} (h : Taken mine p)
    (hmine : ∀ n, mine n → first ≤ n) : Own first p := by
  induction h with
  | named hp hdown hn hnamed => exact .scratch hp hdown (hnamed.isScratchName (hmine _ hn))
  | child _ hdown ih => exact ih.child hdown

theorem taken_scratch {mine : Nat → Prop} {directory : Path} (hd : directory.IsClean) {n : Nat}
    (hn : mine n) {ending : Text} (he : IsEnding ending) :
    Taken mine (directory.child (scratchStem n ++ ending)) :=
  .named hd (isDown_scratch n he) hn (Or.inl (cut_scratchStem n he))

theorem taken_private {mine : Nat → Prop} {n : Nat} (hn : mine n) :
    Taken mine (Conversion.privateRoot.child (privateStem n)) :=
  .named isClean_privateRoot (isDown_private n) hn
    (Or.inr (by rw [Text.cut_of_not_mem (dot_not_mem_privateStem n)]))

/-! ## Benches -/

/-- Whether a place is that of a picture, told by the ending of its name. -/
def IsPicture (q : Place) : Prop :=
  ∃ r n, q = r ++ [n] ∧ Text.endsIn AssetCache.ending n = true

/-- What a run works with: the files that it finds, its numbers, those for pictures that are being
written, and the directory and the name of its document. Numbers from `base` on are not in use when it
begins. -/
structure Bench where
  files : FileSystem
  base : Nat
  first : Nat
  bound : Nat
  firstDraft : Nat
  lastDraft : Nat
  directory : Path
  place : Place
  final : Text

namespace Bench

/-- Whether a number is one of the run. -/
def Mine (b : Bench) (n : Nat) : Prop := b.first ≤ n ∧ n < b.bound

/-- Whether a number is one of the run for pictures that are being written. -/
def Drafts (b : Bench) (n : Nat) : Prop := b.firstDraft ≤ n ∧ n < b.lastDraft

/-- The place of the document. -/
def goal (b : Bench) : Place := b.place ++ [b.final]

/-- Whether a run may change what stands at a place. -/
def May (b : Bench) (q : Place) : Prop :=
  HasNumber b.base b.Mine q ∨ (¬ IsScratch b.base q ∧ IsPicture q) ∨ q = b.goal

/-- What is known when the run begins. -/
structure IsReady (b : Bench) : Prop where
  sound : b.files.IsSound
  unused : Unused b.base b.files
  drafts : ∀ r n t, b.Drafts n → b.files.get? (r ++ [AssetCache.scratchName n]) ≠ some (.link t)
  least : b.base ≤ b.first
  clean : b.directory.IsClean
  means : b.files.MeansDirectory b.directory b.place
  down : IsDown b.final
  final : ¬ IsScratchName b.base b.final

/-- What is known in the middle of the run. -/
structure Holds (b : Bench) (w : World) : Prop where
  framed : Framed b.base b.files (fun q => IsPicture q ∨ q = b.goal) w.files
  same : ∀ q, ¬ b.May q → w.files.get? q = b.files.get? q
  fresh : b.first ≤ w.fresh
  drafts : b.firstDraft ≤ w.drafts

/-- The steps that a run may take. -/
inductive Permits (b : Bench) : Step → Prop
  | look {s : Step} (h : ∀ w : World, (w.perform s).2.files = w.files) : Permits b s
  | write {p : Path} (h : Taken b.Mine p) (c : Content) : Permits b (.write p.toText c)
  | remove {p : Path} (h : Taken b.Mine p) : Permits b (.remove p.toText)
  | move {p p' : Path} (h : Taken b.Mine p) (h' : Taken b.Mine p') :
      Permits b (.rename p.toText p'.toText)
  | publish {p : Path} (h : Taken b.Mine p) :
      Permits b (.rename p.toText (b.directory.child b.final).toText)
  | makeDirectory {p : Path} (h : Taken b.Mine p) : Permits b (.makeDirectory p.toText)
  | removeTree {p : Path} (h : Taken b.Mine p) : Permits b (.removeTree p.toText)
  | execute {directory source : Path} {format : Text} (h : Taken b.Mine directory)
      (hmade : IsDown (source.stem ++ '.' :: format)) (program : Text) :
      Permits b (.execute program (callOn source directory format))
  | evict {p : Path} {n : Text} (hp : p.IsClean) (hn : IsDown n)
      (hending : Text.endsIn AssetCache.ending n = true) : Permits b (.remove (p.child n).toText)
  | create {p : Path} {n : Nat} (hp : p.IsClean) (hn : b.Drafts n) :
      Permits b (.create (p.child (AssetCache.scratchName n)).toText)
  | fill {p : Path} {n : Nat} (hp : p.IsClean) (hn : b.Drafts n) (c : Content) :
      Permits b (.fill (p.child (AssetCache.scratchName n)).toText c)
  | put {p p' : Path} {n : Nat} {name : Text} (hp : p.IsClean) (hn : b.Drafts n) (hp' : p'.IsClean)
      (hname : IsName name) (hpicture : AssetCache.IsPictureName name) :
      Permits b (.rename (p.child (AssetCache.scratchName n)).toText (p'.child name).toText)

/-- The replies that a run can expect. -/
def Answers (b : Bench) : (s : Step) → s.Reply → Prop
  | .fresh, n => b.Mine n
  | .draft, n => b.Drafts n
  | .list _, r => ∀ names, r = .ok names → ∀ n ∈ names, IsName n
  | _, _ => True

section
variable {b : Bench} {w : World} {p : Path} {q : Place}

theorem IsReady.mine (h : b.IsReady) : ∀ n, b.Mine n → b.base ≤ n :=
  fun _ hn => Nat.le_trans h.least hn.1

theorem IsReady.goal (h : b.IsReady) : ¬ IsScratch b.base b.goal := by
  rintro ⟨n, hn, hs⟩
  rcases List.mem_append.1 hn with hn | hn
  · obtain ⟨t, ht⟩ := h.means.2
    exact h.unused.not_isScratch ht ⟨n, hn, hs⟩
  · exact h.final (List.mem_singleton.1 hn ▸ hs)

/-- Where something stands under a name of the work, it is one that a number of the run gives. -/
theorem Holds.hasNumber (h : b.Holds w) (hb : b.IsReady) (hq : IsScratch b.base q)
    (hthere : w.files.get? q ≠ none) : HasNumber b.base b.Mine q := by
  have hmay : b.May q := Classical.byContradiction fun hnot =>
    hthere ((h.same q hnot).trans (hb.unused q hq))
  rcases hmay with hnumber | ⟨hplain, -⟩ | rfl
  · exact hnumber
  · exact absurd hq hplain
  · exact absurd hq hb.goal

theorem Holds.hasNumber_directory (h : b.Holds w) (hb : b.IsReady) (hq : IsScratch b.base q)
    (hdir : w.files.IsDirectory q) : HasNumber b.base b.Mine q := by
  obtain ⟨t, ht⟩ := hdir
  exact h.hasNumber hb hq (by rw [ht]; exact nofun)

/-- A path with a number means a place with one. -/
theorem Holds.locate_taken (h : b.Holds w) (hb : b.IsReady) (hp : Taken b.Mine p) {follow : Bool}
    (hq : w.files.locate follow p.toText = .ok q) : HasNumber b.base b.Mine q := by
  have hl := h.framed.unlinked hb.unused
  induction hp generalizing follow q with
  | @named p n name hp hdown hn hnamed =>
    obtain ⟨hf, r, hm⟩ := FileSystem.fits_of_locate h.framed.sound hp hdown hq
    have hscratch := isScratch_concat (hnamed.isScratchName (hb.mine n hn)) r
    cases (hf.locate hp hm (Or.inr fun t => hl _ t hscratch)).symm.trans hq
    by_cases hr : IsScratch b.base r
    · exact (h.hasNumber_directory hb hr hm.2).append _
    · exact ⟨r, name, [], n, rfl, hr, hn, hnamed⟩
  | @child p name hp hdown ih =>
    have hclean := (hp.own hb.mine).isClean
    obtain ⟨hf, r, hm⟩ := FileSystem.fits_of_locate h.framed.sound hclean hdown hq
    have hnumber := (ih hm.1).append [name]
    cases (hf.locate hclean hm (Or.inr fun t => hl _ t (hnumber.isScratch hb.mine))).symm.trans hq
    exact hnumber

/-- A picture in a directory may change, when its name is none of the work, or when it is there. -/
theorem Holds.may_picture (h : b.Holds w) (hb : b.IsReady) (hm : w.files.MeansDirectory p q)
    {n : Text} (hending : Text.endsIn AssetCache.ending n = true)
    (hn : ¬ IsScratchName b.base n ∨ w.files.get? (q ++ [n]) ≠ none) : b.May (q ++ [n]) := by
  by_cases hscratch : IsScratch b.base (q ++ [n])
  · refine Or.inl ?_
    rcases hn with hn | hthere
    · obtain ⟨m, hmem, hs⟩ := hscratch
      rcases List.mem_append.1 hmem with hmem | hmem
      · exact (h.hasNumber_directory hb ⟨m, hmem, hs⟩ hm.2).append _
      · exact absurd (List.mem_singleton.1 hmem ▸ hs) hn
    · exact h.hasNumber hb hscratch hthere
  · exact Or.inr (Or.inl ⟨hscratch, q, n, rfl, hending⟩)

/-! ### Single steps -/

/-- What a step may do to the files. -/
structure Advances (b : Bench) (w : World) (fs : FileSystem) : Prop where
  framed : Framed b.base b.files (fun q => IsPicture q ∨ q = b.goal) fs
  same : ∀ q, ¬ b.May q → fs.get? q = w.files.get? q

theorem Holds.stay (h : b.Holds w) : b.Advances w w.files := ⟨h.framed, fun _ _ => rfl⟩

/-- Changes of files at places that the run may change. -/
theorem Holds.kept (h : b.Holds w) (hb : b.IsReady) {loose : Place → Prop} {fs : FileSystem}
    (hkept : Kept w.files loose fs) (hloose : ∀ q, loose q → b.May q) : b.Advances w fs := by
  refine ⟨h.framed.andThen (hkept.mono fun q hq => ?_), fun q hq => hkept.same q fun hl =>
    hq (hloose q hl)⟩
  rcases hloose q hq with hnumber | ⟨-, hpicture⟩ | hgoal
  · exact Or.inl (hnumber.isScratch hb.mine)
  · exact Or.inr (Or.inl hpicture)
  · exact Or.inr (Or.inr hgoal)

/-- A change that fails does nothing. -/
theorem Holds.change (h : b.Holds w) {r : Except Cause FileSystem}
    (hr : ∀ fs, r = .ok fs → b.Advances w fs) : b.Advances w (w.change r).2.files := by
  cases r with
  | error e => exact h.stay
  | ok fs => exact hr fs rfl

theorem Holds.may_taken (h : b.Holds w) (hb : b.IsReady) (hp : Taken b.Mine p) {follow : Bool}
    (hq : w.files.locate follow p.toText = .ok q) : b.May q := Or.inl (h.locate_taken hb hp hq)

theorem Holds.taken_ne_link (h : b.Holds w) (hb : b.IsReady) (hp : Taken b.Mine p) {target : Text}
    (hq : w.files.locate false p.toText = .ok q) : w.files.get? q ≠ some (.link target) :=
  h.framed.unlinked hb.unused q target ((h.locate_taken hb hp hq).isScratch hb.mine)

/-- A name with the ending of pictures is at the place of a picture. -/
theorem Holds.locate_picture (h : b.Holds w) (hb : b.IsReady) (hp : p.IsClean) {n : Text}
    (hdown : IsDown n) (hending : Text.endsIn AssetCache.ending n = true)
    (hq : w.files.locate false (p.child n).toText = .ok q)
    (hn : ¬ IsScratchName b.base n ∨ w.files.get? q ≠ none) :
    (∃ r, q = r ++ [n]) ∧ b.May q := by
  obtain ⟨hf, r, hm⟩ := FileSystem.fits_of_locate h.framed.sound hp hdown hq
  cases (hf.locate hp hm (Or.inl rfl)).symm.trans hq
  exact ⟨⟨r, rfl⟩, h.may_picture hb hm hending hn⟩

theorem endsIn_scratchName (n : Nat) :
    Text.endsIn AssetCache.ending (AssetCache.scratchName n) = true :=
  List.isSuffixOf_iff_suffix.2 (List.suffix_append _ _)

/-- A picture that is being written has no name of the work. -/
theorem not_isScratchName_draft (first n : Nat) :
    ¬ IsScratchName first (AssetCache.scratchName n) := by
  rintro ⟨m, -, hm⟩
  have hstem : (Text.cut '.' (AssetCache.scratchName n)).1.head? = some 't' := by
    unfold AssetCache.scratchName
    rw [List.append_assoc]
    rfl
  rcases hm with hm | hm
  · rw [hm] at hstem
    revert hstem
    exact nofun
  · rw [hm] at hstem
    revert hstem
    exact nofun

/-- The place of a picture that is being written. -/
theorem Holds.draft (h : b.Holds w) (hb : b.IsReady) (hp : p.IsClean) (n : Nat)
    (hq : w.files.locate false (p.child (AssetCache.scratchName n)).toText = .ok q) :
    (∃ r, q = r ++ [AssetCache.scratchName n]) ∧ b.May q :=
  h.locate_picture hb hp (AssetCache.isDown_scratchName n) (endsIn_scratchName n) hq
    (Or.inl (not_isScratchName_draft _ n))

/-- The place of the document. -/
theorem Holds.locate_goal (h : b.Holds w) (hb : b.IsReady)
    (hq : w.files.locate false (b.directory.child b.final).toText = .ok q) : q = b.goal := by
  obtain ⟨hf, r, hm⟩ := FileSystem.fits_of_locate h.framed.sound hb.clean hb.down hq
  cases (hf.locate hb.clean hm (Or.inl rfl)).symm.trans hq
  rw [goal, h.framed.unique hb.unused hm hb.means]

theorem Holds.makeDirectory (h : b.Holds w) (hb : b.IsReady) (hp : Taken b.Mine p)
    {fs : FileSystem} (hmake : w.files.makeDirectory w.clock p.toText = .ok fs) :
    b.Advances w fs := by
  refine ⟨h.framed.makeDirectory hb.unused (hp.own hb.mine) hmake, fun q hq => ?_⟩
  obtain ⟨r, hr, hnone, rfl⟩ := FileSystem.makeDirectory_ok hmake
  have hother : q ≠ r := by
    rintro rfl
    exact hq (h.may_taken hb hp hr)
  exact FileSystem.get?_put_of_ne (FileSystem.ne_nil_of_absent hnone) hother _

theorem Holds.removeTree (h : b.Holds w) (hb : b.IsReady) (hp : Taken b.Mine p)
    {fs : FileSystem} (hremove : w.files.removeTree p.toText = .ok fs) : b.Advances w fs := by
  refine ⟨h.framed.removeTree hb.sound hb.unused (hp.own hb.mine) hremove, fun q hq => ?_⟩
  obtain ⟨r, hr, -, rfl⟩ := FileSystem.removeTree_ok hremove
  have hnumber := h.locate_taken hb hp hr
  have hne : r ≠ [] := by
    rintro rfl
    obtain ⟨n, hn, -⟩ := hnumber.isScratch hb.mine
    exact absurd hn List.not_mem_nil
  rw [FileSystem.get?_prune hne, if_neg]
  rintro ⟨t, rfl⟩
  exact hq (Or.inl (hnumber.append t))

/-- What a called program makes is under the path that it is given. -/
theorem Holds.execute (h : b.Holds w) (hb : b.IsReady) {directory source : Path} {format : Text}
    (hp : Taken b.Mine directory) (hmade : IsDown (source.stem ++ '.' :: format)) (program : Text) :
    b.Advances w (w.execute program (callOn source directory format)).2.files := by
  have htext : (callOn source directory format).directory ++
      '/' :: (callOn source directory format).name ++ '.' :: (callOn source directory format).format =
        (directory.child (source.stem ++ '.' :: format)).toText := by
    rw [Path.toText_child, if_neg (hp.own hb.mine).names_ne_nil]
    exact List.append_assoc directory.toText ('/' :: source.stem) _
  unfold World.execute
  split
  · exact h.stay
  · rename_i prog _
    split
    · exact h.stay
    · unfold World.produce
      cases prog.makes with
      | none => exact h.stay
      | some t =>
        dsimp only
        rw [htext]
        refine h.change fun fs hwrite => ?_
        exact h.kept hb (FileSystem.kept_of_write h.framed.sound hwrite) fun q hq =>
          h.may_taken hb (hp.child hmade) hq
  · exact h.stay

/-- The replies are such as a run can expect. -/
theorem Holds.answers (h : b.Holds w) {s : Step} (hbound : (w.perform s).2.fresh ≤ b.bound)
    (hlast : (w.perform s).2.drafts ≤ b.lastDraft) : b.Answers s (w.perform s).1 := by
  cases s with
  | fresh => exact ⟨h.fresh, hbound⟩
  | draft => exact ⟨h.drafts, hlast⟩
  | list p => exact fun names hnames => FileSystem.isName_of_list h.framed.sound hnames
  | _ => trivial

/-- A permitted step does to the files what it may. -/
theorem Holds.advances (h : b.Holds w) (hb : b.IsReady) {s : Step} (hs : b.Permits s) :
    b.Advances w (w.perform s).2.files := by
  have hsound := h.framed.sound
  cases hs with
  | look hlook =>
    rw [hlook w]
    exact h.stay
  | write hp c =>
    refine h.change fun fs hfs => ?_
    exact h.kept hb (FileSystem.kept_of_write hsound hfs) fun q hq => h.may_taken hb hp hq
  | remove hp =>
    refine h.change fun fs hfs => ?_
    exact h.kept hb (FileSystem.kept_of_remove hsound hfs) fun q hq => h.may_taken hb hp hq.1
  | move hp hp' =>
    refine h.change fun fs hfs => ?_
    refine h.kept hb (FileSystem.kept_of_rename hsound (fun q t hq => h.taken_ne_link hb hp hq) hfs) ?_
    exact fun q hq => hq.elim (h.may_taken hb hp) (h.may_taken hb hp')
  | publish hp =>
    refine h.change fun fs hfs => ?_
    refine h.kept hb (FileSystem.kept_of_rename hsound (fun q t hq => h.taken_ne_link hb hp hq) hfs) ?_
    exact fun q hq => hq.elim (h.may_taken hb hp) fun hq => Or.inr (Or.inr (h.locate_goal hb hq))
  | makeDirectory hp => exact h.change fun fs hfs => h.makeDirectory hb hp hfs
  | removeTree hp => exact h.change fun fs hfs => h.removeTree hb hp hfs
  | execute hp hmade program => exact h.execute hb hp hmade program
  | evict hp hn hending =>
    refine h.change fun fs hfs => ?_
    exact h.kept hb (FileSystem.kept_of_remove hsound hfs) fun q hq =>
      (h.locate_picture hb hp hn hending hq.1 (Or.inr hq.2)).2
  | create hp hn =>
    refine h.change fun fs hfs => ?_
    exact h.kept hb (FileSystem.kept_of_create hsound hfs) fun q hq => (h.draft hb hp _ hq).2
  | fill hp hn c =>
    exact h.kept hb (FileSystem.kept_fill hsound _ _ _) fun q hq => (h.draft hb hp _ hq).2
  | @put p p' n name hp hn hp' hname hpicture =>
    refine h.change fun fs hfs => ?_
    refine h.kept hb (FileSystem.kept_of_rename hsound (fun q t hq => ?_) hfs) fun q hq => ?_
    · obtain ⟨⟨r, rfl⟩, -⟩ := h.draft hb hp _ hq
      exact fun hlink => hb.drafts r n t hn (h.framed.links _ _ hlink)
    · refine hq.elim (fun hq => (h.draft hb hp _ hq).2) fun hq => ?_
      exact (h.locate_picture hb hp' hname.isDown hpicture.endsIn hq
        (Or.inl (not_isScratchName_picture hpicture))).2

/-- A permitted step keeps what is known, and changes only what the run may change. -/
theorem Holds.permitted (h : b.Holds w) (hb : b.IsReady) {s : Step} (hs : b.Permits s)
    (hbound : (w.perform s).2.fresh ≤ b.bound) (hlast : (w.perform s).2.drafts ≤ b.lastDraft) :
    b.Answers s (w.perform s).1 ∧ b.Holds (w.perform s).2 ∧
      ∀ q, ¬ b.May q → (w.perform s).2.files.get? q = w.files.get? q := by
  have hnext := h.advances hb hs
  have hfollows := World.perform_follows w s
  exact ⟨h.answers hbound hlast, ⟨hnext.framed, fun q hq => (hnext.same q hq).trans (h.same q hq),
    Nat.le_trans h.fresh hfollows.fresh, Nat.le_trans h.drafts hfollows.drafts⟩, hnext.same⟩

end

end Bench

end MailMerge.Generation
