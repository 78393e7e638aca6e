import MailMerge.Proofs.Storage.Agreement
import MailMerge.Proofs.Storage.Running
/-!
# What steps look at and what they change

A step looks at some places and changes some. In worlds that agree on what it looks at it does the same.

* `Matched.perform`: the reply is the same, and so is the edit of the files.
* `Matched.peek`: where a step changes nothing it is enough that the same stands at what it looks at.
* `Mirrored.frame`: what was done in the same way is not seen but where it changed something.
-/
namespace MailMerge

open FileSystem (Agree Edit Paired)

/-- Whether a step looks at a place. -/
def Step.Sees (fs : FileSystem) : Step → Place → Prop
  | .status p, q | .read p, q | .write p _, q => fs.On true p q
  | .canonical p, q => q ∈ fs.visited true p
  | .list p, q => fs.On true p q ∨ ∃ r n, fs.locate true p = .ok r ∧ q = r ++ [n]
  | .create p, q | .fill p _, q | .remove p, q | .makeDirectory p, q => fs.On false p q
  | .rename a b, q => fs.On false a q ∨ fs.On false b q
  | .removeTree p, q => fs.On false p q ∨ ∃ r, fs.locate false p = .ok r ∧ r <+: q
  | .execute p c, q =>
    fs.On true p q ∨ fs.On true (c.directory ++ '/' :: c.name ++ '.' :: c.format) q
  | .now, _ | .fresh, _ | .draft, _ | .note _, _ => False

/-- Whether a step takes a number. -/
def Step.Counts (s : Step) : Prop := s = .fresh ∨ s = .draft

/-- Whether a step only looks at what a path means. -/
def Step.Peers : Step → Prop
  | .status _ | .canonical _ | .read _ => True
  | _ => False

/-- Whether two worlds are alike for scripts that get no fresh numbers, but for some places. -/
structure Matched (loose : Place → Prop) (w w' : World) : Prop where
  files : Agree loose w.files w'.files
  clock : w'.clock = w.clock

/-- Whether what was done in two worlds is the same: the reply, the clock, and the edit of places that
are alike. -/
structure Mirrored (loose : Place → Prop) (w w' : World) {α : Type} (r r' : α × World) : Prop where
  reply : r'.1 = r.1
  clock : r'.2.clock = r.2.clock
  edit : ∃ e : Edit, (∀ q, e.At q → ¬ loose q) ∧ r.2.files = e.apply w.files ∧
    r'.2.files = e.apply w'.files

section
variable {loose : Place → Prop} {w w' : World} {s : Step}

theorem mirrored_look {α : Type} {a a' : α} (hclock : w'.clock = w.clock) (h : a' = a) :
    Mirrored loose w w' (a, w) (a', w') :=
  ⟨h, hclock, .nothing, fun _ h => h.elim, rfl, rfl⟩

theorem mirrored_change {r r' : Except Cause FileSystem} (hclock : w'.clock = w.clock)
    (h : Paired loose w.files w'.files r r') : Mirrored loose w w' (w.change r) (w'.change r') := by
  cases h with
  | failed e => exact mirrored_look hclock rfl
  | edited e he => exact ⟨rfl, hclock, e, he, rfl, rfl⟩

theorem Matched.execute (h : Matched loose w w') {p : Text} {c : Conversion}
    (hsees : ∀ q, (Step.execute p c).Sees w.files q → ¬ loose q) :
    Mirrored loose w w' (w.execute p c) (w'.execute p c) := by
  have hread : w'.files.read p = w.files.read p := by
    unfold FileSystem.read
    rw [h.files.find fun q hq => hsees q (Or.inl hq)]
  unfold World.execute
  rw [hread]
  cases w.files.read p with
  | error e => exact mirrored_look h.clock rfl
  | ok content =>
    cases content with
    | program prog =>
      dsimp only
      split
      · exact mirrored_look h.clock rfl
      · unfold World.produce
        cases prog.makes with
        | none => exact mirrored_look h.clock rfl
        | some t =>
          dsimp only
          rw [h.clock]
          obtain ⟨-, hclock, hedit⟩ := mirrored_change h.clock
            (h.files.write w.clock (.text (c.format ++ ':' :: t)) fun q hq => hsees q (Or.inr hq))
          exact ⟨rfl, hclock, hedit⟩
    | _ => exact mirrored_look h.clock rfl

/-- A step does the same in worlds that agree on what it looks at. -/
theorem Matched.perform (h : Matched loose w w') (hs : ¬ s.Counts)
    (hsees : ∀ q, s.Sees w.files q → ¬ loose q) :
    Mirrored loose w w' (w.perform s) (w'.perform s) := by
  obtain ⟨hfiles, hclock⟩ := h
  cases s with
  | status p =>
    refine mirrored_look hclock ?_
    unfold FileSystem.status
    rw [hfiles.find hsees]
  | canonical p =>
    refine mirrored_look hclock ?_
    unfold FileSystem.canonical
    rw [hfiles.locate hsees]
  | list p =>
    refine mirrored_look hclock ?_
    unfold FileSystem.list
    rw [hfiles.find fun q hq => hsees q (Or.inl hq)]
    cases hfind : w.files.find true p with
    | error e => rfl
    | ok found =>
      obtain ⟨q, node⟩ := found
      have hchildren : w'.files.children q = w.files.children q := hfiles.children fun n =>
        hsees _ (Or.inr ⟨q, n, (FileSystem.find_eq_ok_iff.1 hfind).1, rfl⟩)
      cases node with
      | directory m => exact congrArg Except.ok hchildren
      | file c m x => rfl
      | link target => rfl
  | read p =>
    refine mirrored_look hclock ?_
    unfold FileSystem.read
    rw [hfiles.find hsees]
  | create p =>
    refine mirrored_change hclock ?_
    rw [hclock]
    exact hfiles.put_absent _ hsees
  | write p c =>
    refine mirrored_change hclock ?_
    rw [hclock]
    exact hfiles.write w.clock c hsees
  | fill p c =>
    refine ⟨rfl, hclock, ?_⟩
    show ∃ e : Edit, _ ∧ w.files.fill w.clock p c = _ ∧ w'.files.fill w'.clock p c = _
    rw [hclock]
    exact hfiles.fill w.clock c hsees
  | rename a b =>
    exact mirrored_change hclock
      (hfiles.rename (fun q hq => hsees q (Or.inl hq)) fun q hq => hsees q (Or.inr hq))
  | remove p => exact mirrored_change hclock (hfiles.remove hsees)
  | makeDirectory p =>
    refine mirrored_change hclock ?_
    rw [hclock]
    exact hfiles.put_absent _ hsees
  | removeTree p => exact mirrored_change hclock (hfiles.removeTree hsees)
  | execute p c => exact Matched.execute ⟨hfiles, hclock⟩ hsees
  | now => exact mirrored_look hclock hclock
  | fresh => exact absurd (Or.inl rfl) hs
  | draft => exact absurd (Or.inr rfl) hs
  | note e => exact ⟨rfl, hclock, .nothing, fun _ h => h.elim, rfl, rfl⟩

/-- A look replies the same where the same stands at what is looked at. -/
theorem Matched.peek (h : Matched loose w w') (hs : s.Peers)
    (hsees : ∀ q, s.Sees w.files q → w'.files.get? q = w.files.get? q) :
    w.perform s = ((w.perform s).1, w) ∧ w'.perform s = ((w.perform s).1, w') := by
  have hcurrent := h.files.current
  cases s with
  | status p =>
    refine ⟨rfl, congrArg (·, w') ?_⟩
    show w'.files.status p = w.files.status p
    unfold FileSystem.status
    rw [FileSystem.find_congr hcurrent hsees]
  | canonical p =>
    refine ⟨rfl, congrArg (·, w') ?_⟩
    show w'.files.canonical p = w.files.canonical p
    unfold FileSystem.canonical
    rw [FileSystem.locate_congr hcurrent hsees]
  | read p =>
    refine ⟨rfl, congrArg (·, w') ?_⟩
    show w'.files.read p = w.files.read p
    unfold FileSystem.read
    rw [FileSystem.find_congr hcurrent hsees]
  | _ => exact hs.elim

/-- What was done in the same way left the loose places alone. -/
theorem Mirrored.same {α : Type} {r r' : α × World} (hm : Mirrored loose w w' r r') {q : Place}
    (hq : loose q) : r.2.files.get? q = w.files.get? q ∧ r'.2.files.get? q = w'.files.get? q := by
  obtain ⟨-, -, e, he, hw, hw'⟩ := hm
  have hat : ¬ e.At q := fun h => he q h hq
  rw [hw, hw']
  exact ⟨e.get?_apply hat, e.get?_apply hat⟩

/-- What was done in the same way leaves worlds as alike as they were. -/
theorem Mirrored.matched {α : Type} {r r' : α × World} (hm : Mirrored loose w w' r r')
    (h : Matched loose w w') : Matched loose r.2 r'.2 := by
  obtain ⟨-, hclock, e, -, hw, hw'⟩ := hm
  refine ⟨?_, hclock⟩
  rw [hw, hw']
  exact h.files.apply e

/-- What was done in the same way in another world is not seen but where it changed something. -/
theorem Mirrored.frame {α : Type} {r r' : α × World} (hm : Mirrored loose w w' r r')
    (h : Matched loose w w') {changed : Place → Prop}
    (hchanged : ∀ q, r.2.files.get? q ≠ w.files.get? q → changed q) :
    Agree changed w'.files r'.2.files := by
  obtain ⟨-, -, e, he, hw, hw'⟩ := hm
  rw [hw']
  refine ⟨e.current_apply _, fun keep hkeep => FileSystem.apply_filter e fun q hq => ?_⟩
  obtain ⟨hne, hnot⟩ := hkeep q hq
  refine ⟨hne, fun hat => ?_⟩
  have hsame : r.2.files.get? q = w.files.get? q :=
    Classical.byContradiction fun h => hnot (hchanged q h)
  rw [(h.files.apply e).get? (he q hat), ← hw, hsame, h.files.get? (he q hat)]

end

namespace Script

variable {α β : Type}

/-- Whether a script looks at a place when it is run. -/
def Looks : Script α → World → Place → Prop
  | .done _, _, _ => False
  | .step s next, w, q => s.Sees w.files q ∨ Looks (next (w.perform s).1) (w.perform s).2 q

/-- Whether a script looks at a place when it is run where nothing stands, or by a step that may do more
than look at what a path means. -/
def Grips : Script α → World → Place → Prop
  | .done _, _, _ => False
  | .step s next, w, q => (s.Sees w.files q ∧ ¬ (s.Peers ∧ w.files.get? q ≠ none)) ∨
      Grips (next (w.perform s).1) (w.perform s).2 q

/-- Whether a script takes a number of a draft when it is run. -/
def Drafts : Script α → World → Prop
  | .done _, _ => False
  | .step .draft _, _ => True
  | .step s next, w => Drafts (next (w.perform s).1) (w.perform s).2

/-- Whether a script changes what stands at a place when it is run. -/
def Changes : Script α → World → Place → Prop
  | .done _, _, _ => False
  | .step s next, w, q => (w.perform s).2.files.get? q ≠ w.files.get? q ∨
      Changes (next (w.perform s).1) (w.perform s).2 q

section
variable {x : Script α} {w : World} {q : Place}

theorem changes_bind (f : α → Script β) :
    (x >>= f).Changes w q ↔ x.Changes w q ∨ (f (run x w).1).Changes (run x w).2 q := by
  show (bind x f).Changes w q ↔ _
  induction x generalizing w with
  | done a => exact (or_iff_right fun h => h).symm
  | step s next ih => rw [bind, Changes, Changes, ih, or_assoc]; rfl

end

end Script

end MailMerge
