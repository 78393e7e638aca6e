import MailMerge.Storage.Script
/-!
# Running scripts

* `run_same`: a script does not read the log, so worlds that differ in nothing else give the same
  result.
* `run_follows`: no script sets the clock or takes a number back.
* `run_noteAll`, `run_isFile`, `run_canReach`: what the scripts for a single look and for notes do.
-/
namespace MailMerge

namespace World

/-- Whether two worlds differ in nothing but their logs. -/
structure Same (w w' : World) : Prop where
  files : w.files = w'.files
  clock : w.clock = w'.clock
  fresh : w.fresh = w'.fresh
  drafts : w.drafts = w'.drafts

theorem Same.refl (w : World) : Same w w := ⟨rfl, rfl, rfl, rfl⟩

theorem Same.trans {w w' w'' : World} (h : Same w w') (h' : Same w' w'') : Same w w'' :=
  ⟨h.files.trans h'.files, h.clock.trans h'.clock, h.fresh.trans h'.fresh, h.drafts.trans h'.drafts⟩

theorem same_log (w : World) (l : List Event) : Same w { w with log := l } :=
  ⟨rfl, rfl, rfl, rfl⟩

theorem change_same {w w' : World} (h : Same w w') (r : Except Cause FileSystem) :
    (w.change r).1 = (w'.change r).1 ∧ Same (w.change r).2 (w'.change r).2 := by
  unfold change
  cases r with
  | ok fs => exact ⟨rfl, rfl, h.clock, h.fresh, h.drafts⟩
  | error c => exact ⟨rfl, h⟩

theorem produce_same {w w' : World} (h : Same w w') (p : ConverterProgram) (c : Conversion) :
    Same (w.produce p c) (w'.produce p c) := by
  unfold produce
  cases p.makes with
  | none => exact h
  | some t =>
    dsimp only
    rw [← h.files, ← h.clock]
    exact (change_same h _).2

theorem execute_same {w w' : World} (h : Same w w') (p : Text) (c : Conversion) :
    (w.execute p c).1 = (w'.execute p c).1 ∧ Same (w.execute p c).2 (w'.execute p c).2 := by
  unfold execute
  rw [← h.files]
  split
  · exact ⟨rfl, h⟩
  · split
    · exact ⟨rfl, h⟩
    · exact ⟨rfl, produce_same h _ c⟩
  · exact ⟨rfl, h⟩

/-- No step reads the log. -/
theorem perform_same {w w' : World} (h : Same w w') (s : Step) :
    (w.perform s).1 = (w'.perform s).1 ∧ Same (w.perform s).2 (w'.perform s).2 := by
  cases s with
  | status p => exact ⟨congrArg (·.status p) h.files, h⟩
  | canonical p => exact ⟨congrArg (·.canonical p) h.files, h⟩
  | list p => exact ⟨congrArg (·.list p) h.files, h⟩
  | read p => exact ⟨congrArg (·.read p) h.files, h⟩
  | create p =>
    simp only [perform, ← h.files, ← h.clock]
    exact change_same h _
  | write p c =>
    simp only [perform, ← h.files, ← h.clock]
    exact change_same h _
  | fill p c =>
    refine ⟨rfl, ?_, h.clock, h.fresh, h.drafts⟩
    simp only [perform, h.files, h.clock]
  | rename a b =>
    simp only [perform, ← h.files]
    exact change_same h _
  | remove p =>
    simp only [perform, ← h.files]
    exact change_same h _
  | makeDirectory p =>
    simp only [perform, ← h.files, ← h.clock]
    exact change_same h _
  | removeTree p =>
    simp only [perform, ← h.files]
    exact change_same h _
  | execute p c => exact execute_same h p c
  | now => exact ⟨h.clock, h⟩
  | fresh => exact ⟨h.fresh, h.files, h.clock, congrArg (· + 1) h.fresh, h.drafts⟩
  | draft => exact ⟨h.drafts, h.files, h.clock, h.fresh, congrArg (· + 1) h.drafts⟩
  | note e => exact ⟨rfl, h.files, h.clock, h.fresh, h.drafts⟩

/-! ## What no step takes back -/

/-- Whether a world may come after another one: its clock stands where it stood, and no number that
was given away is free again. -/
structure Follows (w w' : World) : Prop where
  clock : w'.clock = w.clock
  fresh : w.fresh ≤ w'.fresh
  drafts : w.drafts ≤ w'.drafts

theorem follows_refl (w : World) : Follows w w := ⟨rfl, Nat.le_refl _, Nat.le_refl _⟩

theorem Follows.trans {w w' w'' : World} (h : Follows w w') (h' : Follows w' w'') :
    Follows w w'' :=
  ⟨h'.clock.trans h.clock, Nat.le_trans h.fresh h'.fresh, Nat.le_trans h.drafts h'.drafts⟩

theorem change_follows (w : World) (r : Except Cause FileSystem) : Follows w (w.change r).2 := by
  cases r with
  | ok fs => exact ⟨rfl, Nat.le_refl _, Nat.le_refl _⟩
  | error c => exact follows_refl w

theorem execute_follows (w : World) (p : Text) (c : Conversion) :
    Follows w (w.execute p c).2 := by
  unfold execute
  split
  · exact follows_refl w
  · split
    · exact follows_refl w
    · unfold produce
      split
      · exact follows_refl w
      · exact change_follows w _
  · exact follows_refl w

theorem perform_follows (w : World) (s : Step) : Follows w (w.perform s).2 := by
  cases s with
  | create p => exact change_follows w _
  | write p c => exact change_follows w _
  | rename a b => exact change_follows w _
  | remove p => exact change_follows w _
  | makeDirectory p => exact change_follows w _
  | removeTree p => exact change_follows w _
  | execute p c => exact execute_follows w p c
  | fresh => exact ⟨rfl, Nat.le_succ _, Nat.le_refl _⟩
  | draft => exact ⟨rfl, Nat.le_refl _, Nat.le_succ _⟩
  | fill p c => exact ⟨rfl, Nat.le_refl _, Nat.le_refl _⟩
  | note e => exact ⟨rfl, Nat.le_refl _, Nat.le_refl _⟩
  | status p => exact follows_refl w
  | canonical p => exact follows_refl w
  | list p => exact follows_refl w
  | read p => exact follows_refl w
  | now => exact follows_refl w

end World

namespace Script

variable {α : Type}

instance : LawfulMonad Script := LawfulMonad.mk' Script
  (by
    intro α x
    show bind x .done = x
    induction x with
    | done a => rfl
    | step s next ih => exact congrArg (step s) (funext ih))
  (fun _ _ => rfl)
  (by
    intro α β γ x f g
    show bind (bind x f) g = bind x fun a => bind (f a) g
    induction x with
    | done a => rfl
    | step s next ih => exact congrArg (step s) (funext ih))

/-- A script does not read the log. -/
theorem run_same (x : Script α) {w w' : World} (h : World.Same w w') :
    (run x w).1 = (run x w').1 ∧ World.Same (run x w).2 (run x w').2 := by
  induction x generalizing w w' with
  | done a => exact ⟨rfl, h⟩
  | step s next ih =>
    obtain ⟨hreply, hworld⟩ := World.perform_same h s
    rw [run, run, ← hreply]
    exact ih _ hworld

section
variable (w : World) (p q : Text) (c : Content)

@[simp] theorem run_status : run (status p) w = (w.files.status p, w) := rfl

@[simp] theorem run_canonical : run (canonical p) w = (w.files.canonical p, w) := rfl

@[simp] theorem run_list : run (list p) w = (w.files.list p, w) := rfl

@[simp] theorem run_read : run (read p) w = (w.files.read p, w) := rfl

@[simp] theorem run_create : run (create p) w = w.change (w.files.create w.clock p) := rfl

@[simp] theorem run_write : run (write p c) w = w.change (w.files.write w.clock p c) := rfl

@[simp] theorem run_fill :
    run (fill p c) w = ((), { w with files := w.files.fill w.clock p c }) := rfl

@[simp] theorem run_rename : run (rename p q) w = w.change (w.files.rename p q) := rfl

@[simp] theorem run_remove : run (remove p) w = w.change (w.files.remove p) := rfl

@[simp] theorem run_makeDirectory :
    run (makeDirectory p) w = w.change (w.files.makeDirectory w.clock p) := rfl

@[simp] theorem run_removeTree : run (removeTree p) w = w.change (w.files.removeTree p) := rfl

@[simp] theorem run_now : run now w = (w.clock, w) := rfl

@[simp] theorem run_fresh : run fresh w = (w.fresh, { w with fresh := w.fresh + 1 }) := rfl

@[simp] theorem run_draft : run draft w = (w.drafts, { w with drafts := w.drafts + 1 }) := rfl

@[simp] theorem run_note (e : Event) :
    run (note e) w = ((), { w with log := w.log ++ [e] }) := rfl

end

theorem run_noteAll (l : List Event) (w : World) :
    run (noteAll l) w = ((), { w with log := w.log ++ l }) := by
  induction l generalizing w with
  | nil => simp [noteAll]
  | cons e l ih =>
    rw [noteAll, run_bind, run_note, ih]
    simp

/-- What a test of a path answers when its look at the path gave `r`. -/
def probed (test : Status → Bool) (r : Except Cause Status) : Except Cause Bool :=
  match r with
  | .ok s => .ok (test s)
  | .error c => if meansAbsent c then .ok false else .error c

theorem run_probe (test : Status → Bool) (p : Text) (w : World) :
    run (probe test p) w = (probed test (w.files.status p), w) := by
  unfold probe probed
  rw [run_bind, run_status]
  cases w.files.status p <;> rfl

theorem run_isFile (p : Text) (w : World) :
    run (isFile p) w = (probed (!·.isDirectory) (w.files.status p), w) := run_probe _ _ _

theorem run_isDirectory (p : Text) (w : World) :
    run (isDirectory p) w = (probed (·.isDirectory) (w.files.status p), w) := run_probe _ _ _

theorem run_canReach (p : Text) (w : World) :
    run (canReach p) w = ((w.files.status p).toBool, w) := by
  unfold canReach
  rw [run_bind, run_status]
  cases w.files.status p <;> rfl

/-- A script does not set the clock, and gives away each number once. -/
theorem run_follows (x : Script α) (w : World) : World.Follows w (run x w).2 := by
  induction x generalizing w with
  | done a => exact World.follows_refl w
  | step s next ih => exact (World.perform_follows w s).trans (ih _ _)

end Script

end MailMerge
