import MailMerge.Fault
/-!
# Scripts

Work on the file system is written as a script: a sequence of steps, each of which is atomic and
gives a reply that the rest of the script may depend on. A script is run against a world, which
holds the file system, a clock, two supplies of fresh numbers, one for pictures that are being
written and one for all other names, and the log. Since a script shows its steps one by one, several
of them can also be run in any interleaving.

Results:
* `run_bind`: a sequence runs its parts one after the other.
-/
namespace MailMerge

/-- How much an event matters. -/
inductive Level where
  | info
  | warning
  | error
  deriving DecidableEq, Repr

/-- Something worth telling. -/
structure Event where
  level : Level
  name : Text
  deriving DecidableEq, Repr

namespace Event

/-- An event that tells what was done. -/
def info (name : String) : Event := ⟨.info, name.toList⟩

/-- An event that tells of something left undone. -/
def warning (name : String) : Event := ⟨.warning, name.toList⟩

/-- An event that tells of a failure. -/
def error (name : String) : Event := ⟨.error, name.toList⟩

end Event

/-- A call of a converting program: the document to read, and the directory, name and format of
what to make. -/
structure Conversion where
  source : Text
  directory : Text
  name : Text
  format : Text
  deriving DecidableEq, Repr

/-- How a called program ended. One that has said what is no text is `garbled`. -/
inductive Ending where
  | exited (code : Nat)
  | garbled (e : Utf8Error)
  | timedOut
  | notStarted (c : Cause)
  deriving DecidableEq, Repr

/-- The end of a program that exits: what it has said is read as text then. -/
def ConverterProgram.ending (p : ConverterProgram) : Ending :=
  match p.said with
  | .ok _ => .exited p.exit
  | .error e => .garbled e

/-- One atomic step. -/
inductive Step where
  | status (p : Text)
  | canonical (p : Text)
  | list (p : Text)
  | read (p : Text)
  | create (p : Text)
  | write (p : Text) (c : Content)
  | fill (p : Text) (c : Content)
  | rename (a b : Text)
  | remove (p : Text)
  | makeDirectory (p : Text)
  | removeTree (p : Text)
  | execute (p : Text) (c : Conversion)
  | now
  | fresh
  | draft
  | note (e : Event)
  deriving Repr

/-- What a step replies. -/
def Step.Reply : Step → Type
  | .status _ => Except Cause Status
  | .canonical _ => Except Cause Text
  | .list _ => Except Cause (List Text)
  | .read _ => Except Cause Content
  | .create _ | .write .. | .rename .. | .remove _ | .makeDirectory _ | .removeTree _ =>
    Except Cause Unit
  | .execute .. => Ending
  | .now => Time
  | .fresh | .draft => Nat
  | .fill .. | .note _ => Unit

/-- What scripts run against. -/
structure World where
  files : FileSystem := {}
  clock : Time := 0
  fresh : Nat := 0
  drafts : Nat := 0
  log : List Event := []
  deriving Repr

namespace World

/-- The world after a change of the file system, and the reply; a failed change changes nothing. -/
def change (w : World) (r : Except Cause FileSystem) : Except Cause Unit × World :=
  match r with
  | .ok fs => (.ok (), { w with files := fs })
  | .error c => (.error c, w)

/-- What a converting program does to the file system before it ends. -/
def produce (w : World) (p : ConverterProgram) (c : Conversion) : World :=
  match p.makes with
  | none => w
  | some t =>
    (w.change (w.files.write w.clock (c.directory ++ '/' :: c.name ++ '.' :: c.format)
      (.text (c.format ++ ':' :: t)))).2

/-- The end of a call of a program, and the world after it. -/
def execute (w : World) (p : Text) (c : Conversion) : Ending × World :=
  match w.files.read p with
  | .error e => (.notStarted e, w)
  | .ok (.program prog) =>
    if prog.hangs then (.timedOut, w) else (prog.ending, w.produce prog c)
  | .ok _ => (.notStarted .notProgram, w)

/-- The reply to a step and the world after it. -/
def perform (w : World) : (s : Step) → s.Reply × World
  | .status p => (w.files.status p, w)
  | .canonical p => (w.files.canonical p, w)
  | .list p => (w.files.list p, w)
  | .read p => (w.files.read p, w)
  | .create p => w.change (w.files.create w.clock p)
  | .write p c => w.change (w.files.write w.clock p c)
  | .fill p c => ((), { w with files := w.files.fill w.clock p c })
  | .rename a b => w.change (w.files.rename a b)
  | .remove p => w.change (w.files.remove p)
  | .makeDirectory p => w.change (w.files.makeDirectory w.clock p)
  | .removeTree p => w.change (w.files.removeTree p)
  | .execute p c => w.execute p c
  | .now => (w.clock, w)
  | .fresh => (w.fresh, { w with fresh := w.fresh + 1 })
  | .draft => (w.drafts, { w with drafts := w.drafts + 1 })
  | .note e => ((), { w with log := w.log ++ [e] })

end World

/-- A sequence of steps with a result. -/
inductive Script (α : Type) where
  | done (a : α)
  | step (s : Step) (next : s.Reply → Script α)

namespace Script

variable {α β : Type}

/-- The script `x`, and then the script that `f` makes of its result. -/
def bind : Script α → (α → Script β) → Script β
  | .done a, f => f a
  | .step s next, f => .step s fun r => bind (next r) f

instance : Monad Script where
  pure := .done
  bind := Script.bind

/-- The script of a single step. -/
def ask (s : Step) : Script s.Reply := .step s .done

/-- The result of a script and the world after it. -/
def run : Script α → World → α × World
  | .done a, w => (a, w)
  | .step s next, w => run (next (w.perform s).1) (w.perform s).2

@[simp] theorem run_pure (a : α) (w : World) : run (pure a) w = (a, w) := rfl

@[simp] theorem run_bind (x : Script α) (f : α → Script β) (w : World) :
    run (x >>= f) w = run (f (run x w).1) (run x w).2 := by
  show run (bind x f) w = _
  induction x generalizing w with
  | done a => rfl
  | step s next ih => simp only [bind, run]; exact ih _ _

/-- A script that may be broken off. -/
abbrev Risky (ε : Type) (α : Type) := ExceptT ε Script α

/-- A step that may fail, its cause turned into a failure of the script. -/
def attempt {ε : Type} (fail : Cause → ε) (x : Script (Except Cause α)) : Risky ε α :=
  ExceptT.mk do
    match ← x with
    | .ok a => pure (.ok a)
    | .error c => pure (.error (fail c))

/-- What can be told about a path. -/
def status (p : Text) : Script (Except Cause Status) := ask (.status p)

/-- The path without links. -/
def canonical (p : Text) : Script (Except Cause Text) := ask (.canonical p)

/-- The names in a directory. -/
def list (p : Text) : Script (Except Cause (List Text)) := ask (.list p)

/-- What a file holds. -/
def read (p : Text) : Script (Except Cause Content) := ask (.read p)

/-- Makes an empty file where there is nothing. -/
def create (p : Text) : Script (Except Cause Unit) := ask (.create p)

/-- Writes a file. -/
def write (p : Text) (c : Content) : Script (Except Cause Unit) := ask (.write p c)

/-- Writes into a file that the script has made and still holds open. -/
def fill (p : Text) (c : Content) : Script Unit := ask (.fill p c)

/-- Moves a file to another name. -/
def rename (a b : Text) : Script (Except Cause Unit) := ask (.rename a b)

/-- Removes a file. -/
def remove (p : Text) : Script (Except Cause Unit) := ask (.remove p)

/-- Makes a directory. -/
def makeDirectory (p : Text) : Script (Except Cause Unit) := ask (.makeDirectory p)

/-- Removes a directory with everything in it. -/
def removeTree (p : Text) : Script (Except Cause Unit) := ask (.removeTree p)

/-- Calls a converting program. -/
def execute (p : Text) (c : Conversion) : Script Ending := ask (.execute p c)

/-- The time on the clock. -/
def now : Script Time := ask .now

/-- A number that was not given out before. -/
def fresh : Script Nat := ask .fresh

/-- A number that was not given to another picture that is being written. -/
def draft : Script Nat := ask .draft

/-- Writes an event to the log. -/
def note (e : Event) : Script Unit := ask (.note e)

/-- Writes events to the log. -/
def noteAll : List Event → Script Unit
  | [] => pure ()
  | e :: r => do note e; noteAll r

/-- Whether a failed look at a path means that there is nothing: links that end nowhere or go round,
paths through files, and texts that are no path. -/
def meansAbsent (c : Cause) : Bool :=
  c = .absent || c = .notDirectory || c = .tooManyLinks || c = .nullCharacter

/-- Whether a test holds of what a path means; it fails where there is nothing. -/
def probe (test : Status → Bool) (p : Text) : Script (Except Cause Bool) := do
  match ← status p with
  | .ok s => pure (.ok (test s))
  | .error c => pure (if meansAbsent c then .ok false else .error c)

/-- Whether a path means a file. -/
def isFile (p : Text) : Script (Except Cause Bool) := probe (!·.isDirectory) p

/-- Whether a path means a directory. -/
def isDirectory (p : Text) : Script (Except Cause Bool) := probe (·.isDirectory) p

/-- Whether a path means anything. -/
def isThere (p : Text) : Script (Except Cause Bool) := probe (fun _ => true) p

/-- Whether a path can be followed to its end. -/
def canReach (p : Text) : Script Bool := do
  match ← status p with
  | .ok _ => pure true
  | .error _ => pure false

/-- The rest of a script after its next step is performed. -/
def advance : Script α → World → Script α × World
  | .done a, w => (.done a, w)
  | .step s next, w => (next (w.perform s).1, (w.perform s).2)

end Script

namespace Interleaved

variable {α : Type}

/-- One of the scripts of a pool takes its next step. -/
def stepAt (pool : List (Script α)) (w : World) (i : Nat) : List (Script α) × World :=
  match pool[i]? with
  | none => (pool, w)
  | some s => (pool.set i (s.advance w).1, (s.advance w).2)

/-- The pool and the world after the scripts have taken steps in the order of a schedule. -/
def steps (pool : List (Script α)) (w : World) : List Nat → List (Script α) × World
  | [] => (pool, w)
  | i :: r => steps (stepAt pool w i).1 (stepAt pool w i).2 r

end Interleaved
end MailMerge
