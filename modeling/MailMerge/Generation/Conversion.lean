import MailMerge.Generation.Failure
import MailMerge.Text.LowerCase
/-!
# Converting documents

A program converts documents into other formats. It works in a directory of its own, which is
removed afterwards; what it made is then moved to where it is wanted. The ending of the wanted file
names the format.

Section 4.6 of the specification, step 6: the converter.
-/
namespace MailMerge

/-- Work that may end early. -/
abbrev Task := ExceptT Abort Script

/-- Converts one file into another. -/
abbrev Converter := Path → Path → Task Unit

namespace Task

variable {α : Type}

/-- Work that ends with a failure. -/
def fail (f : Failure) : Task α := throw (.failure f)

/-- Work whose end is known. -/
def ofExcept (r : Except Abort α) : Task α := ExceptT.mk (pure r)

/-- A step whose trouble ends the work. -/
def step (p : Text) (x : Script (Except Cause α)) : Task α :=
  Script.attempt (fun c => .fault (.storage ⟨c, p, none⟩)) x

/-- Work followed by tidying up, however the work ended. -/
def thenTidy (x : Task α) (tidy : Script Unit) : Task α := ExceptT.mk do
  let r ← x.run
  tidy
  pure r

end Task

/-- A converting program and the time it may take. -/
structure ConverterProgramCall where
  program : Text
  seconds : Binary64
  deriving Repr

namespace Conversion

/-- The formats that can be converted to. -/
def formats : List Text := ["pdf", "odt", "docx"].map String.toList

/-- The format that the ending of a file names. -/
def formatOf (p : Path) : Text := Text.toLower (p.ending.dropWhile (· == '.'))

/-- Whether a text is the path of a program. Names without a slash are looked for among the
installed programs, where there are no converters. -/
def isProgram (t : Text) : Script Bool := do
  if !t.contains '/' then pure false
  else match ← Script.status t with
    | .ok s => pure (!s.isDirectory && s.executable)
    | .error _ => pure false

/-- The path of a name in a directory. -/
def inside (directory name : Text) : Text :=
  if directory.getLast? = some '/' then directory ++ name else directory ++ '/' :: name

/-- Where a file goes that is moved to a target: into the target when that is a directory, which
must not have a file of this name. -/
def destination (name target : Text) : Task Text := do
  match ← Script.status target with
  | .ok s =>
    if s.isDirectory then
      let t := inside target name
      if ← Script.canReach t then throw (.fault (.alreadyThere t)) else pure t
    else pure target
  | .error _ => pure target

/-- Moves a file; where it cannot be moved it is copied. -/
def move (source name target : Text) : Task Unit := do
  let goal ← destination name target
  match ← Script.rename source goal with
  | .ok () => pure ()
  | .error _ =>
    let content ← Task.step source (Script.read source)
    Task.step goal (Script.write goal content)
    Task.step source (Script.remove source)

/-- Where the private directories of conversions are. -/
def privateRoot : Path := Path.ofText "/tmp".toList

/-- The greatest number of milliseconds that can be waited for. -/
def longestWait : Nat := 2147483647

/-- Waits so many seconds for a program that has started. A program that is given no time at all
never ends in time, and the time must be a number of milliseconds that can be waited for. -/
def await (seconds : Binary64) : Except Abort Unit :=
  match seconds.mul (Binary64.ofInt 1000) with
  | .nan => .error (.fault .notANumber)
  | .infinite false => .error (.fault .unboundedNumber)
  | x =>
    if !(Binary64.zero false).lt seconds then .error (.failure (.conversion (.timedOut seconds)))
    else match x.fraction? with
      | some (_, a, b) =>
        let n := (a + b - 1) / b
        if longestWait < n then .error (.fault (.waitTooLong n)) else .ok ()
      | none => .ok ()

/-- Moves what a program made in a directory to the target, once it has exited. -/
def collect (directory : Path) (made : Text) (code : Nat) (target : Path) : Task Unit := do
  let produced := (directory.child made).toText
  let there ← if code = 0 then Task.step produced (Script.isFile produced) else pure false
  if there then move produced made target.toText
  else do
    Script.note (.error "conversion_failed")
    Task.fail (.conversion (.exited code))

/-- Runs a program on a source in a private directory and moves what it made to the target. -/
def runIn (directory : Path) (call : ConverterProgramCall) (format : Text) (source target : Path) :
    Task Unit := do
  if source.toText.contains '\x00' then
    throw (.fault (.storage ⟨.nullCharacter, source.toText, none⟩))
  match ← Script.execute call.program ⟨source.toText, directory.toText, source.stem, format⟩ with
  | .notStarted c => Task.fail (.conversion (.notStarted ⟨c, call.program, none⟩))
  | ending =>
    Task.ofExcept (await call.seconds)
    match ending with
    | .garbled e => throw (.fault (.badEncoding e))
    | .exited code => collect directory (source.stem ++ '.' :: format) code target
    | _ => Task.fail (.conversion (.timedOut call.seconds))

end Conversion

/-- Converts with a program. -/
def Converter.ofProgram (call : ConverterProgramCall) : Converter := fun source target => do
  let format := Conversion.formatOf target
  if format ∉ Conversion.formats then Task.fail (.conversion (.unknownFormat format))
  if !(← Conversion.isProgram call.program) then
    Task.fail (.conversion (.notFound call.program))
  let n ← Script.fresh
  let directory := Conversion.privateRoot.child ("docgen_convert_".toList ++ Text.ofNatPadded 8 n)
  Task.step directory.toText (Script.makeDirectory directory.toText)
  Task.thenTidy (Conversion.runIn directory call format source target) do
    let _ ← Script.removeTree directory.toText
    pure ()
  Script.note (.info "document_converted")

end MailMerge
