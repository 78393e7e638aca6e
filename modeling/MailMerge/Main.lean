import MailMerge.CommandLine.Run
/-!
# The program

Runs a command on the files of the machine: the steps of its script are performed one after the
other, and the operating system gives the replies. Symbols, images, documents, converting programs
and time zones are not within reach from here. An encoder that always refuses stands for the first,
every file is text or plain bytes, no file counts as an image or a program, and the clock shows
universal time.
-/
namespace MailMerge.Machine

/-- The number and the words that the operating system gives to a failure. -/
def namesOf : IO.Error → Nat × String
  | .noFileOrDirectory _ c d | .interrupted _ c d | .alreadyExists _ c d | .invalidArgument _ c d
  | .permissionDenied _ c d | .resourceExhausted _ c d | .inappropriateType _ c d
  | .noSuchThing _ c d | .otherError c d | .resourceBusy c d | .resourceVanished c d
  | .unsupportedOperation c d | .hardwareFault c d | .unsatisfiedConstraints c d
  | .illegalOperation c d | .protocolError c d | .timeExpired c d => (c.toNat, d)
  | .unexpectedEof => (0, "end of file")
  | .userError d => (0, d)

/-- The cause of a failure. -/
def causeOf (e : IO.Error) : Cause :=
  let (code, description) := namesOf e
  ([.absent, .present, .notDirectory, .isDirectory, .notEmpty, .nameTooLong, .tooManyLinks,
    .nullCharacter].find? fun c => c.code = code).getD (.other code description)

/-- A path as the operating system takes it. -/
def shown (p : Text) : String := String.ofList p

/-- A directory entry that stands for a path. -/
def entry (p : Text) : IO.FS.DirEntry := { root := ".", fileName := shown p }

/-- What the operating system replies about some paths. -/
def reply {α : Type} (paths : List Text) (x : IO α) : IO (Except Cause α) := do
  if paths.any (·.contains '\x00') then pure (.error .nullCharacter)
  else match ← x.toIO' with
    | .ok a => pure (.ok a)
    | .error e => pure (.error (causeOf e))

/-- A time of the machine. -/
def timeOf (t : IO.FS.SystemTime) : Time := t.sec * 1000000 + (t.nsec.toNat / 1000 : Nat)

/-- What can be told about a path. -/
def statusOf (p : Text) : IO Status := do
  let m ← (entry p).path.metadata
  pure ⟨m.type == .dir, timeOf m.modified, false⟩

/-- The time on the clock, which is that of a file made for the purpose. -/
def clock : IO Time := do
  let (_, p) ← IO.FS.createTempFile
  let m ← p.metadata
  IO.FS.removeFile p
  pure (timeOf m.modified)

/-- What is in a file. -/
def contentOf (p : Text) : IO Content := do
  let bytes := (← IO.FS.readBinFile (shown p)).toList
  match Utf8.decode bytes with
  | .ok t => pure (.text t)
  | .error _ => pure (.bytes bytes)

/-- The bytes of what is to be written; only texts and plain bytes have any. -/
def bytesOf : Content → ByteArray
  | .text t => ⟨(Utf8.encode t).toArray⟩
  | .bytes b => ⟨b.toArray⟩
  | _ => .empty

/-- Performs a step, events being told by `tell`. -/
def perform (tell : Event → IO Unit) : (s : Step) → IO s.Reply
  | .status p => reply [p] (statusOf p)
  | .canonical p => reply [p] do
    let q ← IO.FS.realPath (shown p)
    pure q.toString.toList
  | .list p => reply [p] do
    let found ← (entry p).path.readDir
    pure (found.toList.map (·.fileName.toList))
  | .read p => reply [p] (contentOf p)
  | .create p => reply [p] do
    let _ ← IO.FS.Handle.mk (shown p) .writeNew
    pure ()
  | .write p c => reply [p] (IO.FS.writeBinFile (shown p) (bytesOf c))
  | .fill p c => do
    if ← (entry p).path.pathExists then IO.FS.writeBinFile (shown p) (bytesOf c)
  | .rename a b => reply [a, b] (IO.FS.rename (shown a) (shown b))
  | .remove p => reply [p] (IO.FS.removeFile (shown p))
  | .makeDirectory p => reply [p] (IO.FS.createDir (shown p))
  | .removeTree p => reply [p] (IO.FS.removeDirAll (shown p))
  | .execute .. => pure (.notStarted .notProgram)
  | .now => clock
  | .fresh | .draft => IO.rand 0 99999999
  | .note e => tell e

/-- Performs a script. -/
def run {α : Type} (tell : Event → IO Unit) : Script α → IO α
  | .done a => pure a
  | .step s next => do
    let r ← perform tell s
    run tell (next r)

/-- The name of a level. -/
def levelName : Level → String
  | .info => "info"
  | .warning => "warning"
  | .error => "error"

/-- Tells an event on the error output, if the arguments of the program ask for it. -/
def tell (args : List Text) (e : Event) : IO Unit := do
  match CommandLine.invocation args with
  | .error _ => pure ()
  | .ok i =>
    if i.tells e then
      let level := levelName e.level
      let name := shown e.name
      IO.eprintln (if i.jsonLogs then
        "\x7b\"event\": \"" ++ name ++ "\", \"level\": \"" ++ level ++ "\"\x7d"
        else "[" ++ level ++ "] " ++ name)

/-- What surrounds the program on this machine. -/
def surroundings : IO CommandLine.Surroundings := do
  let environment ← (Settings.variableNames.map (·.2)).filterMapM fun name => do
    pure ((← IO.getEnv (shown name)).map fun v => (name, v.toList))
  let home := ((← IO.getEnv "HOME").getD "/").toList
  let first : Moment := .ofDate ⟨1970, 1, 1, by decide⟩
  pure
    { environment := environment, homes := [([], home)]
      now := (Moment.ofEpoch? (← clock)).getD first
      encode := fun _ => .error (.raised "no encoder of symbols".toList)
      images := Content.described }

end MailMerge.Machine

/-- Runs the program with its arguments. -/
def main (args : List String) : IO UInt32 := do
  let args := args.map String.toList
  let s ← MailMerge.Machine.surroundings
  let script := MailMerge.CommandLine.run s args
  match ← MailMerge.Machine.run (MailMerge.Machine.tell args) script with
  | .ok o => do
    IO.print (String.ofList o.output)
    IO.eprint (String.ofList o.errors)
    pure o.exit.toUInt32
  | .error f => do
    IO.eprintln (String.ofList f.message)
    pure 1
