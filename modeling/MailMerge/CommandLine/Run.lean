import MailMerge.CommandLine.Arguments
import MailMerge.Generation.Generator
import MailMerge.Json.Reader
import MailMerge.Record.Schema
/-!
# Running commands

One command makes a document from a request file, the other removes expired pictures from the cache.
A command ends with zero when it did its work, with two when the program was misused or a file is
missing, and with one in other cases. What is said goes to the output when all went well, and to the
error output else.

Section 6 of the specification: `cmd_generate`, `cmd_sweep_cache` and the exit codes.
-/
namespace MailMerge.CommandLine

/-- How a command ended, and what it said. -/
structure Outcome where
  exit : Nat := 0
  output : Text := []
  errors : Text := []
  deriving Repr

/-- What surrounds the program: its environment variables, the homes of users, the home of the
present user standing under the empty name, the time, the zone of its clock, how symbols are
drawn, and how images are read. -/
structure Surroundings where
  environment : List (Text × Text) := []
  homes : List (Text × Text) := []
  now : Moment
  zone : Zone := .utc
  encode : Encoder
  images : ImageReader

/-- An early end: the command is given up with an outcome, or broken off by a fault. -/
inductive Ended where
  | outcome (o : Outcome)
  | fault (f : Fault)

/-- The work of a command. -/
abbrev Job := ExceptT Ended Script

namespace Job

variable {α : Type}

/-- Gives the command up with a code and an error message. -/
def quit (exit : Nat) (message : Text) : Job α :=
  throw (.outcome { exit := exit, errors := "ERROR: ".toList ++ message ++ ['\n'] })

/-- Breaks the command off. -/
def abandon (f : Fault) : Job α := throw (.fault f)

/-- A result, or the fault that breaks the command off. -/
def orBreak (r : Except Fault α) : Job α :=
  match r with
  | .ok a => pure a
  | .error f => abandon f

/-- A step whose trouble breaks the command off. -/
def step (p : Text) (x : Script (Except Cause α)) : Job α :=
  Script.attempt (fun c => .fault (.storage ⟨c, p, none⟩)) x

end Job

/-- The text of a file; line ends of all kinds are read as line feeds. -/
def unifyLines : Text → Text
  | [] => []
  | '\r' :: r =>
    match r with
    | '\n' :: _ => unifyLines r
    | _ => '\n' :: unifyLines r
  | c :: r => c :: unifyLines r

/-- The text that a file holds. Files that are neither texts nor plain bytes are taken for images,
whose first byte begins no character. -/
def textOf (c : Content) : Except Utf8Error Text :=
  match c with
  | .text t => .ok t
  | .bytes bs => Utf8.decode bs
  | _ => .error ⟨.start, 0, [0x89]⟩

/-- The map in a JSON file. The label says what the file is for. -/
def loadMap (p : Path) (label : String) : Job DataMap := do
  let name := p.toText
  if !(← Job.step name (Script.isFile name)) then
    Job.quit 2 (label.toList ++ " file not found: ".toList ++ name)
  let failed (why : Text) : Job DataMap :=
    Job.quit 1 ("failed to load ".toList ++ name ++ ": ".toList ++ why)
  match ← Script.read name with
  | .error c => failed (Trouble.message ⟨c, name, none⟩)
  | .ok content =>
    match (textOf content).map unifyLines with
    | .error e => Job.abandon (.badEncoding e)
    | .ok t =>
      match Json.read t with
      | .error (.flaw f place) => failed (Json.flawMessage t f place)
      | .error (.fault f) => Job.abandon f
      | .ok (.map m) => pure m
      | .ok _ => Job.quit 1 (label.toList ++ " file must contain a JSON object: ".toList ++ name)

/-- The map in a JSON file that may not have been named; without one it is empty. -/
def loadMap? (p : Option Text) (label : String) : Job DataMap :=
  match p with
  | none | some [] => pure []
  | some t => loadMap (Path.ofText t) label

/-- A path whose first name may stand for the home of a user. -/
def expandHome (s : Surroundings) (p : Path) : Except Fault Path :=
  match p.isAbsolute, p.names with
  | false, ('~' :: user) :: rest =>
    match s.homes.lookup user with
    | some home =>
      let h := Path.ofText (if home.isEmpty then ['/'] else home)
      .ok { h with names := h.names ++ rest }
    | none => .error .noHome
  | _, _ => .ok p

/-- A path of a request, which is meant from the directory of the request file. -/
def anchor (s : Surroundings) (base : Path) (v : Value) : Except Fault Text := do
  let p ← expandHome s (Path.ofText ((v.plain?).getD []))
  pure (base.append p).toText

/-- A record, or the message that it is invalid. -/
def orInvalid {α : Type} (r : Except Fault α) : Job α :=
  match r with
  | .ok a => pure a
  | .error f => Job.quit 1 ("invalid input: ".toList ++ f.message)

/-- The request in a file, its paths meant from the directory of the file. -/
def loadRequest (s : Surroundings) (file : Text) : Job DataMap := do
  let path := Path.ofText file
  let m ← loadMap path "request"
  match RequestForm.violation? m with
  | some v =>
    Job.quit 1 ("request does not conform to DocumentRequest.v1.json: ".toList ++ v.message)
  | none =>
    let base := (Path.ofText (← Job.step path.toText (Script.canonical path.toText))).parent
    let put (m : DataMap) (name : String) : Job DataMap := do
      let p ← Job.orBreak (anchor s base ((Table.get? m name.toList).getD .null))
      pure (Table.insert m name.toList (.text p))
    put (← put m "template_path") "temp_dir"

/-- The settings that an option and the environment give. -/
def settingsOf (s : Surroundings) (cache : Option Text) : Except Fault Settings :=
  Settings.ofEnvironment s.environment
    ((cache.map fun c => ("cache_dir".toList, Value.text c)).toList)

/-- Makes a document from a request file. -/
def generate (s : Surroundings) (file : Text) (cache user site : Option Text) : Job Outcome := do
  let m ← loadRequest s file
  let request ← orInvalid (Request.ofMap m)
  let user ← orInvalid (User.ofMap (← loadMap? user "user"))
  let site ← orInvalid (Site.ofMap (← loadMap? site "site"))
  let settings ← orInvalid (settingsOf s cache)
  let directory := settings.cacheDirectory
  match ← Provision.directory directory with
  | .error t =>
    if t.cause = .nullCharacter then Job.abandon (.storage t)
    else
      let name := directory.toText
      Job.quit 1 ("cannot create cache dir ".toList ++ name ++ ": ".toList ++ t.message)
  | .ok () =>
    let cache ← Job.orBreak (AssetCache.ofSettings settings)
    let env : Environment := { user, site, now := s.now, settings, zone := s.zone }
    let studio := Studio.drawing s.encode settings.border
    let converter := Converter.ofProgram ⟨settings.converter, settings.converterSeconds⟩
    let g : Generator := ⟨Engine.ofStudio studio env Kind.order, s.images, some converter⟩
    let (result, _) ← g.generate cache request.provider
    match result with
    | .ok p => pure { output := "OK: ".toList ++ p.toText ++ ['\n'] }
    | .error (.failure f) => Job.quit 1 (f.message ++ " [".toList ++ f.code ++ [']'])
    | .error (.fault f) => Job.abandon f

/-- Removes expired pictures from the cache. -/
def sweep (s : Surroundings) (directory : Text) : Job Outcome := do
  let path := Path.ofText directory
  let name := path.toText
  if !(← Job.step name (Script.isDirectory name)) then
    Job.quit 2 ("cache dir not found: ".toList ++ name)
  let settings ← Job.orBreak (settingsOf s (some name))
  let cache ← Job.orBreak (AssetCache.ofSettings settings)
  let (n, _) ← cache.sweep
  let done := " expired entries removed from ".toList
  pure { output := "OK: ".toList ++ Text.ofNat n ++ done ++ name ++ ['\n'] }

/-- What is said about how the program is used. -/
def usage : Text :=
  ("usage: docgen [-h] [--log-level LEVEL] [--json-logs] " ++
    "\x7bgenerate,sweep-cache\x7d ...\n").toList

/-- Runs the program with its arguments. -/
def run (s : Surroundings) (args : List Text) : Script (Except Fault Outcome) := do
  let job : Job Outcome :=
    match invocation args with
    | .error .helpAsked => pure { errors := usage }
    | .error .misused => pure { exit := 2, errors := usage }
    | .ok i =>
      match i.command with
      | .generate request cache user site => generate s request cache user site
      | .sweep cache => sweep s cache
  match ← job.run with
  | .ok o | .error (.outcome o) => pure (.ok o)
  | .error (.fault f) => pure (.error f)

end MailMerge.CommandLine
