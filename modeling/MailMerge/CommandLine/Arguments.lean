import MailMerge.Storage.Script
import MailMerge.Text.LowerCase
/-!
# Arguments

What the arguments of the program say. Options may be shortened as long as only one fits, values
follow an option or are joined to it, and what stands after the command belongs to the command.
Arguments that make no sense are refused; a question for help ends the reading at once.

Section 6 of the specification: the commands `generate` and `sweep-cache` and what they take.
-/
namespace MailMerge.CommandLine

/-- An option: its names, and whether it has a value. -/
structure Choice where
  names : List Text
  hasValue : Bool := true
  deriving DecidableEq, Repr

/-- The question for help. -/
def help : Choice := { names := ["-h", "--help"].map String.toList, hasValue := false }

/-- Why the reading of arguments ended early. -/
inductive Refusal where
  | helpAsked
  | misused
  deriving DecidableEq, Repr

/-- A text that is joined to an option, and whether an equals sign stands between them. -/
structure Joined where
  sign : Bool
  text : Text
  deriving DecidableEq, Repr

/-- What an argument is. -/
inductive Word where
  | plain (t : Text)
  | separator
  | option (c : Choice) (name : Text) (joined : Option Joined)
  | unknown
  deriving DecidableEq, Repr

/-- The option of a name. -/
def choiceOf? (cs : List Choice) (name : Text) : Option Choice := cs.find? (name ∈ ·.names)

/-- A text cut at its first equals sign. -/
def cutJoined (t : Text) : Text × Option Joined :=
  let (start, rest) := Text.cut '=' t
  (start, rest.map fun v => ⟨true, v⟩)

/-- The options that a shortened argument may mean. -/
def candidates (cs : List Choice) (t : Text) : List Word :=
  let named := cs.flatMap fun c => c.names.map fun n => (c, n)
  match t with
  | '-' :: '-' :: _ =>
    let (start, joined) := cutJoined t
    named.filterMap fun (c, n) => if start.isPrefixOf n then some (.option c n joined) else none
  | _ =>
    named.filterMap fun (c, n) =>
      if n = t.take 2 then some (.option c n (some ⟨false, t.drop 2⟩))
      else if t.isPrefixOf n then some (.option c n none)
      else none

/-- Whether an argument is a negative number. -/
def isNegativeNumber (t : Text) : Bool :=
  match t with
  | '-' :: r =>
    let (whole, part) := Text.cut '.' r
    (whole ++ part.getD []).all (·.isDigit) &&
      (if part.isSome then part != some [] else whole != [])
  | _ => false

/-- What an argument is; shortened options that may mean several things are refused. -/
def wordOf (cs : List Choice) (t : Text) : Except Refusal Word :=
  match t with
  | '-' :: _ :: _ =>
    match choiceOf? cs t with
    | some c => .ok (.option c t none)
    | none =>
      let (start, joined) := cutJoined t
      match joined, choiceOf? cs start with
      | some v, some c => .ok (.option c start (some v))
      | _, _ =>
        match candidates cs t with
        | [w] => .ok w
        | _ :: _ => .error .misused
        | [] =>
          if isNegativeNumber t || t.contains ' ' then .ok (.plain t) else .ok .unknown
  | _ => .ok (.plain t)

/-- What arguments are. After a separator all of them are plain. -/
def wordsOf (cs : List Choice) : List Text → Except Refusal (List Word)
  | [] => .ok []
  | t :: r =>
    if t = ['-', '-'] then .ok (.separator :: r.map .plain)
    else do
      let w ← wordOf cs t
      let ws ← wordsOf cs r
      .ok (w :: ws)

/-- The options given, each with its value, the latest last. -/
abbrev Given := List (Choice × Text)

/-- What one argument with options gives. -/
structure Cluster where
  given : Given := []
  /-- The last option, when it takes the next argument as its value. -/
  open? : Option Choice := none
  /-- Whether it ends in letters that are no options. -/
  excess : Bool := false

/-- What single-letter options joined in one argument give: letters after an option without a value
are further options. -/
def letters (cs : List Choice) : (fuel : Nat) → Choice → Text → Option Joined →
    Except Refusal Cluster
  | 0, _, _, _ => .error .misused
  | fuel + 1, c, name, joined =>
    match joined with
    | none => if c.hasValue then .ok { open? := some c } else .ok { given := [(c, [])] }
    | some v =>
      if c.hasValue then .ok { given := [(c, v.text)] }
      else match v.text with
        | [] => .error .misused
        | e :: more =>
          if v.sign || e = '-' || ['-', '-'].isPrefixOf name then .error .misused
          else match choiceOf? cs ['-', e] with
            | none => .ok { given := [(c, [])], excess := true }
            | some c' => do
              let rest := match more with
                | [] => none
                | '=' :: r => some ⟨true, r⟩
                | r => some ⟨false, r⟩
              let k ← letters cs fuel c' ['-', e] rest
              .ok { k with given := (c, []) :: k.given }

/-- What was read up to the first plain argument: the options given, whether an argument made no
sense, and how many arguments were read. -/
structure Front where
  given : Given := []
  excess : Bool := false
  read : Nat := 0
  deriving Repr

/-- The front with what one more argument, or two, gave. -/
def Front.add (f : Front) (k : Cluster) (n : Nat) : Except Refusal Front :=
  if k.given.any (·.1 = help) then .error .helpAsked
  else .ok ⟨f.given ++ k.given, f.excess || k.excess, f.read + n⟩

/-- Reads options. Plain arguments end the reading when `stop` is set, and make no sense else. -/
def readOptions (cs : List Choice) (stop : Bool) : Front → List Word → Except Refusal Front
  | f, [] => .ok f
  | f, .plain _ :: r =>
    if stop then .ok f else readOptions cs stop { f with excess := true, read := f.read + 1 } r
  | f, .separator :: r =>
    if stop then .error .misused
    else readOptions cs stop { f with excess := true, read := f.read + 1 } r
  | f, .unknown :: r => readOptions cs stop { f with excess := true, read := f.read + 1 } r
  | f, .option c name joined :: r => do
    let k ← letters cs ((joined.elim 0 (·.text.length)) + 2) c name joined
    match k.open?, r with
    | none, r => do
      let f ← f.add k 1
      readOptions cs stop f r
    | some c', .plain v :: r => do
      let f ← f.add { k with given := k.given ++ [(c', v)] } 2
      readOptions cs stop f r
    | some _, _ => .error .misused

/-- The options of the program. -/
def programChoices : List Choice :=
  [help, ⟨["--log-level".toList], true⟩, ⟨["--json-logs".toList], false⟩]

/-- The options of the command that makes a document. -/
def generateChoices : List Choice :=
  [help, ⟨["--request", "-r"].map String.toList, true⟩, ⟨["--cache-dir".toList], true⟩,
    ⟨["--user-json".toList], true⟩, ⟨["--site-json".toList], true⟩]

/-- The options of the command that empties the cache. -/
def sweepChoices : List Choice := [help, ⟨["--cache-dir".toList], true⟩]

/-- The value of an option, the last one counting. -/
def valueOf? (given : Given) (name : String) : Option Text :=
  (given.reverse.find? fun g => name.toList ∈ g.1.names).map (·.2)

/-- What the program is to do. -/
inductive Command where
  | generate (request : Text) (cache user site : Option Text)
  | sweep (cache : Text)
  deriving DecidableEq, Repr

/-- The weights of the levels by name. -/
def weights : List (Text × Nat) :=
  [("CRITICAL", 50), ("FATAL", 50), ("ERROR", 40), ("WARN", 30), ("WARNING", 30), ("INFO", 20),
    ("DEBUG", 10), ("NOTSET", 0)].map fun p => (p.1.toList, p.2)

/-- The weight of a level. -/
def weight : Level → Nat
  | .info => 20
  | .warning => 30
  | .error => 40

/-- What the arguments of the program say. -/
structure Invocation where
  command : Command
  /-- The least weight of events that are told. -/
  least : Nat := 30
  jsonLogs : Bool := false
  deriving Repr

/-- Whether an event is told. -/
def Invocation.tells (i : Invocation) (e : Event) : Bool := i.least ≤ weight e.level

/-- The options of a command, if nothing else was given. -/
def commandOptions (cs : List Choice) (args : List Text) : Except Refusal Front := do
  readOptions cs false {} (← wordsOf cs args)

/-- The command of a name and its arguments. -/
def commandOf (name : Text) (args : List Text) : Except Refusal Command := do
  if name = "generate".toList then
    let f ← commandOptions generateChoices args
    match valueOf? f.given "--request", f.excess with
    | some r, false =>
      .ok (.generate r (valueOf? f.given "--cache-dir") (valueOf? f.given "--user-json")
        (valueOf? f.given "--site-json"))
    | _, _ => .error .misused
  else if name = "sweep-cache".toList then
    let f ← commandOptions sweepChoices args
    match valueOf? f.given "--cache-dir", f.excess with
    | some d, false => .ok (.sweep d)
    | _, _ => .error .misused
  else .error .misused

/-- What the arguments of the program say. -/
def invocation (args : List Text) : Except Refusal Invocation := do
  let words ← wordsOf programChoices args
  let f ← readOptions programChoices true {} words
  match args.drop f.read with
  | name :: rest =>
    let command ← commandOf name rest
    if f.excess then .error .misused
    else
      let level := (valueOf? f.given "--log-level").map fun t => t.map Char.toUpper
      .ok { command := command
            least := match level with
              | none => 30
              | some l => (weights.lookup l).getD 20
            jsonLogs := (valueOf? f.given "--json-logs").isSome }
  | [] => .error .misused

end MailMerge.CommandLine
