import MailMerge.Record.Request
/-!
# The form of a request file

A request that comes from a file must have the form that is agreed on: which fields there are, which
of them must be there, and what each may hold. Of several violations the one that is told is the
first of those that lie the least deep.

Section 8 of the specification: the contract of request files.
-/
namespace MailMerge.RequestForm

/-- The types of values in files. -/
inductive JsonType where
  | string
  | number
  | integer
  | object
  | null
  deriving DecidableEq, Repr

namespace JsonType

/-- The name of the type. -/
def name : JsonType → Text
  | .string => "string".toList
  | .number => "number".toList
  | .integer => "integer".toList
  | .object => "object".toList
  | .null => "null".toList

/-- Whether a value is of the type. -/
def holds : JsonType → Value → Bool
  | .string, .text _ => true
  | .number, .int _ | .number, .float _ => true
  | .integer, .int _ => true
  | .integer, .float x => match x.fraction? with
    | some (_, a, b) => a % b = 0
    | none => false
  | .object, .map _ => true
  | .null, .null => true
  | _, _ => false

end JsonType

/-- A way in which a request breaks the form, and how deep it lies. -/
structure Violation where
  depth : Nat
  message : Text
  deriving DecidableEq, Repr

/-- A value as it is quoted. -/
def shown (v : Value) : Text := (v.shown?).getD unwritableMessage

/-- Texts as they are quoted, between commas. -/
def quotedList (ts : List Text) : Text := Text.join ", ".toList (ts.map Text.quoted)

/-- The violation of a value that is of none of some types. -/
def typeViolations (depth : Nat) (types : List JsonType) (v : Value) : List Violation :=
  if types.any (·.holds v) then []
  else [⟨depth, shown v ++ " is not of type ".toList ++ quotedList (types.map (·.name))⟩]

/-- The fields that must be there. -/
def required : List Text := ["template_path", "output_filename", "temp_dir"].map String.toList

/-- The fields that may be there. -/
def known : List Text :=
  ["schema_id", "schema_version", "template_path", "output_filename", "output_format", "temp_dir",
    "data"].map String.toList

/-- The pattern of versions, as it is quoted. -/
def versionPattern : Text := "^1\\.[0-9]+\\.[0-9]+$".toList

/-- Whether a text is a version: a one and two more numbers, with a dot between each two. A line
feed may stand behind it. -/
def isVersion (t : Text) : Bool :=
  let t := if t.getLast? = some '\n' then t.dropLast else t
  match Text.splitOn '.' t with
  | [a, b, c] => a = ['1'] && [b, c].all fun ds => !ds.isEmpty && ds.all (·.isDigit)
  | _ => false

/-- The violations of a text that must not be empty. -/
def emptyViolations (v : Value) : List Violation :=
  match v with
  | .text [] => [⟨1, "'' should be non-empty".toList⟩]
  | _ => []

/-- The violations inside a field. -/
def fieldViolations (name : Text) (v : Value) : List Violation :=
  let isText := typeViolations 1 [.string] v
  if name = "schema_id".toList then
    if v matches .text _ && v.plain? = some "DocumentRequest".toList then []
    else [⟨1, "'DocumentRequest' was expected".toList⟩]
  else if name = "schema_version".toList then
    isText ++ match v with
      | .text t =>
        if isVersion t then []
        else [⟨1, t.quoted ++ " does not match ".toList ++ versionPattern.quoted⟩]
      | _ => []
  else if name = "output_filename".toList then isText
  else if name = "output_format".toList then
    let formats := [OutputFormat.docx, .odt, .pdf].map (·.name)
    isText ++
      if v matches .text _ && formats.any (fun f => v.plain? = some f) then []
      else [⟨1, shown v ++ " is not one of [".toList ++ quotedList formats ++ [']']⟩]
  else if name = "data".toList then
    typeViolations 1 [.object] v ++ match v with
      | .map es =>
        es.flatMap fun e => typeViolations 2 [.string, .number, .integer, .object, .null] e.2
      | _ => []
  else isText ++ emptyViolations v

/-- The violations of fields that nobody knows. -/
def excessViolations (m : DataMap) : List Violation :=
  let excess := ((Table.keys m).filter (· ∉ known)).mergeSort fun a b => !(b < a)
  let verb := if excess.length = 1 then " was" else " were"
  if excess.isEmpty then []
  else
    [⟨0, "Additional properties are not allowed (".toList ++ quotedList excess ++ verb.toList ++
      " unexpected)".toList⟩]

/-- All violations in order. -/
def violations (m : DataMap) : List Violation :=
  let missing := required.filter (!Table.has m ·)
  missing.map (fun n => ⟨0, n.quoted ++ " is a required property".toList⟩) ++ excessViolations m ++
    known.flatMap fun n => ((Table.get? m n).map (fieldViolations n)).getD []

/-- The violation that is told. -/
def violation? (m : DataMap) : Option Violation :=
  let vs := violations m
  (List.range 3).findSome? fun depth => vs.find? (·.depth = depth)

end MailMerge.RequestForm
