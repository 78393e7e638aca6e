import MailMerge.Phrase
import MailMerge.Storage.FileSystem
import MailMerge.Text.Utf8
/-!
# Faults

Causes that break off what the library is doing: numbers too long for text, days outside the
calendar, steps on the file system that fail, texts and sizes a document cannot store, and failures
of the programs and renderers that the library calls.
-/
namespace MailMerge

namespace Cause

/-- The number of the cause. -/
def code : Cause → Nat
  | .absent => 2
  | .notProgram => 8
  | .present => 17
  | .notDirectory => 20
  | .isDirectory => 21
  | .nameTooLong => 36
  | .notEmpty => 39
  | .tooManyLinks => 40
  | .nullCharacter => 22
  | .other code _ => code

/-- The description of the cause. -/
def description : Cause → String
  | .absent => "No such file or directory"
  | .notProgram => "Exec format error"
  | .present => "File exists"
  | .notDirectory => "Not a directory"
  | .isDirectory => "Is a directory"
  | .nameTooLong => "File name too long"
  | .notEmpty => "Directory not empty"
  | .tooManyLinks => "Too many levels of symbolic links"
  | .nullCharacter => "Invalid argument"
  | .other _ description => description

end Cause

/-- A failed step on the file system, with the path it was about and, for a move, its target. -/
structure Trouble where
  cause : Cause
  path : Text
  target : Option Text := none
  deriving DecidableEq, Repr

/-- What is said about a failed step. -/
def Trouble.message (t : Trouble) : Text :=
  if t.cause = .nullCharacter then "embedded null byte".toList
  else
    "[Errno ".toList ++ Text.ofNat t.cause.code ++ "] ".toList ++ t.cause.description.toList ++
      ": ".toList ++ t.path.quoted ++ (t.target.elim [] fun q => " -> ".toList ++ q.quoted)

/-- Why a value does not fit a field. -/
inductive MisfitKind where
  | missing
  | noText
  | noWhole
  | unreadableWhole
  | tooLongWhole
  | brokenWhole
  | notFinite
  | noNumber
  | unreadableNumber
  | noTruth
  | unreadableTruth
  | noChoice
  | notGreater
  | less
  | noList
  | noMap
  | noPath
  | noRecord
  deriving DecidableEq, Repr

/-- The name of the kind. -/
def MisfitKind.name : MisfitKind → Text
  | .missing => "missing".toList
  | .noText => "string_type".toList
  | .noWhole => "int_type".toList
  | .unreadableWhole => "int_parsing".toList
  | .tooLongWhole => "int_parsing_size".toList
  | .brokenWhole => "int_from_float".toList
  | .notFinite => "finite_number".toList
  | .noNumber => "float_type".toList
  | .unreadableNumber => "float_parsing".toList
  | .noTruth => "bool_type".toList
  | .unreadableTruth => "bool_parsing".toList
  | .noChoice => "enum".toList
  | .notGreater => "greater_than".toList
  | .less => "greater_than_equal".toList
  | .noList => "list_type".toList
  | .noMap => "dict_type".toList
  | .noPath => "path_type".toList
  | .noRecord => "model_type".toList

/-- A field of a record, or a place in it, that does not hold what it should. -/
structure Misfit where
  place : List Text
  kind : MisfitKind
  deriving DecidableEq, Repr

/-- A cause that breaks off what the library is doing. -/
inductive Fault where
  | unwritableNumber
  | unreadableNumber (digits : Nat)
  | outOfCalendar
  | beforeCalendar
  | afterCalendar
  | storage (t : Trouble)
  | notAnImage
  | notStorable
  | sizeOutOfRange (n : Nat)
  | quotientTooLarge
  | divisionByZero
  | durationOutOfRange (days : Int)
  | notANumber
  | unboundedNumber
  | waitTooLong (milliseconds : Nat)
  | unknownLevel (name : Text)
  | emptyPicture
  | alreadyThere (path : Text)
  | emptySymbol
  | raised (message : Text)
  | badEncoding (e : Utf8Error)
  | noHome
  | tooDeep (list : Bool)
  | invalidRecord (record : Text) (misfits : List Misfit)
  deriving Repr

namespace Fault

/-- The fault behind a date that cannot be put into words. -/
def ofDate : DateFault → Fault
  | .outOfCalendar => .outOfCalendar
  | .beforeCalendar => .beforeCalendar
  | .afterCalendar => .afterCalendar

/-- The smallest and greatest sizes that a document stores. -/
def sizeRange : Text := "0 to 27273042316900".toList

/-- The greatest number of nanoseconds in a span of time that is waited for. -/
def greatestTimestamp : Nat := 9223372036854775807

/-- What is said about a fault. -/
def message : Fault → Text
  | .unwritableNumber => unwritableMessage
  | .unreadableNumber n =>
    "Exceeds the limit (4300 digits) for integer string conversion: value has ".toList ++
      Text.ofNat n ++ " digits; use sys.set_int_max_str_digits() to increase the limit".toList
  | .outOfCalendar => "date value out of range".toList
  | .beforeCalendar => "year 0 is out of range".toList
  | .afterCalendar => "year 10000 is out of range".toList
  | .storage t => t.message
  | .notAnImage => []
  | .notStorable =>
    ("All strings must be XML compatible: Unicode or ASCII, no NULL bytes or control " ++
      "characters").toList
  | .sizeOutOfRange n =>
    match intText? n with
    | some t => "value must be in range ".toList ++ sizeRange ++ " inclusive, got ".toList ++ t
    | none => unwritableMessage
  | .divisionByZero => "division by zero".toList
  | .quotientTooLarge => "integer division result too large for a float".toList
  | .durationOutOfRange days =>
    if 2147483647 < days.natAbs then "Python int too large to convert to C int".toList
    else "days=".toList ++ Text.ofInt days ++ "; must have magnitude <= 999999999".toList
  | .notANumber => "cannot convert float NaN to integer".toList
  | .unboundedNumber => "cannot convert float infinity to integer".toList
  | .waitTooLong n =>
    if greatestTimestamp < n * 1000000 then
      "timestamp too large to convert to C _PyTime_t".toList
    else "timeout is too large".toList
  | .unknownLevel name => name.quoted
  | .emptyPicture => "height and width must be > 0".toList
  | .alreadyThere p => "Destination path '".toList ++ p ++ "' already exists".toList
  | .emptySymbol => "integer division or modulo by zero".toList
  | .raised m => m
  | .badEncoding e => e.message
  | .tooDeep list =>
    "maximum recursion depth exceeded while decoding a JSON ".toList ++
      (if list then "array" else "object").toList ++ " from a unicode string".toList
  | .noHome => "Could not determine home directory.".toList
  | .invalidRecord record misfits =>
    Text.ofNat misfits.length ++ " validation error".toList ++
      (if misfits.length = 1 then [] else ['s']) ++ " for ".toList ++ record

end Fault
end MailMerge
