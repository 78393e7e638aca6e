import MailMerge.Text.Blank
/-!
# Names of documents

A document is named after a title: blanks become dashes, and of the other characters only letters
and digits without accents, dots, underscores and dashes stay. The name does not begin with a dot or
a dash, and is never empty.

Section 4.6 of the specification: the sanitation of output file names.
-/
namespace MailMerge.OutputName

/-- Whether a character may stand in a name. -/
def isNameChar (c : Char) : Bool := c.isAlphanum || c == '.' || c == '_' || c == '-'

/-- Whether a character may not begin a name. -/
def isLeading (c : Char) : Bool := c == '.' || c == '-'

/-- The name of a document without a title. -/
def usual : Text := "document".toList

/-- The text with each run of blanks made into one dash. -/
def dashBlanks : Text → Text
  | [] => []
  | c :: r =>
    if isBlank c then
      match r with
      | d :: _ => if isBlank d then dashBlanks r else '-' :: dashBlanks r
      | [] => ['-']
    else c :: dashBlanks r

/-- The name made from a title. -/
def ofTitle (t : Text) : Text :=
  let name := ((dashBlanks t.trim).filter isNameChar).dropWhile isLeading
  if name.isEmpty then usual else name

end MailMerge.OutputName
