import MailMerge.Text.Printable
/-!
# Quoted text

How a text is shown in messages: between single quotes, or between double quotes when it holds a
single quote and no double quote. The backslash and the quote in use are escaped by a backslash;
line feed, carriage return and tab have letters; other characters that are not printable are
written by their code in the shortest of the forms `\xhh`, `\uhhhh` and `\Uhhhhhhhh`.
-/
namespace MailMerge.Text

/-- The quotation mark that fits a text. -/
def quoteFor (t : Text) : Char := if t.contains '\'' && !t.contains '"' then '"' else '\''

/-- The code of a character in hexadecimal digits, with at least `width` of them. -/
def hexCode (width : Nat) (c : Char) : Text := padLeft width '0' (Nat.toDigits 16 c.toNat)

/-- One character inside quotation marks `q`. -/
def quoteChar (q c : Char) : Text :=
  if c = q || c = '\\' then ['\\', c]
  else if c = '\n' then "\\n".toList
  else if c = '\r' then "\\r".toList
  else if c = '\t' then "\\t".toList
  else if isPrintable c then [c]
  else if c.toNat < 0x100 then "\\x".toList ++ hexCode 2 c
  else if c.toNat < 0x10000 then "\\u".toList ++ hexCode 4 c
  else "\\U".toList ++ hexCode 8 c

/-- The text as it is shown in messages. -/
def quoted (t : Text) : Text := let q := quoteFor t; q :: t.flatMap (quoteChar q) ++ [q]

end MailMerge.Text
