import MailMerge.Text.Basic
/-!
# Blank characters

The white space and separators of the Unicode standard, together with the four information
separators U+001C to U+001F. Texts are trimmed of these characters, and runs of them count as one
gap.
-/
namespace MailMerge

/-- White space in the sense of this library. -/
def isBlank (c : Char) : Bool :=
  let n := c.toNat
  (9 ≤ n && n ≤ 13) || (28 ≤ n && n ≤ 32) || n == 0x85 || n == 0xA0 || n == 0x1680 ||
  (0x2000 ≤ n && n ≤ 0x200A) || n == 0x2028 || n == 0x2029 || n == 0x202F || n == 0x205F ||
  n == 0x3000

/-- The text without the blanks at both ends. -/
def Text.trim (t : Text) : Text := t.trimBy isBlank

end MailMerge
