import MailMerge.Text.Basic
/-!
# Characters of XML documents

The `Char` production of XML 1.0: tab, line feed, carriage return and everything from the blank
upward except surrogates and the two non-characters U+FFFE and U+FFFF. Only these can be stored in
a document.
-/
namespace MailMerge

/-- Whether an XML document can hold the character. -/
def isXmlChar (c : Char) : Bool :=
  let n := c.toNat
  (32 ≤ n || n == 9 || n == 10 || n == 13) && n != 0xFFFE && n != 0xFFFF

/-- The text without the characters that a document cannot hold. -/
def Text.xmlOnly (t : Text) : Text := t.filter isXmlChar

theorem Text.xmlOnly_eq_self_iff (t : Text) : t.xmlOnly = t ↔ ∀ c ∈ t, isXmlChar c := by
  simp [Text.xmlOnly, List.filter_eq_self]

end MailMerge
