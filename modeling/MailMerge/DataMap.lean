import MailMerge.Placeholder.Token
import MailMerge.Text.Xml
import MailMerge.Value
/-!
# Data maps

The values of a request stand under keys, which may be written like tokens. Before a request is
worked on, its texts lose the characters that a document cannot hold, and its keys their wrapping.

Section 4.6 of the specification, step 1, and section 4.4, step 1: the sanitizing of texts and the
normalizing of keys.
-/
namespace MailMerge

namespace Value

mutual

/-- The value without the characters that a document cannot hold. Texts inside lists stay as they
are, since lists are not put into documents. -/
def xmlOnly : Value → Value
  | .text t => .text t.xmlOnly
  | .map es => .map (xmlOnlyEntries es)
  | v => v

/-- The entries of a map with their values cleaned. -/
def xmlOnlyEntries : List (Text × Value) → List (Text × Value)
  | [] => []
  | (k, v) :: r => (k, xmlOnly v) :: xmlOnlyEntries r

end

theorem xmlOnlyEntries_eq_map (es : List (Text × Value)) :
    xmlOnlyEntries es = es.map fun e => (e.1, e.2.xmlOnly) := by
  induction es with
  | nil => rfl
  | cons e r ih => simp [xmlOnlyEntries, ih]

end Value

namespace DataMap

/-- The data with the characters removed that a document cannot hold. -/
def xmlOnly (m : DataMap) : DataMap := Value.xmlOnlyEntries m

/-- The data under unwrapped keys; of the values under one key the last counts. -/
def unwrapKeys (m : DataMap) : DataMap := Table.ofList (m.map fun e => (Token.unwrap e.1, e.2))

/-- The data with those of `upper` put over them. -/
def overlay (m upper : DataMap) : DataMap := upper.foldl (fun m e => Table.insert m e.1 e.2) m

end DataMap
end MailMerge
