import MailMerge.Text.Basic
/-!
# Tokens in text

A token stands in text between a dollar sign with an opening brace and a closing brace. Its inner
text is not empty and holds no dollar sign and no brace. Tokens do not overlap, so a text is read
once from the left.

Section 4.1 of the specification: `TOKEN_PATTERN` and `find_tokens`.

Results:
* `unwrap_wrap`: unwrapping undoes wrapping.
-/
namespace MailMerge.Token

/-- What stands in front of the inner text of a token. -/
def opening : Text := ['$', '\x7b']

/-- What stands after it. -/
def closing : Char := '\x7d'

/-- Whether a character may stand inside a token. -/
def isInner (c : Char) : Bool := c != '$' && c != '\x7b' && c != '\x7d'

/-- The token as it is written in a text. -/
def wrap (inner : Text) : Text := opening ++ inner ++ [closing]

/-- The text without its wrapping, if it begins and ends like a token. -/
def unwrap (t : Text) : Text :=
  if opening.isPrefixOf t && t.getLast? = some closing then (t.drop 2).dropLast else t

/-- The inner text of the token that begins a text. -/
def at? (t : Text) : Option Text :=
  match t with
  | '$' :: '\x7b' :: r =>
    let inner := r.takeWhile isInner
    if !inner.isEmpty && (r.drop inner.length).head? = some closing then some inner else none
  | _ => none

/-- The inner texts of all tokens after the first `skip` characters. -/
def scan : (skip : Nat) → Text → List Text
  | _, [] => []
  | skip + 1, _ :: r => scan skip r
  | 0, c :: r =>
    match at? (c :: r) with
    | some inner => inner :: scan (inner.length + 2) r
    | none => scan 0 r

/-- The members of a list that have not been met before, in order. -/
def distinct {α : Type} [DecidableEq α] (l : List α) : List α :=
  l.foldl (fun seen x => if x ∈ seen then seen else seen ++ [x]) []

/-- The distinct inner texts of the tokens in a text, in the order of their first appearance. -/
def find (t : Text) : List Text := distinct (scan 0 t)

theorem unwrap_wrap (inner : Text) : unwrap (wrap inner) = inner := by
  have hl : (wrap inner).getLast? = some closing := by
    simp only [wrap, List.getLast?_concat]
  have hp : opening.isPrefixOf (wrap inner) = true := by simp [wrap, opening]
  rw [unwrap, hl, hp]
  simp [wrap, opening]

end MailMerge.Token
