import MailMerge.Text.Basic
/-!
# Paths

A path is a root, if it has one, and the names on the way. Reading a path drops repeated slashes
and the name `.`; the name `..` stays, because what it means depends on links. Two slashes in front
make a root of their own.
-/
namespace MailMerge

/-- A path in a file system. -/
structure Path where
  root : Text := []
  names : List Text := []
  deriving DecidableEq, Repr

instance : Inhabited Path := ⟨{}⟩

namespace Path

/-- The names between the slashes of a text. -/
def namesOf (t : Text) : List Text :=
  (Text.splitOn '/' t).filter fun n => !n.isEmpty && n ≠ ['.']

/-- The path that a text writes. -/
def ofText (t : Text) : Path :=
  let slashes := (t.takeWhile (· == '/')).length
  { root := if slashes = 0 then [] else if slashes = 2 then ['/', '/'] else ['/']
    names := namesOf t }

/-- The written form of a path; the empty path is the current directory. -/
def toText (p : Path) : Text :=
  if p.root.isEmpty && p.names.isEmpty then ['.'] else p.root ++ Text.join ['/'] p.names

/-- Whether the path begins at a root. -/
def isAbsolute (p : Path) : Bool := !p.root.isEmpty

/-- The path of `q` seen from `p`. -/
def append (p q : Path) : Path := if q.isAbsolute then q else { p with names := p.names ++ q.names }

/-- The path of a name inside a directory. -/
def child (p : Path) (name : Text) : Path := { p with names := p.names ++ [name] }

/-- The path without its last name. -/
def parent (p : Path) : Path := { p with names := p.names.dropLast }

/-- The last name, empty when there is none. -/
def name (p : Path) : Text := p.names.getLastD []

/-- The last name cut before its last dot; a dot at either end of the name does not count. -/
def splitName (p : Path) : Text × Text :=
  let n := p.name
  let tail := (n.reverse.takeWhile (· != '.')).reverse
  let stem := n.take (n.length - tail.length - 1)
  if n.contains '.' && !tail.isEmpty && !stem.isEmpty then (stem, '.' :: tail) else (n, [])

/-- The last name without its ending. -/
def stem (p : Path) : Text := p.splitName.1

/-- The ending of the last name with its dot, empty when there is none. -/
def ending (p : Path) : Text := p.splitName.2

end Path
end MailMerge
