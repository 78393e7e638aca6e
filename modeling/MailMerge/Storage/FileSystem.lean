import MailMerge.Storage.Path
import MailMerge.Storage.Content
/-!
# File systems

A file system is a table from places to nodes, a place being the names on the way from the root:
directories, files with the time of their last change, and symbolic links. Paths are followed name
by name; a link is replaced by its target, at most forty times on one way. Every operation is one
atomic step that either succeeds or names the cause of its failure and changes nothing.

Results:
* `get?_put`, `get?_drop`: what stands at a place after a node was put there or dropped.
-/
namespace MailMerge

/-- A time in microseconds since the beginning of 1970. Clocks and files are taken to show times of the
calendar only, which ends with the year 9999. -/
abbrev Time := Int

/-- The names on the way from the root. -/
abbrev Place := List Text

/-- What stands at a place. -/
inductive Node where
  | directory (modified : Time)
  | file (content : Content) (modified : Time) (executable : Bool)
  | link (target : Text)
  deriving Repr

/-- Why a step on a file system failed. A machine may have other causes, which it describes. -/
inductive Cause where
  | absent
  | present
  | notDirectory
  | isDirectory
  | notEmpty
  | nameTooLong
  | tooManyLinks
  | notProgram
  | nullCharacter
  | other (code : Nat) (description : String)
  deriving DecidableEq, Repr

/-- A file system with its current directory. -/
structure FileSystem where
  nodes : Table Place Node := []
  current : Place := []
  deriving Repr

/-- What can be told about a place without opening it. -/
structure Status where
  isDirectory : Bool
  modified : Time
  executable : Bool
  deriving DecidableEq, Repr

namespace FileSystem

/-- The greatest number of bytes of a name. -/
def maxName : Nat := 255

/-- The greatest number of bytes of a path. -/
def maxPath : Nat := 4095

/-- The greatest number of links on one way. -/
def maxLinks : Nat := 40

/-- The node at a place; the root is a directory. -/
def get? (fs : FileSystem) (at' : Place) : Option Node :=
  if at'.isEmpty then some (.directory 0) else Table.get? fs.nodes at'

/-- The names to follow for a path, and whether they begin at the root. A slash at the end asks for
a directory, like a last name `.` does. -/
def steps (t : Text) : Bool × List Text :=
  let names := (Text.splitOn '/' t).filter (!·.isEmpty)
  (t.head? = some '/', if t.getLast? = some '/' then names ++ [['.']] else names)

/-- The place reached from a directory by following names, `links` links still being allowed. The
last name may be missing; a link under it is followed when `follow` is set. -/
def walk (fs : FileSystem) (follow : Bool) (links : Nat) (at' : Place) : List Text →
    Except Cause Place
  | [] => .ok at'
  | n :: rest =>
    if maxName < Text.byteLength n then .error .nameTooLong
    else if n = ['.'] then walk fs follow links at' rest
    else if n = ['.', '.'] then walk fs follow links at'.dropLast rest
    else
      let here := at' ++ [n]
      match fs.get? here with
      | none => if rest.isEmpty then .ok here else .error .absent
      | some (.directory _) => walk fs follow links here rest
      | some (.file ..) => if rest.isEmpty then .ok here else .error .notDirectory
      | some (.link target) =>
        if rest.isEmpty && !follow then .ok here
        else match links with
          | 0 => .error .tooManyLinks
          | links + 1 =>
            let (fromRoot, names) := steps target
            walk fs follow links (if fromRoot then [] else at') (names ++ rest)
termination_by names => (links, names.length)

/-- The place that a path means. -/
def locate (fs : FileSystem) (follow : Bool) (t : Text) : Except Cause Place :=
  if t.contains '\x00' then .error .nullCharacter
  else if t.isEmpty then .error .absent
  else if maxPath < Text.byteLength t then .error .nameTooLong
  else
    let (fromRoot, names) := steps t
    walk fs follow maxLinks (if fromRoot then [] else fs.current) names

/-- The node that a path means, with its place. -/
def find (fs : FileSystem) (follow : Bool) (t : Text) : Except Cause (Place × Node) := do
  let p ← locate fs follow t
  match fs.get? p with
  | some n => .ok (p, n)
  | none => .error .absent

/-- The file system with a node put at a place. -/
def put (fs : FileSystem) (p : Place) (n : Node) : FileSystem :=
  { fs with nodes := Table.insert fs.nodes p n }

/-- The file system without the node at a place. -/
def drop (fs : FileSystem) (p : Place) : FileSystem := { fs with nodes := Table.erase fs.nodes p }

/-- The names of the nodes in a directory. -/
def children (fs : FileSystem) (p : Place) : List Text :=
  fs.nodes.filterMap fun (q, _) =>
    if q.dropLast = p && !q.isEmpty then q.getLast? else none

/-- What can be told about what a path means. -/
def status (fs : FileSystem) (t : Text) : Except Cause Status := do
  match (← find fs true t).2 with
  | .directory m => .ok ⟨true, m, true⟩
  | .file _ m x => .ok ⟨false, m, x⟩
  | .link _ => .error .absent

/-- The path from the root, without links, of what a path means. -/
def canonical (fs : FileSystem) (t : Text) : Except Cause Text := do
  let p ← locate fs true t
  .ok ('/' :: Text.join ['/'] p)

/-- The names in a directory. -/
def list (fs : FileSystem) (t : Text) : Except Cause (List Text) := do
  match ← find fs true t with
  | (p, .directory _) => .ok (fs.children p)
  | _ => .error .notDirectory

/-- What a file holds. -/
def read (fs : FileSystem) (t : Text) : Except Cause Content := do
  match (← find fs true t).2 with
  | .file c _ _ => .ok c
  | .directory _ => .error .isDirectory
  | .link _ => .error .absent

/-- Makes an empty file where there is nothing. -/
def create (fs : FileSystem) (now : Time) (t : Text) : Except Cause FileSystem := do
  let p ← locate fs false t
  match fs.get? p with
  | some _ => .error .present
  | none => .ok (fs.put p (.file (.text []) now false))

/-- Writes a file, making it where there is nothing. -/
def write (fs : FileSystem) (now : Time) (t : Text) (c : Content) : Except Cause FileSystem := do
  let p ← locate fs true t
  match fs.get? p with
  | some (.directory _) => .error .isDirectory
  | some (.file _ _ x) => .ok (fs.put p (.file c now x))
  | _ => .ok (fs.put p (.file c now false))

/-- Writes into a file that was made before and is still held open. When the file has lost its name,
nothing of it can be seen any more. -/
def fill (fs : FileSystem) (now : Time) (t : Text) (c : Content) : FileSystem :=
  match find fs false t with
  | .ok (p, .file _ _ x) => fs.put p (.file c now x)
  | _ => fs

/-- Removes a file or a link. -/
def remove (fs : FileSystem) (t : Text) : Except Cause FileSystem := do
  match ← find fs false t with
  | (_, .directory _) => .error .isDirectory
  | (p, _) => .ok (fs.drop p)

/-- Moves a file or a link to another name, replacing the file or link there. -/
def rename (fs : FileSystem) (a b : Text) : Except Cause FileSystem := do
  let (p, n) ← find fs false a
  let q ← locate fs false b
  match n, fs.get? q with
  | .directory _, _ => .error .notDirectory
  | _, some (.directory _) => .error .isDirectory
  | _, _ => if p = q then .ok fs else .ok ((fs.drop p).put q n)

/-- Makes a directory where there is nothing. -/
def makeDirectory (fs : FileSystem) (now : Time) (t : Text) : Except Cause FileSystem := do
  let p ← locate fs false t
  match fs.get? p with
  | some _ => .error .present
  | none => .ok (fs.put p (.directory now))

/-- Removes a directory with everything in it. -/
def removeTree (fs : FileSystem) (t : Text) : Except Cause FileSystem := do
  match ← find fs false t with
  | (p, .directory _) => .ok { fs with nodes := fs.nodes.filter fun e => !p.isPrefixOf e.1 }
  | _ => .error .notDirectory

theorem get?_put (fs : FileSystem) (p q : Place) (n : Node) (h : p ≠ []) :
    (fs.put p n).get? q = if p = q then some n else fs.get? q := by
  by_cases hq : q = []
  · subst hq; simp [get?, h]
  · simp [get?, put, hq, Table.get?_insert]

theorem get?_drop (fs : FileSystem) (p q : Place) (h : p ≠ []) :
    (fs.drop p).get? q = if p = q then none else fs.get? q := by
  by_cases hq : q = []
  · subst hq; simp [get?, h]
  · simp [get?, drop, hq, Table.get?_erase]

end FileSystem
end MailMerge
