import MailMerge.Storage.Path
import MailMerge.Storage.Script
/-!
# Making directories ready

A directory that holds working files is made with the directories above it, and gets two marker
files that keep a server from showing it. What is there already stays as it is.

Section 4.3 of the specification: `provision_directory`.
-/
namespace MailMerge.Provision

/-- The markers with what they hold. -/
def markers : List (Text × Text) :=
  [(".htaccess".toList, "deny from all\n".toList), ("index.html".toList, [])]

/-- The trouble with one path. -/
def about (p : Path) (c : Cause) : Trouble := ⟨c, p.toText, none⟩

/-- Whether a directory that could not be made is there already; otherwise the trouble. -/
def settle (p : Path) (c : Cause) : Script (Except Trouble Unit) := do
  match ← Script.isDirectory p.toText with
  | .ok true => pure (.ok ())
  | .ok false => pure (.error (about p c))
  | .error e => pure (.error (about p e))

/-- Makes a directory, and the missing ones above it when `above` allows so many. -/
def make : (above : Nat) → Path → Script (Except Trouble Unit)
  | above, p => do
    match ← Script.makeDirectory p.toText with
    | .ok () => pure (.ok ())
    | .error .absent =>
      match above with
      | 0 => pure (.error (about p .absent))
      | above + 1 =>
        match ← make above p.parent with
        | .error t => pure (.error t)
        | .ok () =>
          match ← Script.makeDirectory p.toText with
          | .ok () => pure (.ok ())
          | .error .absent => pure (.error (about p .absent))
          | .error c => settle p c
    | .error .nullCharacter => pure (.error (about p .nullCharacter))
    | .error c => settle p c

/-- Writes the missing ones of some markers. -/
def mark (p : Path) : List (Text × Text) → Script (Except Trouble Unit)
  | [] => pure (.ok ())
  | (name, content) :: r => do
    let marker := p.child name
    match ← Script.isThere marker.toText with
    | .error c => pure (.error (about marker c))
    | .ok true => mark p r
    | .ok false =>
      match ← Script.write marker.toText (.text content) with
      | .ok () => mark p r
      | .error _ => do
        Script.note (.warning "protection_marker_failed")
        mark p r

/-- Makes a directory ready. -/
def directory (p : Path) : Script (Except Trouble Unit) := do
  match ← Script.isThere p.toText with
  | .error c => pure (.error (about p c))
  | .ok there =>
    match ← make p.names.length p with
    | .error t => pure (.error t)
    | .ok () =>
      match ← mark p markers with
      | .error t => pure (.error t)
      | .ok () => do
        if there then pure () else Script.note (.info "directory_provisioned")
        pure (.ok ())

end MailMerge.Provision
