import MailMerge.Document.Model
import MailMerge.Symbol.Bitmap
import MailMerge.Text.Utf8
/-!
# What files hold

The library tells apart texts, other bytes, documents, images, drawn bitmaps, archives that are no
documents, and programs that convert documents. A file that is still being written holds a fragment.
-/
namespace MailMerge

/-- How a converting program behaves: whether it ever ends, with which code, what it makes, and what
it says on the way, as results and as errors. -/
structure ConverterProgram where
  exit : Nat := 0
  makes : Option Text := none
  hangs : Bool := false
  output : List UInt8 := []
  complaint : List UInt8 := []
  deriving DecidableEq, Repr

/-- What the program says, as text. -/
def ConverterProgram.said (p : ConverterProgram) : Except Utf8Error (Text × Text) := do
  let output ← Utf8.decode p.output
  let complaint ← Utf8.decode p.complaint
  pure (output, complaint)

/-- What a file holds. -/
inductive Content where
  | text (t : Text)
  | bytes (b : List UInt8)
  | document (d : Document)
  | image (width height : Nat)
  | drawing (b : Bitmap)
  | archive
  | program (p : ConverterProgram)
  | fragment (whole : Content)
  deriving Repr

/-- What an image library makes of a file: an image of a size in pixels, no image that it knows, or
one that it gives up reading, with a message. -/
inductive ImageReading where
  | size (width height : Nat)
  | unrecognized
  | broken (message : Text)
  deriving DecidableEq, Repr

/-- A library that reads images. -/
abbrev ImageReader := Content → ImageReading

namespace Content

/-- Whether there is nothing in the file. -/
def isEmpty : Content → Bool
  | .text t => t.isEmpty
  | .bytes b => b.isEmpty
  | _ => false

/-- The document in the file. -/
def document? : Content → Option Document
  | .document d => some d
  | _ => none

/-- The reading of a file by a library that knows images by their description, and the bitmaps that
are drawn here, but no other files. -/
def described : Content → ImageReading
  | .image w h => .size w h
  | .drawing b => .size b.size.1 b.size.2
  | _ => .unrecognized

end Content
end MailMerge
