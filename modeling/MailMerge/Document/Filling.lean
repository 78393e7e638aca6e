import MailMerge.Document.Splice
import MailMerge.Document.Walk
import MailMerge.Placeholder.Grammar
import MailMerge.DataMap
import MailMerge.Storage.Script
/-!
# Filling documents

A placeholder of a document is filled with a text or with a picture, wherever it occurs. Pictures
are measured first: a picture that keeps its aspect is fitted into the space it may take. A picture
that is found missing or unknown then leaves its placeholder alone. How images are read is left to a
library.

A whole map of values is put in key by key. Keys without a placeholder are passed over, and so are
texts at placeholders for pictures, apart from the mark of a code that could not be drawn.

Section 4.5 of the specification: `set_value`, `set_image` and `apply` are `setValue`, `setImage`
and `apply`.
-/
namespace MailMerge

/-- What is put into a document when a code could not be drawn. -/
def codeErrorMark : Text := "[QR Code Error]".toList

namespace Picture

/-- English Metric Units in a pixel. -/
def unitsPerPixel : Nat := 9525

/-- The greatest length that a document stores. -/
def maxLength : Nat := 27273042316900

/-- The picture of a size in pixels, which a document must be able to store. -/
def ofPixels (width height : Nat) : Except Fault Picture :=
  let w := width * unitsPerPixel
  let h := height * unitsPerPixel
  if maxLength < w then .error (.sizeOutOfRange w)
  else if maxLength < h then .error (.sizeOutOfRange h)
  else .ok ⟨w, h⟩

/-- The quotient of two lengths. -/
def ratio (a b : Nat) : Except Fault Binary64 :=
  if b = 0 then .error .divisionByZero
  else
    match Binary64.ofFraction false a b with
    | .finite s m e => .ok (.finite s m e)
    | _ => .error .quotientTooLarge

/-- A length times a scale, to the nearest pixel but at least one. -/
def scaledLength (scale : Binary64) (n : Nat) : Except Fault Nat :=
  match Binary64.ofInt n with
  | .finite s m e =>
    match (Binary64.mul (.finite s m e) scale).round? with
    | some k => .ok (max 1 k).toNat
    | none => .error .unboundedNumber
  | _ => .error .quotientTooLarge

/-- The size in pixels that fits an image of `pixels` into the space of an asset and keeps its
aspect. -/
def fit (a : Asset) (pixels : Nat × Nat) : Except Fault (Nat × Nat) := do
  let x ← ratio a.width pixels.1
  let y ← ratio a.height pixels.2
  let scale := if y.lt x then y else x
  pure (← scaledLength scale pixels.1, ← scaledLength scale pixels.2)

end Picture

/-- What is found where an asset says its image is. -/
abbrev Look := Except Cause ImageReading

namespace Asset

/-- The name of the image file. -/
def fileName (a : Asset) : Text := (Text.splitOn '/' a.source).getLastD []

/-- The size of the image in pixels, or why there is none. -/
def pixels (a : Asset) : Look → Except Fault (Nat × Nat)
  | .error c => .error (.storage ⟨c, a.source, none⟩)
  | .ok (.size w h) => .ok (w, h)
  | .ok .unrecognized => .error .notAnImage
  | .ok (.broken message) => .error (.raised message)

/-- Whether an image that lacks for this reason leaves placeholders alone when it is measured. -/
def isSkipped (f : Fault) : Bool :=
  match f with
  | .storage t => t.cause != .nullCharacter
  | .notAnImage => true
  | _ => false

/-- The size in pixels at which the image is shown; nothing when an image that is to keep its aspect
is missing or unknown. -/
def shownSize (a : Asset) (look : Look) : Except Fault (Option (Nat × Nat)) :=
  if !a.keepAspect then .ok (some (a.width, a.height))
  else match a.pixels look with
    | .error f => if isSkipped f then .ok none else .error f
    | .ok pixels => (Picture.fit a pixels).map some

/-- The picture made from the image at a size in pixels. -/
def picture (a : Asset) (look : Look) (size : Nat × Nat) : Except Fault Picture :=
  match a.pixels look with
  | .error f => .error f
  | .ok _ =>
    if a.fileName.all isXmlChar then Picture.ofPixels size.1 size.2 else .error .notStorable

end Asset

/-- What became of a document that was being filled: how many placeholders were replaced, unless a
fault broke the work off, and what was noted. -/
structure Filling where
  document : Document
  result : Except Fault Nat
  log : List Event := []

namespace Document

/-- How often a needle occurs in the runs of the document. -/
def count (d : Document) (needle : Text) : Nat :=
  (d.visits.flatMap fun v => (d.paragraph v.1).occurrences needle).length

/-- The filling that an attempt on all visits gives. -/
def filling (d : Document) (needle : Text) (a : Attempt Document) : Filling :=
  { document := a.value
    result := match a.fault with
      | none => .ok (d.count needle)
      | some f => .error f }

/-- One paragraph with all occurrences of a needle changed. -/
def changeParagraph (needle : Text)
    (change : Splice.Span → List Inline → Attempt (List Inline)) (id : ParagraphId)
    (d : Document) : Attempt Document :=
  let r := (d.paragraph id).atEach needle change
  { value := d.setParagraph id r.value, fault := r.fault }

/-- The document with a text in the place of every occurrence of a placeholder. -/
def setValue (d : Document) (token value : Text) : Filling :=
  let needle := Token.wrap (Token.unwrap token)
  d.filling needle <|
    Attempt.each (fun v d => changeParagraph needle (Splice.putText value) v.1 d) d.visits d

/-- The alignments of an asset, where they say something, given to a paragraph and its cell. -/
def align (a : Asset) (v : Visit) (d : Document) : Document :=
  let d := match a.horizontal with
    | none => d
    | some h => d.setParagraph v.1 { d.paragraph v.1 with align := some h }
  match v.2, a.vertical with
  | some cell, some x => d.setCell cell x
  | _, _ => d

/-- The paragraph of a visit with a picture in the place of every occurrence of a needle, and the
alignments set where there was one. -/
def changeVisit (needle : Text) (a : Asset) (picture : Except Fault Picture) (v : Visit)
    (d : Document) : Attempt Document :=
  if (d.paragraph v.1).count needle = 0 then { value := d }
  else
    (changeParagraph needle (Splice.putPicture picture) v.1 d).andThen fun d =>
      { value := align a v d }

/-- The document with a picture in the place of every occurrence of a placeholder. -/
def setImage (d : Document) (token : Text) (a : Asset) (look : Look) : Filling :=
  let needle := Token.wrap (Token.unwrap token)
  match a.shownSize look with
  | .error f => { document := d, result := .error f }
  | .ok none => { document := d, result := .ok 0, log := [.warning "image_unreadable"] }
  | .ok (some size) =>
    d.filling needle (Attempt.each (changeVisit needle a (a.picture look size)) d.visits d)

/-- Whether a token stands for a picture. -/
def isPictureToken (token : Text) : Bool :=
  match Placeholder.parse token with
  | some p => p.kind.isPicture
  | none => false

/-- What a value puts in the place of a placeholder. -/
inductive Insert where
  | nothing
  | text (t : Text)
  | picture (a : Asset)
  | fault (f : Fault)

/-- What a value puts in the place of a token. -/
def insertOf (token : Text) (v : Value) : Insert :=
  match v with
  | .asset a => .picture a
  | v =>
    if !v.isTextual then .nothing
    else match v.plain? with
      | none => if isPictureToken token then .nothing else .fault .unwritableNumber
      | some t =>
        if isPictureToken token && !(v matches .text _ && t = codeErrorMark) then .nothing
        else .text t

/-- The filling with one more value put in, when the placeholder is present. -/
def applyOne (images : ImageReader) (present : List Text) (f : Filling) (key : Text) (v : Value) :
    Script Filling := do
  match f.result with
  | .error _ => pure f
  | .ok n =>
    let token := Token.unwrap key
    let add (g : Filling) : Filling :=
      { document := g.document, result := g.result.map (n + ·), log := f.log ++ g.log }
    if token ∉ present then pure f
    else match insertOf token v with
      | .nothing => pure f
      | .fault e => pure { f with result := .error e }
      | .text t => pure (add (f.document.setValue token t))
      | .picture a =>
        let look := (← Script.read a.source).map images
        pure (add (f.document.setImage token a look))

/-- The filling with the values of a map put in, entry by entry. -/
def applyFrom (images : ImageReader) (present : List Text) (f : Filling) :
    List (Text × Value) → Script Filling
  | [] => pure f
  | (k, v) :: r => do applyFrom images present (← applyOne images present f k v) r

/-- The document with the values of a map put in at the placeholders that it has. -/
def apply (images : ImageReader) (d : Document) (m : DataMap) : Script Filling := do
  let f ← applyFrom images d.placeholders { document := d, result := .ok 0 } m
  Script.noteAll f.log
  pure f

/-- The document in a file. -/
def load? (p : Text) : Script (Option Document) := do
  match ← Script.read p with
  | .ok c => pure c.document?
  | .error _ => pure none

end Document
end MailMerge
