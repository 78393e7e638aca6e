import MailMerge.Cache.AssetCache
import MailMerge.Document.Filling
import MailMerge.Resolution.Texts
import MailMerge.Symbol.Drawing
import MailMerge.Text.LowerCase
/-!
# Placeholders that stand for pictures

An image placeholder stands for the image file that the data name, a code placeholder for a symbol
drawn from a text of the data. A placeholder without a source is left alone. Sizes, alignments and
error levels that make no sense give way to usual ones, with a note. A symbol that cannot be drawn
is replaced by a mark that shows it.

Section 4.2 of the specification: the resolvers `image` and `qrcode`.
-/
namespace MailMerge

/-- How pictures are drawn and kept: the renderer, and how many incomplete writes come before a
drawn picture is whole. -/
structure Studio where
  render : Renderer
  parts : Nat := 0

namespace Resolution

/-- What a placeholder stands for; nothing when it is left alone. -/
abbrev Found := Option Value

/-- The usual edge of a picture in pixels. -/
def usualEdge : Nat := 100

/-- The size that a field asks for, with a note when it makes no sense. -/
def dimension (field : Option Text) : Except Fault Nat × List Event :=
  match wholeField field usualEdge with
  | .error f => (.error f, [])
  | .ok n =>
    if n ≤ 0 then (.ok usualEdge, [.warning "image_dimension_invalid"]) else (.ok n.toNat, [])

/-- The alignment that a field asks for, with a note when it makes no sense. -/
def alignment {α : Type} (ofName? : Text → Option α) (usual : α) (field : Option Text) :
    α × List Event :=
  match field with
  | none => (usual, [])
  | some t => match ofName? t.trim.toLower with
    | some a => (a, [])
    | none => (usual, [.warning "image_alignment_invalid"])

/-- The asset of an image placeholder whose file has been found, with what there is to note. -/
def imageAsset (d : Descriptor) (file : Text) : Except Fault Asset × List Event :=
  let (width, e1) := dimension (d.arg? 1)
  let (height, e2) := dimension (d.arg? 2)
  match width, height with
  | .error f, _ => (.error f, e1)
  | .ok _, .error f => (.error f, e1 ++ e2)
  | .ok width, .ok height =>
    let (h, e3) := alignment HorizontalAlign.ofName? .center (d.arg? 3)
    let (v, e4) := alignment VerticalAlign.ofName? .middle (d.arg? 4)
    let a : Asset :=
      { source := file, width := width, height := height, horizontal := some h, vertical := some v }
    (.ok a, e1 ++ e2 ++ e3 ++ e4)

/-- The value that the data hold for a placeholder. -/
def sourceValue (m : DataMap) (d : Descriptor) : Value :=
  ((d.sourceKey?).bind (Table.get? m)).getD .null

/-- The image of a placeholder. -/
def image (m : DataMap) (d : Descriptor) : Script (Except Fault Found) := do
  match (sourceValue m d).imagePath? with
  | none => do
    Script.note (.info "image_source_missing")
    pure (.ok none)
  | some source =>
    let p := (Path.ofText source).toText
    let missing : Script (Except Fault Found) := do
      Script.note (.warning "image_not_found")
      pure (.ok none)
    match ← Script.isFile p with
    | .error c => pure (.error (.storage ⟨c, p, none⟩))
    | .ok false => missing
    | .ok true =>
      if ← Script.canReach source then
        match ← Script.canonical p with
        | .error c => pure (.error (.storage ⟨c, p, none⟩))
        | .ok file => do
          let (a, log) := imageAsset d file
          Script.noteAll log
          pure (a.map fun a => some (.asset a))
      else missing

/-- The least and the greatest edge of a symbol in pixels. -/
def symbolEdges : Nat × Nat := (50, 500)

/-- The level that a field asks for, with a note when there is no such level. -/
def symbolLevel (field : Option Text) : Text × List Event :=
  let level := ((field.getD ErrorLevel.low.letter).map Char.toUpper)
  match ErrorLevel.ofLetter? level with
  | some _ => (level, [])
  | none => (ErrorLevel.low.letter, [.warning "qrcode_error_level_invalid"])

/-- The text that the symbol of a placeholder holds; `none` when it cannot be written. -/
def symbolText? (m : DataMap) (d : Descriptor) : Option Text :=
  match sourceValue m d with
  | .asset a => some (a.payload.getD [])
  | v => v.textual?

/-- The symbol of a placeholder, and the cache after it was asked for. -/
def symbol (studio : Studio) (cache : AssetCache) (m : DataMap) (d : Descriptor) :
    Script (Except Fault Found × AssetCache) := do
  match symbolText? m d with
  | none => pure (.error .unwritableNumber, cache)
  | some payload =>
    if payload.trim.isEmpty then do
      Script.note (.info "qrcode_payload_missing")
      pure (.ok none, cache)
    else if payload = codeErrorMark then pure (.ok (some (.text codeErrorMark)), cache)
    else match wholeField (d.arg? 1) usualEdge with
      | .error f => pure (.error f, cache)
      | .ok n => do
        let size := (min (max n symbolEdges.1) symbolEdges.2).toNat
        let (level, log) := symbolLevel (d.arg? 2)
        Script.noteAll log
        let (answer, cache) ← cache.getOrCreate studio.render studio.parts ⟨payload, size, level⟩
        match answer with
        | .found p =>
          let a : Asset :=
            { source := p.toText, width := size, height := size, payload := some payload }
          pure (.ok (some (.asset a)), cache)
        | .failed _ => do
          Script.note (.error "qrcode_generation_failed")
          pure (.ok (some (.text codeErrorMark)), cache)
        | .broken t => pure (.error (.storage t), cache)

/-- What a placeholder stands for, and the cache after it was asked for. -/
def resolve (studio : Studio) (env : Environment) (cache : AssetCache) (m : DataMap)
    (d : Descriptor) : Script (Except Fault Found × AssetCache) := do
  match text? env m d with
  | some noted => do
    Script.noteAll noted.log
    pure (noted.result.map fun t => some (.text t), cache)
  | none =>
    if d.kind = .image then do
      let r ← image m d
      pure (r, cache)
    else symbol studio cache m d

end Resolution
end MailMerge
