import MailMerge.Record.Field
/-!
# Requests

A request names the template, the data, the name and format of the document to make, and the
directory to make it in.

Section 3 of the specification: `DocumentRequest`.
-/
namespace MailMerge

/-- The formats of finished documents. -/
inductive OutputFormat where
  | docx
  | odt
  | pdf
  deriving DecidableEq, Repr

namespace OutputFormat

/-- The name of the format, which is also the ending of its files. -/
def name : OutputFormat → Text
  | .docx => "docx".toList
  | .odt => "odt".toList
  | .pdf => "pdf".toList

/-- The format of a name. -/
def ofName? (t : Text) : Option OutputFormat := [docx, odt, pdf].find? (·.name = t)

instance : Inhabited OutputFormat := ⟨.docx⟩

end OutputFormat

/-- A request for one document. -/
structure Request where
  data : DataMap := []
  template : Path
  outputName : Text
  format : OutputFormat := .docx
  directory : Path
  deriving Repr

namespace Request

/-- The request of a map. -/
def ofMap (m : DataMap) : Except Fault Request := Reading.finish "DocumentRequest" do
  let data ← Reading.field m "data" Reader.map (some [])
  let template ← Reading.field m "template_path" Reader.path none
  let outputName ← Reading.field m "output_filename" Reader.text none
  let format ← Reading.field m "output_format" (Reader.choice OutputFormat.ofName?) (some .docx)
  let directory ← Reading.field m "temp_dir" Reader.path none
  pure ⟨data, template, outputName, format, directory⟩

end Request

/-- The asset of a map. -/
def Asset.ofMap (m : DataMap) : Except Fault Asset := Reading.finish "ImageAsset" do
  let source ← Reading.field m "source_path" Reader.text none
  let width ← Reading.field m "width" Reader.positive none
  let height ← Reading.field m "height" Reader.positive none
  let keepAspect ← Reading.field m "preserve_aspect" Reader.truth (some true)
  let horizontal ← Reading.field m "horizontal_align"
    (Reader.optional (Reader.choice HorizontalAlign.ofName?)) (some none)
  let vertical ← Reading.field m "vertical_align"
    (Reader.optional (Reader.choice VerticalAlign.ofName?)) (some none)
  let payload ← Reading.field m "payload" (Reader.optional Reader.text) (some none)
  pure ⟨source, width, height, keepAspect, horizontal, vertical, payload⟩

end MailMerge
