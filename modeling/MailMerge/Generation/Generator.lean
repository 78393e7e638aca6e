import MailMerge.Document.Filling
import MailMerge.Generation.Conversion
import MailMerge.Generation.OutputName
import MailMerge.Record.Request
import MailMerge.Resolution.Engine
/-!
# Making documents

A document is made on files with names of their own: a copy of the template, the filled document,
and what it was converted into. Only a finished document gets its final name, in one step, and the
other files are removed however the work ends. So a failure leaves nothing behind and does not touch
what was there before.

Section 4.6 of the specification: `generate`, its steps 1 to 3 in `plan`, step 4 in `stage`, step 5
in `render`, steps 6 and 7 in `finish`.
-/
namespace MailMerge

/-- Resolves the tokens of a document against data. -/
abbrev Engine := AssetCache → List Text → DataMap → Script (Except Abort DataMap × AssetCache)

/-- What is asked for by whoever provides the data: everything as it is given. -/
structure Provider where
  data : Value
  template : Path
  outputName : Text
  format : Value
  directory : Path

/-- The provider of a request. -/
def Request.provider (r : Request) : Provider :=
  ⟨.map r.data, r.template, r.outputName, .text r.format.name, r.directory⟩

/-- Makes documents. Without a converter only documents in the format of the template are made. -/
structure Generator where
  engine : Engine
  images : ImageReader
  converter : Option Converter := none

/-- The engine that resolves placeholders of some kinds. -/
def Engine.ofStudio (studio : Studio) (env : Environment) (kinds : List Kind) : Engine :=
  fun cache tokens data => do
    let (r, cache) ← Resolution.resolveAll studio env kinds cache tokens data
    pure (r.mapError .fault, cache)

namespace Generation

/-- Work on documents, which may ask the cache. -/
abbrev Work := ExceptT Abort (StateT AssetCache Script)

/-- Work that does not ask the cache. -/
def lift {α : Type} (x : Task α) : Work α :=
  ExceptT.mk (StateT.lift x.run)

/-- Work followed by tidying up, however the work ended. -/
def thenTidy {α : Type} (x : Work α) (tidy : Script Unit) : Work α := ExceptT.mk do
  let r ← x.run
  StateT.lift tidy
  pure r

/-- What the names of unfinished files begin with. -/
def scratchMark : Text := "docgen_".toList

/-- A path in a directory that is used for nothing else, with an ending. -/
def scratchPath (directory : Path) (ending : Text) : Script Path := do
  let n ← Script.fresh
  pure (directory.child (scratchMark ++ Text.padLeft 32 '0' (Nat.toDigits 16 n) ++ ending))

/-- Removes a file if it is there. -/
def discard (p : Path) : Script Unit := do
  match ← Script.remove p.toText with
  | .ok () | .error .absent => pure ()
  | .error _ => Script.note (.warning "cleanup_failed")

/-- A copy of the template. -/
def stage (template directory : Path) : Task Path := do
  let staged ← scratchPath directory template.ending
  let lost (p : Text) (c : Cause) : Task Path := do
    discard staged
    Task.fail (.copy (.template template.toText ⟨c, p, none⟩))
  match ← Script.read template.toText with
  | .error c => lost template.toText c
  | .ok content =>
    match ← Script.write staged.toText content with
    | .error c => lost staged.toText c
    | .ok () => pure staged

/-- Fills a document with what its tokens were resolved to, and stores the result. -/
def store (images : ImageReader) (rendered : Path) (d : Document) (values : Except Abort DataMap) :
    Work Unit := do
  match values with
  | .error (.failure f) => throw (.failure f)
  | .error (.fault f) => throw (.failure (.filling f))
  | .ok values =>
    let filled ← lift (d.apply images values)
    match filled.result with
    | .error f => throw (.failure (.filling f))
    | .ok _ =>
      match ← lift (Script.write rendered.toText (.document filled.document)) with
      | .ok () => pure ()
      | .error c => throw (.failure (.filling (.storage ⟨c, rendered.toText, none⟩)))

/-- Fills the copy of the template and stores the result. -/
def render (engine : Engine) (images : ImageReader) (staged rendered : Path) (data : DataMap) :
    Work Unit := do
  match ← lift (Document.load? staged.toText) with
  | none => throw (.failure (.unreadableTemplate staged.toText))
  | some d =>
    let (values, cache) ← lift (engine (← get) d.placeholders data)
    set cache
    store images rendered d values

/-- Moves a finished file onto its final name. -/
def publish (result final : Path) : Task Unit := do
  match ← Script.rename result.toText final.toText with
  | .ok () => pure ()
  | .error c =>
    Task.fail (.copy (.output final.toText ⟨c, result.toText, some final.toText⟩))

/-- Converts a filled document if its format asks for it, and gives it its final name. -/
def finish (converter : Option Converter) (format : OutputFormat)
    (directory rendered final : Path) : Task Unit :=
  if format = .docx then publish rendered final
  else do
    let ending := '.' :: format.name
    let converted ← scratchPath directory ending
    Task.thenTidy
      (do
        match converter with
        | none => Task.fail (.conversion (.noConverter ending))
        | some convert => convert rendered converted
        publish converted final)
      (discard converted)

/-- What is to be made, once a provider's answers have been checked. -/
structure Plan where
  data : DataMap
  template : Path
  directory : Path
  format : OutputFormat
  final : Path

/-- The format of a value: its written form names it, in any case. -/
def formatOf (v : Value) : Except Fault (Option OutputFormat) :=
  match v.plain? with
  | none => .error .unwritableNumber
  | some t => .ok (OutputFormat.ofName? t.toLower)

/-- Checks the answers of a provider. -/
def plan (p : Provider) : Task Plan := do
  match p.data with
  | .map data =>
    let template := p.template.toText
    if !(← Task.step template (Script.isFile template)) then
      Task.fail (.noTemplate template)
    let directory := p.directory.toText
    if !(← Task.step directory (Script.isDirectory directory)) then
      Task.fail (.noDirectory directory)
    match formatOf p.format with
    | .error f => throw (.fault f)
    | .ok none => Task.fail (.data (.unknownFormat ((p.format.shown?).getD [])))
    | .ok (some format) =>
      let name := OutputName.ofTitle p.outputName ++ '.' :: format.name
      pure ⟨DataMap.xmlOnly data, p.template, p.directory, format, p.directory.child name⟩
  | v => Task.fail (.data (.noMap v.kindName))

/-- Makes what a plan says. -/
def execute (g : Generator) (plan : Plan) : Work Path := do
  lift (Script.note (.info "generation_started"))
  let staged ← lift (stage plan.template plan.directory)
  let rendered ← lift (scratchPath plan.directory ('.' :: OutputFormat.docx.name))
  thenTidy
    (do
      render g.engine g.images staged rendered plan.data
      lift (finish g.converter plan.format plan.directory rendered plan.final))
    (do
      discard staged
      discard rendered)
  lift (Script.note (.info "document_generated"))
  pure plan.final

end Generation

/-- Makes the document that a provider asks for. The result is its path, and comes with the cache
after the work. -/
def Generator.generate (g : Generator) (cache : AssetCache) (p : Provider) :
    Script (Except Abort Path × AssetCache) :=
  (do
    let plan ← Generation.lift (Generation.plan p)
    Generation.execute g plan : Generation.Work Path).run.run cache

end MailMerge
