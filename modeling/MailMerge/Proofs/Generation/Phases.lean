import MailMerge.Generation.Generator
import MailMerge.Proofs.Storage.Running
/-!
# The phases of making a document

A document is made in three phases: up to where its tokens are known (`opening`), what the engine does with
them, and what is left to do then (`closing`). The second one is the only one that asks the cache.

* `generate_eq`: the work is its phases, one after the other.
-/
namespace MailMerge.Generation

section
variable {α β : Type} (c : AssetCache)

/-- What comes after a part of the work. -/
def andThen (f : α → AssetCache → Script (Except Abort β × AssetCache)) :
    Except Abort α × AssetCache → Script (Except Abort β × AssetCache)
  | (.ok a, c) => f a c
  | (.error e, c) => pure (.error e, c)

theorem run_bind (x : Work α) (f : α → Work β) :
    (x >>= f).run.run c = x.run.run c >>= andThen fun a c => (f a).run.run c := by
  show (x.run.run c >>= _) = _
  congr 1
  funext r
  obtain ⟨r, c⟩ := r
  cases r <;> rfl

theorem bind_andThen {γ : Type} (x : Script (Except Abort α × AssetCache))
    (f : α → AssetCache → Script (Except Abort β × AssetCache))
    (g : β → AssetCache → Script (Except Abort γ × AssetCache)) :
    x >>= andThen f >>= andThen g = x >>= andThen fun a c => f a c >>= andThen g := by
  rw [bind_assoc]
  congr 1
  funext r
  obtain ⟨r, c⟩ := r
  cases r <;> rfl

theorem run_thenTidy (x : Work α) (tidy : Script Unit) :
    (thenTidy x tidy).run.run c = x.run.run c >>= fun r => tidy >>= fun _ => pure r := by
  show (x.run.run c >>= fun r => (tidy >>= fun a => pure (a, r.2)) >>= fun p => pure (r.1, p.2)) = _
  simp only [bind_assoc, pure_bind]

theorem run_script_bind (s : Script α) (f : α → Work β) :
    (lift (liftM s : Task α) >>= f).run.run c = s >>= fun a => (f a).run.run c := by
  rw [run_bind]
  show ((s >>= fun a => pure (Except.ok a)) >>= fun r => pure (r, c)) >>= _ = _
  simp only [bind_assoc, pure_bind, andThen]

end

/-- The work up to where the tokens are known. -/
def opening (p : Provider) : Work (Plan × Path × Path × Option Document) := do
  let made ← lift (plan p)
  lift (Script.note (.info "generation_started"))
  let staged ← lift (stage made.template made.directory)
  let rendered ← lift (scratchPath made.directory ('.' :: OutputFormat.docx.name))
  let document? ← lift (Document.load? staged.toText)
  pure (made, staged, rendered, document?)

/-- The work that is left when a document is filled in some way. -/
def closing (g : Generator) (made : Plan) (staged rendered : Path) (filling : Work Unit) : Work Path := do
  thenTidy
    (do
      filling
      lift (finish g.converter made.format made.directory rendered made.final))
    (do
      discard staged
      discard rendered)
  lift (Script.note (.info "document_generated"))
  pure made.final

/-- The work after the first phase. -/
def continuing (g : Generator) : Plan × Path × Path × Option Document → AssetCache →
    Script (Except Abort Path × AssetCache)
  | (made, staged, rendered, none), c =>
    (closing g made staged rendered (throw (.failure (.unreadableTemplate staged.toText)))).run.run c
  | (made, staged, rendered, some d), c => do
    let (values, c) ← g.engine c d.placeholders made.data
    (closing g made staged rendered (store g.images rendered d values)).run.run c

/-- What is left to do waits for what cannot fail. -/
theorem run_closing {α : Type} (g : Generator) (made : Plan) (staged rendered : Path) {x : Work Unit}
    {s : Script α} {f : α → Work Unit} {k : α → AssetCache} {c : AssetCache}
    (h : x.run.run c = s >>= fun a => (f a).run.run (k a)) :
    (closing g made staged rendered x).run.run c =
      s >>= fun a => (closing g made staged rendered (f a)).run.run (k a) := by
  unfold closing
  simp only [run_bind, run_thenTidy, h, bind_assoc]

/-- Fills the document that was read, if it was. -/
def refilling (g : Generator) (staged rendered : Path) (m : DataMap) : Option Document → Work Unit
  | none => throw (.failure (.unreadableTemplate staged.toText))
  | some d => do
    let (values, cache) ← lift (g.engine (← get) d.placeholders m)
    set cache
    store g.images rendered d values

/-- A document is read, and then filled. -/
theorem run_render (g : Generator) (staged rendered : Path) (m : DataMap) (c : AssetCache) :
    (render g.engine g.images staged rendered m).run.run c =
      Document.load? staged.toText >>= fun d? => (refilling g staged rendered m d?).run.run c := by
  refine (run_script_bind c (Document.load? staged.toText) _).trans ?_
  rfl

/-- A document is made in three phases. -/
theorem generate_eq (g : Generator) (c : AssetCache) (p : Provider) :
    g.generate c p = (opening p).run.run c >>= andThen (continuing g) := by
  have hexecute : g.generate c p = (do
      let made ← lift (plan p)
      lift (Script.note (.info "generation_started"))
      let staged ← lift (stage made.template made.directory)
      let rendered ← lift (scratchPath made.directory ('.' :: OutputFormat.docx.name))
      closing g made staged rendered (render g.engine g.images staged rendered made.data) :
        Work Path).run.run c := rfl
  rw [hexecute]
  unfold opening
  rw [run_bind, run_bind, bind_andThen]
  congr 2
  funext made c
  rw [run_script_bind, run_script_bind, bind_assoc]
  congr 1
  funext _
  rw [run_bind, run_bind, bind_andThen]
  congr 2
  funext staged c
  rw [run_script_bind, run_script_bind, bind_assoc]
  congr 1
  funext rendered
  rw [run_script_bind, bind_assoc, run_closing g made staged rendered (run_render g staged rendered _ c)]
  congr 1
  funext d?
  cases d? with
  | none => rfl
  | some d =>
    exact run_closing g made staged rendered (run_script_bind c (g.engine c d.placeholders made.data)
      fun r => do
        set r.2
        store g.images rendered d r.1)

/-- Stores a filled document. -/
def storing (rendered : Path) (filled : Filling) : Work Unit :=
  match filled.result with
  | .error f => throw (.failure (.filling f))
  | .ok _ => do
    match ← lift (Script.write rendered.toText (.document filled.document)) with
    | .ok () => pure ()
    | .error c => throw (.failure (.filling (.storage ⟨c, rendered.toText, none⟩)))

/-- A document is filled, and then stored. -/
theorem run_store (images : ImageReader) (rendered : Path) (d : Document) (m : DataMap) (c : AssetCache) :
    (store images rendered d (.ok m)).run.run c =
      d.apply images m >>= fun filled => (storing rendered filled).run.run c := by
  refine (run_script_bind c (d.apply images m) _).trans ?_
  rfl

end MailMerge.Generation
