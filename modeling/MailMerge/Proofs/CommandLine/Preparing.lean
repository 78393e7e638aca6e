import MailMerge.Proofs.CommandLine.Running
/-!
# Preparing a document

Before a command makes a document it reads the request and the records beside it and puts the settings
together. All this only looks at files. How it ends early is told by the files, the surroundings and
the arguments (`Unprepared`): a refusal has the code two only where a file is missing, and one
otherwise.

* `generate_eq`: making a document is to prepare an order and to carry it out.
* `lookAt_prepare_eq_error_iff`, `lookAt_prepare_eq_ok_iff`: how the preparation ends.
* `Unprepared.exit`: the codes of refusals.
-/
namespace MailMerge.CommandLine

open Generation (MeansFile)

variable {s : Surroundings} {fs : FileSystem}

/-- What a document is made from. -/
structure Order where
  request : Request
  user : User
  site : Site
  settings : Settings

/-- What the files and the arguments say about a document to be made. -/
def prepare (s : Surroundings) (file : Text) (cache user site : Option Text) : Job Order := do
  let m ← loadRequest s file
  let request ← orInvalid (Request.ofMap m)
  let user ← orInvalid (User.ofMap (← loadMap? user "user"))
  let site ← orInvalid (Site.ofMap (← loadMap? site "site"))
  let settings ← orInvalid (settingsOf s cache)
  pure ⟨request, user, site, settings⟩

namespace Order

/-- The call of the program that converts documents. -/
def call (o : Order) : ConverterProgramCall := ⟨o.settings.converter, o.settings.converterSeconds⟩

/-- The engine that fills documents. -/
def engine (s : Surroundings) (o : Order) : Engine :=
  Engine.ofStudio (Studio.drawing s.encode o.settings.border)
    { user := o.user, site := o.site, now := s.now, settings := o.settings, zone := s.zone }
    Kind.order

/-- The generator that makes the document. -/
def generator (s : Surroundings) (o : Order) : Generator :=
  ⟨o.engine s, s.images, some (Converter.ofProgram o.call)⟩

/-- What is said about the result of a generator. -/
def answer : Except Abort Path → Job Outcome
  | .ok p => pure { output := "OK: ".toList ++ p.toText ++ ['\n'] }
  | .error (.failure f) => Job.quit 1 (f.message ++ " [".toList ++ f.code ++ [']'])
  | .error (.fault f) => Job.abandon f

/-- Makes the document. -/
def carryOut (s : Surroundings) (o : Order) : Job Outcome := do
  let directory := o.settings.cacheDirectory
  match ← Provision.directory directory with
  | .error t =>
    if t.cause = .nullCharacter then Job.abandon (.storage t)
    else
      Job.quit 1
        ("cannot create cache dir ".toList ++ directory.toText ++ ": ".toList ++ t.message)
  | .ok () =>
    let cache ← Job.orBreak (AssetCache.ofSettings o.settings)
    let (result, _) ← (o.generator s).generate cache o.request.provider
    answer result

end Order

theorem generate_eq (s : Surroundings) (file : Text) (cache user site : Option Text) :
    generate s file cache user site = prepare s file cache user site >>= Order.carryOut s := by
  unfold generate prepare
  simp only [bind_assoc, pure_bind]
  rfl

/-! ## The paths of a request -/

/-- Whether a path begins with the home of a user that nobody knows. -/
def Homeless (s : Surroundings) (p : Path) : Prop :=
  p.isAbsolute = false ∧ ∃ user rest, p.names = ('~' :: user) :: rest ∧ s.homes.lookup user = none

theorem expandHome_eq_error_iff {p : Path} {f : Fault} :
    expandHome s p = .error f ↔ Homeless s p ∧ f = .noHome := by
  unfold expandHome Homeless
  split
  · next user rest habsolute hnames =>
    rw [habsolute, hnames]
    cases hhome : s.homes.lookup user with
    | some home =>
      refine ⟨nofun, ?_⟩
      rintro ⟨⟨-, _, _, h, hnone⟩, -⟩
      cases h
      cases hhome.symm.trans hnone
    | none =>
      refine ⟨fun h => ?_, ?_⟩
      · cases h
        exact ⟨⟨rfl, user, rest, rfl, hhome⟩, rfl⟩
      · rintro ⟨-, rfl⟩
        rfl
  · next hother =>
    refine ⟨nofun, ?_⟩
    rintro ⟨⟨habsolute, user, rest, hnames, -⟩, -⟩
    exact (hother user rest habsolute hnames).elim

/-- The path in a field of a request. -/
def pathIn (m : DataMap) (name : String) : Path :=
  Path.ofText ((((Table.get? m name.toList).getD .null).plain?).getD [])

theorem anchor_eq_error_iff (base : Path) {m : DataMap} {name : String} {f : Fault} :
    anchor s base ((Table.get? m name.toList).getD .null) = .error f ↔
      Homeless s (pathIn m name) ∧ f = .noHome := by
  rw [← expandHome_eq_error_iff]
  unfold anchor pathIn
  cases expandHome s (Path.ofText ((((Table.get? m name.toList).getD .null).plain?).getD [])) with
  | ok p => exact ⟨nofun, nofun⟩
  | error f =>
    constructor <;>
    · intro h
      cases h
      rfl

/-- A map whose field has the path that it means from a directory. -/
def anchorIn (s : Surroundings) (base : Path) (m : DataMap) (name : String) : Except Fault DataMap :=
  (anchor s base ((Table.get? m name.toList).getD .null)).map fun p =>
    Table.insert m name.toList (.text p)

/-- A map whose paths are those that they mean from a directory. -/
def anchored (s : Surroundings) (base : Path) (m : DataMap) : Except Fault DataMap := do
  anchorIn s base (← anchorIn s base m "template_path") "temp_dir"

theorem anchorIn_eq_error_iff {base : Path} {m : DataMap} {name : String} {f : Fault} :
    anchorIn s base m name = .error f ↔ Homeless s (pathIn m name) ∧ f = .noHome := by
  rw [← anchor_eq_error_iff base]
  unfold anchorIn
  cases anchor s base ((Table.get? m name.toList).getD .null) with
  | ok p => exact ⟨nofun, nofun⟩
  | error f =>
    constructor <;>
    · intro h
      cases h
      rfl

theorem pathIn_anchorIn {base : Path} {m m' : DataMap}
    (h : anchorIn s base m "template_path" = .ok m') :
    pathIn m' "temp_dir" = pathIn m "temp_dir" := by
  unfold anchorIn at h
  cases hp : anchor s base ((Table.get? m "template_path".toList).getD .null) with
  | error f =>
    rw [hp] at h
    cases h
  | ok p =>
    rw [hp] at h
    cases h
    unfold pathIn
    rw [Table.get?_insert, if_neg (by decide)]

theorem anchored_eq_error_iff {base : Path} {m : DataMap} {f : Fault} :
    anchored s base m = .error f ↔
      (Homeless s (pathIn m "template_path") ∨ Homeless s (pathIn m "temp_dir")) ∧ f = .noHome := by
  unfold anchored
  cases h : anchorIn s base m "template_path" with
  | error f' =>
    obtain ⟨hhome, rfl⟩ := anchorIn_eq_error_iff.1 h
    refine ⟨fun h => ⟨Or.inl hhome, (Except.error.inj h).symm⟩, ?_⟩
    rintro ⟨-, rfl⟩
    rfl
  | ok m' =>
    have hknown : ¬ Homeless s (pathIn m "template_path") := fun hhome =>
      nomatch h.symm.trans (anchorIn_eq_error_iff.2 ⟨hhome, rfl⟩)
    rw [or_iff_right hknown, ← pathIn_anchorIn h]
    exact anchorIn_eq_error_iff

/-! ## The request -/

/-- Whether a file asks for a document with this map: it holds a map that is a request, in which the
paths are then those that they mean from the directory of the file. -/
def Asks (s : Surroundings) (fs : FileSystem) (file : Text) (m : DataMap) : Prop :=
  ∃ m₀ place, HoldsMap fs (Path.ofText file).toText m₀ ∧ RequestForm.violation? m₀ = none ∧
    fs.canonical (Path.ofText file).toText = .ok place ∧
    anchored s (Path.ofText place).parent m₀ = .ok m

/-- How the reading of a request ends early. -/
inductive Unasked (s : Surroundings) (fs : FileSystem) (file : Text) : Ended → Prop
  | unloaded {e : Ended} (h : Unloaded fs (Path.ofText file) "request" e) : Unasked s fs file e
  | illFormed {m : DataMap} (hmap : HoldsMap fs (Path.ofText file).toText m)
    {v : RequestForm.Violation} (hform : RequestForm.violation? m = some v) :
    Unasked s fs file
      (refusal 1 ("request does not conform to DocumentRequest.v1.json: ".toList ++ v.message))
  | homeless {m : DataMap} (hmap : HoldsMap fs (Path.ofText file).toText m)
    (hform : RequestForm.violation? m = none)
    (hhome : Homeless s (pathIn m "template_path") ∨ Homeless s (pathIn m "temp_dir")) :
    Unasked s fs file (.fault .noHome)

/-- A file that is there has a path without links. -/
theorem exists_canonical {t : Text} (h : MeansFile fs t) : ∃ place, fs.canonical t = .ok place := by
  obtain ⟨status, hstatus, -⟩ := h
  exact FileSystem.exists_canonical_of_status hstatus

/-- What becomes of the map in a request file. -/
def judgeRequest (s : Surroundings) (name : Text) (m : DataMap) : Job DataMap :=
  match RequestForm.violation? m with
  | some v =>
    Job.quit 1 ("request does not conform to DocumentRequest.v1.json: ".toList ++ v.message)
  | none => do
    let place ← Job.step name (Script.canonical name)
    Job.orBreak (anchored s (Path.ofText place).parent m)

theorem loadRequest_eq (s : Surroundings) (file : Text) :
    loadRequest s file =
      loadMap (Path.ofText file) "request" >>= judgeRequest s (Path.ofText file).toText := by
  unfold loadRequest
  refine bind_congr fun m => ?_
  unfold judgeRequest
  cases RequestForm.violation? m with
  | some v => rfl
  | none =>
    refine bind_congr fun place => ?_
    dsimp only
    unfold anchored anchorIn
    cases anchor s (Path.ofText place).parent ((Table.get? m "template_path".toList).getD .null) with
    | error f => rfl
    | ok p =>
      show Job.orBreak (anchor s (Path.ofText place).parent
        ((Table.get? (Table.insert m "template_path".toList (.text p)) "temp_dir".toList).getD .null))
        >>= _ = Job.orBreak (anchorIn s (Path.ofText place).parent
          (Table.insert m "template_path".toList (.text p)) "temp_dir")
      unfold anchorIn
      cases anchor s (Path.ofText place).parent
        ((Table.get? (Table.insert m "template_path".toList (.text p)) "temp_dir".toList).getD .null) <;>
        rfl

theorem looks_judgeRequest (name : Text) (m : DataMap) : Job.Looks (judgeRequest s name m) := by
  unfold judgeRequest
  cases RequestForm.violation? m with
  | some v => exact Job.looks_quit 1 _
  | none => exact (Job.looks_canonical name).1.bind fun _ => Job.looks_orBreak _

theorem looks_loadRequest (file : Text) : Job.Looks (loadRequest s file) := by
  rw [loadRequest_eq]
  exact (looks_loadMap _ _).bind (looks_judgeRequest _)

theorem lookAt_judgeRequest {name place : Text} {m : DataMap}
    (hform : RequestForm.violation? m = none) (hplace : fs.canonical name = .ok place) :
    (judgeRequest s name m).lookAt fs =
      (anchored s (Path.ofText place).parent m).mapError .fault := by
  unfold judgeRequest
  rw [hform]
  dsimp only
  rw [Job.lookAt_bind (Job.looks_canonical name).1, (Job.looks_canonical name).2]
  dsimp only
  rw [hplace, ← Job.lookAt_orBreak _ fs]
  rfl

theorem lookAt_loadRequest_eq_error_iff {file : Text} {e : Ended} :
    (loadRequest s file).lookAt fs = .error e ↔ Unasked s fs file e := by
  rw [loadRequest_eq, Job.lookAt_bind_eq_error_iff (looks_loadMap _ _),
    lookAt_loadMap_eq_error_iff]
  simp only [lookAt_loadMap_eq_ok_iff]
  constructor
  · rintro (h | ⟨m, hmap, h⟩)
    · exact .unloaded h
    · cases hform : RequestForm.violation? m with
      | some v =>
        unfold judgeRequest at h
        rw [hform] at h
        cases h
        exact .illFormed hmap hform
      | none =>
        obtain ⟨place, hplace⟩ := exists_canonical hmap.1
        rw [lookAt_judgeRequest hform hplace, mapError_eq_error_iff] at h
        obtain ⟨f, h, rfl⟩ := h
        obtain ⟨hhome, rfl⟩ := anchored_eq_error_iff.1 h
        exact .homeless hmap hform hhome
  · rintro (h | ⟨hmap, hform⟩ | ⟨hmap, hform, hhome⟩)
    · exact Or.inl h
    · refine Or.inr ⟨_, hmap, ?_⟩
      unfold judgeRequest
      rw [hform]
      rfl
    · obtain ⟨place, hplace⟩ := exists_canonical hmap.1
      refine Or.inr ⟨_, hmap, ?_⟩
      rw [lookAt_judgeRequest hform hplace, mapError_eq_error_iff]
      exact ⟨_, anchored_eq_error_iff.2 ⟨hhome, rfl⟩, rfl⟩

theorem lookAt_loadRequest_eq_ok_iff {file : Text} {m : DataMap} :
    (loadRequest s file).lookAt fs = .ok m ↔ Asks s fs file m := by
  rw [loadRequest_eq, Job.lookAt_bind_eq_ok_iff (looks_loadMap _ _)]
  simp only [lookAt_loadMap_eq_ok_iff]
  constructor
  · rintro ⟨m₀, hmap, h⟩
    cases hform : RequestForm.violation? m₀ with
    | some v =>
      unfold judgeRequest at h
      rw [hform] at h
      cases h
    | none =>
      obtain ⟨place, hplace⟩ := exists_canonical hmap.1
      rw [lookAt_judgeRequest hform hplace, mapError_eq_ok_iff] at h
      exact ⟨m₀, place, hmap, hform, hplace, h⟩
  · rintro ⟨m₀, place, hmap, hform, hplace, h⟩
    exact ⟨m₀, hmap, by rw [lookAt_judgeRequest hform hplace, mapError_eq_ok_iff, h]⟩

/-! ## The records beside the request -/

/-- Whether a file that may not have been named gives a map; without one it is empty. -/
def Gives (fs : FileSystem) : Option Text → DataMap → Prop
  | none, m | some [], m => m = []
  | some (c :: r), m => HoldsMap fs (Path.ofText (c :: r)).toText m

/-- How the reading of such a file ends early. -/
def Ungiven (fs : FileSystem) (label : String) : Option Text → Ended → Prop
  | none, _ | some [], _ => False
  | some (c :: r), e => Unloaded fs (Path.ofText (c :: r)) label e

theorem looks_loadMap? (p : Option Text) (label : String) : Job.Looks (loadMap? p label) := by
  rcases p with _ | _ | ⟨c, r⟩
  · exact Job.looks_pure _
  · exact Job.looks_pure _
  · exact looks_loadMap _ _

theorem lookAt_loadMap?_eq_error_iff {p : Option Text} {label : String} {e : Ended} :
    (loadMap? p label).lookAt fs = .error e ↔ Ungiven fs label p e := by
  rcases p with _ | _ | ⟨c, r⟩
  · exact ⟨nofun, False.elim⟩
  · exact ⟨nofun, False.elim⟩
  · exact lookAt_loadMap_eq_error_iff

theorem lookAt_loadMap?_eq_ok_iff {p : Option Text} {label : String} {m : DataMap} :
    (loadMap? p label).lookAt fs = .ok m ↔ Gives fs p m := by
  rcases p with _ | _ | ⟨c, r⟩
  · exact ⟨fun h => (Except.ok.inj h).symm, fun h => congrArg Except.ok h.symm⟩
  · exact ⟨fun h => (Except.ok.inj h).symm, fun h => congrArg Except.ok h.symm⟩
  · exact lookAt_loadMap_eq_ok_iff

/-! ## The whole preparation -/

/-- The refusal of a record or of settings that are not valid. -/
def invalid (f : Fault) : Ended := refusal 1 ("invalid input: ".toList ++ f.message)

/-- Whether the files and the arguments say that this is to be made. -/
structure Says (s : Surroundings) (fs : FileSystem) (file : Text) (cache user site : Option Text)
    (o : Order) : Prop where
  request : ∃ m, Asks s fs file m ∧ Request.ofMap m = .ok o.request
  user : ∃ m, Gives fs user m ∧ User.ofMap m = .ok o.user
  site : ∃ m, Gives fs site m ∧ Site.ofMap m = .ok o.site
  settings : settingsOf s cache = .ok o.settings

/-- How the preparation of a document ends early. -/
inductive Unprepared (s : Surroundings) (fs : FileSystem) (file : Text)
    (cache user site : Option Text) : Ended → Prop
  | unasked {e : Ended} (h : Unasked s fs file e) : Unprepared s fs file cache user site e
  | noRequest {m : DataMap} (hasks : Asks s fs file m) {f : Fault} (h : Request.ofMap m = .error f) :
    Unprepared s fs file cache user site (invalid f)
  | userUngiven {m : DataMap} (hasks : Asks s fs file m) {request : Request}
    (hrequest : Request.ofMap m = .ok request) {e : Ended} (h : Ungiven fs "user" user e) :
    Unprepared s fs file cache user site e
  | noUser {m : DataMap} (hasks : Asks s fs file m) {request : Request}
    (hrequest : Request.ofMap m = .ok request) {m' : DataMap} (hgives : Gives fs user m') {f : Fault}
    (h : User.ofMap m' = .error f) : Unprepared s fs file cache user site (invalid f)
  | siteUngiven {m : DataMap} (hasks : Asks s fs file m) {request : Request}
    (hrequest : Request.ofMap m = .ok request) {m' : DataMap} (hgives : Gives fs user m') {u : User}
    (huser : User.ofMap m' = .ok u) {e : Ended} (h : Ungiven fs "site" site e) :
    Unprepared s fs file cache user site e
  | noSite {m : DataMap} (hasks : Asks s fs file m) {request : Request}
    (hrequest : Request.ofMap m = .ok request) {m' : DataMap} (hgives : Gives fs user m') {u : User}
    (huser : User.ofMap m' = .ok u) {m'' : DataMap} (hgives' : Gives fs site m'') {f : Fault}
    (h : Site.ofMap m'' = .error f) : Unprepared s fs file cache user site (invalid f)
  | noSettings {m : DataMap} (hasks : Asks s fs file m) {request : Request}
    (hrequest : Request.ofMap m = .ok request) {m' : DataMap} (hgives : Gives fs user m') {u : User}
    (huser : User.ofMap m' = .ok u) {m'' : DataMap} (hgives' : Gives fs site m'') {st : Site}
    (hsite : Site.ofMap m'' = .ok st) {f : Fault} (h : settingsOf s cache = .error f) :
    Unprepared s fs file cache user site (invalid f)

variable {file : Text} {cache user site : Option Text}

theorem looks_prepare : Job.Looks (prepare s file cache user site) :=
  (looks_loadRequest file).bind fun _ => (looks_orInvalid _).bind fun _ =>
    (looks_loadMap? user "user").bind fun _ => (looks_orInvalid _).bind fun _ =>
      (looks_loadMap? site "site").bind fun _ => (looks_orInvalid _).bind fun _ =>
        (looks_orInvalid _).bind fun _ => Job.looks_pure _

theorem lookAt_orInvalid_eq_error_iff {α : Type} {r : Except Fault α} {e : Ended} :
    (orInvalid r).lookAt fs = .error e ↔ ∃ f, r = .error f ∧ e = invalid f := by
  rw [lookAt_orInvalid, mapError_eq_error_iff]
  rfl

theorem lookAt_orInvalid_eq_ok_iff {α : Type} {r : Except Fault α} {a : α} :
    (orInvalid r).lookAt fs = .ok a ↔ r = .ok a := by
  rw [lookAt_orInvalid, mapError_eq_ok_iff]

theorem lookAt_prepare_eq_error_iff {e : Ended} :
    (prepare s file cache user site).lookAt fs = .error e ↔
      Unprepared s fs file cache user site e := by
  unfold prepare
  simp only [Job.lookAt_bind_eq_error_iff (looks_loadRequest _),
    Job.lookAt_bind_eq_error_iff (looks_loadMap? _ _),
    Job.lookAt_bind_eq_error_iff (looks_orInvalid _), lookAt_loadRequest_eq_error_iff,
    lookAt_loadRequest_eq_ok_iff, lookAt_loadMap?_eq_error_iff, lookAt_loadMap?_eq_ok_iff,
    lookAt_orInvalid_eq_error_iff, lookAt_orInvalid_eq_ok_iff]
  constructor
  · rintro (h | ⟨m, hasks, ⟨f, h, rfl⟩ | ⟨request, hrequest, h | ⟨m', hgives, ⟨f, h, rfl⟩ |
      ⟨u, huser, h | ⟨m'', hgives', ⟨f, h, rfl⟩ | ⟨st, hsite, ⟨f, h, rfl⟩ | ⟨settings, -, h⟩⟩⟩⟩⟩⟩⟩)
    · exact .unasked h
    · exact .noRequest hasks h
    · exact .userUngiven hasks hrequest h
    · exact .noUser hasks hrequest hgives h
    · exact .siteUngiven hasks hrequest hgives huser h
    · exact .noSite hasks hrequest hgives huser hgives' h
    · exact .noSettings hasks hrequest hgives huser hgives' hsite h
    · cases h
  · rintro (h | ⟨hasks, h⟩ | ⟨hasks, hrequest, h⟩ | ⟨hasks, hrequest, hgives, h⟩ |
      ⟨hasks, hrequest, hgives, huser, h⟩ | ⟨hasks, hrequest, hgives, huser, hgives', h⟩ |
      ⟨hasks, hrequest, hgives, huser, hgives', hsite, h⟩)
    · exact Or.inl h
    · exact Or.inr ⟨_, hasks, Or.inl ⟨_, h, rfl⟩⟩
    · exact Or.inr ⟨_, hasks, Or.inr ⟨_, hrequest, Or.inl h⟩⟩
    · exact Or.inr ⟨_, hasks, Or.inr ⟨_, hrequest, Or.inr ⟨_, hgives, Or.inl ⟨_, h, rfl⟩⟩⟩⟩
    · exact Or.inr ⟨_, hasks, Or.inr ⟨_, hrequest, Or.inr ⟨_, hgives, Or.inr ⟨_, huser, Or.inl h⟩⟩⟩⟩
    · exact Or.inr ⟨_, hasks, Or.inr ⟨_, hrequest, Or.inr ⟨_, hgives, Or.inr ⟨_, huser,
        Or.inr ⟨_, hgives', Or.inl ⟨_, h, rfl⟩⟩⟩⟩⟩⟩
    · exact Or.inr ⟨_, hasks, Or.inr ⟨_, hrequest, Or.inr ⟨_, hgives, Or.inr ⟨_, huser,
        Or.inr ⟨_, hgives', Or.inr ⟨_, hsite, Or.inl ⟨_, h, rfl⟩⟩⟩⟩⟩⟩⟩

theorem lookAt_prepare_eq_ok_iff {o : Order} :
    (prepare s file cache user site).lookAt fs = .ok o ↔ Says s fs file cache user site o := by
  unfold prepare
  simp only [Job.lookAt_bind_eq_ok_iff (looks_loadRequest _),
    Job.lookAt_bind_eq_ok_iff (looks_loadMap? _ _),
    Job.lookAt_bind_eq_ok_iff (looks_orInvalid _), lookAt_loadRequest_eq_ok_iff,
    lookAt_loadMap?_eq_ok_iff, lookAt_orInvalid_eq_ok_iff]
  constructor
  · rintro ⟨m, hasks, request, hrequest, m', hgives, u, huser, m'', hgives', st, hsite, settings,
      hsettings, h⟩
    cases h
    exact ⟨⟨m, hasks, hrequest⟩, ⟨m', hgives, huser⟩, ⟨m'', hgives', hsite⟩, hsettings⟩
  · rintro ⟨⟨m, hasks, hrequest⟩, ⟨m', hgives, huser⟩, ⟨m'', hgives', hsite⟩, hsettings⟩
    exact ⟨m, hasks, _, hrequest, m', hgives, _, huser, m'', hgives', _, hsite, _, hsettings, rfl⟩

/-! ## Codes -/

/-- Whether a file of the command is missing. -/
def IsMissing (fs : FileSystem) (file : Text) (user site : Option Text) : Prop :=
  ¬ MeansFile fs (Path.ofText file).toText ∨
    ∃ t, (user = some t ∨ site = some t) ∧ t ≠ [] ∧ ¬ MeansFile fs (Path.ofText t).toText

theorem Unloaded.exit {p : Path} {label : String} {o : Outcome}
    (h : Unloaded fs p label (.outcome o)) :
    o.exit = 1 ∨ o.exit = 2 ∧ ¬ MeansFile fs p.toText := by
  generalize he : Ended.outcome o = e at h
  cases h with
  | missing hlook =>
    cases he
    refine Or.inr ⟨rfl, fun hfile => ?_⟩
    cases hlook.symm.trans (Generation.meansFile_iff.1 hfile)
  | _ =>
    cases he <;> exact Or.inl rfl

theorem Ungiven.exit {p : Option Text} {label : String} {o : Outcome}
    (h : Ungiven fs label p (.outcome o)) :
    o.exit = 1 ∨ o.exit = 2 ∧ ∃ t, p = some t ∧ t ≠ [] ∧ ¬ MeansFile fs (Path.ofText t).toText := by
  rcases p with _ | _ | ⟨c, r⟩
  · exact h.elim
  · exact h.elim
  · exact (Unloaded.exit h).imp_right fun h => ⟨h.1, _, rfl, by simp, h.2⟩

/-- A preparation is refused with two only where a file is missing, and with one otherwise. -/
theorem Unprepared.exit {o : Outcome} (h : Unprepared s fs file cache user site (.outcome o)) :
    o.exit = 1 ∨ o.exit = 2 ∧ IsMissing fs file user site := by
  generalize he : Ended.outcome o = e at h
  cases h with
  | unasked h =>
    subst he
    generalize he : Ended.outcome o = e at h
    cases h with
    | unloaded h =>
      subst he
      exact h.exit.imp_right fun h => ⟨h.1, Or.inl h.2⟩
    | illFormed =>
      cases he
      exact Or.inl rfl
    | homeless => cases he
  | userUngiven _ _ h =>
    subst he
    exact h.exit.imp_right fun h =>
      ⟨h.1, Or.inr (h.2.imp fun _ ht => ⟨Or.inl ht.1, ht.2⟩)⟩
  | siteUngiven _ _ _ _ h =>
    subst he
    exact h.exit.imp_right fun h =>
      ⟨h.1, Or.inr (h.2.imp fun _ ht => ⟨Or.inr ht.1, ht.2⟩)⟩
  | _ =>
    cases he
    exact Or.inl rfl

end MailMerge.CommandLine
