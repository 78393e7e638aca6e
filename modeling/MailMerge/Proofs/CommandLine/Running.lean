import MailMerge.CommandLine.Run
import MailMerge.Proofs.Generation.Faults
/-!
# Running jobs

A job is a script that may end early, given up with an outcome or broken off by a fault. What a command
does before it makes anything is to look at files: such a job (`Looks`) leaves the world as it is, and
how it ends is told by the files alone (`lookAt`).

* `looks_loadMap`: reading a map from a file is such a job.
* `lookAt_loadMap_eq_error_iff`, `lookAt_loadMap_eq_ok_iff`: with which codes and by which faults the
  reading of a file ends, and when it gives a map.
-/
namespace MailMerge

theorem mapError_eq_error_iff {ε ε' α : Type} {g : ε → ε'} {r : Except ε α} {e : ε'} :
    r.mapError g = .error e ↔ ∃ c, r = .error c ∧ e = g c := by
  cases r <;> simp [Except.mapError, eq_comm]

theorem mapError_eq_ok_iff {ε ε' α : Type} {g : ε → ε'} {r : Except ε α} {a : α} :
    r.mapError g = .ok a ↔ r = .ok a := by
  cases r <;> simp [Except.mapError]

namespace CommandLine

open Generation (MeansFile)

namespace Job

variable {α β : Type}

/-- The result of a job and the world after it. -/
def perform (x : Job α) (w : World) : Except Ended α × World := Script.run x.run w

theorem perform_pure (a : α) (w : World) : perform (pure a : Job α) w = (.ok a, w) := rfl

theorem perform_throw (e : Ended) (w : World) : perform (throw e : Job α) w = (.error e, w) := rfl

theorem perform_bind (x : Job α) (f : α → Job β) (w : World) :
    perform (x >>= f) w = match perform x w with
      | (.ok a, w') => perform (f a) w'
      | (.error e, w') => (.error e, w') := by
  show Script.run (x.run >>= _) w = _
  rw [Script.run_bind, perform]
  obtain ⟨r, w'⟩ := Script.run x.run w
  cases r <;> rfl

theorem perform_script (x : Script α) (w : World) :
    perform (liftM x : Job α) w = (.ok (Script.run x w).1, (Script.run x w).2) := by
  show Script.run (x >>= (pure ∘ Except.ok)) w = _
  rw [Script.run_bind]
  rfl

theorem perform_step (p : Text) (x : Script (Except Cause α)) (w : World) :
    perform (Job.step p x) w = match Script.run x w with
      | (.ok a, w') => (.ok a, w')
      | (.error c, w') => (.error (.fault (.storage ⟨c, p, none⟩)), w') := by
  show Script.run (x >>= _) w = _
  rw [Script.run_bind]
  obtain ⟨r, w'⟩ := Script.run x w
  cases r <;> rfl

/-! ## Looking at files -/

/-- How a job ends that finds certain files. -/
def lookAt (x : Job α) (fs : FileSystem) : Except Ended α := (x.perform { files := fs }).1

/-- Whether a job only looks at files. -/
def Looks (x : Job α) : Prop := ∀ w, x.perform w = (x.lookAt w.files, w)

theorem looks_pure (a : α) : Looks (pure a : Job α) := fun _ => rfl

theorem looks_quit (exit : Nat) (message : Text) : Looks (quit exit message : Job α) := fun _ => rfl

theorem looks_abandon (f : Fault) : Looks (abandon f : Job α) := fun _ => rfl

theorem lookAt_bind {x : Job α} (hx : Looks x) (f : α → Job β) (fs : FileSystem) :
    (x >>= f).lookAt fs = match x.lookAt fs with
      | .ok a => (f a).lookAt fs
      | .error e => .error e := by
  unfold lookAt
  rw [perform_bind, hx, lookAt]
  cases (x.perform { files := fs }).1 <;> rfl

theorem lookAt_bind_eq_error_iff {x : Job α} (hx : Looks x) {f : α → Job β} {fs : FileSystem}
    {e : Ended} : (x >>= f).lookAt fs = .error e ↔
      x.lookAt fs = .error e ∨ ∃ a, x.lookAt fs = .ok a ∧ (f a).lookAt fs = .error e := by
  rw [lookAt_bind hx]
  cases x.lookAt fs <;> simp

theorem lookAt_bind_eq_ok_iff {x : Job α} (hx : Looks x) {f : α → Job β} {fs : FileSystem} {b : β} :
    (x >>= f).lookAt fs = .ok b ↔ ∃ a, x.lookAt fs = .ok a ∧ (f a).lookAt fs = .ok b := by
  rw [lookAt_bind hx]
  cases x.lookAt fs <;> simp

theorem Looks.bind {x : Job α} (hx : Looks x) {f : α → Job β} (hf : ∀ a, Looks (f a)) :
    Looks (x >>= f) := by
  intro w
  rw [lookAt_bind hx, perform_bind, hx]
  cases x.lookAt w.files with
  | ok a => exact hf a w
  | error e => rfl

/-- A question to which the files give the answer. -/
theorem looks_of_answer {x : Job α} (answer : FileSystem → Except Ended α)
    (h : ∀ w, x.perform w = (answer w.files, w)) : Looks x ∧ x.lookAt = answer := by
  have hlook : x.lookAt = answer := funext fun fs => by rw [lookAt, h]
  exact ⟨fun w => by rw [h, hlook], hlook⟩

/-- A trouble that breaks a job off. -/
def broken (p : Text) (r : Except Cause α) : Except Ended α :=
  r.mapError fun c => .fault (.storage ⟨c, p, none⟩)

theorem looks_isFile (p : Text) : Looks (step p (Script.isFile p)) ∧
    (step p (Script.isFile p)).lookAt =
      fun fs => broken p (Script.probed (!·.isDirectory) (fs.status p)) := by
  refine looks_of_answer _ fun w => ?_
  rw [perform_step, Script.run_isFile]
  cases Script.probed (!·.isDirectory) (w.files.status p) <;> rfl

theorem looks_canonical (p : Text) : Looks (step p (Script.canonical p)) ∧
    (step p (Script.canonical p)).lookAt = fun fs => broken p (fs.canonical p) := by
  refine looks_of_answer _ fun w => ?_
  rw [perform_step, Script.run_canonical]
  cases w.files.canonical p <;> rfl

theorem looks_read (p : Text) : Looks (liftM (Script.read p) : Job (Except Cause Content)) ∧
    (liftM (Script.read p) : Job (Except Cause Content)).lookAt = fun fs => .ok (fs.read p) := by
  refine looks_of_answer _ fun w => ?_
  rw [perform_script, Script.run_read]

theorem looks_orBreak (r : Except Fault α) : Looks (orBreak r) := by
  cases r with
  | ok a => exact looks_pure a
  | error f => exact looks_abandon f

theorem lookAt_orBreak (r : Except Fault α) (fs : FileSystem) :
    (orBreak r).lookAt fs = r.mapError .fault := by
  cases r <;> rfl

end Job

/-- A command that is given up with a code and an error message. -/
def refusal (exit : Nat) (message : Text) : Ended :=
  .outcome { exit := exit, errors := "ERROR: ".toList ++ message ++ ['\n'] }

theorem looks_orInvalid {α : Type} (r : Except Fault α) : Job.Looks (orInvalid r) := by
  cases r with
  | ok a => exact Job.looks_pure a
  | error f => exact Job.looks_quit 1 _

theorem lookAt_orInvalid {α : Type} (r : Except Fault α) (fs : FileSystem) :
    (orInvalid r).lookAt fs =
      r.mapError fun f => refusal 1 ("invalid input: ".toList ++ f.message) := by
  cases r <;> rfl

/-! ## One file -/

theorem looks_loadMap (p : Path) (label : String) : Job.Looks (loadMap p label) := by
  unfold loadMap
  refine (Job.looks_isFile _).1.bind fun there => ?_
  cases there with
  | false => exact fun _ => rfl
  | true =>
    refine (Job.looks_read _).1.bind fun content => ?_
    cases content with
    | error c => exact Job.looks_quit 1 _
    | ok content =>
      dsimp only
      cases (textOf content).map unifyLines with
      | error e => exact Job.looks_abandon _
      | ok t =>
        dsimp only
        cases Json.read t with
        | error stop => cases stop with
          | flaw f place => exact Job.looks_quit 1 _
          | fault f => exact Job.looks_abandon f
        | ok v => cases v <;> first | exact Job.looks_pure _ | exact Job.looks_quit 1 _

/-- How the reading of a map from a file ends early: with two where there is no file, with one where
the file cannot be read or holds no map, and with a fault where a look at its path, its characters or
its numbers and their depth go beyond what is read. -/
inductive Unloaded (fs : FileSystem) (p : Path) (label : String) : Ended → Prop
  | hidden (hlook : fs.status p.toText = .error .nameTooLong) :
    Unloaded fs p label (.fault (.storage ⟨.nameTooLong, p.toText, none⟩))
  | missing (hlook : Script.probed (!·.isDirectory) (fs.status p.toText) = .ok false) :
    Unloaded fs p label (refusal 2 (label.toList ++ " file not found: ".toList ++ p.toText))
  | unreadable (hfile : MeansFile fs p.toText) {c : Cause} (hread : fs.read p.toText = .error c) :
    Unloaded fs p label (refusal 1 ("failed to load ".toList ++ p.toText ++ ": ".toList ++
      Trouble.message ⟨c, p.toText, none⟩))
  | garbled (hfile : MeansFile fs p.toText) {content : Content}
    (hread : fs.read p.toText = .ok content) {e : Utf8Error} (htext : textOf content = .error e) :
    Unloaded fs p label (.fault (.badEncoding e))
  | flawed (hfile : MeansFile fs p.toText) {content : Content}
    (hread : fs.read p.toText = .ok content) {t : Text} (htext : textOf content = .ok t)
    {f : Json.Flaw} {place : Nat} (hjson : Json.read (unifyLines t) = .error (.flaw f place)) :
    Unloaded fs p label (refusal 1 ("failed to load ".toList ++ p.toText ++ ": ".toList ++
      Json.flawMessage (unifyLines t) f place))
  | boundless (hfile : MeansFile fs p.toText) {content : Content}
    (hread : fs.read p.toText = .ok content) {t : Text} (htext : textOf content = .ok t) {f : Fault}
    (hjson : Json.read (unifyLines t) = .error (.fault f)) : Unloaded fs p label (.fault f)
  | noMap (hfile : MeansFile fs p.toText) {content : Content}
    (hread : fs.read p.toText = .ok content) {t : Text} (htext : textOf content = .ok t) {v : Value}
    (hjson : Json.read (unifyLines t) = .ok v) (hmap : ∀ m, v ≠ .map m) :
    Unloaded fs p label
      (refusal 1 (label.toList ++ " file must contain a JSON object: ".toList ++ p.toText))

/-- What a file holds, read as a map. -/
def mapOf (p : Path) (label : String) (content : Content) : Job DataMap :=
  match (textOf content).map unifyLines with
  | .error e => Job.abandon (.badEncoding e)
  | .ok t =>
    match Json.read t with
    | .error (.flaw f place) =>
      Job.quit 1 ("failed to load ".toList ++ p.toText ++ ": ".toList ++ Json.flawMessage t f place)
    | .error (.fault f) => Job.abandon f
    | .ok (.map m) => pure m
    | .ok _ => Job.quit 1 (label.toList ++ " file must contain a JSON object: ".toList ++ p.toText)

theorem lookAt_loadMap (p : Path) (label : String) (fs : FileSystem) :
    (loadMap p label).lookAt fs =
      match Job.broken p.toText (Script.probed (!·.isDirectory) (fs.status p.toText)) with
      | .error e => .error e
      | .ok false => .error (refusal 2 (label.toList ++ " file not found: ".toList ++ p.toText))
      | .ok true => match fs.read p.toText with
        | .error c => .error (refusal 1 ("failed to load ".toList ++ p.toText ++ ": ".toList ++
          Trouble.message ⟨c, p.toText, none⟩))
        | .ok content => (mapOf p label content).lookAt fs := by
  unfold loadMap
  dsimp only
  rw [Job.lookAt_bind (Job.looks_isFile _).1, (Job.looks_isFile _).2]
  dsimp only
  cases Job.broken p.toText (Script.probed (!·.isDirectory) (fs.status p.toText)) with
  | error e => rfl
  | ok there =>
    cases there with
    | false => rfl
    | true =>
      dsimp only
      rw [if_neg (by decide), Job.lookAt_bind (Job.looks_read _).1, (Job.looks_read _).2]
      dsimp only
      cases fs.read p.toText <;> rfl

/-- Whether a file holds a map. -/
def HoldsMap (fs : FileSystem) (p : Text) (m : DataMap) : Prop :=
  MeansFile fs p ∧ ∃ content t, fs.read p = .ok content ∧ textOf content = .ok t ∧
    Json.read (unifyLines t) = .ok (.map m)

/-- A file that is there is read, and what it holds is taken for a map. -/
theorem lookAt_loadMap_file {p : Path} {label : String} {fs : FileSystem}
    (hfile : MeansFile fs p.toText) {content : Content} (hread : fs.read p.toText = .ok content) :
    (loadMap p label).lookAt fs = (mapOf p label content).lookAt fs := by
  rw [lookAt_loadMap, Generation.meansFile_iff.1 hfile, hread]
  rfl

/-- What a file holds is a map, or the reading ends early. -/
theorem lookAt_mapOf_cases {p : Path} (label : String) {fs : FileSystem}
    (hfile : MeansFile fs p.toText) {content : Content} (hread : fs.read p.toText = .ok content) :
    match (mapOf p label content).lookAt fs with
    | .ok m => HoldsMap fs p.toText m
    | .error e => Unloaded fs p label e := by
  unfold mapOf
  cases htext : textOf content with
  | error e => exact .garbled hfile hread htext
  | ok t =>
    dsimp only [Except.map]
    cases hjson : Json.read (unifyLines t) with
    | error stop =>
      cases stop with
      | flaw f place => exact .flawed hfile hread htext hjson
      | fault f => exact .boundless hfile hread htext hjson
    | ok v =>
      cases v with
      | map m => exact ⟨hfile, content, t, hread, htext, hjson⟩
      | _ => exact .noMap hfile hread htext hjson fun m => nofun

theorem lookAt_loadMap_cases (p : Path) (label : String) (fs : FileSystem) :
    match (loadMap p label).lookAt fs with
    | .ok m => HoldsMap fs p.toText m
    | .error e => Unloaded fs p label e := by
  cases hlook : Script.probed (!·.isDirectory) (fs.status p.toText) with
  | error c =>
    rw [lookAt_loadMap, hlook]
    obtain ⟨rfl, hlong⟩ := Script.probed_eq_error_iff.1 hlook
    exact .hidden hlong
  | ok there =>
    cases there with
    | false =>
      rw [lookAt_loadMap, hlook]
      exact .missing hlook
    | true =>
      have hfile := Generation.meansFile_iff.2 hlook
      cases hread : fs.read p.toText with
      | error c =>
        rw [lookAt_loadMap, hlook, hread]
        exact .unreadable hfile hread
      | ok content =>
        rw [lookAt_loadMap_file hfile hread]
        exact lookAt_mapOf_cases label hfile hread

theorem lookAt_loadMap_eq_error_iff {p : Path} {label : String} {fs : FileSystem} {e : Ended} :
    (loadMap p label).lookAt fs = .error e ↔ Unloaded fs p label e := by
  constructor
  · intro h
    have hcases := lookAt_loadMap_cases p label fs
    rw [h] at hcases
    exact hcases
  · rintro (hlook | hlook | ⟨hfile, hread⟩ | ⟨hfile, hread, htext⟩ | ⟨hfile, hread, htext, hjson⟩ |
      ⟨hfile, hread, htext, hjson⟩ | ⟨hfile, hread, htext, hjson, hmap⟩)
    · rw [lookAt_loadMap, Script.probed_eq_error_iff.2 ⟨rfl, hlook⟩]
      rfl
    · rw [lookAt_loadMap, hlook]
      rfl
    · rw [lookAt_loadMap, Generation.meansFile_iff.1 hfile, hread]
      rfl
    · rw [lookAt_loadMap_file hfile hread, mapOf, htext]
      rfl
    · rw [lookAt_loadMap_file hfile hread, mapOf, htext]
      dsimp only [Except.map]
      rw [hjson]
      rfl
    · rw [lookAt_loadMap_file hfile hread, mapOf, htext]
      dsimp only [Except.map]
      rw [hjson]
      rfl
    · rw [lookAt_loadMap_file hfile hread, mapOf, htext]
      dsimp only [Except.map]
      rw [hjson]
      cases ‹Value› with
      | map m => exact absurd rfl (hmap m)
      | _ => rfl

theorem lookAt_loadMap_eq_ok_iff {p : Path} {label : String} {fs : FileSystem} {m : DataMap} :
    (loadMap p label).lookAt fs = .ok m ↔ HoldsMap fs p.toText m := by
  constructor
  · intro h
    have hcases := lookAt_loadMap_cases p label fs
    rw [h] at hcases
    exact hcases
  · rintro ⟨hfile, content, t, hread, htext, hjson⟩
    rw [lookAt_loadMap_file hfile hread, mapOf, htext]
    dsimp only [Except.map]
    rw [hjson]
    rfl

end CommandLine
end MailMerge
