import MailMerge.Proofs.Generation.Atomicity
import MailMerge.Proofs.Storage.Looking
/-!
# Faults that reach whoever asks

Whoever asks for a document is told of failures, each of which has a code. A fault has none, and
nobody expects it. Copying the template, filling the copy and moving the result to its final name make
failures of all faults, whatever the engine does. The look at the paths of a request does not, and
neither does the converter.

* `ofProgram_faults_iff`: what breaks off a conversion with a fault.
* `execute_faults_iff`: the converter is the only part of the work whose faults come through.
* `generate_faults_iff`: which faults reach whoever asks, for every request and every engine.
-/
namespace MailMerge

theorem World.change_eq_error_iff {w : World} {r : Except Cause FileSystem} {c : Cause} :
    (w.change r).1 = .error c ↔ r = .error c := by
  cases r <;> simp [change]

theorem World.change_eq_ok_iff {w : World} {r : Except Cause FileSystem} {u : Unit} :
    (w.change r).1 = .ok u ↔ ∃ files, r = .ok files := by
  cases r <;> simp [change]

/-! ## Faults of tasks and works -/

namespace Task

variable {α β : Type}

/-- Whether a task ends with a fault. -/
def Faults (x : Task α) (w : World) (f : Fault) : Prop := (x.perform w).1 = .error (.fault f)

/-- Whether a task never ends with a fault. -/
def Typed (x : Task α) : Prop := ∀ w f, ¬ x.Faults w f

variable {x : Task α} {w : World} {f : Fault}

theorem faults_throw (e : Abort) : Faults (throw e : Task α) w f ↔ e = .fault f :=
  ⟨fun h => Except.error.inj h, fun h => congrArg Except.error h⟩

theorem faults_throw_bind (e : Abort) {g : α → Task β} :
    Faults (throw e >>= g) w f ↔ e = .fault f := faults_throw e

theorem faults_bind {g : α → Task β} :
    Faults (x >>= g) w f ↔
      x.Faults w f ∨ ∃ a w', x.perform w = (.ok a, w') ∧ (g a).Faults w' f := by
  unfold Faults
  rw [perform_bind]
  obtain ⟨result, w'⟩ := perform x w
  cases result <;> simp

theorem faults_script_bind (x : Script α) {g : α → Task β} :
    Faults (liftM x >>= g) w f ↔ (g (Script.run x w).1).Faults (Script.run x w).2 f := by
  unfold Faults
  rw [perform_bind, perform_script]

theorem faults_bind_ok {g : α → Task β} {a : α} {w' : World} (h : x.perform w = (.ok a, w')) :
    Faults (x >>= g) w f ↔ (g a).Faults w' f := by
  unfold Faults
  rw [perform_bind, h]

theorem faults_step {p : Text} {x : Script (Except Cause α)} :
    (step p x).Faults w f ↔ ∃ c, (Script.run x w).1 = .error c ∧ f = .storage ⟨c, p, none⟩ := by
  unfold Faults
  rw [perform_step]
  obtain ⟨result, w'⟩ := Script.run x w
  cases result <;> simp [eq_comm]

theorem faults_step_bind {p : Text} {x : Script (Except Cause α)} {g : α → Task β} :
    Faults (step p x >>= g) w f ↔
      (∃ c, (Script.run x w).1 = .error c ∧ f = .storage ⟨c, p, none⟩) ∨
        ∃ a, (Script.run x w).1 = .ok a ∧ (g a).Faults (Script.run x w).2 f := by
  unfold Faults
  rw [perform_bind, perform_step]
  obtain ⟨result, w'⟩ := Script.run x w
  cases result <;> simp [eq_comm]

theorem faults_thenTidy (tidy : Script Unit) : (thenTidy x tidy).Faults w f ↔ x.Faults w f := by
  unfold Faults
  rw [perform_thenTidy]

theorem typed_pure (a : α) : Typed (pure a : Task α) := fun _ _ h => nomatch h

theorem typed_fail (f : Failure) : Typed (Task.fail f : Task α) := fun _ _ h => nomatch h

theorem typed_script (x : Script α) : Typed (liftM x : Task α) := fun w f h => by
  unfold Faults at h
  rw [perform_script] at h
  cases h

theorem Typed.bind (hx : Typed x) {g : α → Task β} (hg : ∀ a, Typed (g a)) : Typed (x >>= g) := by
  intro w f h
  rcases faults_bind.1 h with h | ⟨a, w', -, h⟩
  · exact hx w f h
  · exact hg a w' f h

end Task

namespace Generation

variable {α β : Type}

/-- Whether a work ends with a fault. -/
def Faults (x : Work α) (c : AssetCache) (w : World) (f : Fault) : Prop :=
  (perform x c w).1.1 = .error (.fault f)

/-- Whether a work never ends with a fault. -/
def Typed (x : Work α) : Prop := ∀ c w f, ¬ Faults x c w f

variable {x : Work α} {c : AssetCache} {w : World} {f : Fault}

theorem faults_lift (x : Task α) : Faults (lift x) c w f ↔ x.Faults w f := by
  unfold Faults Task.Faults
  rw [perform_lift]

theorem faults_bind {g : α → Work β} :
    Faults (x >>= g) c w f ↔
      Faults x c w f ∨ ∃ a c' w', perform x c w = ((.ok a, c'), w') ∧ Faults (g a) c' w' f := by
  unfold Faults
  rw [perform_bind]
  obtain ⟨⟨result, c'⟩, w'⟩ := perform x c w
  cases result <;> simp

theorem perform_bind_eq_ok_iff {g : α → Work β} {b : β} {c' : AssetCache} {w' : World} :
    perform (x >>= g) c w = ((.ok b, c'), w') ↔
      ∃ a c₁ w₁, perform x c w = ((.ok a, c₁), w₁) ∧ perform (g a) c₁ w₁ = ((.ok b, c'), w') := by
  rw [perform_bind]
  obtain ⟨⟨result, c₁⟩, w₁⟩ := perform x c w
  cases result <;> simp

theorem faults_script_bind (x : Script α) {g : α → Work β} :
    Faults (lift (liftM x) >>= g) c w f ↔
      Faults (g (Script.run x w).1) c (Script.run x w).2 f := by
  unfold Faults
  rw [perform_bind, perform_lift, Task.perform_script]

theorem perform_script_bind (x : Script α) (g : α → Work β) :
    perform (lift (liftM x) >>= g) c w = perform (g (Script.run x w).1) c (Script.run x w).2 := by
  rw [perform_bind, perform_lift, Task.perform_script]

theorem Typed.faults_bind (hx : Typed x) {g : α → Work β} :
    Faults (x >>= g) c w f ↔ ∃ a c' w', perform x c w = ((.ok a, c'), w') ∧ Faults (g a) c' w' f := by
  rw [Generation.faults_bind, or_iff_right (hx c w f)]

theorem faults_thenTidy (tidy : Script Unit) : Faults (thenTidy x tidy) c w f ↔ Faults x c w f := by
  unfold Faults
  rw [perform_thenTidy]

theorem typed_pure (a : α) : Typed (pure a : Work α) := fun _ _ _ h => nomatch h

theorem typed_failure (f : Failure) : Typed (throw (.failure f) : Work α) := fun _ _ _ h => nomatch h

theorem typed_get : Typed (get : Work AssetCache) := fun _ _ _ h => nomatch h

theorem typed_set (c : AssetCache) : Typed (set c : Work PUnit) := fun _ _ _ h => nomatch h

theorem typed_lift {x : Task α} (hx : x.Typed) : Typed (lift x) := fun _ w f h =>
  hx w f ((faults_lift x).1 h)

theorem Typed.bind (hx : Typed x) {g : α → Work β} (hg : ∀ a, Typed (g a)) : Typed (x >>= g) := by
  intro c w f h
  obtain ⟨a, c', w', -, h⟩ := hx.faults_bind.1 h
  exact hg a c' w' f h

/-! ## The stages that make failures of their faults -/

theorem stage_typed (template directory : Path) : (stage template directory).Typed := by
  unfold stage
  refine (Task.typed_script _).bind fun staged => ?_
  have hlost : ∀ (p : Text) (c : Cause), Task.Typed (do
      discard staged
      Task.fail (.copy (.template template.toText ⟨c, p, none⟩)) : Task Path) :=
    fun _ _ => (Task.typed_script _).bind fun _ => Task.typed_fail _
  refine (Task.typed_script _).bind fun content => ?_
  cases content with
  | error c => exact hlost _ c
  | ok content =>
    refine (Task.typed_script _).bind fun written => ?_
    cases written with
    | error c => exact hlost _ c
    | ok u => exact Task.typed_pure staged

theorem store_typed (images : ImageReader) (rendered : Path) (d : Document)
    (values : Except Abort DataMap) : Typed (store images rendered d values) := by
  unfold store
  cases values with
  | error e => cases e <;> exact typed_failure _
  | ok values =>
    refine (typed_lift (Task.typed_script _)).bind fun filled => ?_
    cases filled.result with
    | error f => exact typed_failure _
    | ok n =>
      refine (typed_lift (Task.typed_script _)).bind fun written => ?_
      cases written with
      | error c => exact typed_failure _
      | ok u => exact typed_pure ()

/-- Whatever an engine does, filling a document makes failures of its faults. -/
theorem render_typed (engine : Engine) (images : ImageReader) (staged rendered : Path) (data : DataMap) :
    Typed (render engine images staged rendered data) := by
  unfold render
  refine (typed_lift (Task.typed_script _)).bind fun document? => ?_
  cases document? with
  | none => exact typed_failure _
  | some d =>
    refine typed_get.bind fun cache => ?_
    refine (typed_lift (Task.typed_script _)).bind fun resolved => ?_
    obtain ⟨values, cache'⟩ := resolved
    exact (typed_set _).bind fun _ => store_typed images rendered d values

theorem publish_typed (result final : Path) : (publish result final).Typed := by
  unfold publish
  refine (Task.typed_script _).bind fun moved => ?_
  cases moved with
  | error c => exact Task.typed_fail _
  | ok u => exact Task.typed_pure ()

end Generation

/-! ## Moving what a program made -/

namespace Conversion

variable {w : World} {f : Fault} {source name target : Text}

/-- Where a file goes that is moved to a target. -/
def goal (files : FileSystem) (name target : Text) : Text :=
  match files.status target with
  | .ok s => if s.isDirectory then inside target name else target
  | .error _ => target

/-- Whether a target is a directory that has a file of this name. -/
def IsOccupied (files : FileSystem) (name target : Text) : Prop :=
  ∃ s, files.status target = .ok s ∧ s.isDirectory = true ∧
    (files.status (inside target name)).toBool = true

/-- The faults of a move: the target is occupied, or the file can neither be renamed nor copied and
removed. -/
inductive Stuck (w : World) (source name target : Text) : Fault → Prop
  | occupied (h : IsOccupied w.files name target) :
    Stuck w source name target (.alreadyThere (inside target name))
  | unreadable (h : ¬ IsOccupied w.files name target) {e c : Cause}
    (hrename : w.files.rename source (goal w.files name target) = .error e)
    (hread : w.files.read source = .error c) : Stuck w source name target (.storage ⟨c, source, none⟩)
  | unwritable (h : ¬ IsOccupied w.files name target) {e c : Cause}
    (hrename : w.files.rename source (goal w.files name target) = .error e) {content : Content}
    (hread : w.files.read source = .ok content)
    (hwrite : w.files.write w.clock (goal w.files name target) content = .error c) :
    Stuck w source name target (.storage ⟨c, goal w.files name target, none⟩)
  | irremovable (h : ¬ IsOccupied w.files name target) {e c : Cause}
    (hrename : w.files.rename source (goal w.files name target) = .error e) {content : Content}
    (hread : w.files.read source = .ok content) {files : FileSystem}
    (hwrite : w.files.write w.clock (goal w.files name target) content = .ok files)
    (hremove : files.remove source = .error c) :
    Stuck w source name target (.storage ⟨c, source, none⟩)

theorem perform_destination_occupied (h : IsOccupied w.files name target) :
    (destination name target).perform w =
      (.error (.fault (.alreadyThere (inside target name))), w) := by
  obtain ⟨s, hs, hdir, hthere⟩ := h
  unfold destination
  rw [Task.perform_bind, Task.perform_script, Script.run_status, hs]
  dsimp only
  rw [if_pos hdir, Task.perform_bind, Task.perform_script, Script.run_canReach, hthere]
  rfl

theorem perform_destination_free (h : ¬ IsOccupied w.files name target) :
    (destination name target).perform w = (.ok (goal w.files name target), w) := by
  unfold destination goal
  rw [Task.perform_bind, Task.perform_script, Script.run_status]
  cases hs : w.files.status target with
  | error e => rfl
  | ok s =>
    dsimp only
    cases hdir : s.isDirectory with
    | false => rfl
    | true =>
      rw [if_pos rfl, if_pos rfl, Task.perform_bind, Task.perform_script, Script.run_canReach,
        Bool.eq_false_iff.2 fun hthere => h ⟨s, hs, hdir, hthere⟩]
      rfl

/-- A move has no other faults, and no failures. -/
theorem move_faults_iff :
    (move source name target).Faults w f ↔ Stuck w source name target f := by
  by_cases hocc : IsOccupied w.files name target
  · unfold move Task.Faults
    rw [Task.perform_bind, perform_destination_occupied hocc]
    constructor
    · intro h
      cases h
      exact .occupied hocc
    · rintro (h | h | h | h)
      · rfl
      all_goals exact absurd hocc h
  · unfold move
    rw [Task.faults_bind_ok (perform_destination_free hocc), Task.faults_script_bind,
      Script.run_rename]
    constructor
    · intro h
      cases hrename : w.files.rename source (goal w.files name target) with
      | ok files =>
        rw [hrename] at h
        cases h
      | error e =>
        rw [hrename] at h
        dsimp only [World.change] at h
        rcases Task.faults_step_bind.1 h with ⟨c, hread, rfl⟩ | ⟨content, hread, h⟩
        · exact .unreadable hocc hrename hread
        · rcases Task.faults_step_bind.1 h with ⟨c, hwrite, rfl⟩ | ⟨u, hwrite, h⟩
          · exact .unwritable hocc hrename hread (World.change_eq_error_iff.1 hwrite)
          · obtain ⟨files, hwrite⟩ :
                ∃ files, w.files.write w.clock (goal w.files name target) content = .ok files :=
              World.change_eq_ok_iff.1 hwrite
            rw [Script.run_read, Script.run_write, hwrite] at h
            obtain ⟨c, hremove, rfl⟩ := Task.faults_step.1 h
            exact .irremovable hocc hrename hread hwrite (World.change_eq_error_iff.1 hremove)
    · rintro (h | ⟨-, hrename, hread⟩ | ⟨-, hrename, hread, hwrite⟩ |
        ⟨-, hrename, hread, hwrite, hremove⟩)
      · exact absurd h hocc
      all_goals rw [hrename]
      · exact Task.faults_step_bind.2 (Or.inl ⟨_, hread, rfl⟩)
      · exact Task.faults_step_bind.2 (Or.inr ⟨_, hread, Task.faults_step_bind.2
          (Or.inl ⟨_, World.change_eq_error_iff.2 hwrite, rfl⟩)⟩)
      · refine Task.faults_step_bind.2 (Or.inr ⟨_, hread, Task.faults_step_bind.2
          (Or.inr ⟨(), World.change_eq_ok_iff.2 ⟨_, hwrite⟩, ?_⟩)⟩)
        rw [Script.run_read, Script.run_write, World.change, hwrite]
        exact Task.faults_step.2 ⟨_, World.change_eq_error_iff.2 hremove, rfl⟩

/-! ## Calling a program -/

/-- The faults of collecting what a program made after it has exited: its product cannot be looked at,
or cannot be moved. -/
inductive Lost (directory : Path) (made : Text) (target : Path) (w : World) : Fault → Prop
  | hidden (hlook : w.files.status (directory.child made).toText = .error .nameTooLong) :
    Lost directory made target w (.storage ⟨.nameTooLong, (directory.child made).toText, none⟩)
  | stuck {s : Status} {f : Fault} (hlook : w.files.status (directory.child made).toText = .ok s)
    (hfile : s.isDirectory = false)
    (hmove : Stuck w (directory.child made).toText made target.toText f) :
    Lost directory made target w f

/-- The faults of a program that works in a directory of its own: it cannot be called on its source,
or it has started and cannot be waited for, or what it says is no text, or what it made is lost. -/
inductive Broken (directory : Path) (call : ConverterProgramCall) (format : Text)
    (source target : Path) (w : World) : Fault → Prop
  | unpassable (hnull : '\x00' ∈ source.toText) :
    Broken directory call format source target w (.storage ⟨.nullCharacter, source.toText, none⟩)
  | unwaitable (hnull : '\x00' ∉ source.toText) {ending : Ending} {w' : World} {f : Fault}
    (hended : w.execute call.program (Generation.callOn source directory format) = (ending, w'))
    (hstarted : ∀ c, ending ≠ .notStarted c) (hwait : await call.seconds = .error (.fault f)) :
    Broken directory call format source target w f
  | garbled (hnull : '\x00' ∉ source.toText) {e : Utf8Error} {w' : World}
    (hended : w.execute call.program (Generation.callOn source directory format) = (.garbled e, w'))
    (hwait : await call.seconds = .ok ()) :
    Broken directory call format source target w (.badEncoding e)
  | lost (hnull : '\x00' ∉ source.toText) {w' : World} {f : Fault}
    (hended : w.execute call.program (Generation.callOn source directory format) = (.exited 0, w'))
    (hwait : await call.seconds = .ok ())
    (hlost : Lost directory (source.stem ++ '.' :: format) target w' f) :
    Broken directory call format source target w f

variable {directory : Path} {call : ConverterProgramCall} {made format : Text} {source target : Path}

/-- Nothing is collected, and nothing lost, from a program that did not exit well. -/
theorem collect_typed {code : Nat} (hcode : code ≠ 0) :
    (collect directory made code target).Typed := by
  unfold collect
  dsimp only
  rw [if_neg hcode]
  exact (Task.typed_script _).bind fun _ => Task.typed_fail _

theorem collect_faults_iff :
    (collect directory made 0 target).Faults w f ↔ Lost directory made target w f := by
  have hsettled : ∀ there, (if there = true then
      move (directory.child made).toText made target.toText
      else do
        Script.note (.error "conversion_failed")
        Task.fail (.conversion (.exited 0)) : Task Unit).Faults w f ↔
      there = true ∧ Stuck w (directory.child made).toText made target.toText f := by
    intro there
    cases there with
    | false =>
      rw [if_neg Bool.false_ne_true]
      exact ⟨fun h => absurd h (((Task.typed_script _).bind fun _ => Task.typed_fail _) _ _), nofun⟩
    | true => rw [if_pos rfl, move_faults_iff, and_iff_right rfl]
  unfold collect
  dsimp only
  rw [if_pos rfl, Task.faults_step_bind, Script.run_isFile]
  constructor
  · rintro (⟨c, hc, rfl⟩ | ⟨there, hthere, h⟩)
    · obtain ⟨rfl, hlook⟩ := Script.probed_eq_error_iff.1 hc
      exact .hidden hlook
    · obtain ⟨rfl, hmove⟩ := (hsettled there).1 h
      obtain ⟨s, hlook, hs⟩ := Script.probed_eq_true_iff.1 hthere
      exact .stuck hlook (by simpa using hs) hmove
  · rintro (hlook | ⟨hlook, hfile, hmove⟩)
    · exact Or.inl ⟨_, Script.probed_eq_error_iff.2 ⟨rfl, hlook⟩, rfl⟩
    · exact Or.inr ⟨true, Script.probed_eq_true_iff.2 ⟨_, hlook, by simpa using hfile⟩,
        (hsettled true).2 ⟨rfl, hmove⟩⟩

theorem runIn_faults_iff :
    (runIn directory call format source target).Faults w f ↔
      Broken directory call format source target w f := by
  have hrun : Script.run (Script.execute call.program
      ⟨source.toText, directory.toText, source.stem, format⟩) w =
        w.execute call.program (Generation.callOn source directory format) := rfl
  unfold runIn
  by_cases hnull : '\x00' ∈ source.toText
  · rw [if_pos (List.contains_iff_mem.2 hnull), Task.faults_throw_bind]
    constructor
    · rintro ⟨⟩
      exact .unpassable hnull
    · rintro (- | h | h | h)
      · rfl
      all_goals exact absurd hnull h
  · rw [if_neg (mt List.contains_iff_mem.1 hnull), Task.faults_script_bind, hrun]
    constructor
    · intro h
      cases hended : w.execute call.program (Generation.callOn source directory format) with
      | mk ending w' =>
      rw [hended] at h
      cases ending with
      | notStarted c => exact absurd h (Task.typed_fail _ _ _)
      | timedOut =>
        rcases Task.faults_bind.1 h with hwait | ⟨u, w'', -, h⟩
        · exact .unwaitable hnull hended nofun hwait
        · exact absurd h (Task.typed_fail _ _ _)
      | garbled e =>
        rcases Task.faults_bind.1 h with hwait | ⟨u, w'', hwait, h⟩
        · exact .unwaitable hnull hended nofun hwait
        · cases h
          exact .garbled hnull hended (congrArg Prod.fst hwait)
      | exited code =>
        rcases Task.faults_bind.1 h with hwait | ⟨u, w'', hready, h⟩
        · exact .unwaitable hnull hended nofun hwait
        · obtain ⟨hwait, rfl⟩ := Prod.mk.inj hready
          by_cases hcode : code = 0
          · subst hcode
            exact .lost hnull hended hwait (collect_faults_iff.1 h)
          · exact absurd h (collect_typed hcode _ _)
    · rintro (h | ⟨-, hended, hstarted, hwait⟩ | ⟨-, hended, hwait⟩ | ⟨-, hended, hwait, hlost⟩)
      · exact absurd h hnull
      · rw [hended]
        cases ‹Ending› with
        | notStarted c => exact absurd rfl (hstarted c)
        | _ => exact Task.faults_bind.2 (Or.inl hwait)
      · rw [hended]
        exact Task.faults_bind.2 (Or.inr ⟨(), _, congrArg (·, _) hwait, rfl⟩)
      · rw [hended]
        exact Task.faults_bind.2 (Or.inr ⟨(), _, congrArg (·, _) hwait, collect_faults_iff.2 hlost⟩)

/-- The private directory of the next conversion. -/
def room (w : World) : Path := privateRoot.child (Generation.privateStem w.fresh)

/-- The faults of a conversion with a program that is there: it gets no private directory, or it is
broken there. -/
inductive Breaks (call : ConverterProgramCall) (source target : Path) (w : World) : Fault → Prop
  | unhoused (hformat : formatOf target ∈ formats)
    (hprogram : (Script.run (isProgram call.program) w).1 = true) {c : Cause}
    (hmake : w.files.makeDirectory w.clock (room w).toText = .error c) :
    Breaks call source target w (.storage ⟨c, (room w).toText, none⟩)
  | broken (hformat : formatOf target ∈ formats)
    (hprogram : (Script.run (isProgram call.program) w).1 = true) {files : FileSystem}
    (hmake : w.files.makeDirectory w.clock (room w).toText = .ok files) {f : Fault}
    (hbroken : Broken (room w) call (formatOf target) source target
      { w with files := files, fresh := w.fresh + 1 } f) :
    Breaks call source target w f

theorem ofProgram_faults_iff :
    (Converter.ofProgram call source target).Faults w f ↔ Breaks call source target w f := by
  have hname : privateRoot.child ("docgen_convert_".toList ++ Text.ofNatPadded 8 w.fresh) = room w :=
    rfl
  unfold Converter.ofProgram
  dsimp only
  by_cases hformat : formatOf target ∈ formats
  · rw [if_neg (not_not.2 hformat), Task.faults_script_bind, Generation.run_isProgram]
    cases hprogram : (Script.run (isProgram call.program) w).1 with
    | false =>
      constructor
      · exact fun h => nomatch h
      · rintro (⟨-, h, -⟩ | ⟨-, h, -⟩) <;> cases hprogram.symm.trans h
    | true =>
      rw [if_neg (by decide), Task.faults_script_bind, Script.run_fresh]
      dsimp only
      rw [hname, Task.faults_step_bind, Script.run_makeDirectory]
      constructor
      · rintro (⟨c, hmake, rfl⟩ | ⟨u, hmake, h⟩)
        · exact .unhoused hformat hprogram (World.change_eq_error_iff.1 hmake)
        · obtain ⟨files, hmake⟩ := World.change_eq_ok_iff.1 hmake
          rw [hmake] at h
          rcases Task.faults_bind.1 h with h | ⟨u, w', -, h⟩
          · exact .broken hformat hprogram hmake (runIn_faults_iff.1 ((Task.faults_thenTidy _).1 h))
          · exact absurd h (Task.typed_script _ _ _)
      · rintro (⟨-, -, hmake⟩ | ⟨-, -, hmake, hbroken⟩)
        · exact Or.inl ⟨_, World.change_eq_error_iff.2 hmake, rfl⟩
        · refine Or.inr ⟨(), World.change_eq_ok_iff.2 ⟨_, hmake⟩, ?_⟩
          rw [hmake]
          exact Task.faults_bind.2 (Or.inl ((Task.faults_thenTidy _).2 (runIn_faults_iff.2 hbroken)))
  · rw [if_pos hformat]
    constructor
    · exact fun h => nomatch h
    · rintro (⟨h, -⟩ | ⟨h, -⟩) <;> exact absurd h hformat

end Conversion

/-! ## The work on a document -/

namespace Generation

variable {c : AssetCache} {w : World} {f : Fault}

/-- The work before a conversion: the filled document, and where the converted one is to go. -/
def approach (engine : Engine) (images : ImageReader) (made : Plan) : Work (Path × Path) := do
  lift (Script.note (.info "generation_started"))
  let staged ← lift (stage made.template made.directory)
  let rendered ← lift (scratchPath made.directory ('.' :: OutputFormat.docx.name))
  render engine images staged rendered made.data
  let converted ← lift (scratchPath made.directory ('.' :: made.format.name))
  pure (rendered, converted)

/-- Nothing but the converter breaks off the end of the work with a fault. -/
theorem finish_faults_iff {converter : Option Converter} {format : OutputFormat}
    {directory rendered final : Path} :
    (finish converter format directory rendered final).Faults w f ↔
      format ≠ .docx ∧ ∃ convert, converter = some convert ∧
        (convert rendered (Script.run (scratchPath directory ('.' :: format.name)) w).1).Faults
          (Script.run (scratchPath directory ('.' :: format.name)) w).2 f := by
  unfold finish
  by_cases hformat : format = .docx
  · rw [if_pos hformat]
    exact ⟨fun h => absurd h (publish_typed _ _ _ _), fun h => absurd hformat h.1⟩
  · rw [if_neg hformat]
    dsimp only
    rw [Task.faults_script_bind, Task.faults_thenTidy, and_iff_right hformat]
    cases converter with
    | none => exact ⟨nofun, fun ⟨_, h, _⟩ => nomatch h⟩
    | some convert =>
      rw [Task.faults_bind]
      constructor
      · rintro (h | ⟨u, w', -, h⟩)
        · exact ⟨convert, rfl, h⟩
        · exact absurd h (publish_typed _ _ _ _)
      · rintro ⟨_, ⟨⟩, h⟩
        exact Or.inl h

/-- The converter is the only part of the work whose faults come through: a fault is one of a conversion
of the filled document. -/
theorem execute_faults_iff {g : Generator} {made : Plan} :
    Faults (execute g made) c w f ↔ made.format ≠ .docx ∧ ∃ convert, g.converter = some convert ∧
      ∃ source target c' w', perform (approach g.engine g.images made) c w = ((.ok (source, target), c'), w') ∧
        (convert source target).Faults w' f := by
  unfold execute approach
  rw [faults_script_bind, perform_script_bind]
  constructor
  · intro h
    obtain ⟨staged, c₁, w₁, hstage, h⟩ := (typed_lift (stage_typed _ _)).faults_bind.1 h
    rw [faults_script_bind] at h
    rcases faults_bind.1 h with h | ⟨u, c₂, w₂, -, h⟩
    · rw [faults_thenTidy] at h
      obtain ⟨u, c₂, w₂, hrender, h⟩ := (render_typed _ _ _ _ _).faults_bind.1 h
      obtain ⟨hformat, convert, hconvert, h⟩ := finish_faults_iff.1 ((faults_lift _).1 h)
      refine ⟨hformat, convert, hconvert, _, _, c₂, _, perform_bind_eq_ok_iff.2
        ⟨staged, c₁, w₁, hstage, ?_⟩, h⟩
      rw [perform_script_bind]
      exact perform_bind_eq_ok_iff.2 ⟨u, c₂, w₂, hrender, rfl⟩
    · exact absurd h (((typed_lift (Task.typed_script _)).bind fun _ => typed_pure _) _ _ _)
  · rintro ⟨hformat, convert, hconvert, source, target, c', w', happroach, h⟩
    obtain ⟨staged, c₁, w₁, hstage, happroach⟩ := perform_bind_eq_ok_iff.1 happroach
    rw [perform_script_bind] at happroach
    obtain ⟨u, c₂, w₂, hrender, happroach⟩ := perform_bind_eq_ok_iff.1 happroach
    rw [perform_script_bind] at happroach
    cases happroach
    refine (typed_lift (stage_typed _ _)).faults_bind.2 ⟨staged, c₁, w₁, hstage, ?_⟩
    rw [faults_script_bind]
    refine faults_bind.2 (Or.inl ((faults_thenTidy _).2 ?_))
    exact (render_typed _ _ _ _ _).faults_bind.2 ⟨u, _, _, hrender,
      (faults_lift _).2 (finish_faults_iff.2 ⟨hformat, convert, hconvert, h⟩)⟩

/-! ## Requests -/

/-- The plan of a request whose paths mean what they should. -/
def planOf (r : Request) : Plan :=
  ⟨DataMap.xmlOnly r.data, r.template, r.directory, r.format,
    r.directory.child (finalName r.provider r.format)⟩

/-- Whether a path means a file. -/
def MeansFile (files : FileSystem) (t : Text) : Prop :=
  ∃ s, files.status t = .ok s ∧ s.isDirectory = false

/-- Whether a path means something that is a directory. -/
def MeansSomeDirectory (files : FileSystem) (t : Text) : Prop :=
  ∃ s, files.status t = .ok s ∧ s.isDirectory = true

/-- The faults that reach whoever asks for a document: the path of the template or that of the
directory is too long to be looked at, or the conversion of the filled document breaks. -/
inductive Escapes (engine : Engine) (images : ImageReader) (call? : Option ConverterProgramCall)
    (c : AssetCache) (r : Request) (w : World) : Fault → Prop
  | template (hlook : w.files.status r.template.toText = .error .nameTooLong) :
    Escapes engine images call? c r w (.storage ⟨.nameTooLong, r.template.toText, none⟩)
  | directory (htemplate : MeansFile w.files r.template.toText)
    (hlook : w.files.status r.directory.toText = .error .nameTooLong) :
    Escapes engine images call? c r w (.storage ⟨.nameTooLong, r.directory.toText, none⟩)
  | conversion (htemplate : MeansFile w.files r.template.toText)
    (hdirectory : MeansSomeDirectory w.files r.directory.toText) (hformat : r.format ≠ .docx)
    {call : ConverterProgramCall} (hcall : call? = some call) {source target : Path}
    {c' : AssetCache} {w' : World}
    (happroach : perform (approach engine images (planOf r)) c w = ((.ok (source, target), c'), w'))
    {f : Fault} (hbreaks : Conversion.Breaks call source target w' f) :
    Escapes engine images call? c r w f

theorem formatOf_provider (r : Request) : formatOf r.provider.format = .ok (some r.format) := by
  obtain ⟨data, template, outputName, format, directory⟩ := r
  cases format <;> cbv

/-- What the answers to the two looks at the paths of a request come to. -/
def judge (r : Request) : Except Cause Bool → Except Cause Bool → Except Abort Plan
  | .error e, _ => .error (.fault (.storage ⟨e, r.template.toText, none⟩))
  | .ok false, _ => .error (.failure (.noTemplate r.template.toText))
  | .ok true, .error e => .error (.fault (.storage ⟨e, r.directory.toText, none⟩))
  | .ok true, .ok false => .error (.failure (.noDirectory r.directory.toText))
  | .ok true, .ok true => .ok (planOf r)

theorem judge_eq_ok_iff {r : Request} {template directory : Except Cause Bool} {made : Plan} :
    judge r template directory = .ok made ↔
      template = .ok true ∧ directory = .ok true ∧ made = planOf r := by
  rcases template with e | _ | _ <;> rcases directory with e' | _ | _ <;> simp [judge, eq_comm]

theorem judge_eq_fault_iff {r : Request} {template directory : Except Cause Bool} {f : Fault} :
    judge r template directory = .error (.fault f) ↔
      (∃ e, template = .error e ∧ f = .storage ⟨e, r.template.toText, none⟩) ∨
      template = .ok true ∧ ∃ e, directory = .error e ∧ f = .storage ⟨e, r.directory.toText, none⟩ := by
  rcases template with e | _ | _ <;> rcases directory with e' | _ | _ <;> simp [judge, eq_comm]

theorem perform_plan_request (r : Request) (w : World) :
    (plan r.provider).perform w =
      (judge r (Script.probed (!·.isDirectory) (w.files.status r.template.toText))
        (Script.probed (·.isDirectory) (w.files.status r.directory.toText)), w) := by
  have hformat := formatOf_provider r
  unfold plan
  show Task.perform (Task.step r.template.toText (Script.isFile r.template.toText) >>= _) w = _
  rw [Task.perform_bind, Task.perform_step, Script.run_isFile]
  rcases Script.probed (!·.isDirectory) (w.files.status r.template.toText) with e | _ | _
  · rfl
  · rfl
  · dsimp only
    rw [if_neg (by decide), Task.perform_bind, Task.perform_step, Script.run_isDirectory]
    show _ = (judge r _ (Script.probed (·.isDirectory) (w.files.status r.provider.directory.toText)), w)
    rcases Script.probed (·.isDirectory) (w.files.status r.provider.directory.toText) with e | _ | _
    · rfl
    · rfl
    · dsimp only
      rw [if_neg (by decide), hformat]
      rfl

theorem meansFile_iff {files : FileSystem} {t : Text} :
    MeansFile files t ↔ Script.probed (!·.isDirectory) (files.status t) = .ok true := by
  simp [MeansFile, Script.probed_eq_true_iff]

theorem meansSomeDirectory_iff {files : FileSystem} {t : Text} :
    MeansSomeDirectory files t ↔ Script.probed (·.isDirectory) (files.status t) = .ok true := by
  simp [MeansSomeDirectory, Script.probed_eq_true_iff]

/-- The faults of a look at the paths. -/
theorem plan_faults_iff {r : Request} :
    (plan r.provider).Faults w f ↔
      w.files.status r.template.toText = .error .nameTooLong ∧
        f = .storage ⟨.nameTooLong, r.template.toText, none⟩ ∨
      MeansFile w.files r.template.toText ∧
        w.files.status r.directory.toText = .error .nameTooLong ∧
        f = .storage ⟨.nameTooLong, r.directory.toText, none⟩ := by
  unfold Task.Faults
  rw [perform_plan_request, judge_eq_fault_iff, meansFile_iff]
  simp only [Script.probed_eq_error_iff]
  constructor
  · rintro (⟨_, ⟨rfl, hlook⟩, hf⟩ | ⟨htemplate, _, ⟨rfl, hlook⟩, hf⟩)
    · exact Or.inl ⟨hlook, hf⟩
    · exact Or.inr ⟨htemplate, hlook, hf⟩
  · rintro (⟨hlook, hf⟩ | ⟨htemplate, hlook, hf⟩)
    · exact Or.inl ⟨_, ⟨rfl, hlook⟩, hf⟩
    · exact Or.inr ⟨htemplate, _, ⟨rfl, hlook⟩, hf⟩

theorem plan_eq_ok_iff {r : Request} {made : Plan} {w' : World} :
    (plan r.provider).perform w = (.ok made, w') ↔
      (MeansFile w.files r.template.toText ∧ MeansSomeDirectory w.files r.directory.toText ∧
        made = planOf r) ∧ w' = w := by
  rw [perform_plan_request, Prod.mk.injEq, judge_eq_ok_iff, meansFile_iff, meansSomeDirectory_iff,
    eq_comm (a := w)]

/-- A request whose template has a name that is too long. -/
def longRequest : Request where
  template := Path.ofText (List.replicate 300 'a')
  outputName := "o".toList
  directory := fromRoot "out"

end Generation
end MailMerge
