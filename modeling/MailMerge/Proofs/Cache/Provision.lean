import MailMerge.Cache.Provision
import MailMerge.Proofs.Generation.Faults
/-!
# Troubles with making a directory ready

A null character in the path of a directory is a trouble of its own, which no look at the path tells
of: a path with one is taken for the path of nothing, until the directory is to be made.

* `run_directory_of_null`: such a directory is not made, and nothing changes.
* `clear_directory`: the troubles with other paths are of other kinds.
-/
namespace MailMerge

namespace FileSystem

variable {fs : FileSystem} {t : Text}

theorem walk_ne_null {follow : Bool} {links : Nat} {p : Place} {names : List Text} :
    fs.walk follow links p names ≠ .error .nullCharacter := by
  fun_induction walk fs follow links p names <;> simp_all

theorem locate_of_null {follow : Bool} (h : '\x00' ∈ t) :
    fs.locate follow t = .error .nullCharacter := by
  unfold locate
  rw [if_pos (by simpa using h)]

theorem locate_ne_null {follow : Bool} (h : '\x00' ∉ t) :
    fs.locate follow t ≠ .error .nullCharacter := by
  unfold locate
  rw [if_neg (by simpa using h)]
  split
  · nofun
  · split
    · nofun
    · exact walk_ne_null

theorem makeDirectory_of_null (h : '\x00' ∈ t) (now : Time) :
    fs.makeDirectory now t = .error .nullCharacter := by
  unfold makeDirectory
  rw [locate_of_null h]
  rfl

theorem makeDirectory_ne_null (h : '\x00' ∉ t) (now : Time) :
    fs.makeDirectory now t ≠ .error .nullCharacter := by
  intro hnull
  unfold makeDirectory at hnull
  cases hp : fs.locate false t with
  | error c =>
    rw [hp] at hnull
    cases hnull
    exact locate_ne_null h hp
  | ok p =>
    rw [hp] at hnull
    cases hnode : fs.get? p <;> simp [bind, Except.bind, hnode] at hnull

theorem status_of_null (h : '\x00' ∈ t) : fs.status t = .error .nullCharacter := by
  unfold status find
  rw [locate_of_null h]
  rfl

end FileSystem

namespace Path

/-- A null character above a directory is in the path of the directory as well. -/
theorem null_mem_of_parent {p : Path} (h : '\x00' ∈ p.parent.toText) : '\x00' ∈ p.toText := by
  by_cases hnames : p.parent.names = []
  · rw [toText_of_names_eq_nil hnames, show p.parent.root = p.root from rfl] at h
    split at h
    · simp at h
    · next hroot =>
      unfold toText
      rw [List.isEmpty_eq_false_iff.2 hroot]
      exact List.mem_append_left _ h
  · rw [toText_of_names_ne_nil hnames] at h
    have hne : p.names ≠ [] := by
      intro h
      exact hnames (by rw [parent, h]; rfl)
    rw [toText_of_names_ne_nil hne]
    rcases List.mem_append.1 h with h | h
    · exact List.mem_append_left _ h
    · obtain ⟨n, hn, hnull⟩ := (Text.mem_join h).resolve_left (by decide)
      exact List.mem_append_right _ (Text.mem_join_of_mem (List.mem_of_mem_dropLast hn) hnull)

end Path

namespace Provision

variable {α β : Type} {p : Path}

/-- Whether a result is no trouble with a null character. -/
def IsClear : Except Trouble α → Prop
  | .ok _ => True
  | .error t => t.cause ≠ .nullCharacter

/-- Whether a script never gives a trouble with a null character. -/
def Clear (x : Script (Except Trouble α)) : Prop := ∀ w, IsClear (Script.run x w).1

theorem clear_ok (a : α) : Clear (pure (.ok a)) := fun _ => trivial

theorem clear_about {c : Cause} (h : c ≠ .nullCharacter) :
    Clear (pure (.error (about p c)) : Script (Except Trouble α)) := fun _ => h

/-- A script is clear that goes on clearly after every reply that can be. -/
theorem clear_bind {x : Script β} (P : β → Prop) (hx : ∀ w, P (Script.run x w).1)
    {f : β → Script (Except Trouble α)} (hf : ∀ b, P b → Clear (f b)) : Clear (x >>= f) := by
  intro w
  rw [Script.run_bind]
  exact hf _ (hx w) _

theorem clear_probe {test : Status → Bool} {t : Text}
    {f : Except Cause Bool → Script (Except Trouble α)}
    (hf : ∀ b, b ≠ .error .nullCharacter → Clear (f b)) : Clear (Script.probe test t >>= f) := by
  refine clear_bind (· ≠ .error .nullCharacter) (fun w h => ?_) hf
  rw [Script.run_probe] at h
  cases (Script.probed_eq_error_iff.1 h).1

theorem clear_makeDirectory (hp : '\x00' ∉ p.toText)
    {f : Except Cause Unit → Script (Except Trouble α)} (hok : Clear (f (.ok ())))
    (herror : ∀ c, c ≠ .nullCharacter → Clear (f (.error c))) :
    Clear (Script.makeDirectory p.toText >>= f) := by
  refine clear_bind (· ≠ .error .nullCharacter) (fun w h => ?_) fun b hb => ?_
  · exact FileSystem.makeDirectory_ne_null hp _ (World.change_eq_error_iff.1 h)
  · cases b with
    | ok u => exact hok
    | error c => exact herror c fun h => hb (congrArg Except.error h)

theorem clear_settle {c : Cause} (hc : c ≠ .nullCharacter) : Clear (settle p c) := by
  refine clear_probe fun b hb => ?_
  rcases b with e | _ | _
  · exact clear_about fun h => hb (congrArg Except.error h)
  · exact clear_about hc
  · exact clear_ok ()

theorem clear_make (above : Nat) (hp : '\x00' ∉ p.toText) : Clear (make above p) := by
  induction above generalizing p with
  | zero =>
    unfold make
    refine clear_makeDirectory hp (clear_ok ()) fun c hc => ?_
    cases c with
    | absent => exact clear_about nofun
    | nullCharacter => exact absurd rfl hc
    | _ => exact clear_settle nofun
  | succ above ih =>
    unfold make
    refine clear_makeDirectory hp (clear_ok ()) fun c hc => ?_
    cases c with
    | absent =>
      refine clear_bind IsClear (ih fun h => hp (Path.null_mem_of_parent h)) fun b hb => ?_
      rcases b with t | u
      · exact fun _ => hb
      · refine clear_makeDirectory hp (clear_ok ()) fun c hc => ?_
        cases c with
        | absent => exact clear_about nofun
        | nullCharacter => exact absurd rfl hc
        | _ => exact clear_settle nofun
    | nullCharacter => exact absurd rfl hc
    | _ => exact clear_settle nofun

theorem clear_mark (p : Path) (l : List (Text × Text)) : Clear (mark p l) := by
  induction l with
  | nil => exact clear_ok ()
  | cons entry l ih =>
    obtain ⟨name, content⟩ := entry
    refine clear_probe fun b hb => ?_
    rcases b with e | _ | _
    · exact clear_about fun h => hb (congrArg Except.error h)
    · refine clear_bind (fun _ => True) (fun _ => trivial) fun b _ => ?_
      rcases b with c | u
      · exact clear_bind (fun _ => True) (fun _ => trivial) fun _ _ => ih
      · exact ih
    · exact ih

/-- The troubles with a directory whose path has no null character are of other kinds. -/
theorem clear_directory (hp : '\x00' ∉ p.toText) : Clear (directory p) := by
  refine clear_probe fun b hb => ?_
  rcases b with e | there
  · exact clear_about fun h => hb (congrArg Except.error h)
  · refine clear_bind IsClear (clear_make _ hp) fun b hb => ?_
    rcases b with t | u
    · exact fun _ => hb
    · refine clear_bind IsClear (clear_mark _ _) fun b hb => ?_
      rcases b with t | u
      · exact fun _ => hb
      · cases there with
        | true => exact clear_ok ()
        | false => exact clear_bind (fun _ => True) (fun _ => trivial) fun _ _ => clear_ok ()

/-- A directory whose path has a null character is not made, and nothing changes. -/
theorem run_directory_of_null (hp : '\x00' ∈ p.toText) (w : World) :
    Script.run (directory p) w = (.error (about p .nullCharacter), w) := by
  have hmake (above : Nat) : Script.run (make above p) w = (.error (about p .nullCharacter), w) := by
    unfold make
    rw [Script.run_bind, Script.run_makeDirectory, FileSystem.makeDirectory_of_null hp]
    rfl
  unfold directory
  rw [Script.run_bind, Script.isThere, Script.run_probe, FileSystem.status_of_null hp]
  show Script.run (make p.names.length p >>= _) w = _
  rw [Script.run_bind, hmake]
  rfl

end Provision
end MailMerge
