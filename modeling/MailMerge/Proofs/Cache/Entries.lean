import MailMerge.Cache.AssetCache
import MailMerge.Proofs.Storage.Paths
import MailMerge.Proofs.Storage.Running
import MailMerge.Proofs.Text.Digits
/-!
# Names in the cache

An entry has the name of a node, whatever it is an entry for (`isName_entry`), and so have files that
are still being written, if their numbers are not too long.

Two things are told here of every directory: when a request sweeps (`run_sweepIfDue`), and what a sweep
does with one file (`run_evict`).
-/
namespace MailMerge

namespace Sha256

theorem mem_hexDigits_of_mem_toText {s : State} {c : Char} (h : c ∈ s.toText) :
    c ∈ Text.hexDigits := by
  unfold State.toText at h
  obtain ⟨w, -, hc⟩ := List.mem_flatMap.1 h
  obtain ⟨i, -, rfl⟩ := List.mem_map.1 hc
  exact Text.digitChar_mem_hexDigits (Nat.mod_lt _ (by decide))

end Sha256

namespace AssetCache

open FileSystem (IsName)

/-- The name of the entry of a request. -/
def entryName (c : AssetCache) (k : AssetKey) : Text := c.keyOf k ++ ending

variable (c : AssetCache) (k : AssetKey)

theorem mem_entryName {x : Char} (h : x ∈ c.entryName k) : x ∈ Text.hexDigits ++ ending := by
  rcases List.mem_append.1 h with h | h
  · exact List.mem_append_left _ (Sha256.mem_hexDigits_of_mem_toText h)
  · exact List.mem_append_right _ h

theorem length_entryName : (c.entryName k).length = 68 := by
  rw [entryName, List.length_append, keyOf, Sha256.toText_length]
  rfl

theorem byteLength_entryName : Text.byteLength (c.entryName k) = 68 := by
  have hascii : (Text.hexDigits ++ ending).all (fun x => x.utf8Size == 1) = true := by decide
  rw [Text.byteLength_eq_length fun x hx =>
    beq_iff_eq.1 (List.all_eq_true.1 hascii x (c.mem_entryName k hx)), length_entryName]

/-- An entry has the name of a node. -/
theorem isName_entry : IsName (c.entryName k) := by
  have hlength := c.length_entryName k
  have hslash : '/' ∉ Text.hexDigits ++ ending := by decide
  have hnull : '\x00' ∉ Text.hexDigits ++ ending := by decide
  refine ⟨⟨?_, ?_, ?_⟩, ?_, ?_, ?_⟩
  · rw [byteLength_entryName]
    decide
  · intro h
    rw [h] at hlength
    cases hlength
  · intro h
    rw [h] at hlength
    cases hlength
  · intro h
    rw [h] at hlength
    cases hlength
  · exact fun h => hslash (c.mem_entryName k h)
  · exact fun h => hnull (c.mem_entryName k h)

/-- The path of an entry is a name in the directory of the cache. -/
theorem pathOf_keyOf : c.pathOf (c.keyOf k) = c.directory.child (c.entryName k) := by
  show c.directory.append (Path.ofText (c.entryName k)) = _
  rw [Path.ofText_of_isPart (c.isName_entry k).isPart]
  rfl

/-! ## Sweeps -/

/-- Whether a sweep is due at a time. -/
def isDue (c : AssetCache) (now : Time) : Bool :=
  match c.lastSweep with
  | none => true
  | some t => reaches (now - t) c.interval

theorem run_sweepIfDue (c : AssetCache) (w : World) :
    Script.run c.sweepIfDue w =
      if c.isDue w.clock then ((Script.run c.sweep w).1.2, (Script.run c.sweep w).2) else (c, w) := by
  show Script.run (if c.isDue w.clock then _ else _) w = _
  by_cases hdue : c.isDue w.clock = true
  · rw [if_pos hdue, if_pos hdue, Script.run_bind]
    rfl
  · rw [if_neg hdue, if_neg hdue]
    rfl

/-- The file system without what a path means, if that has expired and can be removed. -/
def evicted (c : AssetCache) (now : Time) (fs : FileSystem) (path : Path) : Option FileSystem :=
  match fs.status path.toText with
  | .error _ => none
  | .ok s => if c.expired s.modified now then (fs.remove path.toText).toOption else none

theorem evicted_eq_some_iff {c : AssetCache} {now : Time} {fs fs' : FileSystem} {path : Path} :
    c.evicted now fs path = some fs' ↔ ∃ s, fs.status path.toText = .ok s ∧
      c.expired s.modified now = true ∧ fs.remove path.toText = .ok fs' := by
  unfold evicted
  cases fs.status path.toText with
  | error e => simp
  | ok s => cases fs.remove path.toText <;> simp [Except.toOption]

/-- A sweep removes a file or leaves everything as it is, whatever it notes. -/
theorem run_evict (c : AssetCache) (now : Time) (path : Path) (w : World) :
    ∃ log, Script.run (c.evict now path) w = ((c.evicted now w.files path).isSome,
      { w with files := (c.evicted now w.files path).getD w.files, log := log }) := by
  unfold evict evicted
  rw [Script.run_bind, Script.run_status]
  dsimp only
  cases w.files.status path.toText with
  | error e => cases e <;> exact ⟨_, rfl⟩
  | ok s =>
    dsimp only
    cases c.expired s.modified now with
    | false => exact ⟨_, rfl⟩
    | true =>
      rw [if_neg (by decide), Script.run_bind, Script.run_remove]
      cases w.files.remove path.toText with
      | ok fs => exact ⟨_, rfl⟩
      | error e => cases e <;> exact ⟨_, rfl⟩

/-! ## Caches without a directory -/

section
variable {c : AssetCache} {k : AssetKey} {w : World} {render : Renderer} {p : Nat}

theorem run_sweepIfDue_of_missing (h : w.files.status c.directory.toText = .error .absent) :
    ∃ last, Script.run c.sweepIfDue w = ({ c with lastSweep := last }, w) := by
  have hcandidates : Script.run c.candidates w = (.ok [], w) := by
    rw [candidates, Script.run_bind, Script.run_isDirectory, h]
    rfl
  have hsweep : Script.run c.sweep w = ((0, { c with lastSweep := some w.clock }), w) := by
    rw [sweep, Script.run_bind, Script.run_now, Script.run_bind, hcandidates]
    rfl
  rw [run_sweepIfDue]
  split
  · exact ⟨some w.clock, by rw [hsweep]⟩
  · exact ⟨c.lastSweep, rfl⟩

/-- Without a directory nothing is found, and what cannot be drawn fails. -/
theorem run_getOrCreate_of_missing (h : w.files.status c.directory.toText = .error .absent)
    (hentry : w.files.status (c.directory.child (c.entryName k)).toText = .error .absent)
    {f : RenderFault} (hf : render k = .error f) :
    ∃ last, Script.run (c.getOrCreate render p k) w =
      ((.failed (.render f), { c with lastSweep := last }), w) := by
  obtain ⟨last, hlast⟩ := run_sweepIfDue_of_missing h
  have hlookup : Script.run (({ c with lastSweep := last } : AssetCache).lookup (c.keyOf k)) w =
      (.ok none, w) := by
    rw [lookup, Script.run_bind, Script.run_status]
    dsimp only
    rw [show ({ c with lastSweep := last } : AssetCache).pathOf (c.keyOf k) = _ from
      c.pathOf_keyOf k, hentry]
    rfl
  refine ⟨last, ?_⟩
  rw [getOrCreate, Script.run_bind, hlast]
  dsimp only
  rw [show ({ c with lastSweep := last } : AssetCache).keyOf k = c.keyOf k from rfl,
    Script.run_bind, hlookup]
  dsimp only
  rw [hf]
  rfl

end

end AssetCache

end MailMerge
