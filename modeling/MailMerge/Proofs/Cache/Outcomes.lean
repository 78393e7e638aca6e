import MailMerge.Proofs.Cache.Keeping
/-!
# What a request comes to

Every way in which a request for an asset can end, whatever stands in the directory of the cache, and
what each of them leaves behind there (`Outcome`, `run_request_outcome`). All of them begin with the
sweep that is due, and sweeps only remove.

* `sweepIfDue_remains`: what is there after a sweep was there before.
* `Outcome.files_eq`: a request that gives no path leaves what its sweep has left.
-/
namespace MailMerge.AssetCache

section
variable {c : AssetCache} {w : World}

/-! ## Sweeps -/

/-- Whether everything that stands in a file system stands in another one. -/
def Remains (fs fs' : FileSystem) : Prop := ∀ q node, fs'.get? q = some node → fs.get? q = some node

theorem remains_refl (fs : FileSystem) : Remains fs fs := fun _ _ => id

theorem Remains.trans {fs fs' fs'' : FileSystem} (h : Remains fs fs') (h' : Remains fs' fs'') :
    Remains fs fs'' :=
  fun q node hq => h q node (h' q node hq)

theorem remains_drop {fs : FileSystem} {q : Place} (hq : ¬ fs.IsDirectory q) :
    Remains fs (fs.drop q) := by
  intro r node hr
  rw [FileSystem.get?_drop fs q r (FileSystem.ne_nil_of_not_isDirectory hq)] at hr
  split at hr
  · cases hr
  · exact hr

theorem evict_remains (now : Time) (path : Path) :
    Remains w.files (Script.run (c.evict now path) w).2.files := by
  obtain ⟨log, hrun⟩ := run_evict c now path w
  rw [hrun]
  cases hevicted : c.evicted now w.files path with
  | none => exact remains_refl _
  | some fs =>
    obtain ⟨-, -, -, hr⟩ := evicted_eq_some_iff.1 hevicted
    obtain ⟨q, node, -, hdir, rfl⟩ := FileSystem.remove_ok hr
    exact remains_drop hdir

theorem evictAll_remains (now : Time) (paths : List Path) :
    Remains w.files (Script.run (c.evictAll now paths) w).2.files := by
  induction paths generalizing w with
  | nil => exact remains_refl _
  | cons p paths ih =>
    rw [evictAll, Script.run_bind, Script.run_bind]
    exact (evict_remains now p).trans ih

theorem sweep_remains : Remains w.files (Script.run c.sweep w).2.files ∧
    (Script.run c.sweep w).1.2 = { c with lastSweep := some w.clock } := by
  unfold sweep
  rw [Script.run_bind, Script.run_now]
  dsimp only
  rw [Script.run_bind, run_candidates_world]
  cases (Script.run c.candidates w).1 with
  | error e => exact ⟨remains_refl _, rfl⟩
  | ok paths =>
    dsimp only
    rw [Script.run_bind]
    have hall := evictAll_remains (c := c) (w := w) w.clock paths
    split
    · exact ⟨hall, rfl⟩
    · exact ⟨hall, rfl⟩

/-- A sweep before a request only removes, and only when it is due. -/
theorem sweepIfDue_remains : Remains w.files (Script.run c.sweepIfDue w).2.files ∧
    (∃ last, (Script.run c.sweepIfDue w).1 = { c with lastSweep := last }) ∧
    (c.isDue w.clock = false → (Script.run c.sweepIfDue w).2.files = w.files) := by
  rw [run_sweepIfDue]
  split
  · rename_i hdue
    obtain ⟨hremains, htouch⟩ := sweep_remains (c := c) (w := w)
    exact ⟨hremains, ⟨_, htouch⟩, fun h => absurd (hdue.symm.trans h) (by decide)⟩
  · exact ⟨remains_refl _, ⟨c.lastSweep, rfl⟩, fun _ => rfl⟩

/-! ## Looking for entries -/

/-- Whether there is nothing to be used under a path. -/
def Misses (c : AssetCache) (now : Time) (r : Except Cause Status) : Prop :=
  r = .error .absent ∨ ∃ s, r = .ok s ∧ c.expired s.modified now = true

theorem misses_ok_iff {now : Time} {s : Status} :
    c.Misses now (.ok s) ↔ c.expired s.modified now = true := by
  simp [Misses]

theorem misses_error_iff {now : Time} {e : Cause} : c.Misses now (.error e) ↔ e = .absent := by
  simp [Misses]

/-! ## Requests -/

/-- What a request comes to after its sweep, when `w` is the world then: the answer, and the file
system that it leaves. -/
inductive Outcome (c : AssetCache) (render : Renderer) (k : AssetKey) (w : World) :
    Except Fault CacheAnswer → FileSystem → Prop where
  /-- the size has too many digits for a key -/
  | unwritable (hsize : intText? k.size = none) :
      Outcome c render k w (.error .unwritableNumber) w.files
  /-- the path of the entry cannot be looked at -/
  | broken {e} (hsize : intText? k.size ≠ none)
      (h : w.files.status (c.pathOf (c.keyOf k)).toText = .error e) (he : e ≠ .absent) :
      Outcome c render k w (.ok (.broken ⟨e, (c.pathOf (c.keyOf k)).toText, none⟩)) w.files
  /-- what is under the path is young enough -/
  | live {s} (hsize : intText? k.size ≠ none)
      (h : w.files.status (c.pathOf (c.keyOf k)).toText = .ok s)
      (hlive : c.expired s.modified w.clock = false) :
      Outcome c render k w (.ok (.found (c.pathOf (c.keyOf k)))) w.files
  /-- there is nothing to be used, and no picture is drawn or put -/
  | failed {f} (hsize : intText? k.size ≠ none)
      (h : c.Misses w.clock (w.files.status (c.pathOf (c.keyOf k)).toText)) :
      Outcome c render k w (.ok (.failed f)) w.files
  /-- there is nothing to be used, and a picture is drawn and put -/
  | drawn {content q} (hsize : intText? k.size ≠ none)
      (h : c.Misses w.clock (w.files.status (c.pathOf (c.keyOf k)).toText))
      (hrender : render k = .ok content) (hsome : content.isEmpty = false)
      (hq : w.files.locate false (c.pathOf (c.keyOf k)).toText = .ok q)
      (hdir : ¬ w.files.IsDirectory q) :
      Outcome c render k w (.ok (.found (c.pathOf (c.keyOf k))))
        (w.files.put q (.file content w.clock false))

variable {render : Renderer} {parts : Nat} {k : AssetKey}

/-- A miss is drawn and put, if both can be done. -/
theorem outcome_of_miss {last : Option Time} {w' : World} (hsize : intText? k.size ≠ none)
    (hsweep : Script.run c.sweepIfDue w = ({ c with lastSweep := last }, w'))
    (hlookup : Script.run (({ c with lastSweep := last } : AssetCache).lookup (c.keyOf k)) w' =
      (.ok none, w'))
    (hmiss : c.Misses w'.clock (w'.files.status (c.pathOf (c.keyOf k)).toText)) :
    Outcome c render k w' (Script.run (c.request render parts k) w).1.1
      (Script.run (c.request render parts k) w).2.files := by
  cases hrender : render k with
  | error f =>
    rw [run_request hsize (run_getOrCreate_refused hsweep rfl hlookup hrender)]
    exact .failed hsize hmiss
  | ok content =>
    cases hempty : content.isEmpty with
    | true =>
      rw [run_request hsize (run_getOrCreate_empty hsweep rfl hlookup hrender hempty)]
      exact .failed hsize hmiss
    | false =>
      rcases run_promote_cases { c with lastSweep := last } parts (c.keyOf k) content w' with
        ⟨f, hput⟩ | ⟨q, hq, hdir, hput⟩
      · rw [run_request hsize (run_getOrCreate_drawn hsweep rfl hlookup hrender hempty hput)]
        exact .failed hsize hmiss
      · rw [run_request hsize (run_getOrCreate_drawn hsweep rfl hlookup hrender hempty hput)]
        exact .drawn hsize hmiss hrender hempty hq hdir

theorem run_request_outcome (c : AssetCache) (render : Renderer) (parts : Nat) (k : AssetKey)
    (w : World) :
    Outcome c render k (Script.run c.sweepIfDue w).2 (Script.run (c.request render parts k) w).1.1
      (Script.run (c.request render parts k) w).2.files := by
  obtain ⟨-, ⟨last, htouch⟩, -⟩ := sweepIfDue_remains (c := c) (w := w)
  have hsweep : Script.run c.sweepIfDue w =
      ({ c with lastSweep := last }, (Script.run c.sweepIfDue w).2) := Prod.ext htouch rfl
  generalize (Script.run c.sweepIfDue w).2 = w' at hsweep ⊢
  by_cases hsize : intText? k.size = none
  · rw [run_request_unwritable hsize hsweep]
    exact .unwritable hsize
  have hlookup : Script.run (({ c with lastSweep := last } : AssetCache).lookup (c.keyOf k)) w' =
      (c.looked (c.keyOf k) w'.clock (w'.files.status (c.pathOf (c.keyOf k)).toText), w') :=
    run_lookup _ _ _
  cases hstatus : w'.files.status (c.pathOf (c.keyOf k)).toText with
  | error e =>
    rw [hstatus] at hlookup
    by_cases he : e = .absent
    · rw [he] at hlookup hstatus
      exact outcome_of_miss hsize hsweep hlookup (Or.inl hstatus)
    · have hlooked : c.looked (c.keyOf k) w'.clock (.error e) =
          .error ⟨e, (c.pathOf (c.keyOf k)).toText, none⟩ := by
        unfold looked
        split
        · exact absurd (Except.error.inj ‹_›) he
        · cases ‹Except.error e = _›
          rfl
        · cases ‹Except.error e = _›
      rw [hlooked] at hlookup
      rw [run_request hsize (run_getOrCreate_broken hsweep rfl hlookup)]
      exact .broken hsize hstatus he
  | ok s =>
    rw [hstatus] at hlookup
    unfold looked at hlookup
    dsimp only at hlookup
    cases hlive : c.expired s.modified w'.clock with
    | true =>
      rw [hlive, if_pos rfl] at hlookup
      exact outcome_of_miss hsize hsweep hlookup (Or.inr ⟨s, hstatus, hlive⟩)
    | false =>
      rw [hlive, if_neg (by decide)] at hlookup
      rw [run_request hsize (run_getOrCreate_found hsweep rfl hlookup)]
      exact .live hsize hstatus hlive

/-- No path is answered but that of the entry. -/
theorem Outcome.path_eq {answer : Except Fault CacheAnswer}
    {fs : FileSystem} {p : Path} (h : Outcome c render k w answer fs) (hp : answer = .ok (.found p)) :
    p = c.pathOf (c.keyOf k) := by
  cases h with
  | live => exact (CacheAnswer.found.inj (Except.ok.inj hp)).symm
  | drawn => exact (CacheAnswer.found.inj (Except.ok.inj hp)).symm
  | _ => cases hp

theorem Outcome.files_eq {answer : Except Fault CacheAnswer} {fs : FileSystem}
    (h : Outcome c render k w answer fs) (hnone : ∀ p, answer ≠ .ok (.found p)) : fs = w.files := by
  cases h with
  | unwritable => rfl
  | broken => rfl
  | live => rfl
  | failed => rfl
  | drawn => exact absurd rfl (hnone _)

end

end MailMerge.AssetCache
