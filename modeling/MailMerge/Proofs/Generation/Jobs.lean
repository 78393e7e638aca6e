import MailMerge.Proofs.Generation.Obedience
import MailMerge.Proofs.Generation.Template
/-!
# Runs with numbers of their own

A run that makes documents at the same time as others has numbers of its own for the names of its
unfinished files and of its drafts of pictures, and a document of its own (`Job`). What it changes is
told by these.

* `Job.changes`: a run changes only own files, pictures and its document.
* `Job.left`: a run alone leaves no unfinished file.
* `Job.IsOwn.not_changes`: what is a run's own no other run changes.
-/
namespace MailMerge

open FileSystem (MeansDirectory)

theorem Task.changes_bind {α β : Type} {x : Task α} {f : α → Task β} {w : World} {q : Place} :
    (x >>= f).run.Changes w q ↔
      x.run.Changes w q ∨ ∃ a, (x.perform w).1 = .ok a ∧ (f a).run.Changes (x.perform w).2 q := by
  show Script.Changes (x.run >>= _) w q ↔ _
  rw [Script.changes_bind, Task.perform]
  generalize Script.run x.run w = r
  obtain ⟨r, w'⟩ := r
  refine or_congr_right ?_
  cases r with
  | ok a =>
    refine ⟨fun h => ⟨a, rfl, h⟩, ?_⟩
    rintro ⟨a', heq, h⟩
    cases heq
    exact h
  | error e =>
    refine ⟨fun h => h.elim, ?_⟩
    rintro ⟨a', heq, h⟩
    cases heq

namespace Generation

theorem changes_bind {α β : Type} {x : Work α} {f : α → Work β} {c : AssetCache} {w : World}
    {q : Place} :
    ((x >>= f).run.run c).Changes w q ↔ (x.run.run c).Changes w q ∨
      ∃ a, (perform x c w).1.1 = .ok a ∧
        ((f a).run.run (perform x c w).1.2).Changes (perform x c w).2 q := by
  show Script.Changes (x.run.run c >>= _) w q ↔ _
  rw [Script.changes_bind, perform]
  generalize Script.run (x.run.run c) w = r
  obtain ⟨⟨r, c'⟩, w'⟩ := r
  refine or_congr_right ?_
  cases r with
  | ok a =>
    refine ⟨fun h => ⟨a, rfl, h⟩, ?_⟩
    rintro ⟨a', heq, h⟩
    cases heq
    exact h
  | error e =>
    refine ⟨fun h => h.elim, ?_⟩
    rintro ⟨a', heq, h⟩
    cases heq

theorem changes_lift {α : Type} {x : Task α} {c : AssetCache} {w : World} {q : Place} :
    ((lift x).run.run c).Changes w q ↔ x.run.Changes w q := by
  show Script.Changes (x.run >>= fun r => pure (r, c)) w q ↔ _
  rw [Script.changes_bind]
  exact or_iff_left fun h => h

theorem not_changes_probe (t : Text) (test : Status → Bool) (p : Text) (w : World) (q : Place) :
    ¬ (Task.step t (Script.probe test p)).run.Changes w q := by
  show ¬ Script.Changes ((Script.status p >>= _) >>= _) w q
  rw [Script.changes_bind, Script.changes_bind, Script.run_bind, Script.run_status]
  have hstatus : ¬ (Script.status p).Changes w q := fun h => h.elim (fun h => h rfl) id
  dsimp only
  cases w.files.status p with
  | ok s => exact fun h => h.elim (fun h => h.elim hstatus id) id
  | error e =>
    dsimp only
    cases Script.meansAbsent e <;> exact fun h => h.elim (fun h => h.elim hstatus id) id

/-- Planning changes nothing. -/
theorem not_changes_plan (p : Provider) (w : World) (q : Place) :
    ¬ (plan p).run.Changes w q := by
  unfold plan
  cases p.data with
  | map data =>
    dsimp only
    rw [Task.changes_bind]
    rintro (h | ⟨there, -, h⟩)
    · exact not_changes_probe _ _ _ _ _ h
    · cases there with
      | false => exact h
      | true =>
        revert h
        rw [if_neg (by decide), Task.changes_bind]
        rintro (h | ⟨there, -, h⟩)
        · exact not_changes_probe _ _ _ _ _ h
        · cases there with
          | false => exact h
          | true =>
            revert h
            rw [if_neg (by decide)]
            cases formatOf p.format with
            | error f => exact fun h => h
            | ok format? => cases format? <;> exact fun h => h
  | _ => exact fun h => h

/-! ## Runs -/

/-- What a run that makes a document is given: what it draws, resolves, reads images and converts with, its
cache, what is asked of it, and the first of its own numbers, for its files and for its drafts of
pictures. -/
structure Job where
  studio : Studio
  env : Environment
  kinds : List Kind
  images : ImageReader
  call? : Option ConverterProgramCall
  cache : AssetCache
  provider : Provider
  first : Nat
  firstDraft : Nat

namespace Job

def generator (e : Job) : Generator :=
  ⟨Engine.ofStudio e.studio e.env e.kinds, e.images, e.call?.map Converter.ofProgram⟩

/-- The run, on its own numbers. -/
def script (e : Job) : Script (Except Abort Path × AssetCache) :=
  Script.numbered e.first e.firstDraft (e.generator.generate e.cache e.provider)

/-- The result of the run alone, and the world after it. -/
def alone (e : Job) (w : World) : (Except Abort Path × AssetCache) × World := Script.run e.script w

/-- The world after the run where its own numbers are the next ones. -/
def after (e : Job) (w : World) : World :=
  (Script.run (e.generator.generate e.cache e.provider) (w.withNumbers e.first e.firstDraft)).2

/-- Whether a number is one that the run takes for a file. -/
def Takes (e : Job) (w : World) (n : Nat) : Prop := e.first ≤ n ∧ n < (e.after w).fresh

/-- Whether a number is one that the run takes for a draft of a picture. -/
def TakesDraft (e : Job) (w : World) (n : Nat) : Prop := e.firstDraft ≤ n ∧ n < (e.after w).drafts

/-- Whether a place is that of the document that the run is to make. -/
def IsOutput (e : Job) (w : World) (q : Place) : Prop :=
  ∃ place format, w.files.MeansDirectory e.provider.directory place ∧
    formatOf e.provider.format = .ok (some format) ∧ q = place ++ [finalName e.provider format]

/-- Whether a place is one of an unfinished file of the run, or that of its document. -/
def IsOwn (e : Job) (w : World) (q : Place) : Prop :=
  HasNumber w.fresh (e.Takes w) q ∨ e.IsOutput w q

/-- What a run can rely on alone: its paths are clean, the way to the directory of its document depends
neither on the cache nor on the document, and its numbers are fresh. -/
structure IsReady (e : Job) (w : World) : Prop where
  cache : e.cache.directory.IsClean
  template : e.provider.template.IsClean
  directory : e.provider.directory.IsClean
  firm : ∀ place format, w.files.MeansDirectory e.provider.directory place →
    w.files.MeansFirmly e.provider.directory place fun q =>
      w.files.Inside e.cache.directory q ∨ q = place ++ [finalName e.provider format]
  first : w.fresh ≤ e.first
  firstDraft : w.drafts ≤ e.firstDraft
  name : ∀ format, ¬ IsScratchName w.fresh (finalName e.provider format)

/-- What keeps a run away from another one: they take different numbers and make different documents. -/
structure Apart (e e' : Job) (w : World) : Prop where
  numbers : ∀ n, e.Takes w n → ¬ e'.Takes w n
  drafts : ∀ n, e.TakesDraft w n → ¬ e'.TakesDraft w n
  outputs : ∀ q, e.IsOutput w q → ¬ e'.IsOutput w q

section
variable {e e' : Job} {w : World} {q : Place}

/-- What the run works with, where there is a place for its document. -/
def bench (e : Job) (w : World) (place : Place) (format : OutputFormat) : Bench where
  files := w.files
  base := w.fresh
  first := e.first
  bound := (e.after w).fresh
  firstDraft := e.firstDraft
  lastDraft := (e.after w).drafts
  directory := e.provider.directory
  place := place
  final := finalName e.provider format

theorem IsReady.bench (he : e.IsReady w) (hs : w.files.IsSound) (hunused : Unused w.fresh w.files)
    (hdrafts : ∀ r n, w.drafts ≤ n → w.files.get? (r ++ [AssetCache.scratchName n]) = none)
    {place : Place} (hm : w.files.MeansDirectory e.provider.directory place)
    (format : OutputFormat) : (e.bench w place format).IsReady where
  sound := hs
  unused := hunused
  drafts r n t hn h := by
    rw [show (e.bench w place format).files = w.files from rfl,
      hdrafts r n (Nat.le_trans he.firstDraft hn.1)] at h
    cases h
  least := he.first
  clean := he.directory
  means := hm
  down := isDown_finalName _ _
  final := he.name format

/-- A run changes only own files, pictures and its document. -/
theorem changes (he : e.IsReady w) (hs : w.files.IsSound) (hunused : Unused w.fresh w.files)
    (hdrafts : ∀ r n, w.drafts ≤ n → w.files.get? (r ++ [AssetCache.scratchName n]) = none)
    (h : e.script.Changes w q) :
    HasNumber w.fresh (e.Takes w) q ∨ (¬ IsScratch w.fresh q ∧ IsPicture q) ∨ e.IsOutput w q := by
  unfold script at h
  rw [Script.changes_numbered] at h
  have hgenerate : e.generator.generate e.cache e.provider =
      ((do
        let made ← lift (plan e.provider)
        execute e.generator made : Work Path).run.run e.cache) := rfl
  rw [hgenerate, changes_bind, changes_lift, perform_lift] at h
  rcases h with h | ⟨made, hmade, h⟩
  · exact absurd h (not_changes_plan _ _ _)
  · have hplan := perform_plan e.provider (w.withNumbers e.first e.firstDraft)
    have hrun : Script.run (e.generator.generate e.cache e.provider) (w.withNumbers e.first e.firstDraft) =
        perform (do
          let made ← lift (plan e.provider)
          execute e.generator made) e.cache (w.withNumbers e.first e.firstDraft) := rfl
    rw [perform_bind, perform_lift] at hrun
    revert hplan hrun h hmade
    generalize hr : Task.perform (plan e.provider) (w.withNumbers e.first e.firstDraft) = r
    obtain ⟨result, w₁⟩ := r
    dsimp only
    rintro rfl h ⟨rfl, data, format, place, -, hformat, hm, rfl⟩ hrun
    have hb := he.bench hs hunused hdrafts hm format
    have hstart : (e.bench w place format).Holds (w.withNumbers e.first e.firstDraft) :=
      ⟨framed_of_kept ((FileSystem.kept_refl hs).mono fun _ h => h.elim), fun _ _ => rfl,
        Nat.le_refl _, Nat.le_refl _⟩
    have hworks := works_execute hb e.studio e.env e.kinds e.images e.call? he.template
      (DataMap.xmlOnly data) format e.cache he.cache
    have hall := hworks.run (fun u s hu hs hbound hlast => hu.permitted hb hs hbound hlast) hstart
      (Nat.le_of_eq (congrArg (fun r => r.2.fresh) hrun.symm))
      (Nat.le_of_eq (congrArg (fun r => r.2.drafts) hrun.symm))
    rcases hall.2.2 q h with hnumber | hpicture | hgoal
    · exact Or.inl hnumber
    · exact Or.inr (Or.inl hpicture)
    · exact Or.inr (Or.inr ⟨place, format, hm, hformat, hgoal⟩)

/-- A run alone leaves no unfinished file. -/
theorem left (he : e.IsReady w) (hs : w.files.IsSound) (hunused : Unused w.fresh w.files)
    (hq : IsScratch e.first q) : (e.alone w).2.files.get? q = none := by
  have hwider : ∀ r, IsScratch e.first r → IsScratch w.fresh r := by
    rintro r ⟨name, hname, n, hn, hnamed⟩
    exact ⟨name, hname, n, Nat.le_trans he.first hn, hnamed⟩
  have hrun : Script.run (e.generator.generate e.cache e.provider) (w.withNumbers e.first e.firstDraft) =
      perform (do
        let made ← lift (plan e.provider)
        execute e.generator made) e.cache (w.withNumbers e.first e.firstDraft) := rfl
  unfold alone script
  rw [Script.run_numbered, hrun, perform_bind, perform_lift]
  have hplan := perform_plan e.provider (w.withNumbers e.first e.firstDraft)
  revert hplan
  generalize Task.perform (plan e.provider) (w.withNumbers e.first e.firstDraft) = r
  obtain ⟨result, w₁⟩ := r
  cases result with
  | error f =>
    rintro rfl
    exact hunused q (hwider q hq)
  | ok made =>
    rintro ⟨rfl, data, format, place, -, -, hm, rfl⟩
    have g : Ground ⟨w.withNumbers e.first e.firstDraft, e.cache, e.provider.directory, place,
        finalName e.provider format⟩ := by
      refine ⟨hs, he.directory, he.cache, hm.2, he.firm place format hm,
        fun r hr => hunused r (hwider r hr), fun hname => ?_⟩
      obtain ⟨n, hn, hnamed⟩ := hname
      exact he.name format ⟨n, Nat.le_trans he.first hn, hnamed⟩
    have hexecute := execute_holding e.studio e.env e.kinds e.images g.holding g he.template
      (isDown_finalName e.provider format) (DataMap.xmlOnly data) format e.call?
    unfold generator
    dsimp only at hexecute ⊢
    revert hexecute
    generalize perform (execute _ _) e.cache (w.withNumbers e.first e.firstDraft) = r
    obtain ⟨⟨result, c'⟩, w₂⟩ := r
    cases result with
    | error f =>
      intro h
      have hleft : IsLeft (w.withNumbers e.first e.firstDraft) e.cache.directory (fun _ => False) w₂ :=
        h.isLeft g (fun _ hn => hn.elim) fun _ hn => hn.elim
      exact hleft.2 q hq
    | ok path =>
      rintro ⟨-, h, -⟩
      have hleft : IsLeft (w.withNumbers e.first e.firstDraft) e.cache.directory
          (· = place ++ [finalName e.provider format]) w₂ :=
        h.isLeft g (fun _ hn => hn) fun _ hn => by rw [hn]
      exact hleft.2 q hq

/-! ### Runs that are apart -/

theorem IsOutput.not_isScratch (h : e.IsOutput w q) (he : e.IsReady w)
    (hunused : Unused w.fresh w.files) : ¬ IsScratch w.fresh q := by
  obtain ⟨place, format, hm, -, rfl⟩ := h
  rintro ⟨n, hn, hscratch⟩
  rcases List.mem_append.1 hn with hn | hn
  · obtain ⟨t, ht⟩ := hm.2
    exact hunused.not_isScratch ht ⟨n, hn, hscratch⟩
  · exact he.name format (List.mem_singleton.1 hn ▸ hscratch)

/-- A document is no picture. -/
theorem IsOutput.not_isPicture (h : e.IsOutput w q) : ¬ IsPicture q := by
  obtain ⟨place, format, -, -, rfl⟩ := h
  rintro ⟨r, n, heq, hending⟩
  obtain ⟨-, heq⟩ := List.append_inj' heq rfl
  obtain ⟨t, ht⟩ := List.isSuffixOf_iff_suffix.1 hending
  rw [← List.singleton_inj.1 heq] at ht
  have hlast : (t ++ AssetCache.ending).getLast? = some 'g' := List.getLast?_append ..
  rw [ht, finalName, List.getLast?_append] at hlast
  have hend : ('.' :: format.name).getLast? ≠ none ∧ ('.' :: format.name).getLast? ≠ some 'g' := by
    cases format <;> decide
  cases hformat : ('.' :: format.name).getLast? with
  | none => exact hend.1 hformat
  | some c =>
    rw [hformat, Option.some_or] at hlast
    exact hend.2 (hformat.trans hlast)

/-- What is a run's own no other run changes. -/
theorem IsOwn.not_changes (h : e.IsOwn w q) (hapart : e.Apart e' w) (he : e.IsReady w)
    (he' : e'.IsReady w) (hs : w.files.IsSound) (hunused : Unused w.fresh w.files)
    (hdrafts : ∀ r n, w.drafts ≤ n → w.files.get? (r ++ [AssetCache.scratchName n]) = none) :
    ¬ e'.script.Changes w q := by
  intro hchanges
  rcases h with hnumber | houtput
  · rcases changes he' hs hunused hdrafts hchanges with hnumber' | ⟨hplain, -⟩ | houtput'
    · obtain ⟨n, hn, hn'⟩ := hnumber.unique hnumber' (fun n hn => Nat.le_trans he.first hn.1)
        fun n hn => Nat.le_trans he'.first hn.1
      exact hapart.numbers n hn hn'
    · exact hplain (hnumber.isScratch fun n hn => Nat.le_trans he.first hn.1)
    · exact houtput'.not_isScratch he' hunused
        (hnumber.isScratch fun n hn => Nat.le_trans he.first hn.1)
  · rcases changes he' hs hunused hdrafts hchanges with hnumber' | ⟨-, hpicture⟩ | houtput'
    · exact houtput.not_isScratch he hunused
        (hnumber'.isScratch fun n hn => Nat.le_trans he'.first hn.1)
    · exact houtput.not_isPicture hpicture
    · exact hapart.outputs q houtput houtput'

end

end Job

end Generation

end MailMerge
