import MailMerge.Proofs.Cache.Confinement
import MailMerge.Proofs.Resolution.Threading
/-!
# Resolving keeps to the cache

While placeholders are resolved, no files change but entries of the cache (`resolveAll_confined`).
-/
namespace MailMerge.Resolution

open AssetCache (Confined confined_refl)

section
variable {studio : Studio} {env : Environment} {cache : AssetCache} {w : World} {m : DataMap}

theorem confined_of_same {fs : FileSystem} {w w' : World} (h : Confined cache fs w.files)
    (hw : World.Same w w') : Confined cache fs w'.files := hw.files ▸ h

theorem symbol_confined (hs : w.files.IsSound) (hc : cache.directory.IsClean) (d : Descriptor) :
    Confined cache w.files (Script.run (symbol studio cache m d) w).2.files ∧
      (Script.run (symbol studio cache m d) w).1.2.directory = cache.directory := by
  cases hreq : request m d with
  | refuse f =>
    rw [run_symbol_of_refuse hreq]
    exact ⟨confined_refl hs, rfl⟩
  | leave =>
    obtain ⟨hr, hw⟩ := run_symbol_of_leave (w := w) hreq
    rw [hr]
    exact ⟨confined_of_same (confined_refl hs) hw, rfl⟩
  | mark =>
    rw [run_symbol_of_mark hreq]
    exact ⟨confined_refl hs, rfl⟩
  | draw k =>
    obtain ⟨hr, hw⟩ := run_symbol_of_draw (w := w) hreq
    obtain ⟨hasked, hdir⟩ :=
      AssetCache.getOrCreate_confined (c := cache) hs hc studio.render studio.parts k
    rw [hr]
    exact ⟨confined_of_same (w := (asked studio k (cache, w)).2.2) hasked hw, hdir⟩

theorem resolve_confined (hs : w.files.IsSound) (hc : cache.directory.IsClean) (d : Descriptor) :
    Confined cache w.files (Script.run (resolve studio env cache m d) w).2.files ∧
      (Script.run (resolve studio env cache m d) w).1.2.directory = cache.directory := by
  by_cases hk : d.kind = .qrcode
  · rw [resolve_qrcode hk]
    exact symbol_confined hs hc d
  · obtain ⟨hcache, hw⟩ : (Script.run (resolve studio env cache m d) w).1.2 = cache ∧
        World.Same w (Script.run (resolve studio env cache m d) w).2 :=
      run_resolve_of_ne_qrcode hk
    exact ⟨confined_of_same (confined_refl hs) hw, by rw [hcache]⟩

theorem resolveEach_confined (hs : w.files.IsSound) (hc : cache.directory.IsClean)
    (ds : List Descriptor) :
    Confined cache w.files (Script.run (resolveEach studio env cache m ds) w).2.files ∧
      (Script.run (resolveEach studio env cache m ds) w).1.2.directory = cache.directory := by
  induction ds generalizing cache m w with
  | nil => exact ⟨confined_refl hs, rfl⟩
  | cons d ds ih =>
    rw [run_resolveEach_cons]
    split
    · exact ih hs hc
    · obtain ⟨hfirst, hdir⟩ : Confined cache w.files
          (Script.run (resolve studio env cache m d) w).2.files ∧
          (Script.run (resolve studio env cache m d) w).1.2.directory = cache.directory :=
        resolve_confined hs hc d
      revert hfirst hdir
      obtain ⟨⟨found, cache'⟩, w'⟩ := Script.run (resolve studio env cache m d) w
      intro hfirst hdir
      cases found with
      | error f => exact ⟨hfirst, hdir⟩
      | ok r =>
        obtain ⟨hrest, hdir'⟩ := ih (m := r.elim m (Table.insert m d.raw)) hfirst.sound
          (hdir ▸ hc : cache'.directory.IsClean)
        exact ⟨hfirst.trans (hrest.congr hdir.symm), hdir'.trans hdir⟩

/-- While the tokens of a document are resolved, no files change but entries of the cache. -/
theorem resolveAll_confined (hs : w.files.IsSound) (hc : cache.directory.IsClean)
    (kinds : List Kind) (tokens : List Text) (data : DataMap) :
    Confined cache w.files (Script.run (resolveAll studio env kinds cache tokens data) w).2.files :=
  (resolveEach_confined hs hc _).1

end

end MailMerge.Resolution
