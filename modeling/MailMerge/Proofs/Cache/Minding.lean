import MailMerge.Proofs.Cache.Asking
/-!
# Runs that mind what they share

A run minds what it shares with others (`Minds`) when it touches the places for pictures in the shared
directories by requests only, and all else that it looks at nobody alters but itself. It may also look at
pictures that are there, as the one does that shows them. All that is told by the run alone.

* `Minds.bind`: a sequence minds what its parts mind.
* `minds_of_looks`: what is to be shown of a script without requests.
* `safe_minds`: a run that minds what it shares does in company what it does alone.
-/
namespace MailMerge

open Discipline (safe_pure safe_step)

namespace Company

/-- Whether a run minds what it shares, when it is run alone in a world. `loose` are the places that others
alter, and `sharing` says whether the cache of the run keeps its pictures in a shared directory: then the run
takes the numbers of its drafts in requests only. -/
inductive Minds {α : Type} (S : Company) (loose : Place → Prop) (i : Nat) (sharing : Prop) :
    Script α → World → Prop
  | done (a : α) (v : World) : Minds S loose i sharing (.done a) v
  | step {s : Step} {next : s.Reply → Script α} {v : World} (hs : ¬ s.Counts)
      (hsees : ∀ q, s.Sees v.files q → (¬ S.Shelf q ∧ ¬ loose q) ∨
        ((S.Shelf q ∧ ¬ S.Dead q) ∧ s.Peers ∧ v.files.get? q ≠ none))
      (hnext : Minds S loose i sharing (next (v.perform s).1) (v.perform s).2) :
      Minds S loose i sharing (.step s next) v
  | fresh {next : Nat → Script α} {v : World}
      (hnext : Minds S loose i sharing (next v.fresh) { v with fresh := v.fresh + 1 }) :
      Minds S loose i sharing (.step .fresh next) v
  | draft {next : Nat → Script α} {v : World} (hs : ¬ sharing)
      (hnext : Minds S loose i sharing (next v.drafts) { v with drafts := v.drafts + 1 }) :
      Minds S loose i sharing (.step .draft next) v
  | ask {c : AssetCache} {render : Renderer} {parts : Nat} {k : AssetKey} {r : Place}
      {f : CacheAnswer × AssetCache → Script α} {v : World} (hs : sharing)
      (hasks : S.Asks loose i c render k r v)
      (hnext : Minds S loose i sharing (f (Script.run (c.getOrCreate render parts k) v).1)
        (Script.run (c.getOrCreate render parts k) v).2) :
      Minds S loose i sharing (c.getOrCreate render parts k >>= f) v

section
variable {α β : Type} {S : Company} {i d : Nat} {loose loose' : Place → Prop} {sharing : Prop}
  {x : Script α} {v u : World}

/-- A sequence minds what its parts mind. -/
theorem Minds.bind {f : α → Script β} (hx : S.Minds loose i sharing x v)
    (hf : S.Minds loose i sharing (f (Script.run x v).1) (Script.run x v).2) :
    S.Minds loose i sharing (x >>= f) v := by
  induction hx with
  | done a v => exact hf
  | step hs hsees hnext ih => exact .step hs hsees (ih hf)
  | fresh hnext ih => exact .fresh (ih hf)
  | draft hs hnext ih => exact .draft hs (ih hf)
  | ask hs hasks hnext ih =>
    rw [bind_assoc]
    refine .ask hs hasks (ih ?_)
    rw [Script.run_bind] at hf
    exact hf

/-- A script without requests minds what it shares when what it looks at is not shared, or a picture that is
there and stays. -/
theorem minds_of_looks (hdrafts : x.Drafts v → ¬ sharing) (hlooks : ∀ q, x.Looks v q →
      (¬ S.Shelf q ∧ ¬ loose q) ∨ ((S.Shelf q ∧ ¬ S.Dead q) ∧ ¬ x.Grips v q)) :
    S.Minds loose i sharing x v := by
  induction x generalizing v with
  | done a => exact .done a v
  | step s next ih =>
    have hnext : S.Minds loose i sharing (next (v.perform s).1) (v.perform s).2 := by
      refine ih _ (fun h => hdrafts ?_) fun q hq => (hlooks q (Or.inr hq)).imp_right fun h =>
        ⟨h.1, fun hgrips => h.2 (Or.inr hgrips)⟩
      cases s with
      | draft => exact trivial
      | _ => exact h
    by_cases hs : s.Counts
    · obtain rfl | rfl := hs
      · exact .fresh hnext
      · exact .draft (hdrafts trivial) hnext
    · refine .step hs (fun q hq => (hlooks q (Or.inl hq)).imp_right fun h => ⟨h.1, ?_⟩) hnext
      exact Classical.byContradiction fun hgrip => h.2 (Or.inl ⟨hq, hgrip⟩)

theorem Minds.of_iff (hx : S.Minds loose i sharing x v) (h : ∀ q, loose' q ↔ loose q) :
    S.Minds loose' i sharing x v := by
  rwa [show loose' = loose from funext fun q => propext (h q)]

/-- A step that sees nothing of what is shared but pictures that stay does what it does alone. -/
theorem Beside.mind {w : World} (hh : S.Beside ⟨i, v, none⟩ w) (hw : S.Tidy w) {s : Step}
    (hs : ¬ s.Counts)
    (hsees : ∀ q, s.Sees v.files q → (¬ S.Shelf q ∧ ¬ ∃ j, j ≠ i ∧ S.alters j q) ∨
      ((S.Shelf q ∧ ¬ S.Dead q) ∧ s.Peers ∧ v.files.get? q ≠ none))
    (halters : ∀ q, (v.perform s).2.files.get? q ≠ v.files.get? q → S.alters i q) :
    (w.perform s).1 = (v.perform s).1 ∧ S.Touches i w (w.perform s).2 ∧
      S.Beside ⟨i, (v.perform s).2, none⟩ (w.perform s).2 := by
  by_cases hpeers : s.Peers
  · -- who only looks leaves everything as it is
    obtain ⟨hperform, halone⟩ := hh.peek hw hpeers fun q hq => by
      obtain ⟨hshelf, hloose⟩ | ⟨⟨hshelf, hdead⟩, -, hthere⟩ := hsees q hq
      · exact Or.inl (not_or.2 ⟨hshelf, hloose⟩)
      · exact Or.inr ⟨hshelf, hdead, hthere⟩
    rw [hperform]
    exact ⟨rfl, touches_refl S i w, halone.symm ▸ hh⟩
  · refine hh.step hw hs (fun q hq => ?_) halters
    obtain hnot | ⟨-, hpeek, -⟩ := hsees q hq
    · exact not_or.2 hnot
    · exact absurd hpeek hpeers

/-- A run that minds what it shares, on numbers of its own, does in company what it does alone. -/
theorem safe_minds (hS : S.IsReady)
    (hx : S.Minds (fun q => ∃ j, j ≠ i ∧ S.alters j q) i sharing x v)
    (hfiles : v.files = u.files) (hclock : v.clock = u.clock)
    (hfirst : S.first i ≤ d) (hd : d ≤ v.drafts) (hown : ¬ sharing → d = v.drafts)
    (hbound : (Script.run x v).2.drafts ≤ S.bound i) (halters : ∀ q, x.Changes v q → S.alters i q) :
    S.discipline.Safe (fun reply h' => reply.1 = (Script.run x v).1 ∧ h'.run = i ∧
        h'.alone.files = (Script.run x v).2.files)
      (Script.counted v.fresh d x) ⟨i, u, none⟩ := by
  have hknows : ∀ {v u : World}, v.files = u.files → v.clock = u.clock → ∀ {w : World},
      S.Beside ⟨i, u, none⟩ w → S.Beside ⟨i, v, none⟩ w :=
    fun hfiles hclock _ hh => hh.congr hfiles hclock
  induction hx generalizing u d with
  | done a v => exact ⟨rfl, rfl, hfiles.symm⟩
  | @step s next v hs hsees hnext ih =>
    obtain ⟨hfresh, hdrafts⟩ := Script.perform_numbers hs v
    rw [Script.counted_step hs]
    intro w hw hh
    obtain ⟨hreply, htouches, hafter⟩ := (hknows hfiles hclock hh).mind hw hs hsees
      fun q hq => halters q (Or.inl hq)
    refine ⟨⟨i, (v.perform s).2, none⟩, htouches.allows (h := ⟨i, u, none⟩) hS hw rfl hafter, ?_⟩
    rw [hreply]
    have hsafe := ih (u := (v.perform s).2) (d := d) rfl rfl hfirst (hdrafts ▸ hd) (hdrafts ▸ hown)
      hbound fun q hq => halters q (Or.inr hq)
    rw [hfresh] at hsafe
    exact hsafe
  | @fresh next v hnext ih =>
    exact ih hfiles hclock hfirst hd hown hbound fun q hq => halters q (Or.inr hq)
  | @draft next v hs hnext ih =>
    obtain rfl := hown hs
    exact ih hfiles hclock (Nat.le_succ_of_le hfirst) (Nat.le_refl _) (fun _ => rfl) hbound
      fun q hq => halters q (Or.inr hq)
  | @ask c render parts k r f v hs hasks hnext ih =>
    rw [Script.counted_bind]
    rw [Script.run_bind] at hbound ⊢
    show S.discipline.Safe _ (Script.step .now _) _
    -- the request begins where the run is alone
    refine safe_step fun w hw hh => ⟨_, hknows hfiles hclock hh, fun _ hg => hg, ?_⟩
    refine (safe_getOrCreate hS hasks hfirst hd
      (Nat.le_trans (Script.run_follows _ _).drafts hbound)).bind ?_
    rintro ⟨a, n, d'⟩ h' ⟨ha, hn, hle, hle', rfl⟩
    dsimp only at ha hn hle hle' ⊢
    rw [ha, hn, ← AssetCache.fresh_getOrCreate c render parts k v]
    exact ih rfl rfl (Nat.le_trans hfirst hle) hle' (fun h => absurd hs h) hbound
      fun q hq => halters q ((Script.changes_bind f).2 (Or.inr hq))

end

end Company

end MailMerge
