import MailMerge.Proofs.Storage.Noninterference
/-!
# Scripts that keep to rules

A script obeys a rule when it takes only steps that the rule allows, whatever replies it gets. What each
step of a rule keeps, a script that obeys the rule keeps all through its run (`Obeys.run`). So what a
script may do is read off its text, and what that means for the files is shown once for each step.

A script can also bring its own numbers, instead of asking the world for fresh ones (`counted`,
`numbered`).
-/
namespace MailMerge

/-- The world with other next numbers. -/
def World.withNumbers (w : World) (n d : Nat) : World := { w with fresh := n, drafts := d }

namespace Script

variable {α β : Type}

/-- Whether a script takes only steps that a rule allows, when the replies are such as can be expected,
and has a result as `Q` says. -/
def Obeys (rule : Step → Prop) (answer : (s : Step) → s.Reply → Prop) (Q : α → Prop) :
    Script α → Prop
  | .done a => Q a
  | .step s next => rule s ∧ ∀ r, answer s r → Obeys rule answer Q (next r)

section
variable {rule : Step → Prop} {answer : (s : Step) → s.Reply → Prop} {Q : α → Prop} {x : Script α}

theorem Obeys.bind {P : β → Prop} {f : α → Script β} (hx : Obeys rule answer Q x)
    (hf : ∀ a, Q a → Obeys rule answer P (f a)) : Obeys rule answer P (x >>= f) := by
  show Obeys rule answer P (Script.bind x f)
  induction x with
  | done a => exact hf a hx
  | step s next ih => exact ⟨hx.1, fun r hr => ih r (hx.2 r hr)⟩

theorem Obeys.mono {P : α → Prop} (hx : Obeys rule answer Q x) (h : ∀ a, Q a → P a) :
    Obeys rule answer P x := by
  induction x with
  | done a => exact h a hx
  | step s next ih => exact ⟨hx.1, fun r hr => ih r (hx.2 r hr)⟩

theorem Obeys.of_rule {rule' : Step → Prop} (hx : Obeys rule answer Q x)
    (hr : ∀ s, rule s → rule' s) : Obeys rule' answer Q x := by
  induction x with
  | done a => exact hx
  | step s next ih => exact ⟨hr s hx.1, fun r hr' => ih r (hx.2 r hr')⟩

/-- What each step of a rule keeps is kept all through a run, and only places change that a step may
change. The steps are taken in worlds that give numbers below bounds. -/
theorem Obeys.run {J : World → Prop} {may : Place → Prop} {bound lastDraft : Nat} {w : World}
    (hstep : ∀ w s, J w → rule s → (w.perform s).2.fresh ≤ bound →
      (w.perform s).2.drafts ≤ lastDraft → answer s (w.perform s).1 ∧ J (w.perform s).2 ∧
        ∀ q, ¬ may q → (w.perform s).2.files.get? q = w.files.get? q)
    (hx : Obeys rule answer Q x) (hw : J w) (hbound : (Script.run x w).2.fresh ≤ bound)
    (hlast : (Script.run x w).2.drafts ≤ lastDraft) :
    Q (Script.run x w).1 ∧ J (Script.run x w).2 ∧ ∀ q, x.Changes w q → may q := by
  induction x generalizing w with
  | done a => exact ⟨hx, hw, fun _ h => h.elim⟩
  | step s next ih =>
    have hfollows := run_follows (next (w.perform s).1) (w.perform s).2
    obtain ⟨hanswer, hnext, hmay⟩ := hstep w s hw hx.1 (Nat.le_trans hfollows.fresh hbound)
      (Nat.le_trans hfollows.drafts hlast)
    obtain ⟨hq, hj, hchanges⟩ := ih _ (hx.2 _ hanswer) hnext hbound hlast
    refine ⟨hq, hj, fun q h => ?_⟩
    rcases h with h | h
    · exact Classical.byContradiction fun hnot => h (hmay q hnot)
    · exact hchanges q h

end

/-! ## Own numbers -/

/-- The script that takes numbers of its own: the first two are those that it goes on from, for drafts
and for all else, and the last two are those that come next in the end. -/
def counted : Nat → Nat → Script α → Script (α × Nat × Nat)
  | n, d, .done a => .done (a, n, d)
  | n, d, .step .fresh next => counted (n + 1) d (next n)
  | n, d, .step .draft next => counted n (d + 1) (next d)
  | n, d, .step s next => .step s fun r => counted n d (next r)

/-- The script that takes numbers of its own, and tells its result alone. -/
def numbered (n d : Nat) (x : Script α) : Script α := do
  let r ← counted n d x
  pure r.1

section
variable {s : Step} {w : World} {q : Place} {n d : Nat}

theorem counted_step (hs : ¬ s.Counts) (n d : Nat) (next : s.Reply → Script α) :
    counted n d (.step s next) = .step s fun r => counted n d (next r) := by
  cases s with
  | fresh => exact absurd (Or.inl rfl) hs
  | draft => exact absurd (Or.inr rfl) hs
  | _ => rfl

theorem counted_bind (n d : Nat) (x : Script α) (f : α → Script β) :
    counted n d (x >>= f) = (do
      let (a, n, d) ← counted n d x
      counted n d (f a)) := by
  show counted n d (bind x f) = bind (counted n d x) fun r => counted r.2.1 r.2.2 (f r.1)
  induction x generalizing n d with
  | done a => rfl
  | step s next ih =>
    by_cases hs : s.Counts
    · obtain rfl | rfl := hs
      · exact ih n (n + 1) d
      · exact ih d n (d + 1)
    · rw [bind, counted_step hs, counted_step hs, bind]
      exact congrArg (Script.step s) (funext fun r => ih r n d)

/-- Whether a script takes no numbers. -/
def NumberFree (x : Script α) : Prop :=
  Obeys (fun s => ¬ s.Counts) (fun _ _ => True) (fun _ => True) x

theorem numberFree_ask {s : Step} (hs : ¬ s.Counts) : (ask s).NumberFree := ⟨hs, fun _ _ => trivial⟩

theorem NumberFree.bind {x : Script α} {f : α → Script β} (hx : x.NumberFree)
    (hf : ∀ a, (f a).NumberFree) : (x >>= f).NumberFree := Obeys.bind hx fun a _ => hf a

/-- A script that takes no numbers is none that brings its own. -/
theorem counted_of_numberFree {x : Script α} (hx : x.NumberFree) (n d : Nat) :
    counted n d x = (do
      let a ← x
      pure (a, n, d)) := by
  show counted n d x = bind x fun a => .done (a, n, d)
  induction x with
  | done a => rfl
  | step s next ih =>
    rw [counted_step hx.1, bind]
    exact congrArg (Script.step s) (funext fun r => ih r (hx.2 r trivial))

/-- A step that takes no number does the same whatever numbers come next. -/
theorem perform_withNumbers (hs : ¬ s.Counts) (w : World) (n d : Nat) :
    (w.withNumbers n d).perform s = ((w.perform s).1, (w.perform s).2.withNumbers n d) := by
  have hchange : ∀ r,
      (w.withNumbers n d).change r = ((w.change r).1, (w.change r).2.withNumbers n d) := by
    intro r
    cases r <;> rfl
  cases s with
  | fresh => exact absurd (Or.inl rfl) hs
  | draft => exact absurd (Or.inr rfl) hs
  | create p => exact hchange _
  | write p c => exact hchange _
  | rename a b => exact hchange _
  | remove p => exact hchange _
  | makeDirectory p => exact hchange _
  | removeTree p => exact hchange _
  | execute p c =>
    show (w.withNumbers n d).execute p c =
      ((w.execute p c).1, (w.execute p c).2.withNumbers n d)
    unfold World.execute
    rw [show (w.withNumbers n d).files = w.files from rfl]
    cases w.files.read p with
    | error e => rfl
    | ok content =>
      cases content with
      | program prog =>
        dsimp only
        split
        · rfl
        · unfold World.produce
          cases prog.makes with
          | none => rfl
          | some t => exact congrArg (prog.ending, ·) (congrArg Prod.snd (hchange _))
      | _ => rfl
  | _ => rfl

theorem perform_numbers (hs : ¬ s.Counts) (w : World) :
    (w.perform s).2.fresh = w.fresh ∧ (w.perform s).2.drafts = w.drafts := by
  have hsame : (w.perform s).2 = (w.perform s).2.withNumbers w.fresh w.drafts :=
    congrArg Prod.snd (perform_withNumbers hs w w.fresh w.drafts)
  rw [hsame]
  exact ⟨rfl, rfl⟩

/-- A script runs on its own numbers as it runs where they are the next ones. -/
theorem run_counted (n d : Nat) (x : Script α) (w : World) :
    run (counted n d x) w =
      (((run x (w.withNumbers n d)).1, (run x (w.withNumbers n d)).2.fresh,
          (run x (w.withNumbers n d)).2.drafts),
        (run x (w.withNumbers n d)).2.withNumbers w.fresh w.drafts) := by
  induction x generalizing n d w with
  | done a => rfl
  | step s next ih =>
    by_cases hs : s.Counts
    · obtain rfl | rfl := hs
      · exact ih n (n + 1) d w
      · exact ih d n (d + 1) w
    · obtain ⟨hfresh, hdrafts⟩ := perform_numbers hs w
      rw [counted_step hs, run, run, ih, perform_withNumbers hs, hfresh, hdrafts]

theorem run_numbered (n d : Nat) (x : Script α) (w : World) :
    run (numbered n d x) w =
      ((run x (w.withNumbers n d)).1, (run x (w.withNumbers n d)).2.withNumbers w.fresh w.drafts) := by
  unfold numbered
  rw [run_bind, run_counted]
  rfl

theorem changes_counted (n d : Nat) (x : Script α) :
    (counted n d x).Changes w q ↔ x.Changes (w.withNumbers n d) q := by
  induction x generalizing n d w with
  | done a => exact Iff.rfl
  | step s next ih =>
    by_cases hs : s.Counts
    · obtain rfl | rfl := hs
      · exact (ih n (n + 1) d).trans (or_iff_right fun h => h rfl).symm
      · exact (ih d n (d + 1)).trans (or_iff_right fun h => h rfl).symm
    · rw [counted_step hs, Changes, Changes, ih, perform_withNumbers hs]
      rfl

theorem changes_numbered (n d : Nat) (x : Script α) :
    (numbered n d x).Changes w q ↔ x.Changes (w.withNumbers n d) q := by
  unfold numbered
  rw [changes_bind, changes_counted]
  exact or_iff_left fun h => h

end

end Script

end MailMerge
