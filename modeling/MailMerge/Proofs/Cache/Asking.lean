import MailMerge.Proofs.Cache.Company
import MailMerge.Proofs.Cache.Outcomes
import MailMerge.Proofs.Storage.Rules
/-!
# Requests in company

A run that asks for a picture in a directory which it shares is answered as it is alone, whatever the other
runs do there while it asks (`safe_getOrCreate`). It may find a picture that another run has drawn where it
draws one alone, and a sweep may find less than it does alone, or other drafts.

* `Asks`: what is assumed of a request, told by the run alone.
* `safe_sweepIfDue`, `safe_lookup`, `safe_promote`: the parts of a request.
* `safe_answerOf`: what follows the sweep. Either nothing is drawn (`safe_answerOf_failed`), or the picture
  is there (`safe_answerOf_live`), or it is missing (`safe_answerOf_drawn`).
-/
namespace MailMerge

open FileSystem (Agree MeansDirectory MeansFirmly Fits IsName Sheds)
open MailMerge.Path (IsClean)

namespace AssetCache

/-- What is drawn for an asset, or why there is nothing. -/
def drawing (render : Renderer) (k : AssetKey) : Except AssetFault Content :=
  match render k with
  | .error f => .error (.render f)
  | .ok content => if content.isEmpty then .error .noData else .ok content

/-- What a request does after its sweep. -/
def answerOf (c : AssetCache) (render : Renderer) (parts : Nat) (k : AssetKey) :
    Script (CacheAnswer × AssetCache) := do
  match ← c.lookup (c.keyOf k) with
  | .error t => pure (.broken t, c)
  | .ok (some e) => pure (.found e.path, c)
  | .ok none =>
    match drawing render k with
    | .error f => pure (.failed f, c)
    | .ok content => do
      let answer ← c.promote parts (c.keyOf k) content
      pure (answer, c)

/-- The cache after the sweep that is due at a time. -/
def sweptAt (c : AssetCache) (now : Time) : AssetCache :=
  if c.isDue now then { c with lastSweep := some now } else c

section
variable {c : AssetCache} {render : Renderer} {k : AssetKey} {w : World} {r : Place} {parts : Nat}

theorem getOrCreate_eq (c : AssetCache) (render : Renderer) (parts : Nat) (k : AssetKey) :
    c.getOrCreate render parts k = c.sweepIfDue >>= fun c => c.answerOf render parts k := by
  unfold getOrCreate answerOf
  congr 1
  funext c'
  dsimp only
  congr 1
  funext found
  cases found with
  | error t => rfl
  | ok e =>
    cases e with
    | some e => rfl
    | none =>
      unfold drawing
      dsimp only
      cases render k with
      | error f => rfl
      | ok content =>
        dsimp only
        cases content.isEmpty <;> rfl

theorem sweptAt_cases (c : AssetCache) (now : Time) :
    ∃ last, c.sweptAt now = { c with lastSweep := last } := by
  unfold sweptAt
  split
  · exact ⟨_, rfl⟩
  · exact ⟨c.lastSweep, rfl⟩

/-- A sweep that is due takes nothing but expired pictures. -/
theorem run_sweepIfDue_lodged (h : c.Lodged w.files r) :
    ∃ taken fs' log, Script.run c.sweepIfDue w =
        (c.sweptAt w.clock, { w with files := fs', log := log }) ∧
      (∀ n, taken n → Text.endsIn ending n = true ∧ c.Takes w.clock r w.files n) ∧
      Sheds r taken w.files fs' := by
  rw [run_sweepIfDue]
  unfold sweptAt
  split
  · obtain ⟨taken, fs', log, hrun, -, hmem, hsheds⟩ := run_sweep h
    exact ⟨_, fs', log, by rw [hrun], fun n hn => (hmem n).1 hn, hsheds⟩
  · exact ⟨_, w.files, w.log, rfl, fun _ h => h.elim, FileSystem.sheds_refl h.sound r⟩

/-- Where a picture is live it is the answer. -/
theorem run_answerOf_live (h : c.Home w.files r) {content : Content} {t : Time} {x : Bool}
    (hfile : w.files.get? (r ++ [c.entryName k]) = some (.file content t x))
    (hlive : c.expired t w.clock = false) :
    Script.run (c.answerOf render parts k) w = ((.found (c.pathOf (c.keyOf k)), c), w) := by
  have hlookup := run_lookup_entry h hfile
  rw [hlive, if_neg (by decide)] at hlookup
  unfold answerOf
  rw [Script.run_bind, hlookup]
  rfl

theorem run_answerOf_failed {f : AssetFault}
    (hlookup : Script.run (c.lookup (c.keyOf k)) w = (.ok none, w))
    (hdrawing : drawing render k = .error f) :
    Script.run (c.answerOf render parts k) w = ((.failed f, c), w) := by
  unfold answerOf
  rw [Script.run_bind, hlookup, hdrawing]
  rfl

/-- Where nothing stands what is drawn is put. -/
theorem run_answerOf_drawn (h : c.Home w.files r) {content : Content}
    (hnone : w.files.get? (r ++ [c.entryName k]) = none)
    (hdrawing : drawing render k = .ok content)
    (hf : Fits (c.stagePath w.files) (scratchName w.drafts))
    (hdraft : w.files.get? (r ++ [scratchName w.drafts]) = none) :
    Script.run (c.answerOf render parts k) w =
      ((.found (c.pathOf (c.keyOf k)), c),
        { w with
          files := w.files.put (r ++ [c.entryName k]) (.file content w.clock false)
          drafts := w.drafts + 1 }) := by
  unfold answerOf
  rw [Script.run_bind, run_lookup_absent h.clean h.means (h.short k) hnone, hdrawing]
  dsimp only
  rw [Script.run_bind, run_promote_home h hf hdraft]
  rfl

/-- What is put takes the next number of a draft. -/
theorem lt_drafts_promote (c : AssetCache) (parts : Nat) (key : Text) (content : Content) (w : World) :
    w.drafts < (Script.run (c.promote parts key content) w).2.drafts := by
  unfold promote
  rw [Script.run_bind, Script.run_canonical]
  dsimp only
  rw [Script.run_bind, Script.run_draft]
  exact (Script.run_follows _ { w with drafts := w.drafts + 1 }).drafts

/-! ## Parts that take no numbers -/

theorem numberFree_note (e : Event) : (Script.note e).NumberFree :=
  Script.numberFree_ask (by rintro (h | h) <;> cases h)

theorem numberFree_status (p : Text) : (Script.status p).NumberFree :=
  Script.numberFree_ask (by rintro (h | h) <;> cases h)

theorem numberFree_now : Script.now.NumberFree :=
  Script.numberFree_ask (by rintro (h | h) <;> cases h)

theorem numberFree_evict (c : AssetCache) (now : Time) (p : Path) : (c.evict now p).NumberFree := by
  have hfailed : (do
      Script.note (.warning "asset_cache_evict_failed")
      pure false : Script Bool).NumberFree := (numberFree_note _).bind fun _ => trivial
  unfold evict
  refine (numberFree_status _).bind fun r => ?_
  cases r with
  | error e =>
    cases e with
    | absent => exact trivial
    | _ => exact hfailed
  | ok s =>
    dsimp only
    split
    · exact trivial
    · refine Script.NumberFree.bind (Script.numberFree_ask (by rintro (h | h) <;> cases h)) fun r => ?_
      cases r with
      | ok done => exact trivial
      | error e =>
        cases e with
        | absent => exact trivial
        | _ => exact hfailed

theorem numberFree_evictAll (c : AssetCache) (now : Time) (paths : List Path) :
    (c.evictAll now paths).NumberFree := by
  induction paths with
  | nil => exact trivial
  | cons p paths ih =>
    exact (numberFree_evict c now p).bind fun _ => ih.bind fun _ => trivial

theorem numberFree_candidates (c : AssetCache) : c.candidates.NumberFree := by
  have hprobe : (Script.isDirectory c.directory.toText).NumberFree := by
    refine (numberFree_status _).bind fun r => ?_
    cases r <;> exact trivial
  refine hprobe.bind fun there => ?_
  cases there with
  | error e => exact trivial
  | ok there =>
    cases there with
    | false => exact trivial
    | true =>
      refine Script.NumberFree.bind (Script.numberFree_ask (by rintro (h | h) <;> cases h)) fun r => ?_
      cases r <;> exact trivial

theorem numberFree_sweepIfDue (c : AssetCache) : c.sweepIfDue.NumberFree := by
  have hsweep : c.sweep.NumberFree := by
    refine numberFree_now.bind fun now => (numberFree_candidates c).bind fun r => ?_
    cases r with
    | error e => exact (numberFree_note _).bind fun _ => trivial
    | ok paths =>
      refine (numberFree_evictAll c now paths).bind fun n => ?_
      dsimp only
      split
      · exact trivial
      · exact (numberFree_note _).bind fun _ => trivial
  refine numberFree_now.bind fun now => ?_
  show (if c.isDue now then _ else _ : Script AssetCache).NumberFree
  split
  · exact hsweep.bind fun _ => trivial
  · exact trivial

theorem numberFree_lookup (c : AssetCache) (key : Text) : (c.lookup key).NumberFree := by
  refine (numberFree_status _).bind fun r => ?_
  cases r with
  | error e => cases e <;> exact trivial
  | ok s => exact numberFree_now.bind fun _ => trivial

theorem numberFree_writeParts (p : Text) (content : Content) (parts : Nat) :
    (writeParts p content parts).NumberFree := by
  induction parts with
  | zero => exact Script.numberFree_ask (by rintro (h | h) <;> cases h)
  | succ parts ih =>
    exact Script.NumberFree.bind (Script.numberFree_ask (by rintro (h | h) <;> cases h)) fun _ => ih

/-- A request takes no numbers but those of drafts. -/
theorem fresh_getOrCreate (c : AssetCache) (render : Renderer) (parts : Nat) (k : AssetKey)
    (w : World) : (Script.run (c.getOrCreate render parts k) w).2.fresh = w.fresh := by
  have hfree : ∀ {α : Type} {x : Script α}, x.NumberFree →
      Script.Obeys (· ≠ .fresh) (fun _ _ => True) (fun _ => True) x := fun hx =>
    hx.of_rule fun s hs heq => hs (Or.inl heq)
  have hpromote : ∀ (c : AssetCache) key content,
      Script.Obeys (· ≠ .fresh) (fun _ _ => True) (fun _ => True) (c.promote parts key content) := by
    intro c key content
    unfold promote
    refine ⟨nofun, fun base _ => ⟨nofun, fun n _ => ⟨nofun, fun made _ => ?_⟩⟩⟩
    cases made with
    | error e => exact trivial
    | ok made =>
      refine (hfree (numberFree_writeParts _ _ _)).bind fun _ _ => ⟨nofun, fun moved _ => ?_⟩
      cases moved with
      | ok moved => exact trivial
      | error e =>
        refine ⟨nofun, fun gone _ => ?_⟩
        cases gone with
        | ok gone => exact trivial
        | error e => cases e <;> exact trivial
  have hall : Script.Obeys (· ≠ .fresh) (fun _ _ => True) (fun _ => True)
      (c.getOrCreate render parts k) := by
    rw [getOrCreate_eq]
    refine (hfree (numberFree_sweepIfDue c)).bind fun c' _ => ?_
    refine (hfree (numberFree_lookup _ _)).bind fun found _ => ?_
    cases found with
    | error t => exact trivial
    | ok e =>
      cases e with
      | some e => exact trivial
      | none =>
        dsimp only
        cases drawing render k with
        | error f => exact trivial
        | ok content =>
          dsimp only
          exact (hpromote c' _ content).bind fun _ _ => trivial
  have hstep : ∀ (u : World) (s : Step), u.fresh = w.fresh → s ≠ .fresh →
      (u.perform s).2.fresh = w.fresh := by
    intro u s hu hs
    by_cases hdraft : s = .draft
    · subst hdraft
      exact hu
    · exact (Script.perform_numbers (not_or.2 ⟨hs, hdraft⟩) u).1.trans hu
  exact (hall.run (J := fun u => u.fresh = w.fresh)
    (fun u s hu hs _ _ => ⟨trivial, hstep u s hu hs, fun _ (h : ¬ True) => absurd trivial h⟩) rfl
    (Nat.le_refl _) (Nat.le_refl _)).2.1

end

end AssetCache

namespace Company

open AssetCache (scratchName ending drawing answerOf)
open Discipline (safe_pure safe_ask allows_refl)

/-- What is assumed of a request of a run for a picture in a shared directory, told by the world that the
run asks in when it is alone: its cache is at home there, the paths to the directory do not depend on what
others alter, and its drafts have names that fit. If there was no picture, all who ask for it draw the same;
and one that may have expired is not used, and not drawn again. -/
structure Asks (S : Company) (loose : Place → Prop) (i : Nat) (c : AssetCache) (render : Renderer)
    (k : AssetKey) (r : Place) (v : World) : Prop where
  lifetime : ∃ L, S.lifetime? r = some L ∧ L ≤ c.lifetime
  home : c.Home v.files r
  firm : v.files.MeansFirmly c.directory r fun q => S.Shelf q ∨ loose q
  stage : v.files.MeansFirmly (c.stagePath v.files) r fun q => S.Shelf q ∨ loose q
  place : ¬ S.Shelf r ∧ ¬ loose r
  fits : ∀ n, S.Drafts i n → Fits (c.stagePath v.files) (scratchName n)
  missing : S.start.files.get? (r ++ [c.entryName k]) = none →
    S.drawn (r ++ [c.entryName k]) = (drawing render k).toOption
  dead : S.Dead (r ++ [c.entryName k]) → (∃ f, drawing render k = .error f) ∧
    ∀ content t x, S.start.files.get? (r ++ [c.entryName k]) = some (.file content t x) →
      c.expired t S.start.clock = true

/-- Whether a cache keeps its pictures in a shared directory, and its paths mean that directory in all worlds
that are like the one that its run would be in alone. -/
structure Finds (S : Company) (i : Nat) (c : AssetCache) (r : Place) (v : World) : Prop where
  lifetime : ∃ L, S.lifetime? r = some L ∧ L ≤ c.lifetime
  clean : c.directory.IsClean
  means : ∀ w : World, Agree (S.Loose i) v.files w.files → w.files.MeansDirectory c.directory r
  stage : ∀ w : World, Agree (S.Loose i) v.files w.files →
    w.files.MeansDirectory (c.stagePath v.files) r

/-- What is said of the end of a script with numbers of its own: its result and the world of its run are
those of the run alone, it takes no number of a file, and at most as many numbers of drafts. -/
def AsAlone {α : Type} (i n d : Nat) (alone : α × World) (reply : α × Nat × Nat) (h : Hold) : Prop :=
  reply.1 = alone.1 ∧ reply.2.1 = n ∧ d ≤ reply.2.2 ∧ reply.2.2 ≤ alone.2.drafts ∧ h = ⟨i, alone.2, none⟩

/-- What is said of the end of a script that leaves its run where it was. -/
def Stays {α : Type} (h : Hold) (P : α → Prop) (a : α) (h' : Hold) : Prop := h' = h ∧ P a

section
variable {S : Company} {i n d : Nat} {c : AssetCache} {render : Renderer} {k : AssetKey} {r : Place}
  {v w : World} {h : Hold} {loose : Place → Prop} {m : Text}

theorem Asks.finds (ha : S.Asks (fun q => ∃ j, j ≠ i ∧ S.alters j q) i c render k r v) :
    S.Finds i c r v := by
  have hdirectory : ∀ w : World, Agree (S.Loose i) v.files w.files → w.files.IsDirectory r := by
    intro w hw
    obtain ⟨t, ht⟩ := ha.home.means.2
    exact ⟨t, (hw.get? (not_or.2 ha.place)).trans ht⟩
  have hkept : ∀ w : World, Agree (S.Loose i) v.files w.files → ∀ q node,
      v.files.get? q = some node → ¬ S.Loose i q → w.files.get? q = some node :=
    fun w hw q node hnode hq => (hw.get? hq).trans hnode
  exact ⟨ha.lifetime, ha.home.clean,
    fun w hw => ⟨ha.firm w.files hw.current (hkept w hw), hdirectory w hw⟩,
    fun w hw => ⟨ha.stage w.files hw.current (hkept w hw), hdirectory w hw⟩⟩

theorem Finds.of_agree (hf : S.Finds i c r v) {v' : World} (hagree : Agree S.Shelf v.files v'.files)
    (last : Option Time) : S.Finds i { c with lastSweep := last } r v' := by
  have hback : ∀ w : World, Agree (S.Loose i) v'.files w.files → Agree (S.Loose i) v.files w.files :=
    fun w hw => (hagree.mono fun q hq => Or.inl hq).trans hw
  have hstage : ({ c with lastSweep := last } : AssetCache).stagePath v'.files =
      c.stagePath v.files := by
    unfold AssetCache.stagePath
    rw [hagree.current]
  exact ⟨hf.lifetime, hf.clean, fun w hw => hf.means w (hback w hw), fun w hw => by
    rw [hstage]
    exact hf.stage w (hback w hw)⟩

/-! ## Scripts that bring their own numbers -/

/-- A part that takes no numbers does not touch those that come next. -/
theorem safe_counted {α β : Type} {x : Script α} {f : α → Script β} {Q : α → Hold → Prop}
    {P : β × Nat × Nat → Hold → Prop} (hx : x.NumberFree) (hsafe : S.discipline.Safe Q x h)
    (hf : ∀ a h', Q a h' → S.discipline.Safe P (Script.counted n d (f a)) h') :
    S.discipline.Safe P (Script.counted n d (x >>= f)) h := by
  rw [Script.counted_bind, Script.counted_of_numberFree hx]
  have hpaired : S.discipline.Safe (fun r h' => Q r.1 h' ∧ r.2 = (n, d))
      (x >>= fun a => pure (a, n, d)) h := hsafe.bind fun a h' hq => safe_pure ⟨hq, rfl⟩
  refine hpaired.bind ?_
  rintro ⟨a, n', d'⟩ h' ⟨hq, heq⟩
  cases heq
  exact hf a h' hq

/-! ## Single steps -/

/-- A step that changes nothing leaves its run where it was, or where it has come by what it sees. -/
theorem safe_look {s : Step} {Q : s.Reply → Hold → Prop} (hlook : ∀ w : World, (w.perform s).2 = w)
    (hS : S.IsReady)
    (hq : ∀ w, S.Tidy w → S.Beside h w →
      ∃ h', h'.run = h.run ∧ S.Beside h' w ∧ Q (w.perform s).1 h') :
    S.discipline.Safe Q (Script.ask s) h := by
  refine safe_ask fun w hw hh => ?_
  obtain ⟨h', hrun, hh', hq⟩ := hq w hw hh
  rw [hlook w]
  exact ⟨h', (touches_refl S h.run w).allows hS hw hrun hh', hq⟩

theorem safe_now (hS : S.IsReady) :
    S.discipline.Safe (Stays h (· = S.start.clock)) Script.now h :=
  safe_look (fun _ => rfl) hS fun _ hw hh => ⟨h, rfl, hh, rfl, hw.clock⟩

theorem safe_note (hS : S.IsReady) (e : Event) :
    S.discipline.Safe (Stays h fun _ => True) (Script.note e) h := by
  refine safe_ask fun w hw hh => ⟨h, ?_, rfl, trivial⟩
  have ht : S.Touches h.run w (w.perform (.note e)).2 :=
    ⟨rfl, FileSystem.agree_refl _ _, fun _ _ => Or.inl rfl⟩
  exact ht.allows hS hw rfl ⟨hh.tidy, hh.clear, hh.agree, hh.live, hh.draft⟩

theorem Finds.shelf (hf : S.Finds i c r v) (hm : Text.endsIn ending m = true) : S.Shelf (r ++ [m]) := by
  obtain ⟨L, hr, -⟩ := hf.lifetime
  exact ⟨r, m, by rw [hr]; rfl, rfl, hm⟩

/-- What a cache takes for expired has been there from the beginning. -/
theorem Finds.dead (hf : S.Finds i c r v) (hS : S.IsReady) (hw : S.Tidy w)
    (hm : Text.endsIn ending m = true) {content : Content} {t : Time} {x : Bool}
    (hfile : w.files.get? (r ++ [m]) = some (.file content t x))
    (hexpired : c.expired t S.start.clock = true) : S.Dead (r ++ [m]) := by
  obtain ⟨L, hr, hL⟩ := hf.lifetime
  have hold : c.lifetime < S.start.clock - t := by simpa [AssetCache.expired] using hexpired
  exact hw.dead hS hr (hf.shelf hm) hfile (Int.lt_of_le_of_lt hL hold)

section
variable (hS : S.IsReady) (hfinds : S.Finds i c r v)
include hS hfinds

/-! ## Sweeps -/

/-- What is found to have expired has been there from the beginning. -/
theorem safe_status_child (hm : Text.endsIn ending m = true) (hname : IsName m) :
    S.discipline.Safe
      (Stays ⟨i, v, none⟩ fun reply => ∀ s, reply = .ok s →
        c.expired s.modified S.start.clock = true → Fits c.directory m ∧ S.Dead (r ++ [m]))
      (Script.status (c.directory.child m).toText) ⟨i, v, none⟩ := by
  refine safe_look (fun _ => rfl) hS fun w hw hh => ⟨_, rfl, hh, rfl, fun s hs hexpired => ?_⟩
  have hs : w.files.status (c.directory.child m).toText = .ok s := hs
  have hmeans := hfinds.means w hh.agree
  have hq := hfinds.shelf hm
  by_cases hfits : Fits c.directory m
  · obtain hnone | ⟨content, t, x, hfile⟩ := hw.atMostFile hS hq
    · rw [hfits.status_absent hfinds.clean hmeans hnone] at hs
      cases hs
    · rw [hfits.status_file hfinds.clean hmeans hfile] at hs
      cases hs
      exact ⟨hfits, hfinds.dead hS hw hm hfile hexpired⟩
  · obtain ⟨e, -, he⟩ := FileSystem.status_of_not_fits hname hfits
    rw [he] at hs
    cases hs

/-- Who removes what had expired takes it from nobody. -/
theorem safe_remove_child (hm : Text.endsIn ending m = true) (hfits : Fits c.directory m)
    (hdead : S.Dead (r ++ [m])) :
    S.discipline.Safe (Stays ⟨i, v, none⟩ fun _ => True)
      (Script.remove (c.directory.child m).toText) ⟨i, v, none⟩ := by
  refine safe_ask fun w hw hh => ⟨⟨i, v, none⟩, ?_, rfl, trivial⟩
  have hmeans := hfinds.means w hh.agree
  have hq := hfinds.shelf hm
  show S.discipline.Allows _ w _ (w.change (w.files.remove (c.directory.child m).toText)).2
  obtain hnone | ⟨content, t, x, hfile⟩ := hw.atMostFile hS hq
  · rw [hfits.remove_absent hfinds.clean hmeans hnone]
    exact allows_refl hw hh
  · rw [hfits.remove_file hfinds.clean hmeans hfile]
    have hagree : Agree S.Shelf w.files (w.files.drop (r ++ [m])) :=
      (FileSystem.agree_apply (.drop (r ++ [m])) w.files).mono fun q hq' => hq' ▸ hq
    have hgone : ∀ q, (w.files.drop (r ++ [m])).get? q = if r ++ [m] = q then none
        else w.files.get? q := fun q => FileSystem.get?_drop w.files (r ++ [m]) q (by simp)
    have hserves : ∀ q, S.Serves i w { w with files := w.files.drop (r ++ [m]) } q := by
      intro q
      by_cases hqm : r ++ [m] = q
      · exact Or.inr (Or.inl ⟨hqm ▸ hdead, (hgone q).trans (if_pos hqm)⟩)
      · exact Or.inl ((hgone q).trans (if_neg hqm))
    have ht : S.Touches i w { w with files := w.files.drop (r ++ [m]) } :=
      ⟨rfl, hagree.mono fun q hq => Or.inl hq, fun q _ => hserves q⟩
    refine ht.allows hS hw rfl (hh.serves hagree (fun q _ => hserves q) none fun q hq => ?_)
    refine Eq.trans ((hgone q).trans (if_neg ?_)) (hh.draft q hq)
    rintro rfl
    exact hq.not_dead hS hdead

theorem safe_evict (hm : Text.endsIn ending m = true) (hname : IsName m) :
    S.discipline.Safe (Stays ⟨i, v, none⟩ fun _ => True)
      (c.evict S.start.clock (c.directory.child m)) ⟨i, v, none⟩ := by
  have hfailed : S.discipline.Safe (Stays ⟨i, v, none⟩ fun _ => True) (do
      Script.note (.warning "asset_cache_evict_failed")
      pure false : Script Bool) ⟨i, v, none⟩ :=
    (safe_note hS _).bind fun _ _ hq => safe_pure hq
  unfold AssetCache.evict
  refine (safe_status_child hS hfinds hm hname).bind ?_
  rintro reply _ ⟨rfl, hdead⟩
  cases reply with
  | error e =>
    cases e with
    | absent => exact safe_pure ⟨rfl, trivial⟩
    | _ => exact hfailed
  | ok s =>
    dsimp only
    cases hexpired : c.expired s.modified S.start.clock with
    | false => exact safe_pure ⟨rfl, trivial⟩
    | true =>
      obtain ⟨hfits, hdead⟩ := hdead s rfl hexpired
      rw [if_neg (by decide)]
      refine (safe_remove_child hS hfinds hm hfits hdead).bind ?_
      rintro reply _ ⟨rfl, -⟩
      cases reply with
      | ok done => exact safe_pure ⟨rfl, trivial⟩
      | error e =>
        cases e with
        | absent => exact safe_pure ⟨rfl, trivial⟩
        | _ => exact hfailed

theorem safe_evictAll {names : List Text}
    (hnames : ∀ m ∈ names, Text.endsIn ending m = true ∧ IsName m) :
    S.discipline.Safe (Stays ⟨i, v, none⟩ fun _ => True)
      (c.evictAll S.start.clock (names.map c.directory.child)) ⟨i, v, none⟩ := by
  induction names with
  | nil => exact safe_pure ⟨rfl, trivial⟩
  | cons m names ih =>
    obtain ⟨hm, hname⟩ := hnames m (List.mem_cons_self ..)
    rw [List.map_cons, AssetCache.evictAll]
    refine (safe_evict hS hfinds hm hname).bind ?_
    rintro gone _ ⟨rfl, -⟩
    refine (ih fun m' hm' => hnames m' (List.mem_cons_of_mem _ hm')).bind ?_
    rintro count _ ⟨rfl, -⟩
    exact safe_pure ⟨rfl, trivial⟩

/-- What a sweep looks at are pictures, whoever they are of. -/
theorem safe_candidates :
    S.discipline.Safe (Stays ⟨i, v, none⟩ fun reply => ∀ paths, reply = .ok paths →
      ∃ names : List Text, paths = names.map c.directory.child ∧
        ∀ m ∈ names, Text.endsIn ending m = true ∧ IsName m) c.candidates ⟨i, v, none⟩ := by
  have hisDirectory : S.discipline.Safe (Stays ⟨i, v, none⟩ fun _ => True)
      (Script.isDirectory c.directory.toText) ⟨i, v, none⟩ := by
    refine Discipline.Safe.bind (Q := Stays ⟨i, v, none⟩ fun _ => True)
      (safe_look (fun _ => rfl) hS fun w hw hh => ⟨_, rfl, hh, rfl, trivial⟩) ?_
    rintro reply _ ⟨rfl, -⟩
    cases reply <;> exact safe_pure ⟨rfl, trivial⟩
  have hlist : S.discipline.Safe (Stays ⟨i, v, none⟩ fun reply => ∀ names, reply = .ok names →
      ∀ m ∈ names, Text.endsIn ending m = true → IsName m)
      (Script.list c.directory.toText) ⟨i, v, none⟩ := by
    refine safe_look (fun _ => rfl) hS fun w hw hh =>
      ⟨_, rfl, hh, rfl, fun names hnames m hm hending => ?_⟩
    have hnames : w.files.list c.directory.toText = .ok names := hnames
    rw [(hfinds.means w hh.agree).list] at hnames
    cases hnames
    obtain ⟨node, hnode⟩ := FileSystem.mem_children hm
    exact hw.isName hS (hfinds.shelf hending)
      (by rw [hnode]; exact nofun)
  unfold AssetCache.candidates
  refine hisDirectory.bind ?_
  rintro there _ ⟨rfl, -⟩
  cases there with
  | error e => exact safe_pure ⟨rfl, nofun⟩
  | ok there =>
    cases there with
    | false =>
      refine safe_pure ⟨rfl, fun paths hpaths => ⟨[], ?_, fun m hm => absurd hm List.not_mem_nil⟩⟩
      cases hpaths
      rfl
    | true =>
      refine hlist.bind ?_
      rintro reply _ ⟨rfl, hnames⟩
      cases reply with
      | error e => exact safe_pure ⟨rfl, nofun⟩
      | ok names =>
        refine safe_pure ⟨rfl, fun paths hpaths => ?_⟩
        cases hpaths
        refine ⟨_, rfl, fun m hm => ?_⟩
        obtain ⟨hm, hending⟩ := List.mem_filter.1 hm
        exact ⟨hending, hnames names rfl m hm hending⟩

/-- A sweep in company leaves the cache as the one alone does. -/
theorem safe_sweepIfDue :
    S.discipline.Safe (Stays ⟨i, v, none⟩ (· = c.sweptAt S.start.clock)) c.sweepIfDue
      ⟨i, v, none⟩ := by
  unfold AssetCache.sweepIfDue
  refine (safe_now hS).bind ?_
  rintro _ _ ⟨rfl, rfl⟩
  show S.discipline.Safe _ (if c.isDue S.start.clock then _ else _) _
  unfold AssetCache.sweptAt
  split
  · have hsweep : S.discipline.Safe (Stays ⟨i, v, none⟩ fun reply =>
        reply.2 = { c with lastSweep := some S.start.clock }) c.sweep ⟨i, v, none⟩ := by
      unfold AssetCache.sweep
      refine (safe_now hS).bind ?_
      rintro _ _ ⟨rfl, rfl⟩
      refine (safe_candidates hS hfinds).bind ?_
      rintro reply _ ⟨rfl, hpaths⟩
      cases reply with
      | error e =>
        refine (safe_note hS _).bind ?_
        rintro done _ ⟨rfl, -⟩
        exact safe_pure ⟨rfl, rfl⟩
      | ok paths =>
        obtain ⟨names, rfl, hnames⟩ := hpaths paths rfl
        refine (safe_evictAll hS hfinds hnames).bind ?_
        rintro count _ ⟨rfl, -⟩
        dsimp only
        split
        · exact safe_pure ⟨rfl, rfl⟩
        · refine (safe_note hS _).bind ?_
          rintro done _ ⟨rfl, -⟩
          exact safe_pure ⟨rfl, rfl⟩
    refine hsweep.bind ?_
    rintro reply _ ⟨rfl, hreply⟩
    exact safe_pure ⟨rfl, hreply⟩
  · exact safe_pure ⟨rfl, rfl⟩

/-! ## Looking for a picture -/

/-- What is found under the name of an asset decides what a look for it answers. -/
theorem safe_lookup (hfits : Fits c.directory (c.entryName k))
    {Q : Except Trouble (Option CacheEntry) → Hold → Prop}
    (hnone : ∀ w, S.Tidy w → S.Beside ⟨i, v, none⟩ w →
      w.files.get? (r ++ [c.entryName k]) = none → Q (.ok none) ⟨i, v, none⟩)
    (hexpired : ∀ w, S.Tidy w → S.Beside ⟨i, v, none⟩ w → ∀ content t x,
      w.files.get? (r ++ [c.entryName k]) = some (.file content t x) →
        c.expired t S.start.clock = true → Q (.ok none) ⟨i, v, none⟩)
    (hlive : ∀ w, S.Tidy w → S.Beside ⟨i, v, none⟩ w → ∀ content t x,
      w.files.get? (r ++ [c.entryName k]) = some (.file content t x) →
        c.expired t S.start.clock = false → ∃ h', h'.run = i ∧ S.Beside h' w ∧
          Q (.ok (some ⟨c.keyOf k, c.pathOf (c.keyOf k), t⟩)) h') :
    S.discipline.Safe Q (c.lookup (c.keyOf k)) ⟨i, v, none⟩ := by
  have hstatus : S.discipline.Safe
      (fun reply h' => (reply = .error .absent ∧ Q (.ok none) h') ∨ ∃ s, reply = .ok s ∧
        Q (.ok (if c.expired s.modified S.start.clock then none
          else some ⟨c.keyOf k, c.pathOf (c.keyOf k), s.modified⟩)) h')
      (Script.status (c.pathOf (c.keyOf k)).toText) ⟨i, v, none⟩ := by
    refine safe_look (fun _ => rfl) hS fun w hw hh => ?_
    show ∃ h', h'.run = i ∧ S.Beside h' w ∧ (w.files.status (c.pathOf (c.keyOf k)).toText = _ ∧ _ ∨
      ∃ s, w.files.status (c.pathOf (c.keyOf k)).toText = _ ∧ _)
    have hmeans := hfinds.means w hh.agree
    rw [AssetCache.pathOf_keyOf]
    obtain hmissing | ⟨content, t, x, hfile⟩ := hw.atMostFile hS
      (hfinds.shelf (AssetCache.IsPictureName.endsIn ⟨c, k, rfl⟩))
    · exact ⟨_, rfl, hh, Or.inl ⟨hfits.status_absent hfinds.clean hmeans hmissing,
        hnone w hw hh hmissing⟩⟩
    · have hreply := hfits.status_file hfinds.clean hmeans hfile
      cases hold : c.expired t S.start.clock with
      | true =>
        refine ⟨_, rfl, hh, Or.inr ⟨_, hreply, ?_⟩⟩
        rw [if_pos hold]
        exact hexpired w hw hh content t x hfile hold
      | false =>
        obtain ⟨h', hrun, hh', hq⟩ := hlive w hw hh content t x hfile hold
        refine ⟨h', hrun, hh', Or.inr ⟨_, hreply, ?_⟩⟩
        rw [if_neg (by rw [hold]; decide), ← AssetCache.pathOf_keyOf]
        exact hq
  unfold AssetCache.lookup
  refine hstatus.bind ?_
  rintro reply h' (⟨rfl, hq⟩ | ⟨s, rfl, hq⟩)
  · exact safe_pure hq
  · refine (safe_now hS).bind ?_
    rintro _ _ ⟨rfl, rfl⟩
    exact safe_pure hq

/-! ## Putting a picture -/

section
variable {q : Place} {content : Content} (hm : S.Drafts i d) (hfits : Fits (c.stagePath v.files) (scratchName d))
include hm hfits

omit hS in
theorem isDraft_own : S.IsDraft i (r ++ [scratchName d]) := by
  obtain ⟨L, hr, -⟩ := hfinds.lifetime
  exact ⟨r, d, by rw [hr]; rfl, rfl, hm, hfits.name⟩

/-- Writing the own draft is seen by nobody. -/
theorem allows_draft (hw : S.Tidy w) {draft : Option (Place × Content)}
    (hown : draft = none ∨ ∃ before, draft = some (r ++ [scratchName d], before))
    (hh : S.Beside ⟨i, v, draft⟩ w) (content : Content) :
    S.discipline.Allows ⟨i, v, draft⟩ w ⟨i, v, some (r ++ [scratchName d], content)⟩
      { w with
        files := w.files.put (r ++ [scratchName d]) (.file content w.clock false) } := by
  have hdraft := isDraft_own hfinds hm hfits
  have hagree : Agree S.Shelf w.files
      (w.files.put (r ++ [scratchName d]) (.file content w.clock false)) :=
    (FileSystem.agree_apply (.put (r ++ [scratchName d]) (.file content w.clock false)) w.files).mono
      fun q hq => hq ▸ hdraft.shelf
  have hself : (w.files.put (r ++ [scratchName d]) (.file content w.clock false)).get?
      (r ++ [scratchName d]) = some (.file content S.start.clock false) := by
    rw [FileSystem.get?_put_self (by simp), hw.clock]
  have hother : ∀ q, q ≠ r ++ [scratchName d] →
      (w.files.put (r ++ [scratchName d]) (.file content w.clock false)).get? q =
        w.files.get? q := fun q hq => FileSystem.get?_put_of_ne (by simp) hq _
  have hserves : ∀ q, S.Serves i w
      { w with files := w.files.put (r ++ [scratchName d]) (.file content w.clock false) } q := by
    intro q
    by_cases hq : q = r ++ [scratchName d]
    · exact Or.inr (Or.inr (Or.inl ⟨hq ▸ hdraft, Or.inr ⟨content, hq ▸ hself⟩⟩))
    · exact Or.inl (hother q hq)
  have ht : S.Touches i w
      { w with files := w.files.put (r ++ [scratchName d]) (.file content w.clock false) } :=
    ⟨rfl, hagree.mono fun q hq => Or.inl hq, fun q _ => hserves q⟩
  refine ht.allows hS hw rfl (hh.serves hagree (fun q _ => hserves q) _ fun q hq => ?_)
  unfold Hold.node?
  dsimp only
  by_cases hqd : q = r ++ [scratchName d]
  · rw [if_pos hqd, hqd]
    exact hself
  · rw [if_neg hqd]
    refine (hother q hqd).trans ((hh.draft q hq).trans ?_)
    unfold Hold.node?
    obtain rfl | ⟨before, rfl⟩ := hown
    · rfl
    · exact if_neg hqd

theorem safe_create :
    S.discipline.Safe (fun reply h' => reply = .ok () ∧
        h' = ⟨i, v, some (r ++ [scratchName d], .text [])⟩)
      (Script.create ((c.stagePath v.files).child (scratchName d)).toText) ⟨i, v, none⟩ := by
  refine safe_ask fun w hw hh => ?_
  have hdraft := isDraft_own hfinds hm hfits
  have hnone : w.files.get? (r ++ [scratchName d]) = none := hh.draft _ hdraft
  have hrun : w.perform (.create ((c.stagePath v.files).child (scratchName d)).toText) =
      (.ok (), { w with
        files := w.files.put (r ++ [scratchName d]) (.file (.text []) w.clock false) }) := by
    show w.change _ = _
    rw [hfits.create_absent (AssetCache.isClean_absolute _ hfinds.clean)
      (hfinds.stage w hh.agree) hnone]
    rfl
  rw [hrun]
  exact ⟨_, allows_draft hS hfinds hm hfits hw (Or.inl rfl) hh (.text []), rfl, rfl⟩

theorem safe_fill (before content : Content) :
    S.discipline.Safe (fun _ h' => h' = ⟨i, v, some (r ++ [scratchName d], content)⟩)
      (Script.fill ((c.stagePath v.files).child (scratchName d)).toText content)
      ⟨i, v, some (r ++ [scratchName d], before)⟩ := by
  refine safe_ask fun w hw hh => ?_
  have hdraft := isDraft_own hfinds hm hfits
  have hfile : w.files.get? (r ++ [scratchName d]) =
      some (.file before S.start.clock false) := (hh.draft _ hdraft).trans (if_pos rfl)
  have hrun : w.perform (.fill ((c.stagePath v.files).child (scratchName d)).toText content) =
      ((), { w with
        files := w.files.put (r ++ [scratchName d]) (.file content w.clock false) }) := by
    show ((), { w with files := w.files.fill _ _ _ }) = _
    rw [hfits.fill_file (AssetCache.isClean_absolute _ hfinds.clean) (hfinds.stage w hh.agree) hfile]
  rw [hrun]
  exact ⟨_, allows_draft hS hfinds hm hfits hw (Or.inr ⟨before, rfl⟩) hh content, rfl⟩

theorem safe_writeParts (before content : Content) (parts : Nat) :
    S.discipline.Safe (fun _ h' => h' = ⟨i, v, some (r ++ [scratchName d], content)⟩)
      (AssetCache.writeParts ((c.stagePath v.files).child (scratchName d)).toText content parts)
      ⟨i, v, some (r ++ [scratchName d], before)⟩ := by
  induction parts generalizing before with
  | zero => exact safe_fill hS hfinds hm hfits before content
  | succ parts ih =>
    rw [AssetCache.writeParts]
    refine (safe_fill hS hfinds hm hfits before (.fragment content)).bind ?_
    rintro done _ rfl
    exact ih _

end

omit hS in
/-- A run that finds a picture which it draws alone is beside the run that has drawn it. -/
theorem beside_drawn {draft : Option (Place × Content)} (hh : S.Beside ⟨i, v, draft⟩ w)
    {content : Content} (hmissing : S.start.files.get? (r ++ [c.entryName k]) = none)
    (hdrawn : S.drawn (r ++ [c.entryName k]) = some content)
    (hthere : w.files.get? (r ++ [c.entryName k]) = some (.file content S.start.clock false)) :
    S.Beside ⟨i, { v with
      files := v.files.put (r ++ [c.entryName k]) (.file content v.clock false)
      drafts := v.drafts + 1 }, draft⟩ w := by
  have hq : S.Shelf (r ++ [c.entryName k]) := hfinds.shelf (AssetCache.IsPictureName.endsIn ⟨c, k, rfl⟩)
  have hclock : v.clock = S.start.clock := hh.tidy.clock
  have hself : (v.files.put (r ++ [c.entryName k]) (.file content v.clock false)).get?
      (r ++ [c.entryName k]) = some (.file content S.start.clock false) := by
    rw [FileSystem.get?_put_self (by simp), hclock]
  have hother : ∀ q, q ≠ r ++ [c.entryName k] →
      (v.files.put (r ++ [c.entryName k]) (.file content v.clock false)).get? q = v.files.get? q :=
    fun q hq => FileSystem.get?_put_of_ne (by simp) hq _
  have hagree : Agree S.Shelf v.files
      (v.files.put (r ++ [c.entryName k]) (.file content v.clock false)) :=
    (FileSystem.agree_apply (.put (r ++ [c.entryName k]) (.file content v.clock false)) v.files).mono
      fun q hq' => hq' ▸ hq
  refine ⟨⟨hclock, fun q hshelf => ?_, fun q hshelf hno => ?_⟩, fun j q hdraft => ?_,
    (hagree.mono fun q hq => Or.inl hq).symm.trans hh.agree, fun q node hshelf hdead hnode => ?_,
    hh.draft⟩
  · by_cases hqe : q = r ++ [c.entryName k]
    · subst hqe
      show S.Stands _ ((v.files.put _ _).get? _)
      rw [hself]
      exact .drawn rfl hmissing hdrawn
    · exact (hother q hqe).symm ▸ hh.tidy.shelf q hshelf
  · exact (hother q fun hqe => hshelf (hqe ▸ hq)).trans (hh.tidy.same q hshelf hno)
  · exact (hother q (hdraft.ne_entry c k)).trans (hh.clear j q hdraft)
  · by_cases hqe : q = r ++ [c.entryName k]
    · subst hqe
      cases hself.symm.trans hnode
      exact hthere
    · exact hh.live q node hshelf hdead ((hother q hqe).symm.trans hnode)

omit hS hfinds in
/-- A draft that is moved to where its picture is missing serves all. -/
theorem serves_moved {q : Place} {content : Content} (hdraft : S.IsDraft i q)
    (hmissing : S.start.files.get? (r ++ [c.entryName k]) = none)
    (hdrawn : S.drawn (r ++ [c.entryName k]) = some content) (p : Place) :
    S.Serves i w { w with
      files := (w.files.drop q).put (r ++ [c.entryName k])
        (.file content S.start.clock false) } p := by
  have hne : q ≠ r ++ [c.entryName k] := hdraft.ne_entry c k
  by_cases hp : p = q
  · subst hp
    exact Or.inr (Or.inr (Or.inl ⟨hdraft, Or.inl
      (FileSystem.get?_move_source hdraft.ne_nil (by simp) hne _)⟩))
  · by_cases he : p = r ++ [c.entryName k]
    · subst he
      exact Or.inr (Or.inr (Or.inr ⟨r, c, k, content, rfl, hmissing, hdrawn,
        FileSystem.get?_put_self (by simp) _⟩))
    · exact Or.inl (FileSystem.get?_move_of_ne hdraft.ne_nil (by simp) hp he _)

/-- The own draft is moved to the place of the picture that it is. -/
theorem safe_rename (hm : S.Drafts i d) (hfits : Fits (c.stagePath v.files) (scratchName d))
    (hentry : Fits c.directory (c.entryName k)) {content : Content}
    (hmissing : S.start.files.get? (r ++ [c.entryName k]) = none)
    (hdrawn : S.drawn (r ++ [c.entryName k]) = some content) :
    S.discipline.Safe (fun reply h' => reply = .ok () ∧ h' = ⟨i, { v with
        files := v.files.put (r ++ [c.entryName k]) (.file content v.clock false)
        drafts := v.drafts + 1 }, none⟩)
      (Script.rename ((c.stagePath v.files).child (scratchName d)).toText
        (c.pathOf (c.keyOf k)).toText)
      ⟨i, v, some (r ++ [scratchName d], content)⟩ := by
  refine safe_ask fun w hw hh => ?_
  have hdraft := isDraft_own hfinds hm hfits
  have hq : S.Shelf (r ++ [c.entryName k]) := hfinds.shelf (AssetCache.IsPictureName.endsIn ⟨c, k, rfl⟩)
  have hne : r ++ [scratchName d] ≠ r ++ [c.entryName k] := hdraft.ne_entry c k
  have hfile : w.files.get? (r ++ [scratchName d]) =
      some (.file content S.start.clock false) := (hh.draft _ hdraft).trans (if_pos rfl)
  have hrun : w.perform (.rename ((c.stagePath v.files).child (scratchName d)).toText
      (c.pathOf (c.keyOf k)).toText) = (.ok (), { w with
        files := (w.files.drop (r ++ [scratchName d])).put (r ++ [c.entryName k])
          (.file content S.start.clock false) }) := by
    show w.change _ = _
    rw [AssetCache.pathOf_keyOf, hfits.rename_onto (AssetCache.isClean_absolute _ hfinds.clean)
      (hfinds.stage w hh.agree) hfile hentry hfinds.clean (hfinds.means w hh.agree)
      (hw.atMostFile hS hq) hne]
    rfl
  rw [hrun]
  have hagree : Agree S.Shelf w.files ((w.files.drop (r ++ [scratchName d])).put
      (r ++ [c.entryName k]) (.file content S.start.clock false)) := by
    refine (FileSystem.agree_apply (.move (r ++ [scratchName d]) (r ++ [c.entryName k])
      (.file content S.start.clock false) (by simp) (by simp) hne) w.files).mono ?_
    rintro p (rfl | rfl)
    · exact hdraft.shelf
    · exact hq
  have hserves := serves_moved (w := w) hdraft hmissing hdrawn
  have ht : S.Touches i w { w with
      files := (w.files.drop (r ++ [scratchName d])).put (r ++ [c.entryName k])
        (.file content S.start.clock false) } :=
    ⟨rfl, hagree.mono fun p hp => Or.inl hp, fun p _ => hserves p⟩
  -- nothing is left where the draft was, and the other drafts are as they were
  have hafter := hh.serves hagree (fun p _ => hserves p) none fun p hp => by
    by_cases hd : p = r ++ [scratchName d]
    · subst hd
      exact FileSystem.get?_move_source (by simp) (by simp) hne _
    · refine (FileSystem.get?_move_of_ne (by simp) (by simp) hd (hp.ne_entry c k) _).trans
        ((hh.draft p hp).trans (if_neg hd))
  refine ⟨_, ?_, rfl, rfl⟩
  exact ht.allows hS hw rfl
    (beside_drawn hfinds hafter hmissing hdrawn (FileSystem.get?_put_self (by simp) _))

/-- A picture that is missing is drawn and put, as it is alone. -/
theorem safe_promote (hm : S.Drafts i d) (hfits : Fits (c.stagePath v.files) (scratchName d))
    (hentry : Fits c.directory (c.entryName k)) {content : Content}
    (hmissing : S.start.files.get? (r ++ [c.entryName k]) = none)
    (hdrawn : S.drawn (r ++ [c.entryName k]) = some content) (parts : Nat) :
    S.discipline.Safe (fun reply h' => reply = (.found (c.pathOf (c.keyOf k)), n, d + 1) ∧
        h' = ⟨i, { v with
          files := v.files.put (r ++ [c.entryName k]) (.file content v.clock false)
          drafts := v.drafts + 1 }, none⟩)
      (Script.counted n d (c.promote parts (c.keyOf k) content)) ⟨i, v, none⟩ := by
  have hcanonical : S.discipline.Safe (Stays ⟨i, v, none⟩
      (· = .ok (FileSystem.rootPath v.files.current))) (Script.canonical ['.']) ⟨i, v, none⟩ := by
    refine safe_look (fun _ => rfl) hS fun w hw hh => ⟨_, rfl, hh, rfl, ?_⟩
    show w.files.canonical ['.'] = _
    rw [FileSystem.canonical_here, hh.agree.current]
  unfold AssetCache.promote
  refine safe_counted (Script.numberFree_ask (by rintro (h | h) <;> cases h)) hcanonical ?_
  rintro _ _ ⟨rfl, rfl⟩
  show S.discipline.Safe _ (Script.counted n (d + 1) (Script.create
    ((c.stagePath v.files).child (scratchName d)).toText >>= _)) _
  refine safe_counted (Script.numberFree_ask (by rintro (h | h) <;> cases h))
    (safe_create hS hfinds hm hfits) ?_
  rintro _ _ ⟨rfl, rfl⟩
  refine safe_counted (AssetCache.numberFree_writeParts _ _ _)
    (safe_writeParts hS hfinds hm hfits _ content parts) ?_
  rintro _ _ rfl
  refine safe_counted (Script.numberFree_ask (by rintro (h | h) <;> cases h))
    (safe_rename hS hfinds hm hfits hentry hmissing hdrawn) ?_
  rintro _ _ ⟨rfl, rfl⟩
  exact ⟨rfl, rfl⟩

/-! ## Requests -/

section
variable (hhome : c.Home v.files r) (hd : d ≤ v.drafts) {parts : Nat}
include hhome hd

/-- Where nothing is drawn the answer is why. -/
theorem safe_answerOf_failed {f : AssetFault} (hdrawing : drawing render k = .error f)
    (hlookup : Script.run (c.lookup (c.keyOf k)) v = (.ok none, v))
    (hold : ∀ w, S.Tidy w → ∀ content t x,
      w.files.get? (r ++ [c.entryName k]) = some (.file content t x) →
        c.expired t S.start.clock = true) :
    S.discipline.Safe (AsAlone i n d (Script.run (c.answerOf render parts k) v))
      (Script.counted n d (c.answerOf render parts k)) ⟨i, v, none⟩ := by
  rw [AssetCache.run_answerOf_failed hlookup hdrawing]
  unfold AssetCache.answerOf
  refine safe_counted (AssetCache.numberFree_lookup _ _)
    (safe_lookup (k := k) (Q := Stays ⟨i, v, none⟩ (· = .ok none)) hS hfinds (hhome.short k)
      (fun _ _ _ _ => ⟨rfl, rfl⟩) (fun _ _ _ _ _ _ _ _ => ⟨rfl, rfl⟩)
      fun w hw _ content t x hfile hlive => ?_) ?_
  · rw [hold w hw content t x hfile] at hlive
    cases hlive
  · rintro _ _ ⟨rfl, rfl⟩
    dsimp only
    rw [hdrawing]
    exact safe_pure ⟨rfl, rfl, Nat.le_refl d, hd, rfl⟩

/-- A picture that is there and has not expired is the answer. -/
theorem safe_answerOf_live (hclock : v.clock = S.start.clock) {content : Content} {t : Time} {x : Bool}
    (hfile : v.files.get? (r ++ [c.entryName k]) = some (.file content t x))
    (hlive : c.expired t S.start.clock = false) (hnew : ¬ S.Dead (r ++ [c.entryName k])) :
    S.discipline.Safe (AsAlone i n d (Script.run (c.answerOf render parts k) v))
      (Script.counted n d (c.answerOf render parts k)) ⟨i, v, none⟩ := by
  have hthere : ∀ w, S.Beside ⟨i, v, none⟩ w →
      w.files.get? (r ++ [c.entryName k]) = some (.file content t x) := fun w hh =>
    hh.live _ _ (hfinds.shelf (AssetCache.IsPictureName.endsIn ⟨c, k, rfl⟩)) hnew hfile
  rw [AssetCache.run_answerOf_live hhome hfile (hclock ▸ hlive)]
  unfold AssetCache.answerOf
  refine safe_counted (AssetCache.numberFree_lookup _ _)
    (safe_lookup (k := k) (Q := Stays ⟨i, v, none⟩ fun reply =>
      ∃ e : CacheEntry, reply = .ok (some e) ∧ e.path = c.pathOf (c.keyOf k)) hS hfinds
      (hhome.short k) (fun w _ hh hmissing => ?_) (fun w _ hh content' t' x' hfile' hold => ?_)
      fun w _ hh content' t' x' _ _ => ⟨_, rfl, hh, rfl, _, rfl, rfl⟩) ?_
  · cases hmissing.symm.trans (hthere w hh)
  · cases hfile'.symm.trans (hthere w hh)
    rw [hlive] at hold
    cases hold
  · rintro _ _ ⟨rfl, e, rfl, he⟩
    dsimp only
    rw [he]
    exact safe_pure ⟨rfl, rfl, Nat.le_refl d, hd, rfl⟩

/-- A picture that is missing is drawn, or found where another run has drawn it meanwhile. -/
theorem safe_answerOf_drawn (hclear : ∀ j q, S.IsDraft j q → v.files.get? q = none)
    (hfits : ∀ n, S.Drafts i n → Fits (c.stagePath v.files) (scratchName n))
    (hfirst : S.first i ≤ d) (hdrafts : S.Drafts i v.drafts)
    (hnone : v.files.get? (r ++ [c.entryName k]) = none) (hold : ¬ S.Dead (r ++ [c.entryName k]))
    (hstart : S.start.files.get? (r ++ [c.entryName k]) = none) {content : Content}
    (hdrawing : drawing render k = .ok content)
    (hdrawn : S.drawn (r ++ [c.entryName k]) = some content)
    (hnew : ∀ w, S.Tidy w → ∀ content' t x,
      w.files.get? (r ++ [c.entryName k]) = some (.file content' t x) →
        content' = content ∧ t = S.start.clock ∧ x = false) :
    S.discipline.Safe (AsAlone i n d (Script.run (c.answerOf render parts k) v))
      (Script.counted n d (c.answerOf render parts k)) ⟨i, v, none⟩ := by
  have hown : S.Drafts i d := ⟨hfirst, Nat.lt_of_le_of_lt hd hdrafts.2⟩
  rw [AssetCache.run_answerOf_drawn hhome hnone hdrawing (hfits _ hdrafts)
    (hclear i _ (isDraft_own hfinds hdrafts (hfits _ hdrafts)))]
  unfold AssetCache.answerOf
  refine safe_counted (AssetCache.numberFree_lookup _ _)
    (safe_lookup (k := k) (Q := fun reply h' => (reply = .ok none ∧ h' = ⟨i, v, none⟩) ∨
      ∃ e : CacheEntry, reply = .ok (some e) ∧ e.path = c.pathOf (c.keyOf k) ∧
        h' = ⟨i, { v with
          files := v.files.put (r ++ [c.entryName k]) (.file content v.clock false)
          drafts := v.drafts + 1 }, none⟩) hS hfinds
      (hhome.short k) (fun _ _ _ _ => Or.inl ⟨rfl, rfl⟩)
      (fun w hw _ content' t x hfile hexpired => ?_)
      fun w hw hh content' t x hfile _ => ?_) ?_
  · exact absurd (hfinds.dead hS hw (AssetCache.IsPictureName.endsIn ⟨c, k, rfl⟩) hfile hexpired) hold
  · obtain ⟨rfl, rfl, rfl⟩ := hnew w hw content' t x hfile
    exact ⟨_, rfl, beside_drawn hfinds hh hstart hdrawn hfile, Or.inr ⟨_, rfl, rfl, rfl⟩⟩
  · rintro _ _ (⟨rfl, rfl⟩ | ⟨e, rfl, he, rfl⟩)
    · dsimp only
      rw [hdrawing]
      dsimp only
      rw [Script.counted_bind]
      refine (safe_promote hS hfinds hown (hfits d hown) (hhome.short k) hstart hdrawn parts).bind ?_
      rintro _ _ ⟨rfl, rfl⟩
      exact safe_pure ⟨rfl, rfl, Nat.le_succ d, Nat.succ_le_succ hd, rfl⟩
    · dsimp only
      rw [he]
      exact safe_pure ⟨rfl, rfl, Nat.le_refl d, Nat.le_succ_of_le hd, rfl⟩

/-- What a run does after its sweep is answered as it is alone. -/
theorem safe_answerOf (htidy : S.Tidy v)
    (hclear : ∀ j q, S.IsDraft j q → v.files.get? q = none)
    (hfits : ∀ n, S.Drafts i n → Fits (c.stagePath v.files) (scratchName n))
    (hmissing : S.start.files.get? (r ++ [c.entryName k]) = none →
      S.drawn (r ++ [c.entryName k]) = (drawing render k).toOption)
    (hdead : S.Dead (r ++ [c.entryName k]) → (∃ f, drawing render k = .error f) ∧
      ∀ content t x, S.start.files.get? (r ++ [c.entryName k]) = some (.file content t x) →
        c.expired t S.start.clock = true)
    (hfirst : S.first i ≤ d)
    (hbound : (Script.run (c.answerOf render parts k) v).2.drafts ≤ S.bound i) :
    S.discipline.Safe (AsAlone i n d (Script.run (c.answerOf render parts k) v))
      (Script.counted n d (c.answerOf render parts k)) ⟨i, v, none⟩ := by
  have hq : S.Shelf (r ++ [c.entryName k]) := hfinds.shelf (AssetCache.IsPictureName.endsIn ⟨c, k, rfl⟩)
  have hexpiredThen : S.Dead (r ++ [c.entryName k]) → ∀ w, S.Tidy w → ∀ content t x,
      w.files.get? (r ++ [c.entryName k]) = some (.file content t x) →
        c.expired t S.start.clock = true := by
    intro hold w hw content t x hfile
    obtain hsame | hgone := hw.of_dead hS hq hold
    · exact (hdead hold).2 content t x (hsame.symm.trans hfile)
    · cases hgone.symm.trans hfile
  obtain hnone | ⟨content, t, x, hfile⟩ := htidy.atMostFile hS hq
  · have hlookup := AssetCache.run_lookup_absent hhome.clean hhome.means (hhome.short k) hnone
    by_cases hold : S.Dead (r ++ [c.entryName k])
    · obtain ⟨f, hdrawing⟩ := (hdead hold).1
      exact safe_answerOf_failed hS hfinds hhome hd hdrawing hlookup (hexpiredThen hold)
    · have hstart := htidy.start_none hq hold hnone
      -- what another run puts there meanwhile is what this one draws
      have hnew : ∀ w, S.Tidy w → ∀ content t x,
          w.files.get? (r ++ [c.entryName k]) = some (.file content t x) →
            drawing render k = .ok content ∧ t = S.start.clock ∧ x = false := by
        intro w hw content t x hfile
        obtain hbefore | ⟨-, content', hdrawn, heq⟩ := hw.entry hq hfile
        · cases hstart.symm.trans hbefore
        · cases heq
          rw [hmissing hstart] at hdrawn
          cases hdrawing : drawing render k with
          | error f =>
            rw [hdrawing] at hdrawn
            cases hdrawn
          | ok content' =>
            rw [hdrawing] at hdrawn
            cases hdrawn
            exact ⟨rfl, rfl, rfl⟩
      cases hdrawing : drawing render k with
      | error f =>
        refine safe_answerOf_failed hS hfinds hhome hd hdrawing hlookup fun w hw content t x hfile => ?_
        cases hdrawing.symm.trans (hnew w hw content t x hfile).1
      | ok content =>
        have hdrawn : S.drawn (r ++ [c.entryName k]) = some content := by
          rw [hmissing hstart, hdrawing]
          rfl
        have hdrafts : S.Drafts i v.drafts := by
          refine ⟨Nat.le_trans hfirst hd, Nat.lt_of_lt_of_le ?_ hbound⟩
          unfold AssetCache.answerOf
          rw [Script.run_bind, hlookup, hdrawing]
          dsimp only
          rw [Script.run_bind]
          exact AssetCache.lt_drafts_promote c parts _ content v
        refine safe_answerOf_drawn hS hfinds hhome hd hclear hfits hfirst hdrafts hnone hold hstart
          hdrawing hdrawn fun w hw content' t x hfile => ?_
        obtain ⟨heq, ht, hx⟩ := hnew w hw content' t x hfile
        exact ⟨(Except.ok.inj (hdrawing.symm.trans heq)).symm, ht, hx⟩
  · cases hexpired : c.expired t S.start.clock with
    | false =>
      refine safe_answerOf_live hS hfinds hhome hd htidy.clock hfile hexpired fun hold => ?_
      rw [hexpiredThen hold v htidy content t x hfile] at hexpired
      cases hexpired
    | true =>
      have hold := hfinds.dead hS htidy (AssetCache.IsPictureName.endsIn ⟨c, k, rfl⟩) hfile hexpired
      obtain ⟨f, hdrawing⟩ := (hdead hold).1
      refine safe_answerOf_failed hS hfinds hhome hd hdrawing ?_ (hexpiredThen hold)
      rw [AssetCache.run_lookup_entry hhome hfile, htidy.clock, if_pos hexpired]

end

omit hS in
/-- A run is beside the one that has swept alone. -/
theorem beside_swept {taken : Text → Prop} {fs' : FileSystem} (log : List Event)
    (hsheds : Sheds r taken v.files fs') (htaken : ∀ m, taken m → S.Dead (r ++ [m]))
    (hending : ∀ m, taken m → Text.endsIn ending m = true)
    (hh : S.Beside ⟨i, v, none⟩ w) :
    S.Beside ⟨i, { v with files := fs', log := log }, none⟩ w where
  tidy := by
    refine ⟨hh.tidy.clock, fun q hq => ?_, fun q hq hno => ?_⟩
    · show S.Stands q (fs'.get? q)
      obtain hsame | ⟨m, -, -, -, hm, rfl, -, hnone⟩ := hsheds.place q
      · exact hsame ▸ hh.tidy.shelf q hq
      · rw [hnone]
        exact .gone (htaken m hm)
    · refine Eq.trans (hsheds.kept.same q ?_) (hh.tidy.same q hq hno)
      rintro ⟨m, hm, rfl⟩
      exact hq (hfinds.shelf (hending m hm))
  clear j q hq := by
    refine Option.eq_none_iff_forall_ne_some.2 fun node hnode => ?_
    cases (hsheds.before hnode).symm.trans (hh.clear j q hq)
  agree := by
    refine Agree.trans (Agree.symm (hsheds.agree.mono ?_)) hh.agree
    rintro q ⟨m, hm, rfl⟩
    exact Or.inl (hfinds.shelf (hending m hm))
  live q node hq hdead hnode := hh.live q node hq hdead (hsheds.before hnode)
  draft := hh.draft

end

/-- A request in company is answered as it is alone, and takes at most as many numbers of drafts. -/
theorem safe_getOrCreate (hS : S.IsReady)
    (ha : S.Asks (fun q => ∃ j, j ≠ i ∧ S.alters j q) i c render k r v) {parts : Nat}
    (hfirst : S.first i ≤ d) (hd : d ≤ v.drafts)
    (hbound : (Script.run (c.getOrCreate render parts k) v).2.drafts ≤ S.bound i) :
    S.discipline.Safe (AsAlone i n d (Script.run (c.getOrCreate render parts k) v))
      (Script.counted n d (c.getOrCreate render parts k)) ⟨i, v, none⟩ := by
  show S.discipline.Safe _ (.step .now _) _
  refine Discipline.safe_step fun w hw hh => ?_
  have hfinds := ha.finds
  have hclock : v.clock = S.start.clock := hh.tidy.clock
  obtain ⟨taken, fs', log, hrun, htaken, hsheds⟩ :=
    AssetCache.run_sweepIfDue_lodged (w := v) ha.home.lodged
  rw [hclock] at htaken
  have hdead : ∀ m, taken m → S.Dead (r ++ [m]) := fun m hm => by
    obtain ⟨hending, htakes⟩ := htaken m hm
    obtain ⟨content, t, x, hfile, hexpired⟩ := htakes.old
    exact hfinds.dead hS hh.tidy hending hfile hexpired
  have hending : ∀ m, taken m → Text.endsIn ending m = true := fun m hm => (htaken m hm).1
  -- the run alone has swept before the first step is taken
  refine ⟨⟨i, { v with files := fs', log := log }, none⟩,
    beside_swept hfinds log hsheds hdead hending hh, fun _ hg => hg, ?_⟩
  show S.discipline.Safe _ (Script.counted n d (c.getOrCreate render parts k)) _
  have hagree : Agree S.Shelf v.files ({ v with files := fs', log := log } : World).files :=
    hsheds.agree.mono fun q hq => by
      obtain ⟨m, hm, rfl⟩ := hq
      exact hfinds.shelf (hending m hm)
  have hswept : Script.run (c.getOrCreate render parts k) v =
      Script.run ((c.sweptAt S.start.clock).answerOf render parts k)
        { v with files := fs', log := log } := by
    rw [AssetCache.getOrCreate_eq, Script.run_bind, hrun, hclock]
  rw [hswept] at hbound ⊢
  rw [AssetCache.getOrCreate_eq]
  refine safe_counted (AssetCache.numberFree_sweepIfDue c)
    (safe_sweepIfDue hS (hfinds.of_agree hagree c.lastSweep)) ?_
  rintro _ _ ⟨rfl, rfl⟩
  obtain ⟨last, hlast⟩ := c.sweptAt_cases S.start.clock
  rw [hlast] at hbound ⊢
  have hhome : ({ c with lastSweep := last } : AssetCache).Home fs' r :=
    (ha.home.of_kept hsheds.kept fun _ => hsheds.atMostFile).touch last
  have hbeside := beside_swept hfinds log hsheds hdead hending hh
  have hfits : ∀ m, S.Drafts i m →
      Fits (({ c with lastSweep := last } : AssetCache).stagePath fs') (scratchName m) := by
    intro m hm
    rw [AssetCache.stagePath_of_kept _ hsheds.kept]
    exact ha.fits m hm
  have hfound := hfinds.of_agree hagree last
  exact safe_answerOf hS hfound hhome hd hbeside.tidy hbeside.clear hfits ha.missing ha.dead hfirst hbound

end

end Company

end MailMerge
