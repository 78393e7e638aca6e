import Mathlib
import MailMerge.Proofs.Cache.Outcomes
import MailMerge.Proofs.Cache.Serving
import MailMerge.Proofs.Number.Nearest
/-!
# How often the cache sweeps, and how old pictures become

A cache is asked for things at one time after the other (`Errand`). A sweep is seen by the directory of
the cache being listed (`Script.lists`), and the times of the sweeps are written down (`Watched`). A
request sweeps only when the interval has gone by since the last sweep, whoever asked for that one, and
the first request always does.

What holds between the calls is that no picture was older than the lifetime at the last sweep
(`Tended`, `Watched.Holds`). After a request the last sweep is not further away than the interval, so no
picture is older than both together.

* `reaches_iff`: a span of time reaches a number of seconds when it has as many microseconds.
* `lists_request`, `lists_sweep`: which calls sweep.
* `Watched.Holds.take`, `Watched.Holds.run`: the invariant, for one call and for any number of them.
* `sweeps_paced`: how often the cache sweeps, and how old pictures become.
* `not_sweeps_paced_attic`: a picture whose path is too long to be looked at stays for ever.
-/
namespace MailMerge

/-! ## Directories that are listed -/

/-- Whether a step lists a directory. -/
def Step.lists (p : Text) : Step → Bool
  | .list q => q = p
  | _ => false

namespace Script

variable {α β : Type}

/-- Whether a script lists a directory when it is run. -/
def lists (p : Text) : Script α → World → Bool
  | .done _, _ => false
  | .step s next, w => s.lists p || lists p (next (w.perform s).1) (w.perform s).2

theorem lists_bind (p : Text) (x : Script α) (f : α → Script β) (w : World) :
    lists p (x >>= f) w = (lists p x w || lists p (f (run x w).1) (run x w).2) := by
  show lists p (bind x f) w = _
  induction x generalizing w with
  | done a => rfl
  | step s next ih =>
    rw [bind, lists, lists, Bool.or_assoc]
    exact congrArg _ (ih _ _)

/-- Whether a script never lists a directory. -/
def Quiet (p : Text) (x : Script α) : Prop := ∀ w, lists p x w = false

variable {p : Text}

theorem quiet_pure (a : α) : Quiet p (pure a : Script α) := fun _ => rfl

theorem quiet_ask {s : Step} (h : s.lists p = false) : Quiet p (ask s) := fun w => by
  rw [ask, lists, h]
  rfl

theorem Quiet.bind {x : Script α} {f : α → Script β} (hx : Quiet p x) (hf : ∀ a, Quiet p (f a)) :
    Quiet p (x >>= f) := fun w => by
  rw [lists_bind, hx w, hf _ _]
  rfl

theorem Quiet.lists_bind {x : Script α} {f : α → Script β} (hf : ∀ a, Quiet p (f a)) (w : World) :
    lists p (x >>= f) w = lists p x w := by
  rw [Script.lists_bind, hf _ _, Bool.or_false]

end Script

/-! ## Numbers of seconds -/

/-- The microseconds in a number of seconds. -/
def Binary64.micros? : Binary64 → Option (WithTop ℚ)
  | .nan | .infinite true => none
  | .infinite false => some ⊤
  | .finite s m e => some ((Binary64.signed s m * 2 ^ e * 1000000 : ℚ) : WithTop ℚ)

namespace AssetCache

open FileSystem (IsName Sheds kept_put)
open Script (Quiet lists_bind quiet_pure quiet_ask)

/-- Reaching a number of seconds is counted in microseconds. -/
theorem reaches_iff {span : Time} {x : Binary64} {v : WithTop ℚ} (h : x.micros? = some v) :
    reaches span x = true ↔ v ≤ ((span : ℚ) : WithTop ℚ) := by
  cases x with
  | nan => cases h
  | infinite negative =>
    cases negative with
    | true => cases h
    | false =>
      cases h
      exact iff_of_false Bool.false_ne_true (by simp)
  | finite s m e =>
    cases h
    have hpos : (0 : ℚ) < (Binary64.scaled 2 m 1 e).2 :=
      Nat.cast_pos.2 (Binary64.scaled_pos Nat.one_pos m e)
    show decide (Binary64.signed s (Binary64.scaled 2 m 1 e).1 * 1000000 ≤
      span * ((Binary64.scaled 2 m 1 e).2 : ℤ)) = true ↔ _
    rw [decide_eq_true_iff, WithTop.coe_le_coe, ← @Int.cast_le ℚ]
    push_cast
    rw [Binary64.cast_signed_scaled, mul_right_comm]
    exact mul_le_mul_iff_left₀ hpos

/-! ## Which calls sweep -/

section
variable {c : AssetCache} {p : Text} {w : World} {r : Place}

theorem quiet_lookup (c : AssetCache) (p key : Text) : Quiet p (c.lookup key) := by
  refine Quiet.bind (quiet_ask rfl) fun status => ?_
  cases status with
  | error e => cases e <;> exact quiet_pure _
  | ok s => exact Quiet.bind (quiet_ask rfl) fun now => quiet_pure _

theorem quiet_writeParts (p t : Text) (content : Content) (parts : Nat) :
    Quiet p (writeParts t content parts) := by
  induction parts with
  | zero => exact quiet_ask rfl
  | succ parts ih => exact Quiet.bind (quiet_ask rfl) fun _ => ih

theorem quiet_promote (c : AssetCache) (p : Text) (parts : Nat) (key : Text) (content : Content) :
    Quiet p (c.promote parts key content) := by
  refine Quiet.bind (quiet_ask rfl) fun base => Quiet.bind (quiet_ask rfl) fun n => ?_
  refine Quiet.bind (quiet_ask rfl) fun created => ?_
  cases created with
  | error e => exact quiet_pure _
  | ok u =>
    refine Quiet.bind (quiet_writeParts p _ content parts) fun _ => ?_
    refine Quiet.bind (quiet_ask rfl) fun renamed => ?_
    cases renamed with
    | ok u => exact quiet_pure _
    | error e =>
      refine Quiet.bind (quiet_ask rfl) fun removed => ?_
      cases removed with
      | ok u => exact quiet_pure _
      | error e => cases e <;> exact quiet_pure _

/-- A request lists the directory when the sweep before it does. -/
theorem lists_request (c : AssetCache) (render : Renderer) (parts : Nat) (k : AssetKey) (p : Text)
    (w : World) : (c.request render parts k).lists p w = c.sweepIfDue.lists p w := by
  unfold request
  cases intText? k.size with
  | none => exact Quiet.lists_bind (fun c' => quiet_pure _) w
  | some t =>
    refine (Quiet.lists_bind (fun r => quiet_pure _) w).trans (Quiet.lists_bind (fun c' => ?_) w)
    refine Quiet.bind (quiet_lookup _ _ _) fun entry => ?_
    cases entry with
    | error t => exact quiet_pure _
    | ok entry =>
      cases entry with
      | some e => exact quiet_pure _
      | none =>
        dsimp only
        cases render k with
        | error f => exact quiet_pure _
        | ok content =>
          dsimp only
          split
          · exact quiet_pure _
          · exact Quiet.bind (quiet_promote _ _ _ _ _) fun answer => quiet_pure _

theorem lists_sweep (hm : w.files.MeansDirectory c.directory r) :
    c.sweep.lists c.directory.toText w = true := by
  have hcandidates : c.candidates.lists c.directory.toText w = true := by
    obtain ⟨t, ht⟩ := hm.status
    unfold candidates
    rw [lists_bind, Script.run_isDirectory, ht]
    dsimp only [Script.probed]
    rw [lists_bind]
    simp [Script.list, Script.ask, Script.lists, Step.lists]
  unfold sweep
  rw [lists_bind, Script.run_now]
  dsimp only
  rw [lists_bind, hcandidates]
  simp

/-- The sweep before a request is made when it is due. -/
theorem lists_sweepIfDue (hm : w.files.MeansDirectory c.directory r) :
    c.sweepIfDue.lists c.directory.toText w = c.isDue w.clock := by
  show Script.lists _ (if c.isDue w.clock then _ else _) w = _
  by_cases hdue : c.isDue w.clock = true
  · rw [if_pos hdue, lists_bind, lists_sweep hm, hdue]
    rfl
  · rw [if_neg hdue]
    exact (Bool.eq_false_iff.2 hdue).symm

/-- A request leaves the cache as its sweep has left it. -/
theorem cache_request (c : AssetCache) (render : Renderer) (parts : Nat) (k : AssetKey) (w : World) :
    (Script.run (c.request render parts k) w).1.2 = (Script.run c.sweepIfDue w).1 := by
  unfold request
  cases intText? k.size with
  | none =>
    dsimp only
    rw [Script.run_bind]
    rfl
  | some t =>
    dsimp only
    rw [Script.run_bind]
    show (Script.run (c.getOrCreate render parts k) w).1.2 = _
    unfold getOrCreate
    rw [Script.run_bind, Script.run_bind]
    generalize Script.run c.sweepIfDue w = r
    obtain ⟨c', w'⟩ := r
    dsimp only
    cases (Script.run (c'.lookup (c'.keyOf k)) w').1 with
    | error t => rfl
    | ok entry =>
      cases entry with
      | some e => rfl
      | none =>
        dsimp only
        cases render k with
        | error f => rfl
        | ok content =>
          dsimp only
          split
          · rfl
          · rw [Script.run_bind]
            rfl

end

/-! ## Calls -/

/-- A call, with the renderer for it and the time that has gone by since the call before. -/
structure Errand where
  render : Renderer
  wait : Nat
  call : Call

/-- A cache in the world, and when it has swept, the latest time first. -/
structure Watched where
  cache : AssetCache
  world : World
  sweeps : List Time := []

namespace Watched

/-- The world at the time of a call. -/
def at' (s : Watched) (e : Errand) : World := { s.world with clock := s.world.clock + e.wait }

/-- Whether a call sweeps: the directory of the cache is listed. -/
def sweepsFor (s : Watched) (e : Errand) : Bool :=
  (s.cache.answer e.render e.call).lists s.cache.directory.toText (s.at' e)

/-- After a call. -/
def take (s : Watched) (e : Errand) : Watched where
  cache := (Script.run (s.cache.answer e.render e.call) (s.at' e)).1
  world := (Script.run (s.cache.answer e.render e.call) (s.at' e)).2
  sweeps := if s.sweepsFor e then (s.at' e).clock :: s.sweeps else s.sweeps

/-- After calls, one after the other. -/
def run (s : Watched) (es : List Errand) : Watched := es.foldl take s

end Watched

/-- Whether a name is that of a picture that sweeps can look at. -/
def IsSeen (c : AssetCache) (n : Text) : Prop :=
  Text.endsIn ending n = true ∧ Text.byteLength (c.directory.child n).toText ≤ FileSystem.maxPath

/-- What holds of a cache between calls: at the time of the last sweep, no picture was older than the
lifetime. -/
structure Tended (c : AssetCache) (r : Place) (last : Option Time) (w : World) : Prop where
  lodged : c.Lodged w.files r
  past : ∀ t, last = some t → t ≤ w.clock
  young : ∀ t, last = some t → ∀ n content m x, c.IsSeen n →
    w.files.get? (r ++ [n]) = some (.file content m x) → t - m ≤ c.lifetime

section
variable {c : AssetCache} {r : Place} {last : Option Time} {w : World} {render : Renderer} {k : AssetKey}

theorem Tended.after (h : c.Tended r last w) (wait : Nat) :
    c.Tended r last { w with clock := w.clock + wait } where
  lodged := h.lodged
  past t ht := Int.le_trans (h.past t ht) (le_later _ wait)
  young := h.young

/-- A sweep leaves no picture that is too old. -/
theorem Tended.sweep (h : c.Tended r last w) :
    (Script.run ({ c with lastSweep := last } : AssetCache).sweep w).1.2 =
        { c with lastSweep := some w.clock } ∧
      c.Tended r (some w.clock)
        (Script.run ({ c with lastSweep := last } : AssetCache).sweep w).2 := by
  obtain ⟨taken, fs', log, hrun, -, hmem, hsheds⟩ := run_sweep (h.lodged.touch last)
  rw [hrun]
  refine ⟨rfl, h.lodged.of_sheds hsheds, ?_, ?_⟩
  · rintro t ⟨⟩
    exact Int.le_refl _
  · rintro t ⟨⟩ n content m x ⟨hending, hshort⟩ hfile
    refine Int.not_lt.1 fun hold => ?_
    -- an old picture was taken
    have htaken : n ∈ taken := (hmem n).2
      ⟨hending, hshort, content, m, x, hsheds.before hfile, decide_eq_true hold⟩
    exact nomatch (hsheds.gone n htaken).symm.trans hfile

/-- The time of the last sweep after the sweep before a request. -/
def lastAfter (c : AssetCache) (last : Option Time) (now : Time) : Option Time :=
  if ({ c with lastSweep := last } : AssetCache).isDue now then some now else last

theorem Tended.sweepIfDue (h : c.Tended r last w) :
    (Script.run ({ c with lastSweep := last } : AssetCache).sweepIfDue w).1 =
        { c with lastSweep := c.lastAfter last w.clock } ∧
      c.Tended r (c.lastAfter last w.clock)
        (Script.run ({ c with lastSweep := last } : AssetCache).sweepIfDue w).2 := by
  rw [run_sweepIfDue, lastAfter]
  split
  · exact h.sweep
  · exact ⟨rfl, h⟩

/-- A picture that is put is new. -/
theorem Tended.put (h : c.Tended r last w) (hlife : 0 ≤ c.lifetime) {q : Place} {content : Content}
    (hq : w.files.locate false (c.pathOf (c.keyOf k)).toText = .ok q)
    (hdir : ¬ w.files.IsDirectory q) :
    c.Tended r last { w with files := w.files.put q (.file content w.clock false) } := by
  obtain ⟨hfits, r', hmeans, rfl⟩ := locate_entry h.lodged.sound h.lodged.clean hq
  obtain rfl : r' = r := hmeans.unique h.lodged.means
  have hnode : w.files.AtMostFile (r' ++ [c.entryName k]) :=
    FileSystem.atMostFile_iff.2 ⟨hdir, h.lodged.unlinked _⟩
  have hkept := kept_put h.lodged.sound hdir
    (FileSystem.isName_child h.lodged.sound h.lodged.means hfits.name) content w.clock false
  refine ⟨h.lodged.of_kept hkept fun q hq => hq ▸ hnode, h.past, ?_⟩
  intro t ht n content' m x hn hfile
  by_cases hplace : r' ++ [n] = r' ++ [c.entryName k]
  · rw [hplace, FileSystem.get?_put_self (by simp)] at hfile
    cases hfile
    exact Int.le_trans (Int.sub_nonpos_of_le (h.past t ht)) hlife
  · rw [hkept.same _ hplace] at hfile
    exact h.young t ht n content' m x hn hfile

/-- However a request ends, it keeps pictures young. -/
theorem Tended.of_outcome (h : c.Tended r last w) (hlife : 0 ≤ c.lifetime)
    {last' : Option Time} {answer : Except Fault CacheAnswer} {fs : FileSystem}
    (ho : Outcome { c with lastSweep := last' } render k w answer fs) :
    c.Tended r last { w with files := fs } := by
  cases ho with
  | unwritable => exact h
  | broken => exact h
  | live => exact h
  | failed => exact h
  | drawn _ _ _ _ hq hdir => exact h.put hlife hq hdir

theorem Tended.congr {w' : World} (h : c.Tended r last w) (hfiles : w'.files = w.files)
    (hclock : w'.clock = w.clock) : c.Tended r last w' where
  lodged := hfiles ▸ h.lodged
  past := hclock ▸ h.past
  young := hfiles ▸ h.young

/-- A request, successful or not, leaves no picture that was too old at the last sweep. -/
theorem Tended.request (h : c.Tended r last w) (hlife : 0 ≤ c.lifetime) (render : Renderer)
    (parts : Nat) (k : AssetKey) :
    (Script.run (({ c with lastSweep := last } : AssetCache).request render parts k) w).1.2 =
        { c with lastSweep := c.lastAfter last w.clock } ∧
      c.Tended r (c.lastAfter last w.clock)
        (Script.run (({ c with lastSweep := last } : AssetCache).request render parts k) w).2 := by
  obtain ⟨hcache, htended⟩ := h.sweepIfDue
  refine ⟨(cache_request _ render parts k w).trans hcache, ?_⟩
  have houtcome := run_request_outcome { c with lastSweep := last } render parts k w
  have hclock : (Script.run (({ c with lastSweep := last } : AssetCache).request render parts k)
      w).2.clock = (Script.run ({ c with lastSweep := last } : AssetCache).sweepIfDue w).2.clock :=
    (Script.run_follows _ _).clock.trans (Script.run_follows _ _).clock.symm
  exact (htended.of_outcome hlife houtcome).congr rfl hclock

end

/-! ## Sequences of calls -/

namespace Watched

/-- What holds of a watched cache between calls. -/
structure Holds (s : Watched) (c : AssetCache) (r : Place) : Prop where
  cache : s.cache = { c with lastSweep := s.sweeps.head? }
  tended : c.Tended r s.sweeps.head? s.world

variable {s : Watched} {c : AssetCache} {r : Place} {e : Errand} {k : AssetKey} {parts : Nat} {key : Text}

theorem Holds.means (h : s.Holds c r) :
    (s.at' e).files.MeansDirectory s.cache.directory r := by
  rw [h.cache]
  exact h.tended.lodged.means

theorem Holds.sweepsFor_get (h : s.Holds c r) (hget : e.call = .get k parts) :
    s.sweepsFor e = s.cache.isDue (s.at' e).clock := by
  unfold sweepsFor
  rw [hget]
  refine (Quiet.lists_bind (fun a => quiet_pure _) _).trans ?_
  rw [lists_request, lists_sweepIfDue h.means]

theorem Holds.sweepsFor_sweep (h : s.Holds c r) (hsweep : e.call = .sweep) : s.sweepsFor e = true := by
  unfold sweepsFor
  rw [hsweep]
  exact (Quiet.lists_bind (fun a => quiet_pure _) _).trans (lists_sweep h.means)

theorem sweepsFor_lookup (hlookup : e.call = .lookup key) : s.sweepsFor e = false := by
  unfold sweepsFor
  rw [hlookup]
  exact (Quiet.lists_bind (fun a => quiet_pure _) _).trans (quiet_lookup _ _ _ _)

theorem head?_sweeps_take (s : Watched) (e : Errand) :
    (s.take e).sweeps.head? = if s.sweepsFor e then some (s.at' e).clock else s.sweeps.head? := by
  unfold take
  split
  · rfl
  · rfl

theorem Holds.of_run {last : Option Time} {w' : World}
    (hrun : Script.run (s.cache.answer e.render e.call) (s.at' e) = ({ c with lastSweep := last }, w'))
    (hlast : (s.take e).sweeps.head? = last) (htended : c.Tended r last w') : (s.take e).Holds c r := by
  constructor
  · show (Script.run (s.cache.answer e.render e.call) (s.at' e)).1 = _
    rw [hrun, hlast]
  · show c.Tended r _ (Script.run (s.cache.answer e.render e.call) (s.at' e)).2
    rw [hrun, hlast]
    exact htended

theorem clock_take (s : Watched) (e : Errand) : (s.take e).world.clock = (s.at' e).clock :=
  (Script.run_follows _ _).clock

/-- A request whose picture cannot be drawn leaves whatever a sweep does not take. -/
theorem get?_take_of_not_takes (h : s.cache.Lodged s.world.files r) (hget : e.call = .get k parts)
    (hrefused : ∀ content, e.render k ≠ .ok content) {n : Text}
    (hn : ¬ s.cache.Takes (s.at' e).clock r s.world.files n) :
    (s.take e).world.files.get? (r ++ [n]) = s.world.files.get? (r ++ [n]) := by
  have hrequest : (s.take e).world.files =
      (Script.run (s.cache.request e.render parts k) (s.at' e)).2.files := by
    show (Script.run (s.cache.answer e.render e.call) (s.at' e)).2.files = _
    rw [hget, answer, Script.run_bind]
    rfl
  have hsweep : (s.take e).world.files = (Script.run s.cache.sweepIfDue (s.at' e)).2.files := by
    have houtcome := run_request_outcome s.cache e.render parts k (s.at' e)
    rw [hrequest]
    generalize (Script.run (s.cache.request e.render parts k) (s.at' e)).1.1 = answer at houtcome
    generalize (Script.run (s.cache.request e.render parts k) (s.at' e)).2.files = fs at houtcome ⊢
    cases houtcome with
    | drawn _ _ hrender => exact absurd hrender (hrefused _)
    | _ => rfl
  rw [hsweep, run_sweepIfDue]
  split
  · obtain ⟨taken, fs', log, hrun, -, hmem, hsheds⟩ := run_sweep (w := s.at' e) h
    rw [hrun]
    refine hsheds.kept.same _ ?_
    rintro ⟨n', hn', hplace⟩
    obtain rfl : n = n' := List.singleton_inj.1 (List.append_cancel_left hplace)
    exact hn ((hmem _).1 hn').2
  · rfl

/-- Every call keeps the invariant. -/
theorem Holds.take (h : s.Holds c r) (hlife : 0 ≤ c.lifetime) (e : Errand) : (s.take e).Holds c r := by
  have hlater : c.Tended r s.sweeps.head? (s.at' e) := h.tended.after e.wait
  have hsweeps := head?_sweeps_take s e
  cases hcall : e.call with
  | get k parts =>
    obtain ⟨hcache, htended⟩ := hlater.request hlife e.render parts k
    refine Holds.of_run ?_ ?_ htended
    · rw [h.cache, hcall, answer, Script.run_bind]
      exact Prod.ext hcache rfl
    · rw [hsweeps, h.sweepsFor_get hcall, h.cache, lastAfter]
  | lookup key =>
    refine Holds.of_run ?_ ?_ hlater
    · rw [h.cache, hcall, answer, Script.run_bind, run_lookup]
      rfl
    · rw [hsweeps, sweepsFor_lookup hcall, if_neg (by decide)]
  | sweep =>
    obtain ⟨hcache, htended⟩ := hlater.sweep
    refine Holds.of_run ?_ ?_ htended
    · rw [h.cache, hcall, answer, Script.run_bind]
      exact Prod.ext hcache rfl
    · rw [hsweeps, h.sweepsFor_sweep hcall, if_pos rfl]

theorem Holds.run (h : s.Holds c r) (hlife : 0 ≤ c.lifetime) (es : List Errand) :
    (s.run es).Holds c r := by
  induction es generalizing s with
  | nil => exact h
  | cons e es ih => exact ih (h.take hlife e)

/-- Looking for entries sweeps nothing. -/
theorem sweeps_run_of_lookups {es : List Errand} (h : ∀ e ∈ es, ∃ key, e.call = .lookup key) :
    (s.run es).sweeps = s.sweeps := by
  induction es generalizing s with
  | nil => rfl
  | cons e es ih =>
    obtain ⟨key, hcall⟩ := h e (List.mem_cons_self ..)
    refine (ih fun e he => h e (List.mem_cons_of_mem _ he)).trans ?_
    show (if s.sweepsFor e then _ else _) = _
    rw [sweepsFor_lookup hcall, if_neg (by decide)]

/-- A request sweeps when the interval has gone by since the last sweep. -/
theorem Holds.sweepsFor_get_iff (h : s.Holds c r) (hget : e.call = .get k parts) {v : WithTop ℚ}
    (hinterval : c.interval.micros? = some v) :
    s.sweepsFor e = true ↔
      ∀ t, s.sweeps.head? = some t → v ≤ (((s.at' e).clock - t : Time) : ℚ) := by
  rw [h.sweepsFor_get hget, h.cache, isDue]
  cases s.sweeps.head? with
  | none => exact iff_of_true rfl nofun
  | some t =>
    refine (reaches_iff hinterval).trans ⟨?_, fun hall => hall t rfl⟩
    rintro hreaches _ ⟨⟩
    exact hreaches

/-- After a request no picture is older than the lifetime and the interval together. -/
theorem Holds.young_take (h : s.Holds c r) (hlife : 0 ≤ c.lifetime) (hget : e.call = .get k parts)
    {v : WithTop ℚ} (hinterval : c.interval.micros? = some v) (hv : 0 ≤ v) {n : Text}
    {content : Content} {m : Time} {x : Bool} (hn : c.IsSeen n)
    (hfile : (s.take e).world.files.get? (r ++ [n]) = some (.file content m x)) :
    ((((s.take e).world.clock - m : Time) : ℚ) : WithTop ℚ) ≤ (c.lifetime : ℚ) + v := by
  -- the last sweep is not further away than the interval
  obtain ⟨t, hlast, hnow⟩ : ∃ t, (s.take e).sweeps.head? = some t ∧
      ((((s.at' e).clock - t : Time) : ℚ) : WithTop ℚ) ≤ v := by
    rw [head?_sweeps_take]
    by_cases hsweeps : s.sweepsFor e = true
    · rw [if_pos hsweeps]
      refine ⟨_, rfl, ?_⟩
      rw [Int.sub_self]
      exact_mod_cast hv
    · rw [if_neg hsweeps]
      rw [h.sweepsFor_get_iff hget hinterval] at hsweeps
      push Not at hsweeps
      obtain ⟨t, hlast, hnow⟩ := hsweeps
      exact ⟨t, hlast, hnow.le⟩
  have hyoung : t - m ≤ c.lifetime := (h.take hlife e).tended.young t hlast n content m x hn hfile
  calc ((((s.take e).world.clock - m : Time) : ℚ) : WithTop ℚ)
      = ((t - m : Time) : ℚ) + (((s.at' e).clock - t : Time) : ℚ) := by
        rw [clock_take, ← WithTop.coe_add]
        congr 1
        push_cast
        ring
    _ ≤ (c.lifetime : ℚ) + v := by
        refine add_le_add (WithTop.coe_le_coe.2 ?_) hnow
        exact_mod_cast hyoung

end Watched

/-- For every sequence of calls to a new cache, a request sweeps just when the interval has gone by since
the last sweep, so the first one does unless there was a sweep before; and after it no picture that can
be looked at is older than the lifetime and the interval together. -/
theorem sweeps_paced {c : AssetCache} {w : World} {r : Place} (h : c.Lodged w.files r)
    (hnew : c.lastSweep = none) (hlife : 0 < c.lifetime) {v : WithTop ℚ}
    (hinterval : c.interval.micros? = some v) (hv : 0 ≤ v) (es : List Errand) (e : Errand)
    {k : AssetKey} {parts : Nat} (hget : e.call = .get k parts) :
    let s : Watched := Watched.run ⟨c, w, []⟩ es
    (s.sweepsFor e = true ↔
      ∀ t, s.sweeps.head? = some t → v ≤ (((s.at' e).clock - t : Time) : ℚ)) ∧
    ((∀ e ∈ es, ∃ key, e.call = .lookup key) → s.sweepsFor e = true) ∧
    ∀ n content m x, Text.endsIn ending n = true →
      Text.byteLength (c.directory.child n).toText ≤ FileSystem.maxPath →
      (s.take e).world.files.get? (r ++ [n]) = some (.file content m x) →
      ((((s.take e).world.clock - m : Time) : ℚ) : WithTop ℚ) ≤ (c.lifetime : ℚ) + v := by
  intro s
  have hstart : Watched.Holds ⟨c, w, []⟩ c r := by
    refine ⟨?_, h, nofun, nofun⟩
    show c = { c with lastSweep := none }
    rw [← hnew]
  have hs : s.Holds c r := hstart.run hlife.le es
  refine ⟨hs.sweepsFor_get_iff hget hinterval, fun hlookups => ?_, ?_⟩
  · rw [hs.sweepsFor_get_iff hget hinterval]
    have hnone : s.sweeps = [] := Watched.sweeps_run_of_lookups hlookups
    rw [hnone]
    nofun
  · intro n content m x hending hshort hfile
    exact hs.young_take hlife.le hget hinterval hv ⟨hending, hshort⟩ hfile

/-- The microseconds of the usual interval. -/
theorem micros?_hour : (Binary64.ofInt 3600).micros? = some ((3600000000 : ℚ) : WithTop ℚ) := by
  have hhour : Binary64.ofInt 3600 = .finite false 7916483719987200 (-41) := by decide
  rw [hhour, Binary64.micros?]
  norm_num [Binary64.signed]

/-- A look into the attic and then a request: it sweeps, and leaves nothing older than twenty-five hours.
-/
theorem sweeps_paced_attic :
    let es : List Errand := [⟨label, 7, .lookup "old".toList⟩]
    let e : Errand := ⟨label, 5, .get ⟨"hi".toList, 50, ['L']⟩ 1⟩
    let s : Watched := Watched.run ⟨atticCache 0, atticWorld, []⟩ es
    s.sweepsFor e = true ∧
    ∀ n content m x, Text.endsIn ending n = true →
      Text.byteLength ((atticCache 0).directory.child n).toText ≤ FileSystem.maxPath →
      (s.take e).world.files.get? (["c".toList] ++ [n]) = some (.file content m x) →
      ((((s.take e).world.clock - m : Time) : ℚ) : WithTop ℚ) ≤
        ((86400000000 : Time) : ℚ) + ((3600000000 : ℚ) : WithTop ℚ) := by
  intro es e s
  obtain ⟨-, hfirst, hyoung⟩ := sweeps_paced (w := atticWorld) (lodged_attic (k := 0) (by decide)) rfl
    (by decide) micros?_hour (by norm_cast) es e rfl
  refine ⟨hfirst fun e he => ⟨"old".toList, ?_⟩, hyoung⟩
  rw [List.mem_singleton.1 he]

/-- Under a path with many turns an old picture is still there after the first request. -/
theorem not_sweeps_paced_attic :
    let e : Errand := ⟨fun _ => .error (.refused []), 0, .get ⟨"hi".toList, 50, ['L']⟩ 1⟩
    let s : Watched := ⟨atticCache 818, atticWorld, []⟩
    (atticCache 818).Lodged attic ["c".toList] ∧
    (atticCache 818).interval.micros? = some ((3600000000 : ℚ) : WithTop ℚ) ∧
    (s.take e).world.files.get? ["c".toList, "old.png".toList] =
      some (.file (.text "x".toList) 0 false) ∧
    ¬ ((((s.take e).world.clock - 0 : Time) : ℚ) : WithTop ℚ) ≤
      ((atticCache 818).lifetime : ℚ) + ((3600000000 : ℚ) : WithTop ℚ) := by
  intro e s
  have hlodged := lodged_attic (k := 818) (by decide)
  refine ⟨hlodged, micros?_hour, ?_, ?_⟩
  · exact Watched.get?_take_of_not_takes (s := s) (e := e) (r := ["c".toList]) (n := "old.png".toList)
      hlodged rfl (fun _ => nofun) (not_takes_winding _)
  · rw [Watched.clock_take]
    norm_cast

end AssetCache

end MailMerge
