import Mathlib
import MailMerge.Proofs.Cache.Keeping
/-!
# A cache over time

A cache is asked for things at one time after the other (`Turn`): for an asset, for an entry, for a
sweep. As long as it is at home and different assets have different keys, a request for an asset is
answered with the path of its entry, the entry then holds what the renderer draws and is not older
than the lifetime, and the renderer is called just when nothing was written for the asset before or
more than the lifetime ago (`serve_get`).

The invariant (`Consistent`) ties each entry to the time of the last write for its asset: the entry
is there with that time, or it has expired since.
-/
namespace MailMerge

/-- Whether a renderer draws everything. -/
def Renderer.Total (render : Renderer) : Prop :=
  ∀ k, ∃ content, render k = .ok content ∧ content.isEmpty = false

namespace AssetCache

open FileSystem (Fits Kept kept_refl)

/-- Something that a cache is asked for. -/
inductive Call where
  | get (k : AssetKey) (parts : Nat)
  | lookup (key : Text)
  | sweep
  deriving DecidableEq, Repr

/-- A call, and the time that has gone by since the one before. -/
structure Turn where
  wait : Nat
  call : Call
  deriving DecidableEq, Repr

/-- The asset that is asked for. -/
def Call.asset? : Call → Option AssetKey
  | .get k _ => some k
  | _ => none

/-- A renderer that refuses one asset and draws the others like another one. -/
def refusing (render : Renderer) (k : AssetKey) : Renderer :=
  fun k' => if k' = k then .error (.refused []) else render k'

/-- Whether a request calls the renderer for its asset: a refusal is heard. -/
def draws (c : AssetCache) (render : Renderer) (parts : Nat) (k : AssetKey) (w : World) : Bool :=
  match (Script.run (c.request (refusing render k) parts k) w).1.1 with
  | .ok (.failed (.render (.refused []))) => true
  | _ => false

/-- What is done for a call. -/
def answer (c : AssetCache) (render : Renderer) : Call → Script AssetCache
  | .get k parts => do
    let (_, c) ← c.request render parts k
    pure c
  | .lookup key => do
    let _ ← c.lookup key
    pure c
  | .sweep => do
    let (_, c) ← c.sweep
    pure c

/-- A cache in the world, and when the renderer was last called for each asset. -/
structure Served where
  cache : AssetCache
  world : World
  written : AssetKey → Option Time := fun _ => none

namespace Served

/-- The same some time later. -/
def after (s : Served) (wait : Nat) : Served :=
  { s with world := { s.world with clock := s.world.clock + wait } }

/-- When the renderer was last called, after a call. -/
def writtenBy (render : Renderer) (s : Served) (call : Call) : AssetKey → Option Time :=
  match call with
  | .get k parts =>
    if s.cache.draws render parts k s.world then
      fun k' => if k' = k then some s.world.clock else s.written k'
    else s.written
  | _ => s.written

/-- After a call. -/
def take (render : Renderer) (s : Served) (call : Call) : Served where
  cache := (Script.run (s.cache.answer render call) s.world).1
  world := (Script.run (s.cache.answer render call) s.world).2
  written := s.writtenBy render call

/-- After calls, one after the other. -/
def serve (render : Renderer) (s : Served) (turns : List Turn) : Served :=
  turns.foldl (fun s turn => (s.after turn.wait).take render turn.call) s

end Served

/-- Whether a picture for an asset is to be drawn at a time: nothing was written for it before, or
more than the lifetime ago. -/
def Due (c : AssetCache) (written : AssetKey → Option Time) (now : Time) (k : AssetKey) : Prop :=
  ∀ t, written k = some t → c.lifetime < now - t

/-- Whether different assets among some have different entries. -/
def Distinct (c : AssetCache) (assets : List AssetKey) : Prop :=
  ∀ k ∈ assets, ∀ k' ∈ assets, c.entryName k = c.entryName k' → k = k'

/-- What holds of a cache between calls that ask for some assets only, while fewer numbers than a
limit are given away. -/
structure Consistent (c : AssetCache) (render : Renderer) (assets : List AssetKey) (r : Place)
    (limit : Nat) (s : Served) : Prop where
  cache : ∃ last, s.cache = { c with lastSweep := last }
  home : c.Home s.world.files r
  fits : ∀ n, s.world.drafts ≤ n → n < limit → Fits (c.stagePath s.world.files) (scratchName n)
  entries : ∀ n node, s.world.files.get? (r ++ [n]) = some node → ∃ k ∈ assets, ∃ content t x,
    n = c.entryName k ∧ s.written k = some t ∧ render k = .ok content ∧ node = .file content t x
  gone : ∀ k ∈ assets, s.world.files.get? (r ++ [c.entryName k]) = none →
    c.Due s.written s.world.clock k
  past : ∀ k t, s.written k = some t → t ≤ s.world.clock

section
variable {c : AssetCache} {render : Renderer} {assets : List AssetKey} {r : Place} {limit : Nat}
  {s : Served} {k : AssetKey}

theorem le_later (now : Time) (wait : Nat) : now ≤ now + wait :=
  Int.le_add_of_nonneg_right (Int.natCast_nonneg wait)

/-- Waiting makes nothing inconsistent. -/
theorem Consistent.after (h : Consistent c render assets r limit s) (wait : Nat) :
    Consistent c render assets r limit (s.after wait) where
  cache := h.cache
  home := h.home
  fits := h.fits
  entries := h.entries
  gone k hk hnone t ht :=
    Int.lt_of_lt_of_le (h.gone k hk hnone t ht) (Int.sub_le_sub_right (le_later _ wait) t)
  past k t ht := Int.le_trans (h.past k t ht) (le_later _ wait)

/-- The entry of an asset is what was drawn for it last. -/
theorem Consistent.entry (h : Consistent c render assets r limit s) (hkeys : c.Distinct assets)
    (hk : k ∈ assets) {node : Node}
    (hnode : s.world.files.get? (r ++ [c.entryName k]) = some node) :
    ∃ content t x, s.written k = some t ∧ render k = .ok content ∧ node = .file content t x := by
  obtain ⟨k', hk', content, t, x, hname, hrest⟩ := h.entries _ node hnode
  obtain rfl := hkeys k hk k' hk' hname
  exact ⟨content, t, x, hrest⟩

/-- Sweeps take only what is due again. -/
theorem Consistent.sweep (h : Consistent c render assets r limit s) (hkeys : c.Distinct assets)
    {fs : FileSystem} (hswept : c.Swept s.world.clock r s.world.files fs) (last : Option Time)
    (log : List Event) :
    Consistent c render assets r limit
      { s with
        cache := { c with lastSweep := last }
        world := { s.world with files := fs, log := log } } where
  cache := ⟨last, rfl⟩
  home := h.home.of_swept hswept
  fits := by
    rw [c.stagePath_of_kept hswept.kept]
    exact h.fits
  entries n node hnode := by
    have hsame : fs.get? (r ++ [n]) = s.world.files.get? (r ++ [n]) :=
      (hswept.less _).resolve_right fun hnone => Option.some_ne_none node (hnode.symm.trans hnone)
    exact h.entries n node (hsame.symm.trans hnode)
  gone k hk hnone := by
    by_cases hstale : c.Stale s.world.clock r s.world.files (r ++ [c.entryName k])
    · -- the entry that was taken had expired
      obtain ⟨-, content, t, x, -, hfile, hexpired⟩ := hstale
      obtain ⟨content', t', x', hwritten, -, hnode⟩ := h.entry hkeys hk hfile
      cases hnode
      intro t' ht'
      cases hwritten.symm.trans ht'
      simpa [expired] using hexpired
    · rw [hswept.kept.same _ hstale] at hnone
      exact h.gone k hk hnone
  past := h.past

/-- A picture that was put is what was drawn last. -/
theorem Consistent.put (h : Consistent c render assets r limit s) {fs : FileSystem}
    {content : Content} (hk : k ∈ assets) (hrender : render k = .ok content)
    (hkept : Kept s.world.files (· = r ++ [c.entryName k]) fs)
    (hfile : fs.get? (r ++ [c.entryName k]) = some (.file content s.world.clock false)) :
    Consistent c render assets r limit
      { s with
        world := { s.world with files := fs, drafts := s.world.drafts + 1 }
        written := fun k' => if k' = k then some s.world.clock else s.written k' } where
  cache := h.cache
  home := h.home.of_kept hkept fun q hq => hq ▸ h.home.files _
  fits n hfrom hlimit := by
    rw [c.stagePath_of_kept hkept]
    exact h.fits n (Nat.le_of_succ_le hfrom) hlimit
  entries n node hnode := by
    by_cases hn : n = c.entryName k
    · subst hn
      cases hfile.symm.trans hnode
      exact ⟨k, hk, content, _, _, rfl, if_pos rfl, hrender, rfl⟩
    · have hne : r ++ [n] ≠ r ++ [c.entryName k] := fun e =>
        hn (List.singleton_inj.1 (List.append_cancel_left e))
      rw [hkept.same _ hne] at hnode
      obtain ⟨k', hk', content', t, x, rfl, hwritten, hrest⟩ := h.entries n node hnode
      have hother : k' ≠ k := fun e => hn (e ▸ rfl)
      exact ⟨k', hk', content', t, x, rfl, (if_neg hother).trans hwritten, hrest⟩
  gone k' hk' hnone := by
    have hother : k' ≠ k := by
      rintro rfl
      cases hfile.symm.trans hnone
    have hne : r ++ [c.entryName k'] ≠ r ++ [c.entryName k] := fun e => by
      rw [e, hfile] at hnone
      cases hnone
    rw [hkept.same _ hne] at hnone
    intro t ht
    exact h.gone k' hk' hnone t ((if_neg hother).symm.trans ht)
  past k' t ht := by
    dsimp only at ht
    split at ht
    · cases ht
      exact Int.le_refl _
    · exact h.past k' t ht

/-- Looking for the entry of an asset finds it just when nothing is to be drawn. -/
theorem Consistent.lookup (h : Consistent c render assets r limit s) (hkeys : c.Distinct assets)
    (hk : k ∈ assets) :
    (c.Due s.written s.world.clock k ∧
      Script.run (s.cache.lookup (c.keyOf k)) s.world = (.ok none, s.world)) ∨
    (¬ c.Due s.written s.world.clock k ∧ ∃ content t x,
      s.written k = some t ∧ render k = .ok content ∧
      s.world.files.get? (r ++ [c.entryName k]) = some (.file content t x) ∧
      Script.run (s.cache.lookup (c.keyOf k)) s.world =
        (.ok (some ⟨c.keyOf k, c.pathOf (c.keyOf k), t⟩), s.world)) := by
  obtain ⟨last, hcache⟩ := h.cache
  have hlookup : s.cache.lookup (c.keyOf k) = c.lookup (c.keyOf k) := by rw [hcache]; rfl
  rw [hlookup]
  cases hnode : s.world.files.get? (r ++ [c.entryName k]) with
  | none => exact Or.inl ⟨h.gone k hk hnode, run_lookup_absent h.home.clean h.home.means (h.home.short k) hnode⟩
  | some node =>
    obtain ⟨content, t, x, hwritten, hrender, rfl⟩ := h.entry hkeys hk hnode
    have hrun := run_lookup_entry h.home hnode
    by_cases hexpired : c.expired t s.world.clock = true
    · rw [if_pos hexpired] at hrun
      refine Or.inl ⟨fun t' ht' => ?_, hrun⟩
      cases hwritten.symm.trans ht'
      simpa [expired] using hexpired
    · rw [if_neg hexpired] at hrun
      refine Or.inr ⟨fun hdue => hexpired ?_, content, t, x, hwritten, hrender, rfl, hrun⟩
      simpa [expired] using hdue t hwritten

/-- A request sweeps first, if it is time. -/
theorem Consistent.sweepIfDue (h : Consistent c render assets r limit s)
    (hkeys : c.Distinct assets) :
    ∃ s₁ : Served, Script.run s.cache.sweepIfDue s.world = (s₁.cache, s₁.world) ∧
      Consistent c render assets r limit s₁ ∧ s₁.written = s.written ∧
      s₁.world.clock = s.world.clock ∧ s₁.world.drafts = s.world.drafts := by
  obtain ⟨last, hcache⟩ := h.cache
  obtain ⟨last', fs, log, hrun, hswept⟩ := sweepIfDue_spares (h.home.touch last)
  exact ⟨_, hcache ▸ hrun, h.sweep hkeys hswept.of_touch last' log, rfl, rfl, rfl⟩

theorem Consistent.keyOf_eq (h : Consistent c render assets r limit s) (k : AssetKey) :
    s.cache.keyOf k = c.keyOf k := by
  obtain ⟨last, hcache⟩ := h.cache
  rw [hcache]
  rfl

theorem Consistent.promote_eq (h : Consistent c render assets r limit s) :
    s.cache.promote = c.promote := by
  obtain ⟨last, hcache⟩ := h.cache
  rw [hcache]
  rfl

/-- No file is in the way of a picture that is written. -/
theorem Consistent.scratch_absent (h : Consistent c render assets r limit s) (n : Nat) :
    s.world.files.get? (r ++ [scratchName n]) = none := by
  cases hnode : s.world.files.get? (r ++ [scratchName n]) with
  | none => rfl
  | some node =>
    obtain ⟨k, -, -, -, -, hname, -⟩ := h.entries _ node hnode
    exact absurd hname (scratchName_ne_entryName n k)

/-- What is promised of a request that comes when a cache is in a state: the answer is the path of
the entry, which holds what the renderer draws, was written when the renderer was called last, and is
not too old; and the renderer is called just when a picture is due. -/
structure Serves (c : AssetCache) (render : Renderer) (k : AssetKey) (parts : Nat) (s : Served) :
    Prop where
  answer : (Script.run (s.cache.request render parts k) s.world).1.1 =
    .ok (.found (c.pathOf (c.keyOf k)))
  entry : ∃ content t x, render k = .ok content ∧
    (s.take render (.get k parts)).world.files.read (c.pathOf (c.keyOf k)).toText = .ok content ∧
    (s.take render (.get k parts)).world.files.status (c.pathOf (c.keyOf k)).toText =
      .ok ⟨false, t, x⟩ ∧
    (s.take render (.get k parts)).written k = some t ∧
    (s.take render (.get k parts)).world.clock - t ≤ max c.lifetime 0
  drawn_iff : s.cache.draws render parts k s.world = true ↔ c.Due s.written s.world.clock k

/-- A file at the place of an entry is found under its path. -/
theorem Consistent.read_entry (h : Consistent c render assets r limit s) {content : Content}
    {t : Time} {x : Bool}
    (hfile : s.world.files.get? (r ++ [c.entryName k]) = some (.file content t x)) :
    s.world.files.read (c.pathOf (c.keyOf k)).toText = .ok content ∧
      s.world.files.status (c.pathOf (c.keyOf k)).toText = .ok ⟨false, t, x⟩ := by
  rw [pathOf_keyOf]
  exact ⟨(h.home.short k).read_file h.home.clean h.home.means hfile,
    (h.home.short k).status_file h.home.clean h.home.means hfile⟩

/-- What a request leaves, by what it answers. -/
theorem take_get {parts : Nat} {answer : Except Fault CacheAnswer} {c' : AssetCache} {w' : World}
    (hrun : Script.run (s.cache.request render parts k) s.world = ((answer, c'), w')) :
    s.take render (.get k parts) =
      { cache := c', world := w', written := s.writtenBy render (.get k parts) } := by
  unfold Served.take AssetCache.answer
  rw [Script.run_bind, hrun]
  rfl

/-- A request for one of the assets is served. -/
theorem Consistent.get (h : Consistent c render assets r limit s) (hkeys : c.Distinct assets)
    (hk : k ∈ assets) (hrender : render.Total) (hsize : intText? k.size ≠ none)
    (hlimit : s.world.drafts < limit) (parts : Nat) :
    Serves c render k parts s ∧
      Consistent c render assets r limit (s.take render (.get k parts)) ∧
      (s.take render (.get k parts)).world.drafts ≤ s.world.drafts + 1 := by
  obtain ⟨s₁, hsweep, hswept, hsince, hclock, hdrafts⟩ := h.sweepIfDue hkeys
  have hkey := hswept.keyOf_eq k
  have hiff : c.Due s₁.written s₁.world.clock k ↔ c.Due s.written s.world.clock k := by
    rw [hsince, hclock]
  obtain ⟨hdue, hlookup⟩ | ⟨hdue, content, t, x, hwritten, hcontent, hfile, hlookup⟩ :=
    hswept.lookup hkeys hk
  · -- the picture is drawn
    obtain ⟨content, hcontent, hsome⟩ := hrender k
    obtain ⟨fs, hput, hkept, hentry⟩ := run_promote hswept.home
      (hswept.fits _ (Nat.le_refl _) (hdrafts ▸ hlimit)) (hswept.scratch_absent _) parts k content
    rw [← hswept.promote_eq] at hput
    have hrun := run_request hsize (run_getOrCreate_drawn hsweep hkey hlookup hcontent hsome hput)
    have hdraws : s.cache.draws render parts k s.world = true := by
      unfold draws
      rw [run_request hsize (run_getOrCreate_refused hsweep hkey hlookup (if_pos rfl))]
    have hstate := hswept.put hk hcontent hkept hentry
    have htake := take_get hrun
    rw [Served.writtenBy, if_pos hdraws, ← hclock, ← hsince] at htake
    rw [← htake] at hstate
    have hage : s₁.world.clock - s₁.world.clock ≤ max c.lifetime 0 := by
      rw [Int.sub_self]
      exact Int.le_max_right ..
    obtain ⟨hread, hstatus⟩ := hstate.read_entry (by rw [htake]; exact hentry)
    refine ⟨⟨by rw [hrun], ⟨content, _, false, hcontent, hread, hstatus, ?_, ?_⟩,
      iff_of_true hdraws (hiff.1 hdue)⟩, hstate, ?_⟩
    · rw [htake]
      exact if_pos rfl
    · rw [htake]
      exact hage
    · exact Nat.le_of_eq (by rw [htake, ← hdrafts])
  · -- the entry is found
    have hgot : Script.run (s.cache.getOrCreate render parts k) s.world = _ :=
      run_getOrCreate_found hsweep hkey hlookup
    have hrun := run_request hsize hgot
    have hdraws : s.cache.draws render parts k s.world = false := by
      unfold draws
      rw [run_request hsize (run_getOrCreate_found hsweep hkey hlookup)]
    have hlive : s₁.world.clock - t ≤ c.lifetime := Int.not_lt.1 fun hlate =>
      hdue fun t' ht' => Option.some.inj (hwritten.symm.trans ht') ▸ hlate
    have htake : s.take render (.get k parts) = s₁ := by
      rw [take_get hrun, Served.writtenBy, if_neg (by rw [hdraws]; decide), ← hsince]
    obtain ⟨hread, hstatus⟩ := hswept.read_entry hfile
    rw [htake, ← hdrafts]
    refine ⟨⟨by rw [hrun], ⟨content, t, x, hcontent, ?_⟩,
      iff_of_false (by rw [hdraws]; decide) fun h => hdue (hiff.2 h)⟩, hswept, Nat.le_succ _⟩
    rw [htake]
    exact ⟨hread, hstatus, hwritten, Int.le_trans hlive (Int.le_max_left ..)⟩

/-- Whatever is asked for, the cache stays consistent. -/
theorem Consistent.take (h : Consistent c render assets r limit s) (hkeys : c.Distinct assets)
    (hrender : render.Total) (hlimit : s.world.drafts < limit) {call : Call}
    (hcall : ∀ k ∈ call.asset?, k ∈ assets) :
    Consistent c render assets r limit (s.take render call) ∧
      (s.take render call).world.drafts ≤ s.world.drafts + 1 := by
  cases call with
  | get k parts =>
    by_cases hsize : intText? k.size = none
    · -- nothing is looked for without a key
      obtain ⟨s₁, hsweep, hswept, hsince, -, hdrafts⟩ := h.sweepIfDue hkeys
      have hdraws : s.cache.draws render parts k s.world = false := by
        unfold draws
        rw [run_request_unwritable hsize hsweep]
      rw [take_get (run_request_unwritable hsize hsweep render parts), Served.writtenBy,
        if_neg (by rw [hdraws]; decide), ← hsince, ← hdrafts]
      exact ⟨hswept, Nat.le_succ _⟩
    · exact (h.get hkeys (hcall k rfl) hrender hsize hlimit parts).2
  | lookup key =>
    have htake : s.take render (.lookup key) = s := by
      unfold Served.take AssetCache.answer
      rw [Script.run_bind, run_lookup]
      rfl
    rw [htake]
    exact ⟨h, Nat.le_succ _⟩
  | sweep =>
    obtain ⟨last, hcache⟩ := h.cache
    obtain ⟨count, fs, log, hrun, hswept⟩ := sweep_spares (h.home.touch last)
    have htake : s.take render .sweep =
        { s with
          cache := { c with lastSweep := some s.world.clock }
          world := { s.world with files := fs, log := log } } := by
      unfold Served.take AssetCache.answer
      rw [hcache, Script.run_bind, hrun]
      rfl
    rw [htake]
    exact ⟨h.sweep hkeys hswept.of_touch _ log, Nat.le_succ _⟩

/-- It stays consistent over a whole run. -/
theorem Consistent.serve {turns : List Turn} (h : Consistent c render assets r limit s)
    (hkeys : c.Distinct assets) (hrender : render.Total)
    (hlimit : s.world.drafts + turns.length ≤ limit)
    (hturns : ∀ turn ∈ turns, ∀ k ∈ turn.call.asset?, k ∈ assets) :
    Consistent c render assets r limit (s.serve render turns) ∧
      (s.serve render turns).world.drafts ≤ s.world.drafts + turns.length := by
  induction turns generalizing s with
  | nil => exact ⟨h, Nat.le_refl _⟩
  | cons turn turns ih =>
    have hlength : (turn :: turns).length = turns.length + 1 := rfl
    obtain ⟨hfirst, hdrafts⟩ := (h.after turn.wait).take hkeys hrender
      (by rw [hlength] at hlimit; show s.world.drafts < limit; omega)
      (hturns turn (List.mem_cons_self ..))
    have hdrafts : ((s.after turn.wait).take render turn.call).world.drafts ≤ s.world.drafts + 1 :=
      hdrafts
    obtain ⟨hrest, hdrafts'⟩ := ih hfirst (by omega) fun t ht => hturns t (List.mem_cons_of_mem _ ht)
    exact ⟨hrest, Nat.le_trans hdrafts' (by rw [hlength]; omega)⟩

/-- An empty directory is consistent with a cache that was asked for nothing. -/
theorem consistent_empty {w : World} (hhome : c.Home w.files r)
    (hempty : ∀ n, w.files.get? (r ++ [n]) = none)
    (hfits : ∀ n, w.drafts ≤ n → n < limit → Fits (c.stagePath w.files) (scratchName n)) :
    Consistent c render assets r limit { cache := c, world := w } where
  cache := ⟨c.lastSweep, rfl⟩
  home := hhome
  fits := hfits
  entries n _ hnode := nomatch (hempty n).symm.trans hnode
  gone _ _ _ _ ht := nomatch ht
  past _ _ ht := nomatch ht

/-- A live entry answers for every asset with its key. -/
theorem Consistent.get_shared (h : Consistent c render assets r limit s) (hkeys : c.Distinct assets)
    (hk : k ∈ assets) (hlive : ¬ c.Due s.written s.world.clock k) {k' : AssetKey}
    (hshared : c.keyOf k' = c.keyOf k) (hsize : intText? k'.size ≠ none) (parts : Nat) :
    s.cache.draws render parts k' s.world = false ∧ ∃ content, render k = .ok content ∧
      (s.take render (.get k' parts)).world.files.read (c.pathOf (c.keyOf k')).toText =
        .ok content := by
  obtain ⟨s₁, hsweep, hswept, hsince, hclock, -⟩ := h.sweepIfDue hkeys
  have hkey : s₁.cache.keyOf k' = c.keyOf k := (hswept.keyOf_eq k').trans hshared
  obtain ⟨hdue, -⟩ | ⟨-, content, t, x, -, hcontent, hfile, hlookup⟩ := hswept.lookup hkeys hk
  · rw [hsince, hclock] at hdue
    exact absurd hdue hlive
  · have hgot : Script.run (s.cache.getOrCreate render parts k') s.world = _ :=
      run_getOrCreate_found hsweep hkey hlookup
    refine ⟨?_, content, hcontent, ?_⟩
    · unfold draws
      rw [run_request hsize (run_getOrCreate_found hsweep hkey hlookup)]
    · rw [take_get (run_request hsize hgot), hshared]
      exact (hswept.read_entry hfile).1

/-- The assets that are asked for. -/
def asked (turns : List Turn) : List AssetKey := turns.filterMap fun turn => turn.call.asset?

end

/-! ### A directory of its own -/

/-- A file system with an empty directory. -/
def nook : FileSystem := { nodes := [(["c".toList], .directory 0)] }

/-- A cache in the empty directory. -/
def nookCache : AssetCache := { directory := { root := ['/'], names := ["c".toList] } }

/-- A renderer that writes down the payload. -/
def label : Renderer := fun k => .ok (.text ('.' :: k.payload))

theorem total_label : label.Total := fun _ => ⟨_, rfl, rfl⟩

theorem get?_nook {q : Place} {node : Node} (h : nook.get? q = some node) :
    node = .directory 0 ∧ (q = [] ∨ q = ["c".toList]) := by
  by_cases hq : q = []
  · subst hq
    cases h
    exact ⟨rfl, Or.inl rfl⟩
  · rw [FileSystem.get?, if_neg (by simpa using hq),
      Table.get?_eq_some_iff (show (Table.keys nook.nodes).Nodup by decide)] at h
    simp only [nook, List.mem_cons, Prod.mk.injEq, List.not_mem_nil, or_false] at h
    exact ⟨h.2, Or.inr h.1⟩

theorem isName_c : FileSystem.IsName "c".toList :=
  ⟨⟨by decide, by decide, by decide⟩, by decide, by decide, by decide⟩

theorem isSound_nook : nook.IsSound where
  names q node h n hn := by
    obtain ⟨-, rfl | rfl⟩ := get?_nook h
    · exact absurd hn List.not_mem_nil
    · exact List.mem_singleton.1 hn ▸ isName_c
  current := FileSystem.chain_nil
  targets q target h := nomatch (get?_nook h).1

theorem nook_empty (n : Text) : nook.get? (["c".toList] ++ [n]) = none := by
  cases h : nook.get? (["c".toList] ++ [n]) with
  | none => rfl
  | some node =>
    obtain ⟨-, hq | hq⟩ := get?_nook h
    · exact absurd hq (by simp)
    · exact absurd hq (by simp)

theorem isPlain_nookCache : nook.IsPlain nookCache.directory where
  clean := ⟨Or.inr (Or.inl rfl), fun _ hn => List.mem_singleton.1 hn ▸ isName_c.isPart⟩
  absolute := rfl
  no_null := by decide
  short := by decide
  steps _ hn := List.mem_singleton.1 hn ▸ isName_c.toIsStep
  chain := FileSystem.Chain.concat (p := []) FileSystem.chain_nil ⟨0, rfl⟩

theorem home_nook {c : AssetCache} (hdirectory : c.directory = nookCache.directory) :
    c.Home nook ["c".toList] := by
  have hplain : nook.IsPlain c.directory := hdirectory ▸ isPlain_nookCache
  have hshort : Text.byteLength c.directory.toText + 69 ≤ FileSystem.maxPath := by
    rw [hdirectory]
    decide
  have hhome := home_of_isPlain isSound_nook hplain hshort fun n => Or.inl (by
    rw [hdirectory]
    exact nook_empty n)
  rw [hdirectory] at hhome
  exact hhome

theorem fits_nook {c : AssetCache} (hdirectory : c.directory = nookCache.directory) {n : Nat}
    (hn : n < 10 ^ 8) : Fits (c.stagePath nook) (scratchName n) := by
  rw [stagePath, hdirectory, absolute_of_isPlain isPlain_nookCache]
  exact fits_scratchName hn (by decide)

theorem distinct_singleton (c : AssetCache) (k : AssetKey) : c.Distinct [k] := fun _ h _ h' _ =>
  (List.mem_singleton.1 h).trans (List.mem_singleton.1 h').symm

/-- A cache in the empty directory that was asked for nothing. -/
theorem consistent_nook {c : AssetCache} (hdirectory : c.directory = nookCache.directory)
    (assets : List AssetKey) : Consistent c label assets ["c".toList] 1
      { cache := c, world := { files := nook } } :=
  consistent_empty (home_nook hdirectory) nook_empty fun _ _ hn => fits_nook hdirectory (by omega)

section
variable {c : AssetCache} {render : Renderer} {r : Place} {k : AssetKey}

/-- Every request is served, whatever a cache was asked for before, in a directory that was empty when
it began. Qualities without null characters and digests that do not collide keep the entries of
different assets apart. -/
theorem serve_get {w : World} {turns : List Turn} (hhome : c.Home w.files r)
    (hempty : ∀ n, w.files.get? (r ++ [n]) = none)
    (hfits : ∀ n, w.drafts ≤ n → n ≤ w.drafts + turns.length →
      Fits (c.stagePath w.files) (scratchName n))
    (hrender : render.Total) (hquality : ∀ k' ∈ k :: asked turns, '\x00' ∉ k'.quality)
    (hdigest : ∀ k₁ ∈ k :: asked turns, ∀ k₂ ∈ k :: asked turns, c.keyOf k₁ = c.keyOf k₂ →
      Utf8.encode (material c.version k₁) = Utf8.encode (material c.version k₂))
    (hsize : intText? k.size ≠ none) (wait parts : Nat) :
    Serves c render k parts ((Served.serve render { cache := c, world := w } turns).after wait) := by
  have hkeys : c.Distinct (k :: asked turns) := fun k₁ h₁ k₂ h₂ hname =>
    material_inj_of_version (hquality k₁ h₁) (hquality k₂ h₂)
      (Utf8.encode_inj (hdigest k₁ h₁ k₂ h₂ (List.append_cancel_right hname)))
  have hstart : Consistent c render (k :: asked turns) r (w.drafts + turns.length + 1)
      { cache := c, world := w } :=
    consistent_empty hhome hempty fun n hfrom hlimit => hfits n hfrom (Nat.le_of_lt_succ hlimit)
  obtain ⟨hserved, hdrafts⟩ := hstart.serve hkeys hrender (Nat.le_succ _) fun turn hturn k' hk' =>
    List.mem_cons_of_mem _ (List.mem_filterMap.2 ⟨turn, hturn, hk'⟩)
  exact ((hserved.after wait).get hkeys (List.mem_cons_self ..) hrender hsize
    (Nat.lt_succ_of_le hdrafts) parts).1

end

/-- Two assets and a sweep in between, and the first asset again after a day. -/
theorem serve_get_nook : Serves nookCache label ⟨['p'], 1, ['q']⟩ 1
    ((Served.serve label { cache := nookCache, world := { files := nook } }
      [⟨0, .get ⟨['p'], 1, ['q']⟩ 2⟩, ⟨3, .sweep⟩, ⟨1, .get ⟨['p'], 2, ['q']⟩ 0⟩]).after
        90000000000) := by
  have hne : nookCache.keyOf ⟨['p'], 1, ['q']⟩ ≠ nookCache.keyOf ⟨['p'], 2, ['q']⟩ := by
    decide +kernel
  refine serve_get (home_nook rfl) nook_empty (fun n _ hn => fits_nook rfl ?_) total_label
    (by decide) ?_ (by decide) _ _
  · have hfew : n ≤ 0 + 3 := hn
    omega
  · have htwo : ∀ k ∈ [⟨['p'], 1, ['q']⟩, ⟨['p'], 1, ['q']⟩, ⟨['p'], 2, ['q']⟩],
        k = (⟨['p'], 1, ['q']⟩ : AssetKey) ∨ k = ⟨['p'], 2, ['q']⟩ := by decide
    intro k₁ h₁ k₂ h₂ hkey
    obtain rfl | rfl := htwo k₁ h₁ <;> obtain rfl | rfl := htwo k₂ h₂
    · rfl
    · exact absurd hkey hne
    · exact absurd hkey.symm hne
    · rfl

/-! ### What is not served -/

/-- An asset with a null character in its quality. -/
def parted : AssetKey := ⟨['p'], 1, ['2', '\x00', 'q']⟩

/-- Another asset for which the same is digested. -/
def shifted : AssetKey := ⟨['p', '\x00', '1'], 2, ['q']⟩

theorem keyOf_shifted (c : AssetCache) : c.keyOf shifted = c.keyOf parted := by
  have hmaterial : material c.version shifted = material c.version parted := by
    have hone : Text.ofInt 1 = ['1'] := by decide
    have htwo : Text.ofInt 2 = ['2'] := by decide
    simp [material_eq, parted, shifted, hone, htwo]
  rw [keyOf, hmaterial, keyOf]

/-- The renderer is not called for the second one of two assets that share a key. -/
theorem not_serves_shifted : ¬ Serves nookCache label shifted 0
    (Served.serve label { cache := nookCache, world := { files := nook } } [⟨0, .get parted 0⟩]) := by
  have hkeys := distinct_singleton nookCache parted
  have hparted := List.mem_singleton_self parted
  have hstart : Consistent nookCache label [parted] ["c".toList] 1
      { cache := nookCache, world := { files := nook } } := consistent_nook rfl _
  obtain ⟨hserves, hserved, -⟩ := (hstart.after 0).get hkeys hparted total_label (by decide)
    Nat.one_pos 0
  obtain ⟨content, t, x, -, -, -, hwritten, hage⟩ := hserves.entry
  obtain ⟨hdraws, -⟩ := hserved.get_shared hkeys hparted
    (fun hdue => Int.not_lt.2 hage (hdue t hwritten)) (keyOf_shifted nookCache) (by decide) 0
  intro hshifted
  refine Bool.noConfusion (hdraws.symm.trans (hshifted.drawn_iff.2 fun t ht => ?_))
  -- nothing was written for it before
  have hnone : ∀ drawn : Bool, (if drawn then fun k => if k = parted then some (0 : Time) else none
      else fun _ => none) shifted = none := by decide
  exact nomatch (hnone _).symm.trans ht

theorem intText?_ten_pow {n : Nat} (hn : digitLimit ≤ n) : intText? (10 ^ n : Nat) = none := by
  have hlong : ¬ Decimal.digitCount (10 ^ n) ≤ digitLimit := fun h =>
    Nat.not_lt.2 (Nat.pow_le_pow_right (by decide) hn)
      ((Nat.length_toDigits_le_iff (by decide) (by decide)).1 h)
  unfold intText?
  rw [Int.natAbs_natCast, if_neg hlong]

/-- An asset with a size of too many digits. -/
def long : AssetKey := ⟨['p'], (10 ^ digitLimit : Nat), ['q']⟩

/-- There is no key for it. -/
theorem not_serves_long :
    ¬ Serves nookCache label long 0 { cache := nookCache, world := { files := nook } } := by
  have hsize : intText? long.size = none := intText?_ten_pow (Nat.le_refl _)
  intro h
  have hanswer := h.answer
  rw [run_request_unwritable hsize rfl] at hanswer
  cases hanswer

/-- A cache whose entries expire before they are written. -/
def hastyCache : AssetCache := { nookCache with lifetime := -1 }

/-- What is written at a call is no younger than the call. -/
theorem not_younger {t : Time} {x : Bool}
    (hstatus : (Served.take label { cache := hastyCache, world := { files := nook } }
      (.get ⟨['p'], 1, ['q']⟩ 0)).world.files.status
        (hastyCache.pathOf (hastyCache.keyOf ⟨['p'], 1, ['q']⟩)).toText = .ok ⟨false, t, x⟩) :
    ¬ (Served.take label { cache := hastyCache, world := { files := nook } }
      (.get ⟨['p'], 1, ['q']⟩ 0)).world.clock - t ≤ hastyCache.lifetime := by
  have hstart : Consistent hastyCache label [⟨['p'], 1, ['q']⟩] ["c".toList] 1
      { cache := hastyCache, world := { files := nook } } := consistent_nook (c := hastyCache) rfl _
  obtain ⟨hserves, hserved, -⟩ := hstart.get (distinct_singleton hastyCache _)
    (List.mem_singleton_self _) total_label (by decide) Nat.one_pos 0
  obtain ⟨content, t', x', -, -, hstatus', hwritten, -⟩ := hserves.entry
  cases hstatus.symm.trans hstatus'
  have hpast := hserved.past _ _ hwritten
  intro hage
  have hnone : (0 : Int) ≤ -1 := Int.le_trans (Int.sub_nonneg_of_le hpast) hage
  exact absurd hnone (by decide)

/-- A file system with a link into another directory. -/
def bent : FileSystem where
  nodes := [(["a".toList], .directory 0), (["a".toList, "b".toList], .directory 0),
    (["a".toList, "c".toList], .directory 0), (["l".toList], .link "a/b".toList)]

/-- A cache in a directory beside the one that a link leads to. -/
def bentCache : AssetCache :=
  { directory := { root := ['/'], names := ["l".toList, "..".toList, "c".toList] } }

theorem isClean_bentCache : bentCache.directory.IsClean :=
  ⟨Or.inr (Or.inl rfl), by
    have hparts : ∀ n ∈ bentCache.directory.names, n ≠ [] ∧ '/' ∉ n ∧ n ≠ ['.'] := by decide
    exact fun n hn => ⟨(hparts n hn).1, (hparts n hn).2.1, (hparts n hn).2.2⟩⟩

/-- The path leads through the link. -/
theorem means_bentCache : bent.MeansDirectory bentCache.directory ["a".toList, "c".toList] := by
  have hstep : ∀ n ∈ ["a".toList, "b".toList, "c".toList, "l".toList], FileSystem.IsStep n := by
    have hall : ∀ n ∈ ["a".toList, "b".toList, "c".toList, "l".toList],
        Text.byteLength n ≤ FileSystem.maxName ∧ n ≠ ['.'] ∧ n ≠ ['.', '.'] := by decide
    exact fun n hn => ⟨(hall n hn).1, (hall n hn).2.1, (hall n hn).2.2⟩
  have hleads : FileSystem.Leads bent true FileSystem.maxLinks [] bentCache.directory.followed
      ["a".toList, "c".toList] :=
    .jump (hstep _ (by decide)) rfl (Or.inr rfl) (.enter (hstep "a".toList (by decide)) rfl
      (.enter (hstep "b".toList (by decide)) rfl (.up (.enter (hstep "c".toList (by decide)) rfl .done))))
  exact ⟨(FileSystem.locate_toText isClean_bentCache).2 ⟨by decide, by decide, hleads⟩, 0, rfl⟩

/-- Pictures are not written beside the link, where there is no directory. -/
theorem not_serves_bent :
    ¬ Serves bentCache label ⟨['p'], 1, ['q']⟩ 0 { cache := bentCache, world := { files := bent } } := by
  have hsweep : Script.run bentCache.sweepIfDue { files := bent } =
      ({ bentCache with lastSweep := some 0 }, { files := bent }) := by
    have hrun : Script.run bentCache.sweep { files := bent } =
        ((0, { bentCache with lastSweep := some 0 }), { files := bent }) := by
      unfold sweep
      rw [Script.run_bind, Script.run_now]
      dsimp only
      rw [Script.run_bind, run_candidates_of_means (w := { files := bent }) means_bentCache]
      rfl
    rw [run_sweepIfDue, hrun]
    rfl
  have hlookup : Script.run (bentCache.lookup (bentCache.keyOf ⟨['p'], 1, ['q']⟩))
      { files := bent } = (.ok none, { files := bent }) :=
    run_lookup_absent (w := { files := bent }) isClean_bentCache means_bentCache
      (fits_entryName _ (by decide)) rfl
  have hcreate : bent.create 0 ((bentCache.stagePath bent).child (scratchName 0)).toText =
      .error .absent := by
    have hstage : bentCache.stagePath bent = { root := ['/'], names := ["c".toList] } := by decide
    rw [hstage]
    cbv
  have hput := run_promote_unstaged (w := { files := bent }) hcreate 0
    (bentCache.keyOf ⟨['p'], 1, ['q']⟩) (.text ".p".toList)
  have hgot : Script.run (bentCache.getOrCreate label 0 ⟨['p'], 1, ['q']⟩) { files := bent } = _ :=
    run_getOrCreate_drawn hsweep rfl hlookup rfl rfl hput
  intro h
  have hanswer := h.answer
  rw [run_request (by decide) hgot] at hanswer
  cases hanswer

/-- Null characters in qualities, sizes of too many digits, lifetimes below zero and paths that lead up
from a link are not served. -/
theorem exceptions_of_serve_get :
    ¬ Serves nookCache label shifted 0 (Served.serve label
      { cache := nookCache, world := { files := nook } } [⟨0, .get parted 0⟩]) ∧
    ¬ Serves nookCache label long 0 { cache := nookCache, world := { files := nook } } ∧
    (∀ t x, (Served.take label { cache := hastyCache, world := { files := nook } }
      (.get ⟨['p'], 1, ['q']⟩ 0)).world.files.status
        (hastyCache.pathOf (hastyCache.keyOf ⟨['p'], 1, ['q']⟩)).toText = .ok ⟨false, t, x⟩ →
      ¬ (Served.take label { cache := hastyCache, world := { files := nook } }
        (.get ⟨['p'], 1, ['q']⟩ 0)).world.clock - t ≤ hastyCache.lifetime) ∧
    ¬ Serves bentCache label ⟨['p'], 1, ['q']⟩ 0
      { cache := bentCache, world := { files := bent } } :=
  ⟨not_serves_shifted, not_serves_long, fun _ _ => not_younger, not_serves_bent⟩

end AssetCache
end MailMerge
