import MailMerge.Proofs.Cache.Racing
/-!
# Entries are whole

Callers in any number share a directory (`Shares`), and their calls are interleaved in any way, step by
step, while the clock is set back and forth. Every entry holds all of the picture of its asset at any
time, and who asks is answered or told why not (`moves_keep_whole`). Where different assets share a
key, one is given the picture of the other (`exceptions_of_moves_keep_whole`).
-/
namespace MailMerge.AssetCache

open FileSystem (MeansDirectory IsName kept_refl)
open MailMerge.Path (IsClean)
open Interleaved (Move moves)

/-- Somebody with a cache, and the calls to be made. -/
structure Caller where
  cache : AssetCache
  calls : List Call

/-- What is done for a caller. -/
def Caller.script (a : Caller) (render : Renderer) :
    Script (List (AssetKey × Except Fault CacheAnswer)) := session a.cache render a.calls

/-- What is assumed of a directory that callers share and of the assets that are told apart in it: there
are no links in it, the entries that are there are whole, numbers are fresh, qualities and, where they
differ, versions hold no null characters, and digests do not collide. -/
structure Shares (render : Renderer) (callers : List Caller) (assets : List (AssetCache × AssetKey))
    (r : Place) (w : World) : Prop where
  sound : w.files.IsSound
  unlinked : ∀ n target, w.files.get? (r ++ [n]) ≠ some (.link target)
  lodged : ∀ a ∈ callers, a.cache.directory.IsClean ∧ w.files.MeansDirectory a.cache.directory r
  asked : ∀ a ∈ callers, ∀ call ∈ a.calls, ∀ k ∈ call.asset?, (a.cache, k) ∈ assets
  whole : ∀ a ∈ assets, ∀ node, w.files.get? (r ++ [a.1.entryName a.2]) = some node →
    IsWhole render a.2 node
  vacant : ∀ n, w.drafts ≤ n → ∀ q, w.files.get? (q ++ [scratchName n]) = none
  quality : ∀ a ∈ assets, '\x00' ∉ a.2.quality
  version : ∀ a ∈ assets, ∀ b ∈ assets,
    a.1.version = b.1.version ∨ '\x00' ∉ a.1.version ∧ '\x00' ∉ b.1.version
  digest : ∀ a ∈ assets, ∀ b ∈ assets, a.1.keyOf a.2 = b.1.keyOf b.2 →
    Utf8.encode (material a.1.version a.2) = Utf8.encode (material b.1.version b.2)

section
variable {render : Renderer} {callers : List Caller} {assets : List (AssetCache × AssetKey)}
  {r : Place} {w : World} {a : Caller} {k : AssetKey}

/-- Different assets have different entries. -/
theorem Shares.distinct (h : Shares render callers assets r w) :
    ∀ a ∈ assets, ∀ b ∈ assets, a.1.entryName a.2 = b.1.entryName b.2 → a.2 = b.2 := by
  intro a ha b hb hname
  have hmaterial := Utf8.encode_inj (h.digest a ha b hb (List.append_cancel_right hname))
  obtain hsame | ⟨hnull, hnull'⟩ := h.version a ha b hb
  · rw [hsame] at hmaterial
    exact material_inj_of_version (h.quality a ha) (h.quality b hb) hmaterial
  · exact (material_inj hnull hnull' (h.quality a ha) (h.quality b hb) hmaterial).2

/-- The directory as the place of a discipline. -/
def Shares.site (h : Shares render callers assets r w) : Site where
  files := w.files
  place := r
  caches := callers.map fun a => a.cache
  render := render
  assets := assets
  sound := h.sound
  unlinked := h.unlinked
  lodged c hc := by
    obtain ⟨a, ha, rfl⟩ := List.mem_map.1 hc
    exact h.lodged a ha
  distinct := h.distinct

theorem Shares.hosts (h : Shares render callers assets r w) (ha : a ∈ callers) :
    h.site.Hosts a.cache := ⟨a.cache, List.mem_map_of_mem ha, a.cache.lastSweep, rfl⟩

/-- What is said of the end of each caller's script. -/
def Ends (render : Renderer) (fs : FileSystem) (callers : List Caller) (i : Nat)
    (replies : List (AssetKey × Except Fault CacheAnswer)) (_ : Hold) : Prop :=
  ∀ a, callers[i]? = some a → replies.map Prod.fst = a.calls.filterMap Call.asset? ∧
    ∀ reply ∈ replies, Replied render fs a.cache reply.1 reply.2

/-- Nobody holds anything at the beginning. -/
theorem Shares.guarded (h : Shares render callers assets r w) :
    h.site.discipline.Guarded (Ends render w.files callers)
      (callers.map fun a => a.script render) w where
  inv := ⟨(kept_refl h.sound).mono fun _ hp => hp.elim, h.whole, h.vacant⟩
  safe := by
    refine ⟨fun _ => .nothing, fun _ => trivial, fun _ _ _ _ => nofun, fun i s hs => ?_⟩
    rw [List.getElem?_map, Option.map_eq_some_iff] at hs
    obtain ⟨a, hi, rfl⟩ := hs
    have ha := List.mem_of_getElem? hi
    have htells : ∀ call ∈ a.calls, ∀ k ∈ call.asset?, h.site.Tells a.cache k :=
      fun call hcall k hk => ⟨(a.cache, k), h.asked a ha call hcall k hk, rfl, rfl⟩
    refine (Site.safe_session (h.hosts ha) htells).mono fun replies _ hreplies a' ha' => ?_
    cases hi.symm.trans ha'
    exact hreplies.2

/-- Whoever reads an entry reads the whole picture. -/
theorem Shares.read (h : Shares render callers assets r w) (ha : a ∈ callers)
    (hk : (a.cache, k) ∈ assets) {w' : World} (hw' : h.site.Tidy w') {content : Content}
    (hread : w'.files.read (a.cache.pathOf (a.cache.keyOf k)).toText = .ok content) :
    render k = .ok content := by
  have hc := h.hosts ha
  have htells : h.site.Tells a.cache k := ⟨(a.cache, k), hk, rfl, rfl⟩
  rw [pathOf_keyOf] at hread
  obtain ⟨t, x, hfile⟩ := FileSystem.read_child hw'.sound hc.clean (a.cache.isName_entry k).isDown
    (hc.means hw') (hw'.entry htells) hread
  obtain ⟨content', t', x', hrender, hnode⟩ := hw'.whole (a.cache, k) hk _ hfile
  cases hnode
  exact hrender

end

/-! ## Two callers in one directory -/

/-- A cache in the empty directory, with a version of its own. -/
def versioned (version : Text) : AssetCache := { nookCache with version := version }

theorem run_session_get (c : AssetCache) (render : Renderer) (k : AssetKey) (parts : Nat) (w : World) :
    (Script.run (session c render [.get k parts]) w).2 =
      (Served.take render { cache := c, world := w } (.get k parts)).world := by
  obtain ⟨⟨⟨reply, c'⟩, w'⟩, hrun⟩ : ∃ r, Script.run (c.request render parts k) w = r := ⟨_, rfl⟩
  rw [take_get (s := { cache := c, world := w }) hrun, session, Script.run_bind, hrun]
  rfl

/-- Two callers who each ask for one asset. -/
def pair (version version' : Text) (k k' : AssetKey) : List Caller :=
  [⟨versioned version, [.get k 0]⟩, ⟨versioned version', [.get k' 0]⟩]

/-- When one of two callers has put its picture, this is what the other one reads, if they share a
key. -/
theorem exists_moves_read {version version' : Text} {k k' : AssetKey}
    (hkey : (versioned version').keyOf k' = (versioned version).keyOf k)
    (hsize : intText? k.size ≠ none) :
    ∃ l content, label k = .ok content ∧
      (moves ((pair version version' k k').map fun a => a.script label) { files := nook }
        l).2.files.read ((versioned version').pathOf ((versioned version').keyOf k')).toText =
          .ok content := by
  have hstart : Consistent (versioned version) label [k] ["c".toList] 1
      { cache := versioned version, world := { files := nook } } :=
    consistent_nook (c := versioned version) rfl _
  obtain ⟨hserves, -, -⟩ := hstart.get (distinct_singleton _ k) (List.mem_singleton_self k)
    total_label hsize Nat.one_pos 0
  obtain ⟨content, t, x, hrender, hread, -⟩ := hserves.entry
  have hfirst : ((pair version version' k k').map fun a => a.script label)[0]? =
      some (session (versioned version) label [.get k 0]) := rfl
  obtain ⟨l, hl⟩ := Interleaved.exists_moves_run hfirst { files := nook }
  refine ⟨l, content, hrender, ?_⟩
  rw [hl, hkey, run_session_get]
  exact hread

/-- Callers may share the empty directory when their assets are told apart. -/
theorem shares_nook {callers : List Caller} {assets : List (AssetCache × AssetKey)}
    (hdirectory : ∀ a ∈ callers, a.cache.directory = nookCache.directory)
    (hasked : ∀ a ∈ callers, ∀ call ∈ a.calls, ∀ k ∈ call.asset?, (a.cache, k) ∈ assets)
    (hquality : ∀ a ∈ assets, '\x00' ∉ a.2.quality)
    (hversion : ∀ a ∈ assets, ∀ b ∈ assets,
      a.1.version = b.1.version ∨ '\x00' ∉ a.1.version ∧ '\x00' ∉ b.1.version)
    (hdigest : ∀ a ∈ assets, ∀ b ∈ assets, a.1.keyOf a.2 = b.1.keyOf b.2 →
      Utf8.encode (material a.1.version a.2) = Utf8.encode (material b.1.version b.2)) :
    Shares label callers assets ["c".toList] { files := nook } where
  sound := isSound_nook
  unlinked n target h := nomatch (nook_empty n).symm.trans h
  lodged a ha := by
    rw [hdirectory a ha]
    exact ⟨isPlain_nookCache.clean, isPlain_nookCache.meansDirectory⟩
  asked := hasked
  whole a _ node h := nomatch (nook_empty _).symm.trans h
  vacant n _ q := by
    cases h : nook.get? (q ++ [scratchName n]) with
    | none => rfl
    | some node =>
      obtain ⟨-, hq | hq⟩ := get?_nook h
      · exact absurd hq (by simp)
      · exact absurd (Site.concat_inj (show _ = [] ++ [_] from hq)).2 (by simp [scratchName, scratchMark])
  quality := hquality
  version := hversion
  digest := hdigest

/-! ## Interleaved calls -/

section
variable {render : Renderer} {callers : List Caller} {assets : List (AssetCache × AssetKey)}
  {r : Place} {w : World}

/-- Whatever moves callers make who share a directory, and whatever the clock shows, every entry is
whole: nobody reads a part of one, and nobody reads anything else after other moves. Who asks for an
asset is answered with its entry, or told why it could not be put. -/
theorem moves_keep_whole (h : Shares render callers assets r w) (l : List Move) :
    let pool := callers.map fun a => a.script render
    let s := moves pool w l
    (∀ a ∈ assets, ∀ node, s.2.files.get? (r ++ [a.1.entryName a.2]) = some node →
      IsWhole render a.2 node) ∧
    (∀ a ∈ callers, ∀ k, (a.cache, k) ∈ assets → ∀ content,
      s.2.files.read (a.cache.pathOf (a.cache.keyOf k)).toText = .ok content →
        render k = .ok content ∧ ∀ l' content',
          (moves pool w l').2.files.read (a.cache.pathOf (a.cache.keyOf k)).toText = .ok content' →
            content' = content) ∧
    ∀ (i : Nat) (a : Caller) (replies : List (AssetKey × Except Fault CacheAnswer)),
      callers[i]? = some a → s.1[i]? = some (.done replies) →
        replies.map Prod.fst = a.calls.filterMap Call.asset? ∧
          ∀ reply ∈ replies, Replied render w.files a.cache reply.1 reply.2 := by
  have hall := fun l => Discipline.guarded_moves h.site.timeless_discipline h.guarded l
  refine ⟨(hall l).inv.whole, fun a ha k hk content hread => ?_, fun i a replies hi hdone => ?_⟩
  · have hrender := h.read ha hk (hall l).inv hread
    refine ⟨hrender, fun l' content' hread' => ?_⟩
    exact Except.ok.inj ((h.read ha hk (hall l').inv hread').symm.trans hrender)
  · obtain ⟨holds, -, -, hsafe⟩ := (hall l).safe
    exact hsafe i _ hdone a hi

end

/-- Two callers who race for one asset: in some order it is put, and in no order anything else is. -/
theorem moves_keep_whole_pair :
    let pool := (pair ['v'] ['v'] ⟨['p'], 1, ['q']⟩ ⟨['p'], 1, ['q']⟩).map fun a => a.script label
    let path := ((versioned ['v']).pathOf ((versioned ['v']).keyOf ⟨['p'], 1, ['q']⟩)).toText
    ∃ l content, (moves pool { files := nook } l).2.files.read path = .ok content ∧
      ∀ l' content', (moves pool { files := nook } l').2.files.read path = .ok content' →
        content' = content := by
  intro pool path
  have hkey : (versioned ['v']).keyOf ⟨['p'], 1, ['q']⟩ = (versioned ['v']).keyOf ⟨['p'], 1, ['q']⟩ :=
    rfl
  obtain ⟨l, content, -, hread⟩ := exists_moves_read hkey (show intText? 1 ≠ none by decide)
  have hshares : Shares label (pair ['v'] ['v'] ⟨['p'], 1, ['q']⟩ ⟨['p'], 1, ['q']⟩)
      [(versioned ['v'], ⟨['p'], 1, ['q']⟩), (versioned ['v'], ⟨['p'], 2, ['q']⟩)] ["c".toList]
      { files := nook } := by
    have hne : (versioned ['v']).keyOf ⟨['p'], 1, ['q']⟩ ≠
        (versioned ['v']).keyOf ⟨['p'], 2, ['q']⟩ := by decide +kernel
    refine shares_nook (fun a ha => ?_) (fun a ha call hcall k hk => ?_) (by decide) ?_ ?_
    · simp only [pair, List.mem_cons, List.not_mem_nil, or_false, or_self] at ha
      rw [ha]
      rfl
    · simp only [pair, List.mem_cons, List.not_mem_nil, or_false, or_self] at ha
      subst ha
      cases List.mem_singleton.1 hcall
      cases hk
      exact List.mem_cons_self ..
    · simp
    · simp [hne, hne.symm]
  have hcaller : (⟨versioned ['v'], [.get ⟨['p'], 1, ['q']⟩ 0]⟩ : Caller) ∈
      pair ['v'] ['v'] ⟨['p'], 1, ['q']⟩ ⟨['p'], 1, ['q']⟩ := List.mem_cons_self ..
  exact ⟨l, content, hread,
    ((moves_keep_whole hshares l).2.1 _ hcaller _ (List.mem_cons_self ..) content hread).2⟩

/-- Null characters in qualities, or in versions that differ, let one caller read what another one has
put for another asset. -/
theorem exceptions_of_moves_keep_whole :
    (∃ l content,
      (moves ((pair ['v'] ['v'] parted shifted).map fun a => a.script label) { files := nook }
        l).2.files.read ((versioned ['v']).pathOf ((versioned ['v']).keyOf shifted)).toText =
          .ok content ∧ label shifted ≠ .ok content) ∧
    ∃ l content,
      (moves ((pair ['v'] ['v', '\x00', 'x'] ⟨['x', '\x00', 'p'], 1, ['q']⟩ ⟨['p'], 1, ['q']⟩).map
        fun a => a.script label) { files := nook } l).2.files.read
          ((versioned ['v', '\x00', 'x']).pathOf
            ((versioned ['v', '\x00', 'x']).keyOf ⟨['p'], 1, ['q']⟩)).toText = .ok content ∧
      label ⟨['p'], 1, ['q']⟩ ≠ .ok content := by
  have hkey : (versioned ['v', '\x00', 'x']).keyOf ⟨['p'], 1, ['q']⟩ =
      (versioned ['v']).keyOf ⟨['x', '\x00', 'p'], 1, ['q']⟩ := by
    have hmaterial : material ['v', '\x00', 'x'] ⟨['p'], 1, ['q']⟩ =
        material ['v'] ⟨['x', '\x00', 'p'], 1, ['q']⟩ := by simp [material_eq]
    rw [keyOf, keyOf]
    exact congrArg (fun t => (Sha256.digest (Utf8.encode t)).toText) hmaterial
  constructor
  · obtain ⟨l, content, hlabel, hread⟩ := exists_moves_read (keyOf_shifted (versioned ['v']))
      (show intText? parted.size ≠ none by decide)
    refine ⟨l, content, hread, fun hlabel' => ?_⟩
    exact absurd (Content.text.inj (Except.ok.inj (hlabel.trans hlabel'.symm))) (by decide)
  · obtain ⟨l, content, hlabel, hread⟩ := exists_moves_read hkey (show intText? 1 ≠ none by decide)
    refine ⟨l, content, hread, fun hlabel' => ?_⟩
    exact absurd (Content.text.inj (Except.ok.inj (hlabel.trans hlabel'.symm))) (by decide)

end MailMerge.AssetCache
