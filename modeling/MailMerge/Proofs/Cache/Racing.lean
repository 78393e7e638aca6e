import MailMerge.Proofs.Cache.Serving
import MailMerge.Proofs.Cache.Sharing
/-!
# Callers that race

Every script of a cache in a shared directory abides by the discipline of the directory: sweeps
(`safe_sweep`), looking for entries (`safe_lookup`), putting pictures (`safe_promote`), and so whole
sessions of calls (`safe_session`).
-/
namespace MailMerge.AssetCache

open FileSystem (MeansDirectory AtMostFile Fits IsName)
open MailMerge.Path (IsClean)
open Discipline (safe_pure safe_ask safe_look allows_refl)

/-- What a caller can be answered that asks for an asset, when `fs` is the file system at the
beginning. -/
inductive Answered (render : Renderer) (fs : FileSystem) (c : AssetCache) (k : AssetKey) :
    CacheAnswer → Prop where
  | found : Answered render fs c k (.found (c.pathOf (c.keyOf k)))
  | refused {f} (h : render k = .error f) : Answered render fs c k (.failed (.render f))
  | noData {content} (h : render k = .ok content) (hempty : content.isEmpty = true) :
      Answered render fs c k (.failed .noData)
  | unstaged {n e} (h : ¬ (Fits (c.stagePath fs) (scratchName n) ∧
      ∃ q, fs.MeansDirectory (c.stagePath fs) q)) :
      Answered render fs c k (.failed (.notStaged c.directory.toText
        ⟨e, ((c.stagePath fs).child (scratchName n)).toText, none⟩))
  | swept {n} : Answered render fs c k (.failed (.notWritten (c.pathOf (c.keyOf k)).toText
      ⟨.absent, ((c.stagePath fs).child (scratchName n)).toText,
        some (c.pathOf (c.keyOf k)).toText⟩))
  | tooLong {t} (h : ¬ Fits c.directory (c.entryName k)) : Answered render fs c k (.broken t)

/-- What a caller can be told who asks for an asset of any size. -/
inductive Replied (render : Renderer) (fs : FileSystem) (c : AssetCache) (k : AssetKey) :
    Except Fault CacheAnswer → Prop where
  | unwritable (h : intText? k.size = none) : Replied render fs c k (.error .unwritableNumber)
  | answered {answer} (h : Answered render fs c k answer) : Replied render fs c k (.ok answer)

/-- Calls of a cache one after the other, and what is told of the assets that are asked for. -/
def session (c : AssetCache) (render : Renderer) :
    List Call → Script (List (AssetKey × Except Fault CacheAnswer))
  | [] => pure []
  | .get k parts :: calls => do
    let (reply, c) ← c.request render parts k
    let replies ← session c render calls
    pure ((k, reply) :: replies)
  | .lookup key :: calls => do
    let _ ← c.lookup key
    session c render calls
  | .sweep :: calls => do
    let (_, c) ← c.sweep
    session c render calls

namespace Site

/-- Whether a cache is one of the site, but for the time of its last sweep. -/
def Hosts (S : Site) (c : AssetCache) : Prop :=
  ∃ c₀ ∈ S.caches, ∃ last, c = { c₀ with lastSweep := last }

/-- Whether an asset is one that is told apart by its entry in a cache. -/
def Tells (S : Site) (c : AssetCache) (k : AssetKey) : Prop :=
  ∃ a ∈ S.assets, a.1.entryName a.2 = c.entryName k ∧ a.2 = k

/-- The path of the directory under which a cache writes its pictures first. -/
def stage (S : Site) (c : AssetCache) : Path := c.stagePath S.files

/-- The path of the file with a number. -/
def scratch (S : Site) (c : AssetCache) (n : Nat) : Text := ((S.stage c).child (scratchName n)).toText

/-- What is said of the end of a script that holds nothing in the end. -/
def Free {α : Type} (P : α → Prop) (a : α) (h : Hold) : Prop := h = .nothing ∧ P a

section
variable {S : Site} {c : AssetCache} {k : AssetKey} {h : Hold} {w : World} {p : Path} {q : Place}

theorem Hosts.touch (hc : S.Hosts c) (last : Option Time) : S.Hosts { c with lastSweep := last } := by
  obtain ⟨c₀, hc₀, -, rfl⟩ := hc
  exact ⟨c₀, hc₀, last, rfl⟩

theorem Hosts.clean (hc : S.Hosts c) : c.directory.IsClean := by
  obtain ⟨c₀, hc₀, last, rfl⟩ := hc
  exact (S.lodged c₀ hc₀).1

theorem Hosts.stage_clean (hc : S.Hosts c) : (S.stage c).IsClean := isClean_absolute _ hc.clean

/-- Paths go on meaning the directories that they mean at the beginning. -/
theorem Tidy.means (hw : S.Tidy w) (hm : S.files.MeansDirectory p q) :
    w.files.MeansDirectory p q :=
  hm.of_kept hw.kept fun _ hp => hp

theorem Hosts.means (hc : S.Hosts c) (hw : S.Tidy w) :
    w.files.MeansDirectory c.directory S.place := by
  obtain ⟨c₀, hc₀, last, rfl⟩ := hc
  exact hw.means (S.lodged c₀ hc₀).2

theorem Tidy.sound (hw : S.Tidy w) : w.files.IsSound := hw.kept.sound

theorem Tidy.unlinked (hw : S.Tidy w) (n target : Text) :
    w.files.get? (S.place ++ [n]) ≠ some (.link target) :=
  fun hlink => S.unlinked n target (hw.kept.links _ _ hlink)

/-- An entry of an asset is a file, if there is one. -/
theorem Tidy.entry (hw : S.Tidy w) (hk : S.Tells c k) :
    w.files.AtMostFile (S.place ++ [c.entryName k]) := by
  obtain ⟨a, ha, hname, rfl⟩ := hk
  cases hnode : w.files.get? (S.place ++ [c.entryName a.2]) with
  | none => exact Or.inl hnode
  | some node =>
    obtain ⟨content, t, x, -, rfl⟩ := hw.whole a ha node (hname ▸ hnode)
    exact Or.inr ⟨content, t, x, hnode⟩

/-! ## Single steps -/

theorem safe_now {Q : Time → Hold → Prop} (hq : ∀ t, Q t h) :
    S.discipline.Safe Q Script.now h :=
  safe_look (fun _ => rfl) fun _ _ _ => hq _

theorem safe_status {p : Text} {Q : Except Cause Status → Hold → Prop} (hq : ∀ r, Q r h) :
    S.discipline.Safe Q (Script.status p) h :=
  safe_look (fun _ => rfl) fun _ _ _ => hq _

theorem safe_isDirectory {p : Text} {Q : Except Cause Bool → Hold → Prop} (hq : ∀ r, Q r h) :
    S.discipline.Safe Q (Script.isDirectory p) h := by
  unfold Script.isDirectory Script.probe
  refine (safe_status (Q := fun _ h' => h' = h) fun _ => rfl).bind ?_
  rintro r _ rfl
  cases r with
  | ok s => exact safe_pure (hq _)
  | error e => exact safe_pure (hq _)

/-- What is listed are names of nodes. -/
theorem safe_list (hc : S.Hosts c) :
    S.discipline.Safe (Free fun r => ∀ names, r = .ok names → ∀ n ∈ names, IsName n)
      (Script.list c.directory.toText) .nothing := by
  refine safe_look (fun _ => rfl) fun w hw _ => ⟨rfl, fun names h n hn => ?_⟩
  have hlist : w.files.list c.directory.toText = .ok names := h
  rw [(hc.means hw).list] at hlist
  cases hlist
  obtain ⟨node, hnode⟩ := FileSystem.mem_children hn
  exact hw.sound.names _ _ hnode n (by simp)

theorem safe_note (e : Event) :
    S.discipline.Safe (Free fun _ => True) (Script.note e) .nothing := by
  refine safe_ask fun w hw hh => ⟨.nothing, ?_, rfl, trivial⟩
  have ht : S.Touches .nothing w (w.perform (.note e)).2 :=
    touches_same hw.sound rfl (Nat.le_refl _)
  exact ht.allows hw hh trivial fun _ => nofun

/-- Removing a file is safe, whoever it belongs to. -/
theorem safe_remove (hc : S.Hosts c) {n : Text} (hn : IsName n) :
    S.discipline.Safe (Free fun _ => True) (Script.remove (c.directory.child n).toText) .nothing := by
  refine safe_ask fun w hw hh => ⟨.nothing, ?_, rfl, trivial⟩
  show S.discipline.Allows .nothing w .nothing
    (w.change (w.files.remove (c.directory.child n).toText)).2
  cases hr : w.files.remove (c.directory.child n).toText with
  | error e => exact allows_refl hw hh
  | ok fs =>
    obtain ⟨q, hm, -, hdir, rfl⟩ :=
      FileSystem.remove_child_ok hw.sound hc.clean hn.isDown hr
    obtain rfl := hm.unique (hc.means hw)
    have hnode : w.files.AtMostFile (S.place ++ [n]) :=
      FileSystem.atMostFile_iff.2 ⟨hdir, hw.unlinked n⟩
    exact (touches_drop hw.sound hnode).allows hw hh trivial fun _ => nofun

/-! ## Sweeps -/

theorem safe_evict (hc : S.Hosts c) {n : Text} (hn : IsName n) (now : Time) :
    S.discipline.Safe (Free fun _ => True) (c.evict now (c.directory.child n)) .nothing := by
  have hfailed : S.discipline.Safe (Free fun _ => True) (do
      Script.note (.warning "asset_cache_evict_failed")
      pure false : Script Bool) .nothing :=
    (safe_note _).bind fun _ _ hq => safe_pure hq
  unfold evict
  refine (safe_status (Q := fun _ h => h = .nothing) fun _ => rfl).bind ?_
  rintro r _ rfl
  cases r with
  | error e =>
    cases e with
    | absent => exact safe_pure ⟨rfl, trivial⟩
    | _ => exact hfailed
  | ok s =>
    dsimp only
    split
    · exact safe_pure ⟨rfl, trivial⟩
    · refine (safe_remove hc hn).bind ?_
      rintro r _ ⟨rfl, -⟩
      cases r with
      | ok done => exact safe_pure ⟨rfl, trivial⟩
      | error e =>
        cases e with
        | absent => exact safe_pure ⟨rfl, trivial⟩
        | _ => exact hfailed

theorem safe_evictAll (hc : S.Hosts c) (now : Time) {names : List Text}
    (hnames : ∀ n ∈ names, IsName n) :
    S.discipline.Safe (Free fun _ => True) (c.evictAll now (names.map c.directory.child)) .nothing := by
  induction names with
  | nil => exact safe_pure ⟨rfl, trivial⟩
  | cons n names ih =>
    rw [List.map_cons, evictAll]
    refine (safe_evict hc (hnames n (List.mem_cons_self ..)) now).bind ?_
    rintro gone _ ⟨rfl, -⟩
    refine (ih fun m hm => hnames m (List.mem_cons_of_mem _ hm)).bind ?_
    rintro count _ ⟨rfl, -⟩
    exact safe_pure ⟨rfl, trivial⟩

/-- What a sweep looks at are names of nodes. -/
theorem safe_candidates (hc : S.Hosts c) :
    S.discipline.Safe (Free fun r => ∀ paths, r = .ok paths →
      ∃ names : List Text, paths = names.map c.directory.child ∧ ∀ n ∈ names, IsName n)
      c.candidates .nothing := by
  have hnone : ∀ paths, (Except.ok [] : Except Cause (List Path)) = .ok paths →
      ∃ names : List Text, paths = names.map c.directory.child ∧ ∀ n ∈ names, IsName n := by
    intro paths h
    cases h
    exact ⟨[], rfl, fun _ h => absurd h List.not_mem_nil⟩
  unfold candidates
  refine (safe_isDirectory fun _ => rfl).bind ?_
  rintro there _ rfl
  cases there with
  | error e => exact safe_pure ⟨rfl, nofun⟩
  | ok there =>
    cases there with
    | false => exact safe_pure ⟨rfl, hnone⟩
    | true =>
      refine (safe_list hc).bind ?_
      rintro r _ ⟨rfl, hnames⟩
      cases r with
      | error e => exact safe_pure ⟨rfl, nofun⟩
      | ok names =>
        refine safe_pure ⟨rfl, fun paths h => ?_⟩
        cases h
        exact ⟨_, rfl, fun n hn => hnames names rfl n (List.mem_filter.1 hn).1⟩

theorem safe_sweep (hc : S.Hosts c) :
    S.discipline.Safe (Free fun r => ∃ last, r.2 = { c with lastSweep := last }) c.sweep .nothing := by
  unfold sweep
  refine (safe_now (Q := fun _ h => h = .nothing) fun _ => rfl).bind ?_
  rintro now _ rfl
  refine (safe_candidates hc).bind ?_
  rintro r _ ⟨rfl, hpaths⟩
  cases r with
  | error e =>
    refine (safe_note _).bind ?_
    rintro done _ ⟨rfl, -⟩
    exact safe_pure ⟨rfl, _, rfl⟩
  | ok paths =>
    obtain ⟨names, rfl, hnames⟩ := hpaths paths rfl
    refine (safe_evictAll hc now hnames).bind ?_
    rintro count _ ⟨rfl, -⟩
    dsimp only
    split
    · exact safe_pure ⟨rfl, _, rfl⟩
    · refine (safe_note _).bind ?_
      rintro done _ ⟨rfl, -⟩
      exact safe_pure ⟨rfl, _, rfl⟩

theorem safe_sweepIfDue (hc : S.Hosts c) :
    S.discipline.Safe (Free fun c' => ∃ last, c' = { c with lastSweep := last }) c.sweepIfDue
      .nothing := by
  unfold sweepIfDue
  refine (safe_now (Q := fun _ h => h = .nothing) fun _ => rfl).bind ?_
  rintro now _ rfl
  show S.discipline.Safe _ (if c.isDue now then _ else _) _
  split
  · refine (safe_sweep hc).bind ?_
    rintro r _ ⟨rfl, hr⟩
    exact safe_pure ⟨rfl, hr⟩
  · exact safe_pure ⟨rfl, c.lastSweep, rfl⟩

/-! ## Looking for entries -/

/-- Looking for the entry of an asset breaks down just where its path is too long. -/
theorem safe_lookup (hc : S.Hosts c) (hk : S.Tells c k) :
    S.discipline.Safe (Free fun r =>
      (Fits c.directory (c.entryName k) ∧
        (r = .ok none ∨ ∃ t, r = .ok (some ⟨c.keyOf k, c.pathOf (c.keyOf k), t⟩))) ∨
      ∃ t, r = .error t ∧ ¬ Fits c.directory (c.entryName k)) (c.lookup (c.keyOf k)) .nothing := by
  have hstatus : S.discipline.Safe (Free fun r : Except Cause Status =>
      (Fits c.directory (c.entryName k) ∧ (r = .error .absent ∨ ∃ s, r = .ok s)) ∨
        (¬ Fits c.directory (c.entryName k) ∧ ∃ e, e ≠ .absent ∧ r = .error e))
      (Script.status (c.pathOf (c.keyOf k)).toText) .nothing := by
    refine safe_look (fun _ => rfl) fun w hw _ => ⟨rfl, ?_⟩
    rw [pathOf_keyOf]
    by_cases hf : Fits c.directory (c.entryName k)
    · refine Or.inl ⟨hf, ?_⟩
      obtain hnone | ⟨content, t, x, hfile⟩ := hw.entry hk
      · exact Or.inl (hf.status_absent hc.clean (hc.means hw) hnone)
      · exact Or.inr ⟨_, hf.status_file hc.clean (hc.means hw) hfile⟩
    · exact Or.inr ⟨hf, FileSystem.status_of_not_fits (c.isName_entry k) hf⟩
  unfold lookup
  refine hstatus.bind ?_
  rintro r _ ⟨rfl, ⟨hf, rfl | ⟨s, rfl⟩⟩ | ⟨hf, e, he, rfl⟩⟩
  · exact safe_pure ⟨rfl, Or.inl ⟨hf, Or.inl rfl⟩⟩
  · refine (safe_now (Q := fun _ h => h = .nothing) fun _ => rfl).bind ?_
    rintro now _ rfl
    split
    · exact safe_pure ⟨rfl, Or.inl ⟨hf, Or.inl rfl⟩⟩
    · exact safe_pure ⟨rfl, Or.inl ⟨hf, Or.inr ⟨_, rfl⟩⟩⟩
  · cases e with
    | absent => exact absurd rfl he
    | _ => exact safe_pure ⟨rfl, Or.inr ⟨_, rfl, hf⟩⟩

/-- Looking for anything is safe. -/
theorem safe_lookup_any (c : AssetCache) (key : Text) :
    S.discipline.Safe (Free fun _ => True) (c.lookup key) .nothing := by
  unfold lookup
  refine (safe_status (Q := fun _ h => h = .nothing) fun _ => rfl).bind ?_
  rintro r _ rfl
  cases r with
  | error e => cases e <;> exact safe_pure ⟨rfl, trivial⟩
  | ok s =>
    refine (safe_now (Q := fun _ h => h = .nothing) fun _ => rfl).bind ?_
    rintro now _ rfl
    exact safe_pure ⟨rfl, trivial⟩

/-! ## Putting pictures -/

/-- The current directory stays what it is. -/
theorem safe_canonical : S.discipline.Safe (fun r h' => h' = h ∧
    r = .ok (FileSystem.rootPath S.files.current)) (Script.canonical ['.']) h := by
  refine safe_look (fun _ => rfl) fun w hw _ => ⟨rfl, ?_⟩
  show w.files.canonical ['.'] = _
  rw [FileSystem.canonical_here, hw.kept.current]

/-- A fresh number is nobody else's. -/
theorem safe_draft : S.discipline.Safe (fun n h' => h' = .number n) Script.draft .nothing := by
  refine safe_ask fun w hw hh => ⟨.number w.drafts, ?_, rfl⟩
  have ht : S.Touches .nothing w (w.perform .draft).2 := touches_same hw.sound rfl (Nat.le_succ _)
  refine ht.allows hw hh ⟨Nat.lt_succ_self _, hw.vacant _ (Nat.le_refl _)⟩ fun n hn => Or.inr ?_
  cases hn
  exact Nat.le_refl _

/-- A file is made in the directory that the path of the first files means, if it means one. -/
theorem safe_create (hc : S.Hosts c) (n : Nat) :
    S.discipline.Safe (fun r h' =>
      (r = .ok () ∧ Fits (S.stage c) (scratchName n) ∧
        ∃ q, S.files.MeansDirectory (S.stage c) q ∧ h' = .draft n q) ∨
      ∃ e, r = .error e ∧ h' = .nothing ∧
        ¬ (Fits (S.stage c) (scratchName n) ∧ ∃ q, S.files.MeansDirectory (S.stage c) q))
      (Script.create (S.scratch c n)) (.number n) := by
  refine safe_ask fun w hw hh => ?_
  have hrun : w.perform (.create (S.scratch c n)) =
      w.change (w.files.create w.clock ((S.stage c).child (scratchName n)).toText) := rfl
  by_cases hstage : Fits (S.stage c) (scratchName n) ∧ ∃ q, S.files.MeansDirectory (S.stage c) q
  · obtain ⟨hf, q, hm⟩ := hstage
    have hm' := hw.means hm
    rw [hf.create_absent hc.stage_clean hm' (hh.2 q)] at hrun
    rw [hrun]
    have ht : S.Touches (.number n) w
        { w with files := w.files.put (q ++ [scratchName n]) (.file (.text []) w.clock false) } :=
      touches_own hw.sound rfl (Or.inl (hh.2 q)) (FileSystem.isName_child hw.sound hm' hf.name) _ _ _
    refine ⟨.draft n q, ht.allows hw hh ⟨⟨hh.1, fun q' hq' => ?_⟩, ?_⟩ fun m hm => Or.inl hm,
      Or.inl ⟨rfl, hf, q, hm, rfl⟩⟩
    · exact (FileSystem.get?_put_of_ne (by simp) (fun e => hq' (concat_inj e).1) _).trans (hh.2 q')
    · exact Or.inr ⟨_, _, _, FileSystem.get?_put_self (by simp) _⟩
  · cases hcreate : w.files.create w.clock ((S.stage c).child (scratchName n)).toText with
    | ok fs =>
      obtain ⟨q, hm, hf, -⟩ := FileSystem.create_child_ok hw.sound hc.stage_clean
        (isDown_scratchName n) hcreate
      exact absurd ⟨hf, q, hw.kept.meansDirectory hm⟩ hstage
    | error e =>
      rw [hcreate] at hrun
      rw [hrun]
      have ht : S.Touches (.number n) w w := touches_same hw.sound rfl (Nat.le_refl _)
      exact ⟨.nothing, ht.allows hw hh trivial fun _ => nofun, Or.inr ⟨e, rfl, rfl, hstage⟩⟩

section
variable {n : Nat} (hc : S.Hosts c) (hf : Fits (S.stage c) (scratchName n))
  (hm : S.files.MeansDirectory (S.stage c) q)
include hc hf hm

/-- Filling the own file is safe, and it holds what it is filled with, if it is still there. -/
theorem safe_fill (content : Content) {h' : Hold} (hh' : h' = .draft n q ∨ h' = .whole n q content) :
    S.discipline.Safe (fun _ g => g = h') (Script.fill (S.scratch c n) content) (.draft n q) := by
  refine safe_ask fun w hw hh => ⟨h', ?_, rfl⟩
  have hm' := hw.means hm
  have hrun : (w.perform (.fill (S.scratch c n) content)).2 =
      { w with files := w.files.fill w.clock ((S.stage c).child (scratchName n)).toText content } := rfl
  have hnumber : ∀ m, h'.number? = some m → (Hold.draft n q).number? = some m ∨ w.drafts ≤ m := by
    intro m hm
    obtain rfl | rfl := hh'
    · exact Or.inl hm
    · exact Or.inl hm
  rw [hrun]
  obtain ⟨honly, hnone | ⟨c₀, t, x, hfile⟩⟩ := hh
  · rw [hf.fill_absent hc.stage_clean hm' hnone]
    have ht : S.Touches (.draft n q) w { w with files := w.files } :=
      touches_same hw.sound rfl (Nat.le_refl _)
    refine ht.allows hw ⟨honly, Or.inl hnone⟩ ?_ hnumber
    obtain rfl | rfl := hh'
    · exact ⟨honly, Or.inl hnone⟩
    · exact ⟨honly, fun node hnode => nomatch hnone.symm.trans hnode⟩
  · have hnode : w.files.AtMostFile (q ++ [scratchName n]) := Or.inr ⟨c₀, t, x, hfile⟩
    rw [hf.fill_file hc.stage_clean hm' hfile]
    have ht : S.Touches (.draft n q) w
        { w with files := w.files.put (q ++ [scratchName n]) (.file content w.clock x) } :=
      touches_own hw.sound rfl hnode (FileSystem.isName_child hw.sound hm' hf.name) _ _ _
    have honly' : OnlyIn n q
        { w with files := w.files.put (q ++ [scratchName n]) (.file content w.clock x) } :=
      ⟨honly.1, fun q' hq' => (FileSystem.get?_put_of_ne (by simp) (fun e => hq' (concat_inj e).1)
        _).trans (honly.2 q' hq')⟩
    refine ht.allows hw ⟨honly, hnode⟩ ?_ hnumber
    obtain rfl | rfl := hh'
    · exact ⟨honly', Or.inr ⟨_, _, _, FileSystem.get?_put_self (by simp) _⟩⟩
    · refine ⟨honly', fun node hnode => ⟨w.clock, x, ?_⟩⟩
      exact Option.some.inj (hnode.symm.trans (FileSystem.get?_put_self (by simp) _))

theorem safe_writeParts (content : Content) (parts : Nat) :
    S.discipline.Safe (fun _ h' => h' = .whole n q content)
      (writeParts (S.scratch c n) content parts) (.draft n q) := by
  induction parts with
  | zero => exact safe_fill hc hf hm content (Or.inr rfl)
  | succ parts ih =>
    rw [writeParts]
    refine (safe_fill hc hf hm (.fragment content) (Or.inl rfl)).bind ?_
    rintro done _ rfl
    exact ih

/-- Moving the own file makes it the entry, unless it was swept away. -/
theorem safe_rename (hk : S.Tells c k) (hfits : Fits c.directory (c.entryName k)) {content : Content}
    (hrender : S.render k = .ok content) :
    S.discipline.Safe (fun r h' =>
      (r = .ok () ∧ h' = .nothing) ∨ (r = .error .absent ∧ h' = .number n))
      (Script.rename (S.scratch c n) (c.pathOf (c.keyOf k)).toText) (.whole n q content) := by
  refine safe_ask fun w hw hh => ?_
  have hm' := hw.means hm
  have hentry := hw.entry hk
  obtain ⟨a, ha, hname, rfl⟩ := hk
  have hrun : w.perform (.rename (S.scratch c n) (c.pathOf (c.keyOf a.2)).toText) =
      w.change (w.files.rename ((S.stage c).child (scratchName n)).toText
        (c.pathOf (c.keyOf a.2)).toText) := rfl
  rw [pathOf_keyOf] at hrun ⊢
  cases hown : w.files.get? (q ++ [scratchName n]) with
  | none =>
    rw [hf.rename_absent hc.stage_clean hm' hown] at hrun
    rw [hrun]
    have ht : S.Touches (.whole n q content) w w := touches_same hw.sound rfl (Nat.le_refl _)
    refine ⟨.number n, ht.allows hw hh ⟨hh.1.1, fun q' => ?_⟩ fun m hm => Or.inl hm,
      Or.inr ⟨rfl, rfl⟩⟩
    by_cases hq' : q' = q
    · rw [hq', hown]
    · exact hh.1.2 q' hq'
  | some node =>
    obtain ⟨t, x, rfl⟩ := hh.2 _ hown
    have hne : q ++ [scratchName n] ≠ S.place ++ [c.entryName a.2] := fun e =>
      scratchName_ne_entryName n a.2 (concat_inj e).2
    rw [hf.rename_onto hc.stage_clean hm' hown hfits hc.clean (hc.means hw) hentry hne] at hrun
    rw [hrun]
    refine ⟨.nothing, ?_, Or.inl ⟨rfl, rfl⟩⟩
    rw [← hname] at hentry ⊢
    have ht : S.Touches (.whole n q content) w
        { w with
          files := (w.files.drop (q ++ [scratchName n])).put (S.place ++ [a.1.entryName a.2])
            (.file content t x) } :=
      touches_entry hw.sound (Or.inr ⟨content, t, x, hown⟩) ha hentry
        (hname ▸ FileSystem.isName_child hw.sound (hc.means hw) hfits.name) hrender t x
    exact ht.allows hw hh trivial fun _ => nofun

/-- What was swept away need not be removed. -/
theorem safe_remove_own :
    S.discipline.Safe (Free fun r => r = .error .absent) (Script.remove (S.scratch c n))
      (.number n) := by
  refine safe_ask fun w hw hh => ?_
  have hrun : w.perform (.remove (S.scratch c n)) =
      w.change (w.files.remove ((S.stage c).child (scratchName n)).toText) := rfl
  rw [hf.remove_absent hc.stage_clean (hw.means hm) (hh.2 q)] at hrun
  rw [hrun]
  have ht : S.Touches (.number n) w w := touches_same hw.sound rfl (Nat.le_refl _)
  exact ⟨.nothing, ht.allows hw hh trivial fun _ => nofun, rfl, rfl⟩

end

/-- Whoever puts a picture is told that it is there, or that the own file could not be made or was swept
away. -/
theorem safe_promote (hc : S.Hosts c) (hk : S.Tells c k) (hfits : Fits c.directory (c.entryName k))
    {content : Content} (hrender : S.render k = .ok content) (parts : Nat) :
    S.discipline.Safe (Free (Answered S.render S.files c k)) (c.promote parts (c.keyOf k) content)
      .nothing := by
  unfold promote
  refine safe_canonical.bind ?_
  rintro _ _ ⟨rfl, rfl⟩
  refine safe_draft.bind ?_
  rintro n _ rfl
  refine (safe_create hc n).bind ?_
  rintro _ _ (⟨rfl, hf, q, hm, rfl⟩ | ⟨e, rfl, rfl, hstage⟩)
  · refine (safe_writeParts hc hf hm content parts).bind ?_
    rintro done _ rfl
    refine (safe_rename hc hf hm hk hfits hrender).bind ?_
    rintro _ _ (⟨rfl, rfl⟩ | ⟨rfl, rfl⟩)
    · exact safe_pure ⟨rfl, .found⟩
    · refine (safe_remove_own hc hf hm).bind ?_
      rintro _ _ ⟨rfl, rfl⟩
      exact safe_pure ⟨rfl, .swept⟩
  · exact safe_pure ⟨rfl, .unstaged hstage⟩

/-! ## Calls -/

theorem answered_of_touch {render : Renderer} {fs : FileSystem} {answer : CacheAnswer}
    {last : Option Time} (h : Answered render fs { c with lastSweep := last } k answer) :
    Answered render fs c k answer := by
  cases h with
  | found => exact .found
  | refused h => exact .refused h
  | noData h hempty => exact .noData h hempty
  | unstaged h => exact .unstaged h
  | swept => exact .swept
  | tooLong h => exact .tooLong h

theorem replied_of_touch {render : Renderer} {fs : FileSystem} {reply : Except Fault CacheAnswer}
    {last : Option Time} (h : Replied render fs { c with lastSweep := last } k reply) :
    Replied render fs c k reply := by
  cases h with
  | unwritable h => exact .unwritable h
  | answered h => exact .answered (answered_of_touch h)

theorem safe_getOrCreate (hc : S.Hosts c) (hk : S.Tells c k) (parts : Nat) :
    S.discipline.Safe (Free fun r =>
      Answered S.render S.files c k r.1 ∧ ∃ last, r.2 = { c with lastSweep := last })
      (c.getOrCreate S.render parts k) .nothing := by
  unfold getOrCreate
  refine (safe_sweepIfDue hc).bind ?_
  rintro c' _ ⟨rfl, last, rfl⟩
  have hc' := hc.touch last
  have hk' : S.Tells { c with lastSweep := last } k := hk
  refine (safe_lookup hc' hk').bind ?_
  rintro _ _ ⟨rfl, ⟨hfits, rfl | ⟨t, rfl⟩⟩ | ⟨t, rfl, hfits⟩⟩
  · dsimp only
    cases hrender : S.render k with
    | error f => exact safe_pure ⟨rfl, .refused hrender, last, rfl⟩
    | ok content =>
      dsimp only
      split
      · rename_i hempty
        exact safe_pure ⟨rfl, .noData hrender hempty, last, rfl⟩
      · refine (safe_promote hc' hk' hfits hrender parts).bind ?_
        rintro answer _ ⟨rfl, hanswer⟩
        exact safe_pure ⟨rfl, answered_of_touch hanswer, last, rfl⟩
  · exact safe_pure ⟨rfl, .found, last, rfl⟩
  · exact safe_pure ⟨rfl, .tooLong hfits, last, rfl⟩

theorem safe_request (hc : S.Hosts c) (hk : S.Tells c k) (parts : Nat) :
    S.discipline.Safe (Free fun r =>
      Replied S.render S.files c k r.1 ∧ ∃ last, r.2 = { c with lastSweep := last })
      (c.request S.render parts k) .nothing := by
  unfold request
  cases hsize : intText? k.size with
  | none =>
    refine (safe_sweepIfDue hc).bind ?_
    rintro c' _ ⟨rfl, last, rfl⟩
    exact safe_pure ⟨rfl, .unwritable hsize, last, rfl⟩
  | some digits =>
    refine (safe_getOrCreate hc hk parts).bind ?_
    rintro r _ ⟨rfl, hanswer, hlast⟩
    exact safe_pure ⟨rfl, .answered hanswer, hlast⟩

/-- Every asset that is asked for is answered, and the site is as tidy as ever. -/
theorem safe_session (hc : S.Hosts c) {calls : List Call}
    (hcalls : ∀ call ∈ calls, ∀ k ∈ call.asset?, S.Tells c k) :
    S.discipline.Safe (Free fun replies => replies.map Prod.fst = calls.filterMap Call.asset? ∧
      ∀ reply ∈ replies, Replied S.render S.files c reply.1 reply.2)
      (session c S.render calls) .nothing := by
  induction calls generalizing c with
  | nil => exact safe_pure ⟨rfl, rfl, fun _ h => absurd h List.not_mem_nil⟩
  | cons call calls ih =>
    have hrest : ∀ call ∈ calls, ∀ k ∈ call.asset?, S.Tells c k := fun call hcall =>
      hcalls call (List.mem_cons_of_mem _ hcall)
    cases call with
    | get k parts =>
      rw [session]
      refine (safe_request hc (hcalls _ (List.mem_cons_self ..) k rfl) parts).bind ?_
      rintro ⟨reply, c'⟩ _ ⟨rfl, hreply, last, rfl⟩
      refine (ih (hc.touch last) hrest).bind ?_
      rintro replies _ ⟨rfl, hkeys, hreplies⟩
      refine safe_pure ⟨rfl, congrArg (k :: ·) hkeys, fun r hr => ?_⟩
      obtain rfl | hr := List.mem_cons.1 hr
      · exact hreply
      · exact replied_of_touch (hreplies r hr)
    | lookup key =>
      rw [session]
      refine (safe_lookup_any c key).bind ?_
      rintro found _ ⟨rfl, -⟩
      exact ih hc hrest
    | sweep =>
      rw [session]
      refine (safe_sweep hc).bind ?_
      rintro ⟨count, c'⟩ _ ⟨rfl, last, rfl⟩
      refine (Discipline.Safe.mono (ih (hc.touch last) hrest)) ?_
      rintro replies _ ⟨rfl, hkeys, hreplies⟩
      exact ⟨rfl, hkeys, fun r hr => replied_of_touch (hreplies r hr)⟩

end

end Site

end MailMerge.AssetCache
