import MailMerge.Proofs.Storage.Operations
import MailMerge.Proofs.Storage.Trails
/-!
# What a new file does to ways

A file that is put where nothing was, or a file, changes no way. It is found by the path that it was
made with, whatever has been written into it, and removing a new one gives back the file system as it
was before. A file that is put in the place of a link ends every way that led on from there.

* `locate_put_file`: a file where no directory and no link was changes no way.
* `find_put_file`, `fill_of_find`: the file is found, and writing into it changes what it holds.
* `remove_put_file`: without the file everything is as it was.
* `MeansDirectory.put_file`, `status_child_put_file`: a file put under a name in a directory is found
  there, unless the way to the directory leads through it.
-/
namespace MailMerge

namespace Table

variable {κ α : Type} [DecidableEq κ]

theorem insert_insert (t : Table κ α) (x : κ) (v w : α) :
    (t.insert x v).insert x w = t.insert x w := by
  induction t with
  | nil => simp [insert]
  | cons e t ih =>
    obtain ⟨k, u⟩ := e
    by_cases h : k = x
    · simp [insert, h]
    · simp [insert, h, ih]

theorem erase_insert (t : Table κ α) (x : κ) (v : α) : (t.insert x v).erase x = t.erase x := by
  have hfilter := filter_insert t (fun k => decide (k ≠ x)) x v
  rwa [if_neg (by simp)] at hfilter

end Table

namespace FileSystem

section
variable {fs : FileSystem} {follow : Bool} {q r : Place} {t : Text} {c : Content} {m : Time} {x : Bool}

theorem put_put (fs : FileSystem) (q : Place) (n n' : Node) :
    (fs.put q n).put q n' = fs.put q n' := by
  simp only [put, Table.insert_insert]

theorem drop_put (hq : fs.get? q = none) (n : Node) : (fs.put q n).drop q = fs := by
  have hne : ¬ q.isEmpty = true := by
    simpa using ne_nil_of_absent hq
  have hnone : Table.get? fs.nodes q = none := by
    rwa [get?, if_neg hne] at hq
  simp only [put, drop, Table.erase_insert, Table.erase_of_get?_eq_none hnone]

/-- A file where there was nothing, or a file, stands in no way. -/
theorem Leads.put_file {links : Nat} {p : Place} {names : List Text}
    (h : Leads fs follow links p names q) (hr : fs.AtMostFile r) :
    Leads (fs.put r (.file c m x)) follow links p names q := by
  have hne := ne_nil_of_not_isDirectory hr.not_isDirectory
  -- directories and links stay where they are
  have hthere : ∀ {s : Place} {node : Node}, (∀ c t x, node ≠ .file c t x) →
      fs.get? s = some node → (fs.put r (.file c m x)).get? s = some node := by
    intro s node hnode hs
    rw [get?_put_of_ne hne, hs]
    rintro rfl
    obtain hnone | ⟨c', t, x', hfile⟩ := hr
    · cases hnone.symm.trans hs
    · exact hnode _ _ _ (Option.some.inj (hs.symm.trans hfile))
  induction h with
  | done => exact .done
  | stay _ ih => exact .stay ih
  | up _ ih => exact .up ih
  | @missing links p n hn hg =>
    by_cases hs : p ++ [n] = r
    · exact .file hn (by rw [hs, get?_put_self hne])
    · exact .missing hn (by rw [get?_put_of_ne hne hs, hg])
  | @file links p n c' m' x' hn hg =>
    by_cases hs : p ++ [n] = r
    · exact .file hn (by rw [hs, get?_put_self hne])
    · exact .file hn (by rw [get?_put_of_ne hne hs, hg])
  | enter hn hg _ ih => exact .enter hn (hthere (fun _ _ _ => nofun) hg) ih
  | stop hn hg hf => exact .stop hn (hthere (fun _ _ _ => nofun) hg) hf
  | jump hn hg hf _ ih => exact .jump hn (hthere (fun _ _ _ => nofun) hg) hf ih

/-- It opens no way, either. -/
theorem Leads.of_put_file {links : Nat} {p : Place} {names : List Text}
    (h : Leads (fs.put r (.file c m x)) follow links p names q) (hr : fs.AtMostFile r) :
    Leads fs follow links p names q := by
  have hne := ne_nil_of_not_isDirectory hr.not_isDirectory
  have hother : ∀ {s : Place}, s ≠ r → (fs.put r (.file c m x)).get? s = fs.get? s :=
    fun hs => get?_put_of_ne hne hs _
  -- directories and links are not what is new
  have hold : ∀ {s : Place} {node : Node}, (∀ c t x, node ≠ .file c t x) →
      (fs.put r (.file c m x)).get? s = some node → fs.get? s = some node := by
    intro s node hnode hs
    rwa [← hother]
    rintro rfl
    rw [get?_put_self hne, Option.some.injEq] at hs
    exact hnode _ _ _ hs.symm
  induction h with
  | done => exact .done
  | stay _ ih => exact .stay ih
  | up _ ih => exact .up ih
  | @missing links p n hn hg =>
    refine .missing hn ?_
    rw [← hother, hg]
    rintro rfl
    rw [get?_put_self hne] at hg
    cases hg
  | @file links p n c' m' x' hn hg =>
    by_cases hs : p ++ [n] = r
    · obtain hnone | ⟨c', t, x', hfile⟩ := hr
      · exact .missing hn (hs ▸ hnone)
      · exact .file hn (hs ▸ hfile)
    · exact .file hn (by rw [← hother hs, hg])
  | enter hn hg _ ih => exact .enter hn (hold (fun _ _ _ => nofun) hg) ih
  | stop hn hg hf => exact .stop hn (hold (fun _ _ _ => nofun) hg) hf
  | jump hn hg hf _ ih => exact .jump hn (hold (fun _ _ _ => nofun) hg) hf ih

theorem locate_put_file (hr : fs.AtMostFile r) :
    (fs.put r (.file c m x)).locate follow t = .ok q ↔ fs.locate follow t = .ok q := by
  have horigin : (fs.put r (.file c m x)).origin t = fs.origin t := rfl
  rw [locate_eq_ok_iff, locate_eq_ok_iff, horigin]
  have hleads : Leads (fs.put r (.file c m x)) follow maxLinks (fs.origin t) (steps t).2 q ↔
      Leads fs follow maxLinks (fs.origin t) (steps t).2 q :=
    ⟨fun h => h.of_put_file hr, fun h => h.put_file hr⟩
  rw [hleads]

/-- A file is found where it was put. -/
theorem find_put_file (h : fs.locate false t = .ok q) (hq : fs.AtMostFile q) :
    (fs.put q (.file c m x)).find false t = .ok (q, .file c m x) :=
  find_eq_ok_iff.2 ⟨(locate_put_file hq).2 h,
    get?_put_self (ne_nil_of_not_isDirectory hq.not_isDirectory) _⟩

/-- Writing into a file changes what it holds. -/
theorem fill_of_find (h : fs.find false t = .ok (q, .file c m x)) (now : Time) (c' : Content) :
    fs.fill now t c' = fs.put q (.file c' now x) := by
  unfold fill
  rw [h]

theorem remove_put_file (h : fs.locate false t = .ok q) (hq : fs.get? q = none) :
    (fs.put q (.file c m x)).remove t = .ok fs := by
  unfold remove
  rw [find_put_file h (Or.inl hq)]
  exact congrArg _ (drop_put hq _)

end

/-! ## Files in the place of others -/

section
variable {fs : FileSystem} {links : Nat} {p q s : Place} {names rest : List Text} {c : Content}
  {m : Time} {x : Bool}

/-- A way to a directory goes on when a file is put where it does not pass. -/
theorem MeansDirectory.put_file {path : Path} (h : fs.MeansDirectory path q)
    (hs : ¬ fs.IsDirectory s) (hway : s ∉ fs.trail path.toText) :
    (fs.put s (.file c m x)).MeansDirectory path q := by
  have hne := ne_nil_of_not_isDirectory hs
  obtain ⟨hloc, t, ht⟩ := h
  obtain ⟨hz, hnil, hlen, hleads⟩ := locate_eq_ok_iff.1 hloc
  refine ⟨locate_eq_ok_iff.2 ⟨hz, hnil, hlen, hleads.congr fun r hr => ?_⟩, t, ?_⟩
  · refine get?_put_of_ne hne ?_ _
    rintro rfl
    exact hway hr
  · rw [get?_put_of_ne hne, ht]
    rintro rfl
    exact hs ⟨t, ht⟩

/-- A way that passes the file ends there. -/
theorem walk_put_file (h : Leads fs true links p names q) (hq : fs.IsDirectory q)
    (hs : ¬ fs.IsDirectory s) (hway : s ∈ trailFrom fs links p names) (hrest : rest ≠ []) :
    walk (fs.put s (.file c m x)) true links p (names ++ rest) = .error .notDirectory := by
  have hne := ne_nil_of_not_isDirectory hs
  induction h with
  | done =>
    rw [trailFrom] at hway
    exact absurd hway List.not_mem_nil
  | stay _ ih =>
    rw [trailFrom_stay] at hway
    rw [List.cons_append, walk, if_neg (by decide), if_pos rfl]
    exact ih hq hway
  | up _ ih =>
    rw [trailFrom_up] at hway
    rw [List.cons_append, walk, if_neg (by decide), if_neg (by decide), if_pos rfl]
    exact ih hq hway
  | missing hn hg =>
    obtain ⟨t, ht⟩ := hq
    cases hg.symm.trans ht
  | file hn hg =>
    obtain ⟨t, ht⟩ := hq
    cases hg.symm.trans ht
  | @enter links p n t names q hn hg _ ih =>
    have hother : p ++ [n] ≠ s := by
      rintro rfl
      exact hs ⟨t, hg⟩
    rw [hn.trailFrom, hg] at hway
    rw [List.cons_append, hn.walk, get?_put_of_ne hne hother, hg]
    exact ih hq ((List.mem_cons.1 hway).resolve_left hother.symm)
  | stop hn hg hf => cases hf
  | @jump links p n target names q hn hg hf _ ih =>
    have hmore : (names ++ rest).isEmpty = false := by simp [hrest]
    rw [List.cons_append, hn.walk]
    by_cases hthere : p ++ [n] = s
    · rw [hthere, get?_put_self hne]
      simp only [hmore, Bool.false_eq_true, if_false]
    · rw [hn.trailFrom, hg] at hway
      rw [get?_put_of_ne hne hthere, hg]
      simp only [hmore, Bool.false_and, Bool.false_eq_true, if_false]
      rw [← List.append_assoc]
      exact ih hq ((List.mem_cons.1 hway).resolve_left (Ne.symm hthere))

theorem trailFrom_followed (path : Path) :
    trailFrom fs links p path.followed = trailFrom fs links p path.names := by
  unfold Path.followed
  split
  · rename_i hnames
    rw [trailFrom_stay, hnames]
  · rfl

/-- Nothing in a directory is found any more when the way to the directory led through the place of the
file. -/
theorem status_child_put_file {path : Path} {n : Text} (hp : path.IsClean) (hn : Path.IsDown n)
    (h : fs.MeansDirectory path q) (hs : ¬ fs.IsDirectory s) (hway : s ∈ fs.trail path.toText)
    (st : Status) : (fs.put s (.file c m x)).status (path.child n).toText ≠ .ok st := by
  intro hst
  obtain ⟨hloc, hdir⟩ := h
  obtain ⟨-, -, hleads⟩ := (locate_toText hp).1 hloc
  have hpassed : s ∈ trailFrom fs maxLinks (if path.isAbsolute then [] else fs.current) path.names := by
    rwa [trail, origin_toText hp, hp.steps_toText, trailFrom_followed] at hway
  have hwalk := walk_put_file (c := c) (m := m) (x := x) hleads hdir hs hpassed
    (List.cons_ne_nil n [])
  unfold status at hst
  cases hfind : (fs.put s (.file c m x)).find true (path.child n).toText with
  | error e =>
    rw [hfind] at hst
    cases hst
  | ok found =>
    obtain ⟨r, node⟩ := found
    obtain ⟨hloc', -⟩ := find_eq_ok_iff.1 hfind
    obtain ⟨-, -, hleads'⟩ := (locate_toText (hp.child hn.part)).1 hloc'
    cases hwalk.symm.trans (walk_eq_ok_iff.2 hleads')

end

end FileSystem

end MailMerge
