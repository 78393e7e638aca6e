import MailMerge.Proofs.Storage.Walk
import MailMerge.Proofs.Text.Cutting
/-!
# Places of paths

* `locate_toText`: the path from the root that is written from a place means that place.
* `canonical_again`: the canonical path of a file means the same file, unless it is too long to be
  followed.
-/
namespace MailMerge

namespace FileSystem

/-- Whether a text can be the name of a node. -/
structure IsName (n : Text) : Prop extends IsStep n where
  ne_nil : n ≠ []
  no_slash : '/' ∉ n
  no_null : '\x00' ∉ n

/-- Whether a file system is as an operating system keeps it: nodes have names, the current
directory is there, and no link holds a null character. -/
structure IsSound (fs : FileSystem) : Prop where
  names : ∀ p node, fs.get? p = some node → ∀ n ∈ p, IsName n
  current : fs.Chain fs.current
  targets : ∀ p target, fs.get? p = some (.link target) → '\x00' ∉ target

theorem steps_names {t : Text} : ∀ n ∈ (steps t).2, n ≠ [] ∧ '/' ∉ n ∧ ('\x00' ∈ n → '\x00' ∈ t) := by
  intro n hn
  have hpiece : n ∈ (Text.splitOn '/' t).filter (!·.isEmpty) →
      n ≠ [] ∧ '/' ∉ n ∧ ('\x00' ∈ n → '\x00' ∈ t) := by
    intro hn
    obtain ⟨hmem, hne⟩ := List.mem_filter.1 hn
    refine ⟨?_, Text.not_mem_of_mem_splitOn n hmem, Text.mem_of_mem_splitOn n hmem⟩
    rintro rfl
    cases hne
  unfold steps at hn
  dsimp only at hn
  split at hn
  · rcases List.mem_append.1 hn with hn | hn
    · exact hpiece hn
    · rw [List.mem_singleton.1 hn]
      exact ⟨by decide, by decide, fun h => absurd h (by decide)⟩
  · exact hpiece hn

section
variable {fs : FileSystem} {follow : Bool} {links : Nat} {p q : Place} {names : List Text}

theorem Leads.isName (h : Leads fs follow links p names q) (hs : fs.IsSound)
    (hp : ∀ n ∈ p, IsName n) (hn : ∀ n ∈ names, n ≠ [] ∧ '/' ∉ n ∧ '\x00' ∉ n) :
    ∀ n ∈ q, IsName n := by
  have concat : ∀ {p : Place} {n : Text}, (∀ m ∈ p, IsName m) → IsStep n →
      (n ≠ [] ∧ '/' ∉ n ∧ '\x00' ∉ n) → ∀ m ∈ p ++ [n], IsName m := by
    intro p n hp hstep ⟨h1, h2, h3⟩ m hm
    rcases List.mem_append.1 hm with hm | hm
    · exact hp m hm
    · rw [List.mem_singleton.1 hm]
      exact { toIsStep := hstep, ne_nil := h1, no_slash := h2, no_null := h3 }
  induction h with
  | done => exact hp
  | stay _ ih => exact ih hp fun n h => hn n (List.mem_cons_of_mem _ h)
  | up _ ih =>
    exact ih (fun n h => hp n (List.dropLast_subset _ h)) fun n h => hn n (List.mem_cons_of_mem _ h)
  | missing hstep => exact concat hp hstep (hn _ (List.mem_singleton_self _))
  | file hstep => exact concat hp hstep (hn _ (List.mem_singleton_self _))
  | enter hstep _ _ ih =>
    exact ih (concat hp hstep (hn _ (List.mem_cons_self ..))) fun n h =>
      hn n (List.mem_cons_of_mem _ h)
  | stop hstep => exact concat hp hstep (hn _ (List.mem_singleton_self _))
  | @jump links p m target rest q _ hg _ _ ih =>
    refine ih ?_ fun n h => ?_
    · unfold jumpFrom
      split
      · exact fun n h => absurd h List.not_mem_nil
      · exact hp
    · rcases List.mem_append.1 h with h | h
      · obtain ⟨h1, h2, h3⟩ := steps_names n h
        exact ⟨h1, h2, fun hz => hs.targets _ _ hg (h3 hz)⟩
      · exact hn n (List.mem_cons_of_mem _ h)

/-! ## Paths -/

/-- The place where the way of a path begins. -/
def origin (fs : FileSystem) (t : Text) : Place := if (steps t).1 then [] else fs.current

theorem locate_eq_ok_iff {t : Text} :
    fs.locate follow t = .ok q ↔
      '\x00' ∉ t ∧ t ≠ [] ∧ Text.byteLength t ≤ maxPath ∧
        Leads fs follow maxLinks (fs.origin t) (steps t).2 q := by
  unfold locate
  by_cases hz : '\x00' ∈ t
  · have : t.contains '\x00' = true := by simpa using hz
    rw [if_pos this]
    simp [hz]
  · have hz' : ¬ t.contains '\x00' = true := by simpa using hz
    rw [if_neg hz']
    by_cases he : t = []
    · subst he
      simp
    · have he' : ¬ t.isEmpty = true := by simpa using he
      rw [if_neg he']
      by_cases hl : maxPath < Text.byteLength t
      · rw [if_pos hl]
        simp only [reduceCtorEq, false_iff]
        omega
      · rw [if_neg hl]
        simp only [hz, not_false_eq_true, ne_eq, he, Nat.not_lt.1 hl, true_and]
        exact walk_eq_ok_iff

theorem isName_of_origin (hs : fs.IsSound) (t : Text) : ∀ n ∈ fs.origin t, IsName n := by
  unfold origin
  split
  · exact fun n h => absurd h List.not_mem_nil
  · obtain ⟨time, ht⟩ := hs.current.isDirectory
    exact hs.names _ _ ht

theorem chain_origin (hs : fs.IsSound) (t : Text) : fs.Chain (fs.origin t) := by
  unfold origin
  split
  · exact chain_nil
  · exact hs.current

theorem isName_of_locate (hs : fs.IsSound) {t : Text} (h : fs.locate follow t = .ok q) :
    ∀ n ∈ q, IsName n := by
  obtain ⟨hz, -, -, h⟩ := locate_eq_ok_iff.1 h
  refine h.isName hs (isName_of_origin hs t) fun n hn => ?_
  obtain ⟨h1, h2, h3⟩ := steps_names n hn
  exact ⟨h1, h2, fun h => hz (h3 h)⟩

end

/-! ## Paths from the root -/

/-- The path from the root of a place. -/
def rootPath (p : Place) : Text := '/' :: Text.join ['/'] p

section
variable {fs : FileSystem} {follow : Bool} {p : Place}

theorem steps_rootPath (hp : ∀ n ∈ p, IsName n) (hne : p ≠ []) :
    steps (rootPath p) = (true, p) := by
  have hslash : ∀ n ∈ p, '/' ∉ n := fun n hn => (hp n hn).no_slash
  have hsplit : Text.splitOn '/' (rootPath p) = [] :: p := by
    rw [rootPath, Text.splitOn, if_pos rfl, Text.splitOn_join hslash hne]
  have hfilter : ([] :: p).filter (!·.isEmpty) = p := by
    rw [List.filter_cons_of_neg (by simp), List.filter_eq_self]
    intro n hn
    simpa using (hp n hn).ne_nil
  have hlast : (rootPath p).getLast? ≠ some '/' := by
    obtain ⟨n, r, rfl⟩ := List.exists_cons_of_ne_nil hne
    have hn := (hp n (List.mem_cons_self ..)).ne_nil
    have happ : rootPath (n :: r) = ['/'] ++ Text.join ['/'] (n :: r) := rfl
    rw [happ, Text.getLast?_append_of_ne_nil _ (Text.join_ne_nil hn)]
    exact Text.getLast?_join fun m hm => ⟨(hp m hm).ne_nil, (hp m hm).no_slash⟩
  unfold steps
  dsimp only
  rw [hsplit, hfilter, if_neg hlast]
  simp [rootPath]

theorem null_not_mem_rootPath (hp : ∀ n ∈ p, IsName n) : '\x00' ∉ rootPath p := by
  intro h
  rcases List.mem_cons.1 h with h | h
  · exact absurd h (by decide)
  · rcases Text.mem_join h with h | ⟨n, hn, h⟩
    · exact absurd h (by decide)
    · exact (hp n hn).no_null h

/-- The path from the root of a place means that place, if the way down to it is open. -/
theorem locate_rootPath {q : Place} {n : Text} (hp : ∀ m ∈ q ++ [n], IsName m) (hq : fs.Chain q)
    (hlen : Text.byteLength (rootPath (q ++ [n])) ≤ maxPath)
    (hstep : Leads fs follow maxLinks q [n] (q ++ [n])) :
    fs.locate follow (rootPath (q ++ [n])) = .ok (q ++ [n]) := by
  have hsteps := steps_rootPath hp (by simp)
  refine locate_eq_ok_iff.2 ⟨null_not_mem_rootPath hp, by simp [rootPath], hlen, ?_⟩
  unfold origin
  rw [hsteps, if_pos rfl]
  refine leads_of_chain (fun m hm => (hp m (List.mem_append_left _ hm)).toIsStep) ?_ ?_
  · rwa [List.nil_append]
  · rwa [List.nil_append]

theorem ofText_rootPath (hp : ∀ n ∈ p, IsName n) (hne : p ≠ []) :
    Path.ofText (rootPath p) = { root := ['/'], names := p } := by
  have hslash : ∀ n ∈ p, '/' ∉ n := fun n hn => (hp n hn).no_slash
  have hnames : Path.namesOf (rootPath p) = p := by
    rw [Path.namesOf, rootPath, Text.splitOn, if_pos rfl, Text.splitOn_join hslash hne,
      List.filter_cons_of_neg (by simp), List.filter_eq_self]
    intro n hn
    simpa using ⟨(hp n hn).ne_nil, (hp n hn).ne_here⟩
  have hcount : (rootPath p).takeWhile (· == '/') = ['/'] := by
    obtain ⟨n, r, rfl⟩ := List.exists_cons_of_ne_nil hne
    have hn := hp n (List.mem_cons_self ..)
    obtain ⟨c, n', rfl⟩ := List.exists_cons_of_ne_nil hn.ne_nil
    have hc : (c == '/') = false := by
      rw [beq_eq_false_iff_ne]
      exact fun e => hn.no_slash (e ▸ List.mem_cons_self ..)
    cases r <;> simp [rootPath, Text.join, hc]
  unfold Path.ofText
  dsimp only
  rw [hcount, hnames]
  rfl

theorem toText_ofText_rootPath (hp : ∀ n ∈ p, IsName n) (hne : p ≠ []) :
    (Path.ofText (rootPath p)).toText = rootPath p := by
  rw [ofText_rootPath hp hne]
  rfl

/-- The canonical path of the current directory is written from its place. -/
theorem canonical_here (fs : FileSystem) : fs.canonical ['.'] = .ok (rootPath fs.current) := by
  have hleads : Leads fs true maxLinks (fs.origin ['.']) (steps ['.']).2 fs.current :=
    .stay .done
  have hloc : fs.locate true ['.'] = .ok fs.current :=
    locate_eq_ok_iff.2 ⟨by decide, by decide, by decide, hleads⟩
  unfold canonical
  rw [hloc]
  rfl

/-- The canonical path of a file means the same file again, unless it is too long to follow. -/
theorem canonical_again (hs : fs.IsSound) {t file : Text} {s : Status}
    (hstatus : fs.status t = .ok s) (hfile : s.isDirectory = false)
    (hc : fs.canonical t = .ok file) :
    (Path.ofText file).toText = file ∧
      ((fs.status file = .ok s ∧ fs.canonical file = .ok file) ∨
        fs.status file = .error .nameTooLong) := by
  unfold canonical at hc
  cases hloc : fs.locate true t with
  | error c => rw [hloc] at hc; cases hc
  | ok p =>
    rw [hloc] at hc
    have hpath : rootPath p = file := Except.ok.inj hc
    have hnames := isName_of_locate hs hloc
    -- a file stands at the place
    obtain ⟨c, m, x, hget, rfl⟩ : ∃ c m x, fs.get? p = some (.file c m x) ∧ s = ⟨false, m, x⟩ := by
      unfold status find at hstatus
      rw [hloc] at hstatus
      simp only [bind, Except.bind] at hstatus
      cases hg : fs.get? p with
      | none => rw [hg] at hstatus; cases hstatus
      | some node =>
        rw [hg] at hstatus
        cases node with
        | directory m =>
          cases hstatus
          cases hfile
        | file c m x =>
          cases hstatus
          exact ⟨c, m, x, rfl, rfl⟩
        | link target => cases hstatus
    obtain ⟨-, -, -, hleads⟩ := locate_eq_ok_iff.1 hloc
    obtain ⟨q, n, rfl, hq, hn, -⟩ : ∃ q n, p = q ++ [n] ∧ fs.Chain q ∧ IsStep n ∧
        ¬ fs.IsDirectory p := by
      refine (hleads.open_or (chain_origin hs t)).resolve_left fun hchain => ?_
      obtain ⟨time, ht⟩ := hchain.isDirectory
      rw [hget] at ht
      cases ht
    rw [← hpath]
    refine ⟨toText_ofText_rootPath hnames (by simp), ?_⟩
    by_cases hlen : Text.byteLength (rootPath (q ++ [n])) ≤ maxPath
    · have hagain : fs.locate true (rootPath (q ++ [n])) = .ok (q ++ [n]) :=
        locate_rootPath hnames hq hlen (.file hn hget)
      refine Or.inl ⟨?_, ?_⟩
      · simp only [status, find, hagain, bind, Except.bind, hget]
      · simp only [canonical, hagain, bind, Except.bind]
        rfl
    · refine Or.inr ?_
      have hloc' : fs.locate true (rootPath (q ++ [n])) = .error .nameTooLong := by
        have hz := null_not_mem_rootPath hnames
        unfold locate
        rw [if_neg (by simpa using hz), if_neg (by simp [rootPath]), if_pos (Nat.lt_of_not_le hlen)]
      simp only [status, find, hloc', bind, Except.bind]

end

end FileSystem

end MailMerge
