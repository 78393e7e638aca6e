import MailMerge.Proofs.Storage.Paths
import MailMerge.Proofs.Storage.Running
import MailMerge.Proofs.Storage.Trails
/-!
# Looking at a path

A look tells what a path means. It fails where the path, or a name on its way, is too long; where it
ends nowhere, there is nothing. Reading a path and writing it again drops what does not lead anywhere,
so it still means what it meant, and is no longer than before.

* `probed_eq_error_iff`: when a test of a path fails.
* `locate_ofText`, `status_ofText`: what a text means, its path means as well.
* `read_iff_status`: what can be read is what a look tells to be no directory.
-/
namespace MailMerge

namespace FileSystem

variable {fs : FileSystem} {t : Text} {c : Cause}

/-- A way that ends nowhere means nothing, unless a name is too long. -/
theorem meansAbsent_of_walk {follow : Bool} {links : Nat} {p : Place} {names : List Text} :
    fs.walk follow links p names = .error c → c = .nameTooLong ∨ Script.meansAbsent c = true := by
  fun_induction walk fs follow links p names with
  | case2 =>
    intro h
    cases h
    exact Or.inl rfl
  | case3 _ _ _ _ ih => exact ih
  | case4 _ _ _ _ _ ih => exact ih
  | case7 _ _ _ _ _ _ _ _ _ _ ih => exact ih
  | case12 _ _ _ _ _ _ _ _ _ _ _ _ _ _ ih => exact ih
  | _ =>
    intro h
    cases h
    try exact Or.inr rfl

theorem meansAbsent_of_locate {follow : Bool} (h : fs.locate follow t = .error c) :
    c = .nameTooLong ∨ Script.meansAbsent c = true := by
  unfold locate at h
  split at h
  · cases h
    exact Or.inr rfl
  · split at h
    · cases h
      exact Or.inr rfl
    · split at h
      · cases h
        exact Or.inl rfl
      · exact meansAbsent_of_walk h

theorem meansAbsent_of_status (h : fs.status t = .error c) :
    c = .nameTooLong ∨ Script.meansAbsent c = true := by
  unfold status find at h
  cases hq : fs.locate true t with
  | error e =>
    rw [hq] at h
    cases h
    exact meansAbsent_of_locate hq
  | ok q =>
    rw [hq] at h
    cases hnode : fs.get? q with
    | none =>
      simp only [bind, Except.bind, hnode] at h
      cases h
      exact Or.inr rfl
    | some node =>
      simp only [bind, Except.bind, hnode] at h
      cases node <;> cases h
      exact Or.inr rfl

end FileSystem

/-- A look at a path fails just when the path, or a name on its way, is too long. -/
theorem Script.probed_eq_error_iff {test : Status → Bool} {fs : FileSystem} {t : Text} {c : Cause} :
    Script.probed test (fs.status t) = .error c ↔
      c = .nameTooLong ∧ fs.status t = .error .nameTooLong := by
  unfold probed
  cases h : fs.status t with
  | ok s => simp
  | error e =>
    rcases FileSystem.meansAbsent_of_status h with rfl | hmeans
    · exact ⟨fun h => by cases h; exact ⟨rfl, rfl⟩, fun h => by rw [h.1]; rfl⟩
    · dsimp only
      rw [if_pos hmeans]
      refine ⟨nofun, fun h => ?_⟩
      rw [Except.error.inj h.2] at hmeans
      cases hmeans

theorem Script.probed_eq_true_iff {test : Status → Bool} {r : Except Cause Status} :
    Script.probed test r = .ok true ↔ ∃ s, r = .ok s ∧ test s = true := by
  unfold probed
  cases r with
  | ok s => simp
  | error c => cases h : meansAbsent c <;> simp [h]

namespace Path

/-- The bytes of names, each with a slash. -/
def bytesOf : List Text → Nat
  | [] => 0
  | n :: r => Text.byteLength n + 1 + bytesOf r

theorem byteLength_join {l : List Text} (h : l ≠ []) :
    Text.byteLength (Text.join ['/'] l) + 1 = bytesOf l := by
  induction l with
  | nil => exact absurd rfl h
  | cons n l ih =>
    cases l with
    | nil => rfl
    | cons m l =>
      have hslash : Text.byteLength ['/'] = 1 := rfl
      have hrest := ih (List.cons_ne_nil m l)
      rw [Text.join, Text.byteLength_append, Text.byteLength_append, bytesOf]
      omega

theorem bytesOf_filter_le (p : Text → Bool) (l : List Text) : bytesOf (l.filter p) ≤ bytesOf l := by
  induction l with
  | nil => exact Nat.le_refl _
  | cons n l ih =>
    rw [List.filter_cons]
    split <;> simp only [bytesOf] <;> omega

/-- The names of a text have room between its slashes, those in front left out. -/
theorem bytesOf_namesOf_le (t : Text) :
    bytesOf (namesOf t) + (t.takeWhile (· == '/')).length ≤ Text.byteLength t + 1 := by
  have hall (t : Text) : bytesOf (namesOf t) ≤ Text.byteLength t + 1 := by
    have hjoin := byteLength_join (Text.splitOn_ne_nil '/' t)
    rw [Text.join_splitOn] at hjoin
    rw [hjoin]
    exact bytesOf_filter_le _ _
  induction t with
  | nil => exact Nat.zero_le _
  | cons c r ih =>
    by_cases hc : c = '/'
    · subst hc
      have hnames : namesOf ('/' :: r) = namesOf r := by
        rw [namesOf, Text.splitOn, if_pos rfl, List.filter_cons_of_neg (by simp)]
        rfl
      have hslash : Char.utf8Size '/' = 1 := rfl
      rw [hnames, List.takeWhile_cons_of_pos (by simp), List.length_cons, Text.byteLength_cons]
      omega
    · rw [List.takeWhile_cons_of_neg (by simpa using hc)]
      exact hall _

/-- A path is written in no more bytes than the text that it was read from. -/
theorem byteLength_toText_ofText_le {t : Text} (ht : t ≠ []) :
    Text.byteLength (ofText t).toText ≤ Text.byteLength t := by
  have hnames := bytesOf_namesOf_le t
  have hroot : Text.byteLength (ofText t).root ≤ (t.takeWhile (· == '/')).length := by
    unfold ofText
    dsimp only
    split
    · exact Nat.zero_le _
    · rename_i hsome
      split
      · rename_i htwo
        rw [htwo]
        exact Nat.le_refl 2
      · exact Nat.pos_of_ne_zero hsome
  have hpos := Text.byteLength_pos ht
  have hslashes : (t.takeWhile (· == '/')).length ≤ Text.byteLength t :=
    Nat.le_trans (List.takeWhile_prefix _).length_le (Text.length_le_byteLength t)
  by_cases hnil : (ofText t).names = []
  · rw [toText_of_names_eq_nil hnil]
    split
    · exact hpos
    · exact Nat.le_trans hroot hslashes
  · have hjoin := byteLength_join hnil
    have hnames' : (ofText t).names = namesOf t := rfl
    rw [toText_of_names_ne_nil hnil, Text.byteLength_append]
    rw [hnames'] at hjoin ⊢
    omega

end Path

namespace FileSystem

section
variable {fs : FileSystem} {t : Text}

/-- A first name that leads somewhere is still the first when names `.` behind it are left out. -/
theorem exists_cons_filter_here {n : Text} {names a r : List Text} (hn : n ≠ ['.'])
    (h : n :: names = a ++ r) : ∃ a' r', names = a' ++ r' ∧
      a ++ r.filter (· ≠ ['.']) = n :: (a' ++ r'.filter (· ≠ ['.'])) := by
  cases a with
  | nil =>
    subst h
    refine ⟨[], names, rfl, ?_⟩
    rw [List.nil_append, List.nil_append, List.filter_cons_of_pos (by simpa using hn)]
  | cons m a =>
    obtain ⟨rfl, hnames⟩ := List.cons.inj h
    exact ⟨a, r, hnames, rfl⟩

/-- The names `.` on a way can be left out. The induction is on the way; `a` is what comes before the
names to be left out, as the target of a link does. -/
theorem Leads.filter_here {links : Nat} {p q : Place} {names : List Text}
    (h : Leads fs true links p names q) : ∀ a r, names = a ++ r →
      Leads fs true links p (a ++ r.filter (· ≠ ['.'])) q := by
  induction h with
  | done =>
    intro a r hnames
    obtain ⟨rfl, rfl⟩ := List.append_eq_nil_iff.1 hnames.symm
    exact .done
  | @stay links p rest q _ ih =>
    intro a r hnames
    cases a with
    | nil =>
      subst hnames
      rw [List.filter_cons_of_neg (by simp)]
      exact ih [] rest rfl
    | cons n a =>
      obtain ⟨rfl, hrest⟩ := List.cons.inj hnames
      exact .stay (ih a r hrest)
  | up _ ih =>
    intro a r hnames
    obtain ⟨a', r', hrest, hsame⟩ := exists_cons_filter_here (by decide) hnames
    rw [hsame]
    exact .up (ih a' r' hrest)
  | missing hn hg =>
    intro a r hnames
    obtain ⟨a', r', hrest, hsame⟩ := exists_cons_filter_here hn.ne_here hnames
    obtain ⟨rfl, rfl⟩ := List.append_eq_nil_iff.1 hrest.symm
    rw [hsame]
    exact .missing hn hg
  | file hn hg =>
    intro a r hnames
    obtain ⟨a', r', hrest, hsame⟩ := exists_cons_filter_here hn.ne_here hnames
    obtain ⟨rfl, rfl⟩ := List.append_eq_nil_iff.1 hrest.symm
    rw [hsame]
    exact .file hn hg
  | enter hn hg _ ih =>
    intro a r hnames
    obtain ⟨a', r', hrest, hsame⟩ := exists_cons_filter_here hn.ne_here hnames
    rw [hsame]
    exact .enter hn hg (ih a' r' hrest)
  | stop _ _ hf => cases hf
  | @jump links p n target rest q hn hg _ _ ih =>
    intro a r hnames
    obtain ⟨a', r', hrest, hsame⟩ := exists_cons_filter_here hn.ne_here hnames
    have hjump := ih ((steps target).2 ++ a') r' (by rw [hrest, List.append_assoc])
    rw [List.append_assoc] at hjump
    rw [hsame]
    exact .jump hn hg (Or.inr rfl) hjump

/-- The names of a path are those to be followed for the text that it was read from, without `.`. -/
theorem filter_steps (t : Text) : (steps t).2.filter (· ≠ ['.']) = (Path.ofText t).names := by
  have hsplit : (Path.ofText t).names =
      ((Text.splitOn '/' t).filter (!·.isEmpty)).filter (· ≠ ['.']) := by
    rw [List.filter_filter]
    exact List.filter_congr fun n _ => Bool.and_comm ..
  rw [hsplit]
  unfold steps
  dsimp only
  split
  · rw [List.filter_append, List.filter_cons_of_neg (by simp), List.filter_nil, List.append_nil]
  · rfl

theorem isAbsolute_ofText (t : Text) : (Path.ofText t).isAbsolute = (steps t).1 := by
  cases t with
  | nil => rfl
  | cons c r =>
    by_cases hc : c = '/'
    · subst hc
      have hslash : (('/' :: r).takeWhile (· == '/')).length ≠ 0 := by simp
      have hroot : (Path.ofText ('/' :: r)).root ≠ [] := by
        unfold Path.ofText
        dsimp only
        rw [if_neg hslash]
        split <;> simp
      simpa [Path.isAbsolute, steps] using hroot
    · simp [Path.ofText, Path.isAbsolute, steps, hc]

/-- What a text means, its path means as well. -/
theorem locate_ofText {q : Place} (h : fs.locate true t = .ok q) :
    fs.locate true (Path.ofText t).toText = .ok q := by
  obtain ⟨hz, hne, hlen, hleads⟩ := locate_eq_ok_iff.1 h
  refine (locate_toText (Path.isClean_ofText t)).2 ⟨fun hnull => ?_, ?_, ?_⟩
  · obtain ⟨n, hn, hnz⟩ := Path.null_mem_toText hnull (Path.isClean_ofText t)
    exact hz (Text.mem_of_mem_splitOn n (List.mem_filter.1 hn).1 hnz)
  · exact Nat.le_trans (Path.byteLength_toText_ofText_le hne) hlen
  · have hfiltered := hleads.filter_here [] (steps t).2 rfl
    rw [List.nil_append, filter_steps] at hfiltered
    rw [isAbsolute_ofText]
    exact hfiltered

theorem exists_locate_of_status {s : Status} (h : fs.status t = .ok s) :
    ∃ q, fs.locate true t = .ok q := by
  unfold status find at h
  cases hq : fs.locate true t with
  | error e =>
    rw [hq] at h
    cases h
  | ok q => exact ⟨q, rfl⟩

theorem canonical_eq_ok_iff {file : Text} :
    fs.canonical t = .ok file ↔ ∃ q, fs.locate true t = .ok q ∧ rootPath q = file := by
  unfold canonical
  cases fs.locate true t with
  | error e => simp [bind, Except.bind]
  | ok q => simp [bind, Except.bind, rootPath]

theorem status_ofText {s : Status} (h : fs.status t = .ok s) :
    fs.status (Path.ofText t).toText = .ok s := by
  obtain ⟨q, hq⟩ := exists_locate_of_status h
  unfold status find at h ⊢
  rw [hq] at h
  rwa [locate_ofText hq]

theorem canonical_ofText {file : Text} (h : fs.canonical t = .ok file) :
    fs.canonical (Path.ofText t).toText = .ok file := by
  obtain ⟨q, hq, hfile⟩ := canonical_eq_ok_iff.1 h
  exact canonical_eq_ok_iff.2 ⟨q, locate_ofText hq, hfile⟩

/-- What can be looked at has a path without links. -/
theorem exists_canonical_of_status {s : Status} (h : fs.status t = .ok s) :
    ∃ file, fs.canonical t = .ok file := by
  obtain ⟨q, hq⟩ := exists_locate_of_status h
  exact ⟨rootPath q, canonical_eq_ok_iff.2 ⟨q, hq, rfl⟩⟩

/-- What can be read is what a look tells to be no directory. -/
theorem read_iff_status : (∃ c, fs.read t = .ok c) ↔ ∃ s, fs.status t = .ok s ∧ s.isDirectory = false := by
  constructor
  · rintro ⟨c, hc⟩
    obtain ⟨q, m, x, hq, hfile⟩ := read_eq_ok_iff.1 hc
    refine ⟨⟨false, m, x⟩, ?_, rfl⟩
    simp only [status, find, hq, hfile, bind, Except.bind]
  · rintro ⟨s, hs, hfile⟩
    obtain ⟨q, hq⟩ := exists_locate_of_status hs
    unfold status find at hs
    simp only [hq, bind, Except.bind] at hs
    cases hnode : fs.get? q with
    | none =>
      rw [hnode] at hs
      cases hs
    | some node =>
      rw [hnode] at hs
      cases node with
      | directory m =>
        cases hs
        cases hfile
      | file c m x => exact ⟨c, read_eq_ok_iff.2 ⟨q, m, x, hq, hnode⟩⟩
      | link target => cases hs

/-- A single name that is too long cannot be looked at. -/
theorem status_of_long_name {n : Text} (hn : Path.IsPart n) (hz : '\x00' ∉ n)
    (hlong : maxName < Text.byteLength n) :
    fs.status (Path.ofText n).toText = .error .nameTooLong := by
  have hpath := Path.ofText_of_isPart hn
  have htext : (Path.ofText n).toText = n := by
    rw [hpath]
    rfl
  have hfollowed : (Path.ofText n).followed = [n] := by
    rw [hpath]
    rfl
  have hlocate : fs.locate true (Path.ofText n).toText = .error .nameTooLong := by
    unfold locate
    rw [htext, if_neg (by simpa using hz), if_neg (by simpa using hn.ne_nil), ← htext,
      (Path.isClean_ofText n).steps_toText, hfollowed]
    split
    · rfl
    · dsimp only
      rw [walk, if_pos hlong]
  unfold status find
  rw [hlocate]
  rfl

end

end FileSystem

end MailMerge
