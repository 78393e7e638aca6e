import MailMerge.Proofs.Storage.Locate
/-!
# Names in directories

A path that a text writes is followed name by name (`IsClean.steps_toText`), so what a name in a
directory means is told by what the directory means.

* `locate_toText`: a path is located by following its names.
* `locate_child`: a name in a directory is at the place of the directory, one name further.
-/
namespace MailMerge

namespace Path

/-- Whether a text can be a name of a path that was read. -/
structure IsPart (n : Text) : Prop where
  ne_nil : n ≠ []
  no_slash : '/' ∉ n
  ne_here : n ≠ ['.']

/-- Whether a text can be a name of a path that leads down. -/
structure IsDown (n : Text) : Prop where
  part : IsPart n
  ne_up : n ≠ ['.', '.']

/-- Whether a path is one that texts write. -/
structure IsClean (p : Path) : Prop where
  root : p.root = [] ∨ p.root = ['/'] ∨ p.root = ['/', '/']
  names : ∀ n ∈ p.names, IsPart n

theorem isDown_of_length {n : Text} (hlength : 2 < n.length) (hslash : '/' ∉ n) : IsDown n := by
  refine ⟨⟨?_, hslash, ?_⟩, ?_⟩
  · rintro rfl
    exact absurd hlength (by decide)
  · rintro rfl
    exact absurd hlength (by decide)
  · rintro rfl
    exact absurd hlength (by decide)

theorem isClean_ofText (t : Text) : (ofText t).IsClean := by
  refine ⟨?_, fun n hn => ?_⟩
  · unfold ofText
    dsimp only
    split
    · exact Or.inl rfl
    · split
      · exact Or.inr (Or.inr rfl)
      · exact Or.inr (Or.inl rfl)
  · obtain ⟨hmem, hne⟩ := List.mem_filter.1 hn
    simp only [Bool.and_eq_true, Bool.not_eq_true', List.isEmpty_eq_false_iff, decide_eq_true_eq,
      ne_eq] at hne
    exact ⟨hne.1, Text.not_mem_of_mem_splitOn n hmem, hne.2⟩

section
variable {p : Path} {n : Text}

/-- The path of a single name. -/
theorem ofText_of_isPart (h : IsPart n) : ofText n = { root := [], names := [n] } := by
  have hnames : namesOf n = [n] := by
    rw [namesOf, Text.splitOn_of_not_mem h.no_slash, List.filter_eq_self]
    intro m hm
    rw [List.mem_singleton.1 hm]
    simpa using ⟨h.ne_nil, h.ne_here⟩
  have hslashes : n.takeWhile (· == '/') = [] := by
    obtain ⟨c, r, rfl⟩ := List.exists_cons_of_ne_nil h.ne_nil
    have hc : (c == '/') = false := by
      rw [beq_eq_false_iff_ne]
      exact fun e => h.no_slash (e ▸ List.mem_cons_self ..)
    rw [List.takeWhile_cons, hc]
    rfl
  unfold ofText
  dsimp only
  rw [hslashes, hnames]
  rfl

theorem IsClean.child (h : p.IsClean) (hn : IsPart n) : (p.child n).IsClean := by
  refine ⟨h.root, fun m hm => ?_⟩
  rcases List.mem_append.1 hm with hm | hm
  · exact h.names m hm
  · rw [List.mem_singleton.1 hm]
    exact hn

theorem child_names_ne_nil (p : Path) (n : Text) : (p.child n).names ≠ [] := by
  simp [Path.child]

/-- The text of a path without names. -/
theorem toText_of_names_eq_nil (h : p.names = []) :
    p.toText = if p.root = [] then ['.'] else p.root := by
  unfold toText
  rw [h]
  by_cases hr : p.root = []
  · rw [hr]
    rfl
  · rw [if_neg hr, if_neg (by simp [hr])]
    simp [Text.join]

theorem toText_of_names_ne_nil (h : p.names ≠ []) : p.toText = p.root ++ Text.join ['/'] p.names := by
  unfold toText
  rw [if_neg (by simp [h])]

theorem join_names_ne_nil (h : p.IsClean) (hnames : p.names ≠ []) :
    Text.join ['/'] p.names ≠ [] := by
  obtain ⟨n, r, hcons⟩ := List.exists_cons_of_ne_nil hnames
  rw [hcons]
  exact Text.join_ne_nil (h.names n (hcons ▸ List.mem_cons_self ..)).ne_nil

/-- The text of a path with names does not end with a slash. -/
theorem getLast?_toText (h : p.IsClean) (hnames : p.names ≠ []) : p.toText.getLast? ≠ some '/' := by
  rw [toText_of_names_ne_nil hnames, Text.getLast?_append_of_ne_nil _ (join_names_ne_nil h hnames)]
  exact Text.getLast?_join fun m hm => ⟨(h.names m hm).ne_nil, (h.names m hm).no_slash⟩

/-- The names that are followed for a path. -/
def followed (p : Path) : List Text := if p.names = [] then [['.']] else p.names

theorem IsClean.steps_toText (h : p.IsClean) :
    FileSystem.steps p.toText = (p.isAbsolute, p.followed) := by
  by_cases hnames : p.names = []
  · rw [toText_of_names_eq_nil hnames, followed, if_pos hnames, isAbsolute]
    rcases h.root with hr | hr | hr <;> rw [hr] <;> rfl
  · rw [toText_of_names_ne_nil hnames, followed, if_neg hnames, isAbsolute]
    have hslash : ∀ n ∈ p.names, '/' ∉ n := fun n hn => (h.names n hn).no_slash
    have hfilter : p.names.filter (!·.isEmpty) = p.names := by
      rw [List.filter_eq_self]
      intro n hn
      simpa using (h.names n hn).ne_nil
    have hlast := getLast?_toText h hnames
    rw [toText_of_names_ne_nil hnames] at hlast
    have hsplit := Text.splitOn_join hslash hnames
    have hhead : (Text.join ['/'] p.names).head? ≠ some '/' := by
      obtain ⟨n, r, hcons⟩ := List.exists_cons_of_ne_nil hnames
      have hn := h.names n (hcons ▸ List.mem_cons_self ..)
      obtain ⟨c, n', rfl⟩ := List.exists_cons_of_ne_nil hn.ne_nil
      rw [hcons]
      have hc : c ≠ '/' := fun e => hn.no_slash (e ▸ List.mem_cons_self ..)
      cases r <;> simpa [Text.join] using hc
    unfold FileSystem.steps
    dsimp only
    rw [if_neg hlast]
    rcases h.root with hr | hr | hr
    · rw [hr, List.nil_append, hsplit, hfilter]
      simpa using hhead
    · rw [hr, List.singleton_append, Text.splitOn, if_pos rfl, hsplit,
        List.filter_cons_of_neg (by simp), hfilter]
      rfl
    · rw [hr]
      simp only [List.cons_append, List.nil_append, Text.splitOn, if_true, hsplit]
      rw [List.filter_cons_of_neg (by simp), List.filter_cons_of_neg (by simp), hfilter]
      rfl

theorem null_mem_toText (h : '\x00' ∈ p.toText) (hp : p.IsClean) : ∃ n ∈ p.names, '\x00' ∈ n := by
  by_cases hnames : p.names = []
  · rw [toText_of_names_eq_nil hnames] at h
    rcases hp.root with hr | hr | hr <;> rw [hr] at h <;> simp at h
  · rw [toText_of_names_ne_nil hnames] at h
    rcases List.mem_append.1 h with h | h
    · rcases hp.root with hr | hr | hr <;> rw [hr] at h <;> simp at h
    · exact (Text.mem_join h).resolve_left (by decide)

theorem mem_toText {c : Char} (hn : n ∈ p.names) (hc : c ∈ n) : c ∈ p.toText := by
  rw [toText_of_names_ne_nil (List.ne_nil_of_mem hn)]
  exact List.mem_append_right _ (Text.mem_join_of_mem hn hc)

/-- The text of a name in a directory. -/
theorem toText_child (p : Path) (n : Text) :
    (p.child n).toText = if p.names = [] then p.root ++ n else p.toText ++ '/' :: n := by
  rw [toText_of_names_ne_nil (child_names_ne_nil p n)]
  by_cases hnames : p.names = []
  · rw [if_pos hnames]
    simp [child, hnames, Text.join]
  · rw [if_neg hnames, toText_of_names_ne_nil hnames]
    simp only [child, Text.join_concat hnames, List.append_assoc, List.singleton_append]

/-- The name before the last dot, and the ending. -/
theorem splitName_child (p : Path) {a e : Text} (ha : a ≠ []) (he : e ≠ []) (hdot : '.' ∉ e) :
    (p.child (a ++ '.' :: e)).splitName = (a, '.' :: e) := by
  have hname : (p.child (a ++ '.' :: e)).name = a ++ '.' :: e := by
    unfold name child
    rw [List.getLastD_concat]
  have htail : ((a ++ '.' :: e).reverse.takeWhile (· != '.')).reverse = e := by
    have hall : ∀ c ∈ e.reverse, (c != '.') = true := fun c hc =>
      bne_iff_ne.2 fun h => hdot (List.mem_reverse.1 (h ▸ hc))
    rw [List.reverse_append, List.reverse_cons, List.append_assoc,
      List.takeWhile_append_of_pos hall, List.singleton_append, List.takeWhile_cons]
    simp
  unfold splitName
  dsimp only
  rw [hname, htail]
  have hlength : (a ++ '.' :: e).length - e.length - 1 = a.length := by
    rw [List.length_append, List.length_cons]
    omega
  rw [hlength, List.take_left, if_pos (by simp [ha, he])]

theorem stem_child (p : Path) {a e : Text} (ha : a ≠ []) (he : e ≠ []) (hdot : '.' ∉ e) :
    (p.child (a ++ '.' :: e)).stem = a := by
  rw [stem, splitName_child p ha he hdot]

theorem ending_child (p : Path) {a e : Text} (ha : a ≠ []) (he : e ≠ []) (hdot : '.' ∉ e) :
    (p.child (a ++ '.' :: e)).ending = '.' :: e := by
  rw [ending, splitName_child p ha he hdot]

theorem byteLength_toText_le (hn : n ≠ []) :
    Text.byteLength p.toText ≤ Text.byteLength (p.child n).toText := by
  have hpos := Text.byteLength_pos hn
  rw [toText_child]
  by_cases hnames : p.names = []
  · rw [if_pos hnames, toText_of_names_eq_nil hnames, Text.byteLength_append]
    split
    · have hdot : Text.byteLength ['.'] = 1 := rfl
      omega
    · omega
  · rw [if_neg hnames, Text.byteLength_append]
    omega

theorem byteLength_toText_child_le (p : Path) (n : Text) :
    Text.byteLength (p.child n).toText ≤ Text.byteLength p.toText + 1 + Text.byteLength n := by
  rw [toText_child]
  by_cases hnames : p.names = []
  · rw [if_pos hnames, toText_of_names_eq_nil hnames, Text.byteLength_append]
    split
    · rename_i hroot
      have hnone : Text.byteLength p.root = 0 := by rw [hroot]; rfl
      omega
    · omega
  · have hslash : Char.utf8Size '/' = 1 := rfl
    rw [if_neg hnames, Text.byteLength_append, Text.byteLength_cons]
    omega

theorem null_mem_child (hp : p.IsClean) (h : '\x00' ∈ p.toText) : '\x00' ∈ (p.child n).toText := by
  obtain ⟨m, hm, hz⟩ := null_mem_toText h hp
  exact mem_toText (List.mem_append_left _ hm) hz

end

end Path

namespace FileSystem

open MailMerge.Path (IsPart IsDown IsClean)

section
variable {fs : FileSystem} {follow : Bool} {links : Nat} {p : Path} {n : Text} {q r : Place}

theorem IsName.isDown (h : IsName n) : IsDown n := ⟨⟨h.ne_nil, h.no_slash, h.ne_here⟩, h.ne_up⟩

theorem IsName.isPart (h : IsName n) : IsPart n := h.isDown.part

theorem leads_followed {o : Place} :
    Leads fs follow links o p.followed q ↔ Leads fs follow links o p.names q := by
  unfold Path.followed
  split
  · rename_i hnames
    rw [hnames]
    constructor
    · intro h
      cases h with
      | stay h => exact h
      | missing hn => exact absurd rfl hn.ne_here
      | file hn => exact absurd rfl hn.ne_here
      | enter hn => exact absurd rfl hn.ne_here
      | stop hn => exact absurd rfl hn.ne_here
      | jump hn => exact absurd rfl hn.ne_here
    · exact .stay
  · exact Iff.rfl

/-- Where the way of a path begins, told by the path. -/
theorem origin_toText (hp : p.IsClean) :
    fs.origin p.toText = if p.isAbsolute then [] else fs.current := by
  rw [origin, hp.steps_toText]

theorem toText_ne_nil (hp : p.IsClean) : p.toText ≠ [] := by
  by_cases hnames : p.names = []
  · rw [Path.toText_of_names_eq_nil hnames]
    split
    · exact List.cons_ne_nil _ _
    · assumption
  · obtain ⟨m, l, hcons⟩ := List.exists_cons_of_ne_nil hnames
    have hm := (hp.names m (hcons ▸ List.mem_cons_self ..)).ne_nil
    rw [Path.toText_of_names_ne_nil hnames, hcons]
    exact List.append_ne_nil_of_right_ne_nil _ (Text.join_ne_nil hm)

/-- What a path that was read means. -/
theorem locate_toText (hp : p.IsClean) :
    fs.locate follow p.toText = .ok q ↔
      '\x00' ∉ p.toText ∧ Text.byteLength p.toText ≤ maxPath ∧
        Leads fs follow maxLinks (if p.isAbsolute then [] else fs.current) p.names q := by
  rw [locate_eq_ok_iff, origin_toText hp, hp.steps_toText, leads_followed]
  simp [toText_ne_nil hp]

/-- A path means nothing where its first name is missing. -/
theorem status_of_missing (hp : p.IsClean) (hz : '\x00' ∉ p.toText)
    (hlen : Text.byteLength p.toText ≤ maxPath) {rest : List Text} (hnames : p.names = n :: rest)
    (hn : IsStep n) (hg : fs.get? ((if p.isAbsolute then [] else fs.current) ++ [n]) = none) :
    fs.status p.toText = .error .absent := by
  have hfollowed : p.followed = n :: rest := by
    rw [Path.followed, hnames]
    rfl
  have hlocate : fs.locate true p.toText =
      if rest.isEmpty then .ok ((if p.isAbsolute then [] else fs.current) ++ [n])
      else .error .absent := by
    unfold locate
    rw [if_neg (by simpa using hz), if_neg (by simpa using toText_ne_nil hp),
      if_neg (Nat.not_lt.2 hlen), hp.steps_toText, hfollowed]
    dsimp only
    rw [hn.walk, hg]
  unfold status find
  rw [hlocate]
  cases rest.isEmpty with
  | true =>
    simp only [if_true, bind, Except.bind, hg]
  | false => rfl

/-- A name in a directory is at the place of the directory, one name further. -/
theorem locate_child (hp : p.IsClean) (hn : IsName n) (hq : fs.locate true p.toText = .ok q)
    (hd : fs.IsDirectory q) (hlen : Text.byteLength (p.child n).toText ≤ maxPath)
    (hstep : ∀ links, Leads fs follow links q [n] (q ++ [n])) :
    fs.locate follow (p.child n).toText = .ok (q ++ [n]) := by
  obtain ⟨hz, -, hleads⟩ := (locate_toText hp).1 hq
  refine (locate_toText (hp.child hn.isPart)).2 ⟨fun h => ?_, hlen, ?_⟩
  · obtain ⟨m, hm, hmz⟩ := Path.null_mem_toText h (hp.child hn.isPart)
    rcases List.mem_append.1 hm with hm | hm
    · exact hz (Path.mem_toText hm hmz)
    · exact hn.no_null (List.mem_singleton.1 hm ▸ hmz)
  · exact hleads.append hd (List.cons_ne_nil _ _) hstep

end

end FileSystem

end MailMerge
