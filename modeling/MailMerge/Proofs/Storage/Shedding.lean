import MailMerge.Proofs.Storage.Agreement
/-!
# What is lost when files go

A file system sheds files of a directory (`Sheds`) when these are gone from it and nothing else has
changed. A path then means what it meant before, unless it led to one of the files or through one of
them; and a path that led through a file meant nothing before either.

* `Sheds.walk`, `Sheds.locate`: ways lead to the same places, or fail in another way.
* `Sheds.status`: what can be told about a path then.
-/
namespace MailMerge.FileSystem

open MailMerge.Path (IsPart IsDown IsClean)

/-- Whether a file system is another one without the files of some names in a directory. -/
structure Sheds (r : Place) (taken : Text → Prop) (fs fs' : FileSystem) : Prop where
  kept : Kept fs (fun q => ∃ n, taken n ∧ q = r ++ [n]) fs'
  agree : Agree (fun q => ∃ n, taken n ∧ q = r ++ [n]) fs fs'
  files : ∀ n, taken n → ∃ c t x, fs.get? (r ++ [n]) = some (.file c t x)
  gone : ∀ n, taken n → fs'.get? (r ++ [n]) = none

section
variable {fs fs' fs'' : FileSystem} {r p : Place} {taken taken' : Text → Prop} {n : Text}

theorem sheds_refl (hs : fs.IsSound) (r : Place) : Sheds r (fun _ => False) fs fs where
  kept := (kept_refl hs).mono fun _ h => h.elim
  agree := agree_refl _ fs
  files _ h := h.elim
  gone _ h := h.elim

theorem sheds_drop (hs : fs.IsSound) {c : Content} {t : Time} {x : Bool}
    (hfile : fs.get? (r ++ [n]) = some (.file c t x)) : Sheds r (· = n) fs (fs.drop (r ++ [n])) := by
  have hnode : fs.AtMostFile (r ++ [n]) := Or.inr ⟨c, t, x, hfile⟩
  refine ⟨(kept_drop hs hnode.not_isDirectory).mono fun q hq => ⟨n, rfl, hq⟩,
    (agree_apply (.drop (r ++ [n])) fs).mono fun q hq => ⟨n, rfl, hq⟩, ?_, ?_⟩
  · rintro m rfl
    exact ⟨c, t, x, hfile⟩
  · rintro m rfl
    exact get?_drop_self (by simp)

/-- What stands at a place afterwards stood there before. -/
theorem Sheds.before (h : Sheds r taken fs fs') {node : Node} (hnode : fs'.get? p = some node) :
    fs.get? p = some node := by
  by_cases hp : ∃ n, taken n ∧ p = r ++ [n]
  · obtain ⟨n, hn, rfl⟩ := hp
    exact nomatch (h.gone n hn).symm.trans hnode
  · exact (h.kept.same p hp).symm.trans hnode

/-- At each place things are as they were, or a file has gone. -/
theorem Sheds.place (h : Sheds r taken fs fs') (p : Place) :
    fs'.get? p = fs.get? p ∨
      ∃ n c t x, taken n ∧ p = r ++ [n] ∧ fs.get? p = some (.file c t x) ∧ fs'.get? p = none := by
  by_cases hp : ∃ n, taken n ∧ p = r ++ [n]
  · obtain ⟨n, hn, rfl⟩ := hp
    obtain ⟨c, t, x, hfile⟩ := h.files n hn
    exact Or.inr ⟨n, c, t, x, hn, rfl, hfile, h.gone n hn⟩
  · exact Or.inl (h.kept.same p hp)

theorem Sheds.same (h : Sheds r taken fs fs') (hno : ∀ c t x, fs.get? p ≠ some (.file c t x)) :
    fs'.get? p = fs.get? p := by
  obtain hsame | ⟨n, c, t, x, -, -, hfile, -⟩ := h.place p
  · exact hsame
  · exact absurd hfile (hno c t x)

theorem Sheds.trans (h : Sheds r taken fs fs') (h' : Sheds r taken' fs' fs'') :
    Sheds r (fun n => taken n ∨ taken' n) fs fs'' where
  kept := (h.kept.trans h'.kept).mono fun q hq => by
    obtain ⟨n, hn, hq⟩ | ⟨n, hn, hq⟩ := hq
    · exact ⟨n, Or.inl hn, hq⟩
    · exact ⟨n, Or.inr hn, hq⟩
  agree := (h.agree.mono fun _ ⟨n, hn, hq⟩ => ⟨n, Or.inl hn, hq⟩).trans
    (h'.agree.mono fun _ ⟨n, hn, hq⟩ => ⟨n, Or.inr hn, hq⟩)
  files n hn := by
    obtain hn | hn := hn
    · exact h.files n hn
    · obtain ⟨c, t, x, hfile⟩ := h'.files n hn
      exact ⟨c, t, x, h.before hfile⟩
  gone n hn := by
    obtain hn | hn := hn
    · cases hnode : fs''.get? (r ++ [n]) with
      | none => rfl
      | some node => exact nomatch (h.gone n hn).symm.trans (h'.before hnode)
    · exact h'.gone n hn

theorem Sheds.congr (h : Sheds r taken fs fs') (hiff : ∀ n, taken' n ↔ taken n) :
    Sheds r taken' fs fs' where
  kept := h.kept.mono fun _ ⟨n, hn, hq⟩ => ⟨n, (hiff n).2 hn, hq⟩
  agree := h.agree.mono fun _ ⟨n, hn, hq⟩ => ⟨n, (hiff n).2 hn, hq⟩
  files n hn := h.files n ((hiff n).1 hn)
  gone n hn := h.gone n ((hiff n).1 hn)

theorem Sheds.atMostFile (h : Sheds r taken fs fs') {q : Place}
    (hq : ∃ n, taken n ∧ q = r ++ [n]) : fs.AtMostFile q := by
  obtain ⟨n, hn, rfl⟩ := hq
  exact Or.inr (h.files n hn)

/-! ## Ways -/

/-- A way leads where it led, or failed at a file and now fails where the file was. -/
theorem Sheds.walk (h : Sheds r taken fs fs') (follow : Bool) (links : Nat) (p : Place)
    (names : List Text) :
    fs'.walk follow links p names = fs.walk follow links p names ∨
      fs.walk follow links p names = .error .notDirectory ∧
        fs'.walk follow links p names = .error .absent := by
  induction links, p, names using walk.induct fs follow with
  | case1 links p =>
    rw [FileSystem.walk, FileSystem.walk]
    exact Or.inl rfl
  | case2 links p n rest hlong =>
    rw [FileSystem.walk, FileSystem.walk, if_pos hlong, if_pos hlong]
    exact Or.inl rfl
  | case3 links p rest hlong ih =>
    rw [FileSystem.walk, FileSystem.walk, if_neg hlong, if_neg hlong, if_pos rfl, if_pos rfl]
    exact ih
  | case4 links p rest hlong hne ih =>
    rw [FileSystem.walk, FileSystem.walk, if_neg hlong, if_neg hlong, if_neg hne, if_neg hne,
      if_pos rfl, if_pos rfl]
    exact ih
  | case5 links p n rest hlong h1 h2 here hg hrest =>
    have hn : IsStep n := ⟨Nat.not_lt.1 hlong, h1, h2⟩
    have hsame := h.same fun c t x hfile => by cases hg.symm.trans hfile
    rw [hn.walk, hn.walk, hsame, hg]
    exact Or.inl rfl
  | case6 links p n rest hlong h1 h2 here hg hrest =>
    have hn : IsStep n := ⟨Nat.not_lt.1 hlong, h1, h2⟩
    have hsame := h.same fun c t x hfile => by cases hg.symm.trans hfile
    rw [hn.walk, hn.walk, hsame, hg]
    exact Or.inl rfl
  | case7 links p n rest hlong h1 h2 here t hg ih =>
    have hn : IsStep n := ⟨Nat.not_lt.1 hlong, h1, h2⟩
    have hsame := h.same fun c t x hfile => by cases hg.symm.trans hfile
    rw [hn.walk, hn.walk, hsame, hg]
    exact ih
  | case8 links p n rest hlong h1 h2 here c t x hg hrest =>
    -- the file that the way leads to may have gone, which the way does not show
    have hn : IsStep n := ⟨Nat.not_lt.1 hlong, h1, h2⟩
    obtain hsame | ⟨-, -, -, -, -, -, -, hnone⟩ := h.place (p ++ [n])
    · rw [hn.walk, hn.walk, hsame, hg]
      exact Or.inl rfl
    · rw [hn.walk, hn.walk, hnone, hg]
      simp only [hrest, if_true, true_or]
  | case9 links p n rest hlong h1 h2 here c t x hg hrest =>
    -- the file that the way leads through may have gone
    have hn : IsStep n := ⟨Nat.not_lt.1 hlong, h1, h2⟩
    obtain hsame | ⟨-, -, -, -, -, -, -, hnone⟩ := h.place (p ++ [n])
    · rw [hn.walk, hn.walk, hsame, hg]
      exact Or.inl rfl
    · rw [hn.walk, hn.walk, hnone, hg]
      simp only [hrest]
      exact Or.inr ⟨rfl, rfl⟩
  | case10 links p n rest hlong h1 h2 here target hg hstop =>
    have hn : IsStep n := ⟨Nat.not_lt.1 hlong, h1, h2⟩
    have hsame := h.same fun c t x hfile => by cases hg.symm.trans hfile
    rw [hn.walk, hn.walk, hsame, hg]
    simp only [hstop, if_true, true_or]
  | case11 p n rest hlong h1 h2 here target hg hstop =>
    have hn : IsStep n := ⟨Nat.not_lt.1 hlong, h1, h2⟩
    have hsame := h.same fun c t x hfile => by cases hg.symm.trans hfile
    rw [hn.walk, hn.walk, hsame, hg]
    exact Or.inl rfl
  | case12 p n rest hlong h1 h2 here target hg hstop links fromRoot names hsteps ih =>
    have hn : IsStep n := ⟨Nat.not_lt.1 hlong, h1, h2⟩
    have hsame := h.same fun c t x hfile => by cases hg.symm.trans hfile
    have hnames : (steps target).2 = names := by rw [hsteps]
    have hfrom : jumpFrom target p = if fromRoot = true then [] else p := by
      rw [jumpFrom, hsteps]
    rw [hn.walk, hn.walk, hsame, hg]
    simp only [hstop, Bool.false_eq_true, if_false, hnames, hfrom]
    exact ih

theorem Sheds.locate (h : Sheds r taken fs fs') (follow : Bool) (t : Text) :
    fs'.locate follow t = fs.locate follow t ∨
      fs.locate follow t = .error .notDirectory ∧ fs'.locate follow t = .error .absent := by
  unfold FileSystem.locate
  rw [h.kept.current]
  split
  · exact Or.inl rfl
  · split
    · exact Or.inl rfl
    · split
      · exact Or.inl rfl
      · exact h.walk follow maxLinks _ _

/-- What can be told about a path is what could be told before, or the path led to a file that has
gone, or through one. -/
theorem Sheds.status (h : Sheds r taken fs fs') (t : Text) :
    fs'.status t = fs.status t ∨
    (fs.status t = .error .notDirectory ∧ fs'.status t = .error .absent) ∨
    ∃ n c m x, taken n ∧ fs.get? (r ++ [n]) = some (.file c m x) ∧ fs.status t = .ok ⟨false, m, x⟩ ∧
      fs'.status t = .error .absent := by
  unfold FileSystem.status FileSystem.find
  obtain hsame | ⟨hbefore, hafter⟩ := h.locate true t
  · rw [hsame]
    cases fs.locate true t with
    | error e => exact Or.inl rfl
    | ok q =>
      simp only [bind, Except.bind]
      obtain hplace | ⟨n, c, m, x, hn, rfl, hfile, hnone⟩ := h.place q
      · rw [hplace]
        exact Or.inl rfl
      · rw [hfile, hnone]
        exact Or.inr (Or.inr ⟨n, c, m, x, hn, hfile, rfl, rfl⟩)
  · rw [hbefore, hafter]
    exact Or.inr (Or.inl ⟨rfl, rfl⟩)

/-! ## Entries -/

/-- The way to a directory is followed before what comes after it, also where that fails. -/
theorem walk_append (follow : Bool) {links : Nat} {q : Place} {names rest : List Text}
    (h : Leads fs true links p names q) (hq : fs.IsDirectory q) (hrest : rest ≠ []) :
    ∃ links', fs.walk follow links p (names ++ rest) = fs.walk follow links' q rest := by
  induction h with
  | done => exact ⟨_, rfl⟩
  | stay _ ih =>
    obtain ⟨links', hlinks⟩ := ih hq
    refine ⟨links', ?_⟩
    rw [List.cons_append, FileSystem.walk, if_neg (by decide), if_pos rfl]
    exact hlinks
  | up _ ih =>
    obtain ⟨links', hlinks⟩ := ih hq
    refine ⟨links', ?_⟩
    rw [List.cons_append, FileSystem.walk, if_neg (by decide), if_neg (by decide), if_pos rfl]
    exact hlinks
  | missing hn hg =>
    obtain ⟨t, ht⟩ := hq
    cases hg.symm.trans ht
  | file hn hg =>
    obtain ⟨t, ht⟩ := hq
    cases hg.symm.trans ht
  | enter hn hg _ ih =>
    obtain ⟨links', hlinks⟩ := ih hq
    refine ⟨links', ?_⟩
    rw [List.cons_append, hn.walk, hg]
    exact hlinks
  | stop hn hg hf => cases hf
  | @jump links p n target rest' q hn hg hf _ ih =>
    obtain ⟨links', hlinks⟩ := ih hq
    have hstop : ((rest' ++ rest).isEmpty && !follow) = false := by
      rw [List.isEmpty_eq_false_iff.2 (by simp [hrest]), Bool.false_and]
    refine ⟨links', ?_⟩
    rw [List.cons_append, hn.walk, hg]
    simp only [hstop, Bool.false_eq_true, if_false]
    rw [List.append_assoc] at hlinks
    exact hlinks

/-- The path of an entry of a directory does not lead through a file. -/
theorem locate_child_ne_notDirectory {d : Path} (hd : d.IsClean) (hm : fs.MeansDirectory d r)
    (hn : IsDown n) (hlink : ∀ target, fs.get? (r ++ [n]) ≠ some (.link target)) :
    fs.locate true (d.child n).toText ≠ .error .notDirectory := by
  obtain ⟨-, -, hleads⟩ := (locate_toText hd).1 hm.1
  unfold FileSystem.locate
  split
  · rintro ⟨⟩
  · split
    · rintro ⟨⟩
    · split
      · rintro ⟨⟩
      · have hnames : (d.child n).followed = d.names ++ [n] := if_neg (Path.child_names_ne_nil d n)
        obtain ⟨links, hlinks⟩ := walk_append true hleads hm.2 (List.cons_ne_nil n [])
        rw [(hd.child hn.part).steps_toText, hnames]
        show fs.walk true maxLinks (if d.isAbsolute = true then [] else fs.current) (d.names ++ [n]) ≠ _
        rw [hlinks]
        by_cases hlong : maxName < Text.byteLength n
        · rw [FileSystem.walk, if_pos hlong]
          rintro ⟨⟩
        · rw [IsStep.walk ⟨Nat.not_lt.1 hlong, hn.part.ne_here, hn.ne_up⟩]
          cases hnode : fs.get? (r ++ [n]) with
          | none => rintro ⟨⟩
          | some node =>
            cases node with
            | directory t =>
              dsimp only
              rw [FileSystem.walk]
              rintro ⟨⟩
            | file c t x => rintro ⟨⟩
            | link target => exact absurd hnode (hlink target)

end

end MailMerge.FileSystem
