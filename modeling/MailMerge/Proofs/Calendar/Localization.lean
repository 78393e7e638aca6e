import MailMerge.Proofs.Calendar.Characters
/-!
# Localization in one pass

English names of months and days are replaced in two passes, the months first. All names, English
and Indonesian, are words with a capital in front and no other one. So no name begins inside another
one, and none is made of a replacement and what stands beside it: the two passes do what a single
one does that replaces all names at once (`Replaced`), and a second localization finds nothing to
do.

* `replaced_iff`: a single pass is what `replaceNames` does.
* `Replaced.localize_eq`: the two passes do what one does.
* `Replaced.not_infix`: no name is left that has another Indonesian one.
* `localize_in_one_pass`: the properties together.
-/
namespace MailMerge.Indonesian

/-- The names of months and days with their English ones. -/
def names : List (Text × Text) := monthTable ++ dayTable

/-- The names that are the same in both languages. -/
def sharedNames : List Text := ["April", "September", "November"].map String.toList

/-- One pass over a text, from left to right: a name of the table that begins the rest of the text
is replaced, and a character at which none begins stays. -/
inductive Replaced (table : List (Text × Text)) : Text → Text → Prop
  | nil : Replaced table [] []
  | name {e : Text × Text} {t u : Text} (mem : e ∈ table) (rest : Replaced table t u) :
    Replaced table (e.1 ++ t) (e.2 ++ u)
  | char {c : Char} {t u : Text} (none : ∀ e ∈ table, ¬ e.1 <+: c :: t)
    (rest : Replaced table t u) : Replaced table (c :: t) (c :: u)

/-! ## Words -/

/-- Whether no character is a capital. -/
def IsLower (t : Text) : Prop := ∀ c ∈ t, c.isUpper = false

instance (t : Text) : Decidable (IsLower t) :=
  decidable_of_iff ((t.all fun c => !c.isUpper) = true) (by simp [IsLower])

/-- Whether a text has a capital in front and no other one. -/
def IsWord : Text → Prop
  | [] => False
  | c :: r => c.isUpper = true ∧ IsLower r

instance : (t : Text) → Decidable (IsWord t)
  | [] => inferInstanceAs (Decidable False)
  | _ :: _ => inferInstanceAs (Decidable (_ ∧ _))

theorem isWord_iff {w : Text} :
    IsWord w ↔ ∃ c r, w = c :: r ∧ c.isUpper = true ∧ IsLower r := by
  cases w with
  | nil => simp [IsWord]
  | cons c r =>
    constructor
    · intro h
      exact ⟨c, r, rfl, h⟩
    · intro h
      obtain ⟨d, s, hw, h⟩ := h
      cases hw
      exact h

section
variable {w r t u : Text} {d : Char}

/-- No word begins with a character that is no capital. -/
theorem IsWord.not_prefix_cons (h : IsWord w) (hd : d.isUpper = false) : ¬ w <+: d :: t := by
  intro hp
  obtain ⟨c, s, rfl, hc, -⟩ := isWord_iff.1 h
  rw [(List.cons_prefix_cons.1 hp).1, hd] at hc
  cases hc

/-- A word in a text does not begin in front characters that are no capitals. -/
theorem IsWord.infix_of_append (h : IsWord w) (hr : IsLower r) (hw : w <:+: r ++ t) : w <:+: t := by
  induction r with
  | nil => exact hw
  | cons d r ih =>
    obtain ⟨hd, hr⟩ := List.forall_mem_cons.1 hr
    rcases List.infix_cons_iff.1 hw with hw | hw
    · exact absurd hw (h.not_prefix_cons hd)
    · exact ih hr hw

end

/-! ## One pass -/

theorem nameAt?_eq_none_iff {table : List (Text × Text)} {t : Text} :
    nameAt? table t = none ↔ ∀ e ∈ table, ¬ e.1 <+: t := by
  unfold nameAt?
  cases hl : table.filter (fun e => e.1.isPrefixOf t) with
  | nil =>
    refine iff_of_true rfl ?_
    simpa [List.filter_eq_nil_iff] using hl
  | cons e l =>
    refine iff_of_false ?_ ?_
    · -- once a name is found, one remains
      rw [List.foldl_cons]
      refine List.foldlRecOn (motive := fun best => best ≠ none) _ _ (Option.some_ne_none e) ?_
      intro best hbest f _
      cases best with
      | none => exact absurd rfl hbest
      | some b =>
        dsimp only
        split <;> exact Option.some_ne_none _
    · have he : e ∈ table.filter fun e => e.1.isPrefixOf t := hl ▸ List.mem_cons_self
      intro h
      exact h e (List.mem_filter.1 he).1 (List.isPrefixOf_iff_prefix.1 (List.mem_filter.1 he).2)

theorem replaceFrom_append (table : List (Text × Text)) (u t : Text) :
    replaceFrom table u.length (u ++ t) = replaceNames table t := by
  induction u with
  | nil => rfl
  | cons c u ih => exact ih

/-- Whether names and replacements of a table are words, and no name begins with another one. -/
structure IsWordTable (table : List (Text × Text)) : Prop where
  name : ∀ e ∈ table, IsWord e.1
  replacement : ∀ e ∈ table, IsWord e.2
  unambiguous : ∀ e ∈ table, ∀ f ∈ table, f.1 <+: e.1 → f = e

section
variable {table : List (Text × Text)} {e : Text × Text} {w r t u : Text} {c : Char}

theorem replaceNames_char (h : ∀ e ∈ table, ¬ e.1 <+: c :: t) :
    replaceNames table (c :: t) = c :: replaceNames table t := by
  rw [replaceNames, replaceFrom, nameAt?_eq_none_iff.2 h]
  rfl

namespace IsWordTable

theorem of_subset {part : List (Text × Text)} (h : IsWordTable table) (hs : part ⊆ table) :
    IsWordTable part where
  name e he := h.name e (hs he)
  replacement e he := h.replacement e (hs he)
  unambiguous e he f hf := h.unambiguous e (hs he) f (hs hf)

/-- At most one name begins a text. -/
theorem eq_of_prefix_both (h : IsWordTable table) {f : Text × Text} (he : e ∈ table)
    (hf : f ∈ table) (hpe : e.1 <+: t) (hpf : f.1 <+: t) : f = e := by
  rcases List.prefix_or_prefix_of_prefix hpe hpf with hp | hp
  · exact (h.unambiguous f hf e he hp).symm
  · exact h.unambiguous e he f hf hp

theorem replaceNames_name (h : IsWordTable table) (he : e ∈ table) :
    replaceNames table (e.1 ++ t) = e.2 ++ replaceNames table t := by
  obtain ⟨c, r, hc, -, -⟩ := isWord_iff.1 (h.name e he)
  have hat : nameAt? table (e.1 ++ t) = some e := by
    cases hat : nameAt? table (e.1 ++ t) with
    | none => exact absurd (List.prefix_append _ _) (nameAt?_eq_none_iff.1 hat e he)
    | some f =>
      obtain ⟨hf, hp⟩ := mem_of_nameAt? hat
      rw [h.eq_of_prefix_both he hf (List.prefix_append _ _) (List.isPrefixOf_iff_prefix.1 hp)]
  rw [hc, List.cons_append] at hat ⊢
  rw [replaceNames, replaceFrom, hat]
  dsimp only
  rw [hc, List.length_cons, Nat.add_sub_cancel, replaceFrom_append]

/-- A word that no name begins stays. -/
theorem replaceNames_word (h : IsWordTable table) (hw : IsWord w)
    (hno : ∀ e ∈ table, ¬ e.1 <+: w ++ t) :
    replaceNames table (w ++ t) = w ++ replaceNames table t := by
  obtain ⟨c, r, rfl, -, hr⟩ := isWord_iff.1 hw
  have hlower : ∀ r, IsLower r → replaceNames table (r ++ t) = r ++ replaceNames table t := by
    intro r hr
    induction r with
    | nil => rfl
    | cons d r ih =>
      obtain ⟨hd, hr⟩ := List.forall_mem_cons.1 hr
      have hnone : ∀ e ∈ table, ¬ e.1 <+: d :: (r ++ t) := fun e he =>
        (h.name e he).not_prefix_cons hd
      rw [List.cons_append, replaceNames_char hnone, ih hr, List.cons_append]
  rw [List.cons_append] at hno ⊢
  rw [replaceNames_char hno, hlower r hr, List.cons_append]

/-- A single pass is what `replaceNames` does. -/
theorem replaced_iff (h : IsWordTable table) : Replaced table t u ↔ u = replaceNames table t := by
  constructor
  · intro hr
    induction hr with
    | nil => rfl
    | name mem _ ih => rw [h.replaceNames_name mem, ih]
    | char none _ ih => rw [replaceNames_char none, ih]
  · intro hu
    rw [hu]
    clear hu
    induction hn : t.length using Nat.strongRecOn generalizing t with
    | ind n ih =>
      cases t with
      | nil => exact .nil
      | cons c t =>
        cases hat : nameAt? table (c :: t) with
        | none =>
          have hnone := nameAt?_eq_none_iff.1 hat
          rw [replaceNames_char hnone]
          exact .char hnone (ih t.length (by simp at hn; omega) rfl)
        | some e =>
          obtain ⟨he, hp⟩ := mem_of_nameAt? hat
          obtain ⟨s, hs⟩ := List.isPrefixOf_iff_prefix.1 hp
          have hpos : e.1.length ≠ 0 := by
            obtain ⟨d, r, hd, -, -⟩ := isWord_iff.1 (h.name e he)
            simp [hd]
          have hlen := congrArg List.length hs
          simp at hlen hn
          rw [← hs, h.replaceNames_name he]
          exact .name he (ih s.length (by omega) rfl)

/-- What a pass leaves begins with no capital only where the text did. -/
theorem prefix_of_replaced (h : IsWordTable table) (hrep : Replaced table t u) :
    ∀ {r}, IsLower r → r <+: u → r <+: t := by
  induction hrep with
  | nil => intro r _ hp; exact hp
  | @name e t u mem rest ih =>
    intro r hr hp
    cases r with
    | nil => exact List.nil_prefix
    | cons d r =>
      obtain ⟨c, s, hc, hupper, -⟩ := isWord_iff.1 (h.replacement e mem)
      rw [hc, List.cons_append] at hp
      rw [← (List.cons_prefix_cons.1 hp).1, (List.forall_mem_cons.1 hr).1] at hupper
      cases hupper
  | @char c t u none rest ih =>
    intro r hr hp
    cases r with
    | nil => exact List.nil_prefix
    | cons d r =>
      obtain ⟨hd, htail⟩ := List.cons_prefix_cons.1 hp
      exact List.cons_prefix_cons.2 ⟨hd, ih (List.forall_mem_cons.1 hr).2 htail⟩

/-- Where no word of another table began, none begins after a pass. -/
theorem not_prefix_of_replaced (h : IsWordTable table) (hrep : Replaced table t u) (hw : IsWord w)
    (hno : ¬ w <+: c :: t) : ¬ w <+: c :: u := by
  intro hp
  obtain ⟨d, r, rfl, -, hr⟩ := isWord_iff.1 hw
  obtain ⟨hd, htail⟩ := List.cons_prefix_cons.1 hp
  exact hno (List.cons_prefix_cons.2 ⟨hd, h.prefix_of_replaced hrep hr htail⟩)

end IsWordTable

end

/-! ## Months and days -/

theorem names_words : ∀ e ∈ names, IsWord e.1 ∧ IsWord e.2 := by decide +kernel

theorem names_apart : ∀ e ∈ names, ∀ f ∈ names, f.1 <+: e.1 → f = e := by decide +kernel

theorem isWordTable_names : IsWordTable names where
  name e he := (names_words e he).1
  replacement e he := (names_words e he).2
  unambiguous := names_apart

theorem isWordTable_monthTable : IsWordTable monthTable :=
  isWordTable_names.of_subset (List.subset_append_left _ _)

theorem isWordTable_dayTable : IsWordTable dayTable :=
  isWordTable_names.of_subset (List.subset_append_right _ _)

theorem mem_names {e : Text × Text} : e ∈ names ↔ e ∈ monthTable ∨ e ∈ dayTable := List.mem_append

/-- A name begins with a replacement, or a replacement with a name, only if they are the same. -/
theorem eq_of_prefix_replacement : ∀ e ∈ names, ∀ f ∈ names,
    f.1 <+: e.2 ∨ e.2 <+: f.1 → f = e ∧ e.1 = e.2 := by
  decide +kernel

/-- Every English name but the shared ones has another Indonesian one. -/
theorem mem_names_of_not_shared : ∀ n ∈ monthNames ++ dayNames, n ∉ sharedNames →
    ∃ f ∈ names, f.1 = n ∧ f.1 ≠ f.2 := by
  decide +kernel

theorem not_mem_dayTable : ∀ e ∈ monthTable, e ∉ dayTable := by decide +kernel

section
variable {e f : Text × Text} {t u : Text}

/-- What begins in place of a name is a name only if that is the same in both languages. -/
theorem eq_of_prefix_append (he : e ∈ names) (hf : f ∈ names) (hp : f.1 <+: e.2 ++ u) :
    f = e ∧ e.1 = e.2 :=
  eq_of_prefix_replacement e he f hf (List.prefix_or_prefix_of_prefix hp (List.prefix_append _ _))

/-- The pass over the months leaves the names of days alone, and the other way round. -/
theorem not_prefix_month (he : e ∈ monthTable) (hf : f ∈ dayTable) : ¬ f.1 <+: e.2 ++ u := by
  intro hp
  have heq := (eq_of_prefix_append (mem_names.2 (.inl he)) (mem_names.2 (.inr hf)) hp).1
  exact not_mem_dayTable e he (heq ▸ hf)

theorem not_prefix_day (he : e ∈ dayTable) (hf : f ∈ monthTable) : ¬ f.1 <+: e.1 ++ t := by
  intro hp
  have heq := isWordTable_names.eq_of_prefix_both (mem_names.2 (.inr he)) (mem_names.2 (.inl hf))
    (List.prefix_append e.1 t) hp
  exact not_mem_dayTable f hf (heq ▸ he)

namespace Replaced

/-- The two passes do what one does. -/
theorem localize_eq (h : Replaced names t u) : localize t = u := by
  have hmonths := isWordTable_monthTable
  have hdays := isWordTable_dayTable
  unfold localize
  induction h with
  | nil => rfl
  | @name e t u mem _ ih =>
    rcases mem_names.1 mem with hmonth | hday
    · rw [hmonths.replaceNames_name hmonth, hdays.replaceNames_word (hmonths.replacement e hmonth)
        fun f hf => not_prefix_month hmonth hf, ih]
    · rw [hmonths.replaceNames_word (hdays.name e hday) fun f hf => not_prefix_day hday hf,
        hdays.replaceNames_name hday, ih]
  | @char c t u none _ ih =>
    have hpass := hmonths.replaced_iff.2 (rfl : replaceNames monthTable t = _)
    have hnone : ∀ f ∈ dayTable, ¬ f.1 <+: c :: replaceNames monthTable t := fun f hf =>
      hmonths.not_prefix_of_replaced hpass (hdays.name f hf) (none f (mem_names.2 (.inr hf)))
    rw [replaceNames_char fun f hf => none f (mem_names.2 (.inl hf)), replaceNames_char hnone, ih]

/-- No name is left that has another Indonesian one. -/
theorem not_infix (h : Replaced names t u) (hf : f ∈ names) (hother : f.1 ≠ f.2) :
    ¬ f.1 <:+: u := by
  have hword := isWordTable_names.name f hf
  induction h with
  | nil =>
    intro hi
    rw [List.infix_nil.1 hi] at hword
    exact hword
  | @name e t u mem _ ih =>
    intro hi
    obtain ⟨c, r, hc, -, hr⟩ := isWord_iff.1 (isWordTable_names.replacement e mem)
    rw [hc, List.cons_append] at hi
    rcases List.infix_cons_iff.1 hi with hp | hi
    · rw [← List.cons_append, ← hc] at hp
      obtain ⟨rfl, hsame⟩ := eq_of_prefix_append mem hf hp
      exact hother hsame
    · exact ih (hword.infix_of_append hr hi)
  | @char c t u none rest ih =>
    intro hi
    rcases List.infix_cons_iff.1 hi with hp | hi
    · exact isWordTable_names.not_prefix_of_replaced rest hword (none f hf) hp
    · exact ih hi

theorem append_lower {r : Text} (h : Replaced names t u) (hr : IsLower r) :
    Replaced names (r ++ t) (r ++ u) := by
  induction r with
  | nil => exact h
  | cons d r ih =>
    obtain ⟨hd, hr⟩ := List.forall_mem_cons.1 hr
    exact .char (fun e he => (isWordTable_names.name e he).not_prefix_cons hd) (ih hr)

/-- A second pass changes nothing. -/
theorem again (h : Replaced names t u) : Replaced names u u := by
  induction h with
  | nil => exact .nil
  | @name e t u mem _ ih =>
    by_cases hsame : e.1 = e.2
    · have hname := Replaced.name mem ih
      rwa [hsame] at hname
    · obtain ⟨c, r, hc, -, hr⟩ := isWord_iff.1 (isWordTable_names.replacement e mem)
      have hnone : ∀ f ∈ names, ¬ f.1 <+: e.2 ++ u := fun f hf hp =>
        hsame (eq_of_prefix_append mem hf hp).2
      rw [hc, List.cons_append] at hnone ⊢
      exact .char hnone (ih.append_lower hr)
  | @char c t u none rest ih =>
    exact .char (fun f hf => isWordTable_names.not_prefix_of_replaced rest
      (isWordTable_names.name f hf) (none f hf)) ih

end Replaced

end

/-- Localization replaces all names of months and days in one pass from left to right, in which
everything outside the names stays; it leaves no name but those that are the same in both languages,
and a second one changes nothing. -/
theorem localize_in_one_pass (t : Text) :
    replaceNames names t = localize t ∧
    (∀ u, Replaced names t u ↔ u = localize t) ∧
    (∀ n ∈ monthNames ++ dayNames, n ∉ sharedNames → ¬ n <:+: localize t) ∧
    localize (localize t) = localize t := by
  have hpass := isWordTable_names.replaced_iff.2 (rfl : replaceNames names t = _)
  have hone := hpass.localize_eq
  rw [hone]
  refine ⟨rfl, fun u => isWordTable_names.replaced_iff, ?_, hpass.again.localize_eq⟩
  intro n hn hother
  obtain ⟨f, hf, rfl, hne⟩ := mem_names_of_not_shared n hn hother
  exact hpass.not_infix hf hne

end MailMerge.Indonesian
