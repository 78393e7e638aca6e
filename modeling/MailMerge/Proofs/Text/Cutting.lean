import MailMerge.Text.Basic
/-!
# Cutting, joining and trimming

* `cut_append`: a text is cut where the separator stands first.
* `splitOn_join`: texts without the separator are the pieces of what they are joined to.
-/
namespace MailMerge.Text

/-! ## The first separator -/

theorem cut_eq_some {sep : Char} {t a r : Text} (h : cut sep t = (a, some r)) :
    t = a ++ sep :: r ∧ sep ∉ a := by
  induction t generalizing a with
  | nil => simp [cut] at h
  | cons c t ih =>
    rw [cut] at h
    split at h
    · rename_i hc
      subst hc
      simp only [Prod.mk.injEq, Option.some.injEq] at h
      obtain ⟨rfl, rfl⟩ := h
      exact ⟨rfl, List.not_mem_nil⟩
    · rename_i hc
      simp only [Prod.mk.injEq] at h
      obtain ⟨rfl, hr⟩ := h
      obtain ⟨ht, hn⟩ := ih (Prod.ext rfl hr)
      refine ⟨congrArg (c :: ·) ht, fun hm => ?_⟩
      rcases List.mem_cons.1 hm with he | hm
      · exact hc he.symm
      · exact hn hm

theorem cut_append {sep : Char} {a : Text} (h : sep ∉ a) (r : Text) :
    cut sep (a ++ sep :: r) = (a, some r) := by
  induction a with
  | nil => simp [cut]
  | cons c a ih =>
    rw [List.mem_cons, not_or] at h
    rw [List.cons_append, cut, if_neg (Ne.symm h.1), ih h.2]

theorem cut_of_not_mem {sep : Char} {t : Text} (h : sep ∉ t) : cut sep t = (t, none) := by
  induction t with
  | nil => rfl
  | cons c t ih =>
    rw [List.mem_cons, not_or] at h
    rw [cut, if_neg (Ne.symm h.1), ih h.2]

theorem mem_of_mem_cut {sep c : Char} {t : Text} (h : c ∈ (cut sep t).1) : c ∈ t := by
  induction t with
  | nil => exact h
  | cons d t ih =>
    rw [cut] at h
    split at h
    · exact absurd h List.not_mem_nil
    · rcases List.mem_cons.1 h with rfl | h
      · exact List.mem_cons_self ..
      · exact List.mem_cons_of_mem _ (ih h)

/-! ## All separators -/

theorem splitOn_of_not_mem {sep : Char} {t : Text} (h : sep ∉ t) : splitOn sep t = [t] := by
  induction t with
  | nil => rfl
  | cons c t ih =>
    rw [List.mem_cons, not_or] at h
    rw [splitOn, if_neg (Ne.symm h.1), ih h.2]

theorem splitOn_append {sep : Char} {t : Text} (h : sep ∉ t) (r : Text) :
    splitOn sep (t ++ sep :: r) = t :: splitOn sep r := by
  induction t with
  | nil => simp [splitOn]
  | cons c t ih =>
    rw [List.mem_cons, not_or] at h
    rw [List.cons_append, splitOn, if_neg (Ne.symm h.1), ih h.2]

/-- Texts without the separator are the pieces of what they are joined to. -/
theorem splitOn_join {sep : Char} {l : List Text} (h : ∀ t ∈ l, sep ∉ t) (hne : l ≠ []) :
    splitOn sep (join [sep] l) = l := by
  induction l with
  | nil => exact absurd rfl hne
  | cons t l ih =>
    have ht := h t (List.mem_cons_self ..)
    cases l with
    | nil => exact splitOn_of_not_mem ht
    | cons u l =>
      have ih := ih (fun v hv => h v (List.mem_cons_of_mem _ hv)) (List.cons_ne_nil u l)
      have hjoin : join [sep] (t :: u :: l) = t ++ sep :: join [sep] (u :: l) := by simp [join]
      rw [hjoin, splitOn_append ht, ih]

theorem nil_mem_tail_splitOn (sep : Char) (a b : Text) :
    [] ∈ (splitOn sep (a ++ sep :: sep :: b)).tail := by
  induction a with
  | nil =>
    rw [List.nil_append, splitOn, if_pos rfl, splitOn, if_pos rfl]
    exact List.mem_cons_self ..
  | cons c a ih =>
    rw [List.cons_append]
    by_cases h : c = sep
    · rw [splitOn, if_pos h]
      exact List.mem_of_mem_tail ih
    · unfold splitOn
      rw [if_neg h]
      cases hs : splitOn sep (a ++ sep :: sep :: b) with
      | nil => exact absurd hs (splitOn_ne_nil sep _)
      | cons p ps =>
        rw [hs] at ih
        exact ih

/-- Between two separators that follow one another there is an empty piece. -/
theorem nil_mem_splitOn_of_infix {sep : Char} {t : Text} (h : [sep, sep] <:+: t) :
    [] ∈ splitOn sep t := by
  obtain ⟨a, b, rfl⟩ := h
  rw [List.append_assoc]
  exact List.mem_of_mem_tail (nil_mem_tail_splitOn sep a b)

theorem not_mem_of_mem_splitOn {sep : Char} {t : Text} : ∀ p ∈ splitOn sep t, sep ∉ p := by
  induction t with
  | nil => simp [splitOn]
  | cons c t ih =>
    intro p hp
    rw [splitOn] at hp
    split at hp
    · rcases List.mem_cons.1 hp with rfl | hp
      · exact List.not_mem_nil
      · exact ih p hp
    · rename_i hc
      split at hp
      · rw [List.mem_singleton.1 hp, List.mem_singleton]
        exact fun e => hc e.symm
      · rename_i q qs hq
        rcases List.mem_cons.1 hp with rfl | hp
        · rw [List.mem_cons, not_or]
          exact ⟨fun e => hc e.symm, ih q (hq ▸ List.mem_cons_self ..)⟩
        · exact ih p (hq ▸ List.mem_cons_of_mem _ hp)

theorem mem_of_mem_splitOn {sep : Char} {t : Text} {d : Char} :
    ∀ p ∈ splitOn sep t, d ∈ p → d ∈ t := by
  induction t with
  | nil => simp [splitOn]
  | cons c t ih =>
    intro p hp hd
    rw [splitOn] at hp
    split at hp
    · rcases List.mem_cons.1 hp with rfl | hp
      · exact absurd hd List.not_mem_nil
      · exact List.mem_cons_of_mem _ (ih p hp hd)
    · split at hp
      · rw [List.mem_singleton.1 hp, List.mem_singleton] at hd
        exact hd ▸ List.mem_cons_self ..
      · rename_i q qs hq
        rcases List.mem_cons.1 hp with rfl | hp
        · rcases List.mem_cons.1 hd with rfl | hd
          · exact List.mem_cons_self ..
          · exact List.mem_cons_of_mem _ (ih q (hq ▸ List.mem_cons_self ..) hd)
        · exact List.mem_cons_of_mem _ (ih p (hq ▸ List.mem_cons_of_mem _ hp) hd)

theorem mem_join {sep d : Char} {l : List Text} (h : d ∈ join [sep] l) :
    d = sep ∨ ∃ t ∈ l, d ∈ t := by
  induction l with
  | nil => exact absurd h List.not_mem_nil
  | cons t l ih =>
    cases l with
    | nil => exact Or.inr ⟨t, List.mem_singleton_self t, h⟩
    | cons u l =>
      rw [join, List.mem_append, List.mem_append, List.mem_singleton] at h
      rcases h with (h | h) | h
      · exact Or.inr ⟨t, List.mem_cons_self .., h⟩
      · exact Or.inl h
      · refine (ih h).imp_right ?_
        rintro ⟨v, hv, hd⟩
        exact ⟨v, List.mem_cons_of_mem _ hv, hd⟩

theorem join_ne_nil {sep t : Text} {l : List Text} (h : t ≠ []) : join sep (t :: l) ≠ [] := by
  cases l with
  | nil => exact h
  | cons u l => simp [join, h]

theorem getLast?_append_of_ne_nil (s : Text) {t : Text} (h : t ≠ []) :
    (s ++ t).getLast? = t.getLast? := by
  rw [List.getLast?_append, List.getLast?_eq_some_getLast h]
  rfl

/-- What non-empty texts without the separator are joined to does not end with it. -/
theorem getLast?_join {sep : Char} {l : List Text} (h : ∀ t ∈ l, t ≠ [] ∧ sep ∉ t) :
    (join [sep] l).getLast? ≠ some sep := by
  induction l with
  | nil => simp [join]
  | cons t l ih =>
    obtain ⟨-, hsep⟩ := h t (List.mem_cons_self ..)
    cases l with
    | nil => exact fun hl => hsep (List.mem_of_getLast? hl)
    | cons u l =>
      have hu := (h u (by simp)).1
      rw [join, getLast?_append_of_ne_nil _ (join_ne_nil hu)]
      exact ih fun v hv => h v (List.mem_cons_of_mem _ hv)

theorem byteLength_cons (c : Char) (t : Text) : byteLength (c :: t) = c.utf8Size + byteLength t :=
  rfl

theorem byteLength_append (s t : Text) : byteLength (s ++ t) = byteLength s + byteLength t := by
  induction s with
  | nil => exact (Nat.zero_add _).symm
  | cons c s ih => rw [List.cons_append, byteLength_cons, byteLength_cons, ih, Nat.add_assoc]

theorem byteLength_eq_length {t : Text} (h : ∀ c ∈ t, c.utf8Size = 1) :
    byteLength t = t.length := by
  induction t with
  | nil => rfl
  | cons c t ih =>
    rw [byteLength_cons, h c (List.mem_cons_self ..), ih fun d hd => h d (List.mem_cons_of_mem _ hd),
      List.length_cons, Nat.add_comm]

theorem length_le_byteLength (t : Text) : t.length ≤ byteLength t := by
  induction t with
  | nil => exact Nat.le_refl _
  | cons c t ih =>
    have := c.utf8Size_pos
    rw [byteLength_cons, List.length_cons]
    omega

theorem byteLength_pos {t : Text} (h : t ≠ []) : 0 < byteLength t := by
  obtain ⟨c, r, rfl⟩ := List.exists_cons_of_ne_nil h
  rw [byteLength_cons]
  have := c.utf8Size_pos
  omega

theorem join_concat {sep t : Text} {l : List Text} (h : l ≠ []) :
    join sep (l ++ [t]) = join sep l ++ (sep ++ t) := by
  induction l with
  | nil => exact absurd rfl h
  | cons u l ih =>
    cases l with
    | nil => simp [join]
    | cons v l =>
      have ih := ih (List.cons_ne_nil v l)
      simp only [List.cons_append] at ih ⊢
      rw [join, ih, join]
      simp

theorem mem_join_of_mem {sep t : Text} {l : List Text} {c : Char} (ht : t ∈ l) (hc : c ∈ t) :
    c ∈ join sep l := by
  induction l with
  | nil => exact absurd ht List.not_mem_nil
  | cons u l ih =>
    cases l with
    | nil => exact List.mem_singleton.1 ht ▸ hc
    | cons v l =>
      rw [join]
      rcases List.mem_cons.1 ht with rfl | ht
      · exact List.mem_append_left _ (List.mem_append_left _ hc)
      · exact List.mem_append_right _ (ih ht)

/-! ## Dropping a beginning -/

theorem dropStart?_append (pre t : Text) : dropStart? pre (pre ++ t) = some t := by
  rw [dropStart?, if_pos (List.isPrefixOf_iff_prefix.2 (List.prefix_append pre t)), List.drop_left]

theorem dropStart?_of_ne {p c : Char} (h : p ≠ c) (pre t : Text) :
    dropStart? (p :: pre) (c :: t) = none := by
  rw [dropStart?, List.isPrefixOf, beq_false_of_ne h, Bool.false_and, if_neg Bool.false_ne_true]

theorem eq_append_of_dropStart? {pre t u : Text} (h : dropStart? pre t = some u) : t = pre ++ u := by
  unfold dropStart? at h
  split at h
  · rename_i hpre
    obtain ⟨rest, rfl⟩ := List.isPrefixOf_iff_prefix.1 hpre
    rw [List.drop_left, Option.some.injEq] at h
    rw [h]
  · cases h

/-! ## Trimming -/

theorem trimBy_eq_self_of_ends {p : Char → Bool} {t : Text} (hhead : ∀ c ∈ t.head?, p c = false)
    (hlast : ∀ c ∈ t.getLast?, p c = false) : t.trimBy p = t := by
  have hdrop {l : List Char} (h : ∀ c ∈ l.head?, p c = false) : l.dropWhile p = l := by
    cases l with
    | nil => rfl
    | cons c l => rw [List.dropWhile_cons, h c rfl, if_neg Bool.false_ne_true]
  rw [trimBy, trimRight, hdrop hhead, hdrop fun c hc => hlast c (List.head?_reverse ▸ hc),
    List.reverse_reverse]

theorem trimBy_eq_self {p : Char → Bool} {t : Text} (h : ∀ c ∈ t, p c = false) :
    t.trimBy p = t :=
  trimBy_eq_self_of_ends (fun c hc => h c (List.mem_of_mem_head? hc))
    fun c hc => h c (List.mem_of_getLast? hc)

end MailMerge.Text
