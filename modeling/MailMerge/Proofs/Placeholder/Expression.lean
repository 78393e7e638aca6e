import MailMerge.Phrase
import MailMerge.Placeholder.Token
import MailMerge.Proofs.Text.Cutting
/-!
# Where inline expressions stand

An inline expression is read where it is written (`InlineField.at?_eq_some_iff`). It is looked for
anywhere in a text: the first one is found (`InlineField.find?_eq_some_iff`), and nothing is found
just when none stands there (`InlineField.find?_eq_none_iff`).
-/
namespace MailMerge.InlineField

/-- The text of an expression. -/
def written (f : InlineField) : Text :=
  Token.wrap (f.type ++ ':' :: (f.value ++ f.options.elim [] (':' :: ·)))

/-- Whether an expression can be read from its text. -/
structure IsWritable (f : InlineField) : Prop where
  type : ∀ c ∈ f.type, inName c = true
  value : ∀ c ∈ f.value, inName c = true
  options : ∀ o, f.options = some o → ∀ c ∈ o, inOptions c = true

/-- A text is read up to the first character that does not belong to it. -/
theorem read_up_to {p : Char → Bool} {t r : Text} {c : Char} (ht : ∀ c ∈ t, p c = true)
    (hc : p c = false) :
    (t ++ c :: r).takeWhile p = t ∧ (t ++ c :: r).dropWhile p = c :: r := by
  rw [List.takeWhile_append_of_pos ht, List.dropWhile_append_of_pos ht,
    List.takeWhile_cons, List.dropWhile_cons, hc]
  simp

/-- An expression is read from what it writes, whatever follows. -/
theorem at?_written_append {f : InlineField} (h : f.IsWritable) (r : Text) :
    at? (f.written ++ r) = some f := by
  obtain ⟨type, value, options⟩ := f
  cases options with
  | none =>
    have hopen : Text.dropStart? ['$', '\x7b'] (written ⟨type, value, none⟩ ++ r) =
        some (type ++ ':' :: (value ++ '\x7d' :: r)) := by
      simp [Text.dropStart?, written, Token.wrap, Token.opening, Token.closing]
    obtain ⟨htype, hrest⟩ := @read_up_to inName type (value ++ '\x7d' :: r) ':' h.type rfl
    obtain ⟨hvalue, hend⟩ := @read_up_to inName value r '\x7d' h.value rfl
    simp [at?, hopen, htype, hrest, hvalue, hend]
  | some o =>
    have hopen : Text.dropStart? ['$', '\x7b'] (written ⟨type, value, some o⟩ ++ r) =
        some (type ++ ':' :: (value ++ ':' :: (o ++ '\x7d' :: r))) := by
      simp [Text.dropStart?, written, Token.wrap, Token.opening, Token.closing]
    obtain ⟨htype, hrest⟩ := @read_up_to inName type (value ++ ':' :: (o ++ '\x7d' :: r)) ':'
      h.type rfl
    obtain ⟨hvalue, hmore⟩ := @read_up_to inName value (o ++ '\x7d' :: r) ':' h.value rfl
    obtain ⟨hoptions, hend⟩ := @read_up_to inOptions o r '\x7d' (h.options o rfl) rfl
    simp [at?, hopen, htype, hrest, hvalue, hmore, hoptions, hend]

/-- An expression is found in what it writes. -/
theorem find?_written {f : InlineField} (h : f.IsWritable) : find? f.written = some f := by
  have hat := at?_written_append h []
  have hcons : ∃ r, f.written = '$' :: r := ⟨_, rfl⟩
  obtain ⟨r, hr⟩ := hcons
  rw [List.append_nil, hr] at hat
  rw [hr, find?, hat]

/-- Whether no expression stands anywhere in a text. -/
def IsFree (t : Text) : Prop := ∀ f : InlineField, f.IsWritable → ¬ f.written <:+: t

/-- Whether an expression stands in a text, with the text `front` before it and no expression that
begins earlier. -/
structure StandsFirst (f : InlineField) (front t : Text) : Prop where
  writable : f.IsWritable
  stands : front ++ f.written <+: t
  first : ∀ g : InlineField, g.IsWritable → ∀ u, u ++ g.written <+: t → front.length ≤ u.length

/-! ## Where expressions stand -/

/-- A text is what is read of it, the character that ends it, and the rest. -/
theorem exists_read {p : Char → Bool} {t r : Text} {c : Char} (h : t.dropWhile p = c :: r) :
    ∃ u, t.takeWhile p = u ∧ t = u ++ c :: r ∧ ∀ d ∈ u, p d = true :=
  ⟨_, rfl, h ▸ List.takeWhile_append_dropWhile.symm, List.all_eq_true.1 List.all_takeWhile⟩

/-- An expression is read where it is written. -/
theorem at?_eq_some_iff {f : InlineField} {t : Text} :
    at? t = some f ↔ f.IsWritable ∧ f.written <+: t := by
  constructor
  · intro h
    obtain ⟨r, hr, h⟩ := Option.bind_eq_some_iff.1 h
    have ht := Text.eq_append_of_dropStart? hr
    split at h
    · rename_i s hs
      obtain ⟨type, htake, hrs, htype⟩ := exists_read hs
      rw [htake] at h
      split at h
      · rename_i u hu
        obtain ⟨value, htake', hsu, hvalue⟩ := exists_read hu
        rw [htake'] at h
        cases h
        refine ⟨⟨htype, hvalue, fun o ho => nomatch ho⟩, u, ?_⟩
        rw [ht, hrs, hsu]
        simp [written, Token.wrap, Token.opening, Token.closing]
      · rename_i u hu
        obtain ⟨value, htake', hsu, hvalue⟩ := exists_read hu
        split at h
        · rename_i hend
          obtain ⟨v, hv⟩ := List.head?_eq_some_iff.1 hend
          obtain ⟨options, htake'', huv, hoptions⟩ := exists_read hv
          rw [htake', htake''] at h
          cases h
          refine ⟨⟨htype, hvalue, fun o ho => Option.some.inj ho ▸ hoptions⟩, v, ?_⟩
          rw [ht, hrs, hsu, huv]
          simp [written, Token.wrap, Token.opening, Token.closing]
        · cases h
      · cases h
    · cases h
  · intro h
    obtain ⟨r, rfl⟩ := h.2
    exact at?_written_append h.1 r

theorem at?_eq_none_iff {t : Text} :
    at? t = none ↔ ∀ f : InlineField, f.IsWritable → ¬ f.written <+: t := by
  simp only [Option.eq_none_iff_forall_ne_some, Ne, at?_eq_some_iff, not_and]

/-- Nothing is found just when no expression stands in the text. -/
theorem find?_eq_none_iff {t : Text} : find? t = none ↔ IsFree t := by
  induction t with
  | nil =>
    have hne : ∀ f : InlineField, f.written ≠ [] := fun _ => List.cons_ne_nil _ _
    exact ⟨fun _ f _ h => hne f (List.infix_nil.1 h), fun _ => rfl⟩
  | cons c r ih =>
    have hsplit : IsFree (c :: r) ↔ at? (c :: r) = none ∧ IsFree r := by
      rw [at?_eq_none_iff]
      simp only [IsFree, List.infix_cons_iff, not_or]
      exact ⟨fun h => ⟨fun f hf => (h f hf).1, fun f hf => (h f hf).2⟩,
        fun h f hf => ⟨h.1 f hf, h.2 f hf⟩⟩
    rw [hsplit, ← ih, find?]
    cases at? (c :: r) <;> simp

theorem standsFirst_nil_iff {f : InlineField} {t : Text} :
    f.StandsFirst [] t ↔ at? t = some f := by
  rw [at?_eq_some_iff]
  exact ⟨fun h => ⟨h.writable, h.stands⟩, fun h => ⟨h.1, h.2, fun _ _ _ _ => Nat.zero_le _⟩⟩

/-- Behind its first character a text begins with the same expression, unless one begins there. -/
theorem standsFirst_cons_iff {f : InlineField} {front t : Text} {c d : Char} :
    f.StandsFirst (d :: front) (c :: t) ↔
      d = c ∧ at? (c :: t) = none ∧ f.StandsFirst front t := by
  constructor
  · intro h
    obtain ⟨hd, hstands⟩ := List.cons_prefix_cons.1 h.stands
    refine ⟨hd, at?_eq_none_iff.2 fun g hg hstart => ?_, h.writable, hstands, fun g hg u hu => ?_⟩
    · exact Nat.not_succ_le_zero _ (h.first g hg [] hstart)
    · exact Nat.le_of_succ_le_succ (h.first g hg (c :: u) (List.cons_prefix_cons.2 ⟨rfl, hu⟩))
  · intro h
    obtain ⟨rfl, hnone, h⟩ := h
    refine ⟨h.writable, List.cons_prefix_cons.2 ⟨rfl, h.stands⟩, fun g hg u hu => ?_⟩
    cases u with
    | nil => exact absurd hu (at?_eq_none_iff.1 hnone g hg)
    | cons e u => exact Nat.succ_le_succ (h.first g hg u (List.cons_prefix_cons.1 hu).2)

/-- The first expression in a text is found. -/
theorem find?_eq_some_iff {f : InlineField} {t : Text} :
    find? t = some f ↔ ∃ front, f.StandsFirst front t := by
  induction t with
  | nil =>
    refine ⟨(fun h => nomatch h), fun h => ?_⟩
    obtain ⟨front, h⟩ := h
    exact absurd (List.prefix_nil.1 h.stands) (List.append_ne_nil_of_right_ne_nil _ nofun)
  | cons c r ih =>
    cases hat : at? (c :: r) with
    | some g =>
      have hfind : find? (c :: r) = some g := by rw [find?, hat]
      rw [hfind, ← hat]
      refine ⟨fun h => ⟨[], standsFirst_nil_iff.2 h⟩, fun h => ?_⟩
      obtain ⟨front, h⟩ := h
      cases front with
      | nil => exact standsFirst_nil_iff.1 h
      | cons d front => exact absurd (standsFirst_cons_iff.1 h).2.1 (by simp [hat])
    | none =>
      have hfind : find? (c :: r) = find? r := by rw [find?, hat]
      rw [hfind]
      refine ih.trans ⟨fun h => ?_, fun h => ?_⟩
      · obtain ⟨front, h⟩ := h
        exact ⟨c :: front, standsFirst_cons_iff.2 ⟨rfl, hat, h⟩⟩
      · obtain ⟨front, h⟩ := h
        cases front with
        | nil => exact absurd (standsFirst_nil_iff.1 h) (by simp [hat])
        | cons d front => exact ⟨front, (standsFirst_cons_iff.1 h).2.2⟩

end MailMerge.InlineField
