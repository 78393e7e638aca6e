import MailMerge.Phrase
import MailMerge.Proofs.Calendar.Characters
import MailMerge.Proofs.Placeholder.Expression
/-!
# The characters of phrases

The phrases made of values add nothing but plain characters to what they are made of: amounts add
digits and the signs between them, number words and names with titles add words and blanks, and an
inline expression evaluates to one of these or to its own value. So what an expression comes to is
of every class of characters that holds its value, its options and all plain characters
(`InlineField.within_evaluate`).
-/
namespace MailMerge

open Text

section
variable {p : Char → Bool} [HasPlain p]

/-! ## Amounts and number words -/

namespace Amount

theorem within_roundedDigits (a : Amount) (places : Nat) : (a.roundedDigits places).Within p := by
  unfold roundedDigits
  dsimp only
  have hzero : p '0' = true := HasPlain.plain '0' (by decide)
  have hzeros : Within p ['0'] := within_cons.2 ⟨hzero, within_nil⟩
  refine within_ite hzeros (within_ite ?_ (within_ite hzeros (within_ofNat _)))
  exact within_append.2 ⟨within_ofNat _, within_replicate hzero _⟩

omit [HasPlain p] in
theorem within_of_mem_groupDigits {ds : Text} (h : ds.Within p) :
    ∀ g ∈ groupDigits ds, g.Within p :=
  fun _ hg => h.of_subset fun _ hc => groupDigits_flatten ds ▸ List.mem_flatten_of_mem hg hc

theorem within_print? {style : Style} (hpoint : style.point.Within p)
    (hsep : style.groupSep.Within p) {a : Amount} {t : Text} (h : a.print? style = some t) :
    t.Within p := by
  have hzero : p '0' = true := HasPlain.plain '0' (by decide)
  have hds := within_padLeft hzero (within_roundedDigits a (clampPlaces style.places))
    (clampPlaces style.places + 1)
  unfold print? at h
  dsimp only at h
  split at h
  · cases h
  · split at h
    · cases h
    · rw [← Option.some.inj h, within_append, within_append]
      have hsign : Within p ['-'] := within_of_plain (by decide)
      refine ⟨⟨within_ite hsign within_nil, within_join hsep ?_⟩, within_ite within_nil ?_⟩
      · exact within_of_mem_groupDigits (hds.of_subset (List.take_subset _ _))
      · exact within_append.2 ⟨hpoint, hds.of_subset (List.drop_subset _ _)⟩

theorem within_format {places : Int} {v : Value} {t : Text}
    (h : format { places := places } v = .ok t) : t.Within p := by
  unfold format at h
  cases ha : ofValue v with
  | error e => rw [ha] at h; cases h
  | ok a =>
    rw [ha] at h
    dsimp only [bind, Except.bind] at h
    split at h
    · cases h
    · split at h
      · rename_i hprint
        cases h
        have hpoint : Within p [','] := within_of_plain (by decide)
        have hsep : Within p ['.'] := within_of_plain (by decide)
        exact within_print? hpoint hsep hprint
      · cases h

theorem within_formatMoney {currency : Text} (hc : currency.Within p) {v : Value} {t : Text}
    (h : formatMoney currency v = .ok t) : t.Within p := by
  unfold formatMoney at h
  cases hf : format { places := 2 } v with
  | error e => rw [hf] at h; cases h
  | ok s =>
    have hs : s.Within p := within_format hf
    rw [hf] at h
    cases h
    have hblank : p ' ' = true := HasPlain.plain ' ' (by decide)
    exact within_ite hs (within_append.2 ⟨hc, within_cons.2 ⟨hblank, hs⟩⟩)

end Amount

namespace Spelling

theorem within_smallWord (n : Nat) : (smallWord n).Within p := within_getD (by decide) n

theorem within_of_mem_words (n : Nat) : ∀ t ∈ words n, t.Within p := by
  fun_induction words n with
  | case1 => exact List.forall_mem_nil _
  | case2 n => exact fun _ ht => List.mem_singleton.1 ht ▸ within_smallWord n
  | case3 n _ _ _ ih =>
    exact List.forall_mem_append.2 ⟨ih, List.forall_mem_singleton.2 (within_of_plain (by decide))⟩
  | case5 | case7 =>
    exact List.forall_mem_cons.2 ⟨within_of_plain (by decide), by assumption⟩
  | case4 | case6 | case8 | case9 | case10 | case11 =>
    exact List.forall_mem_append.2 ⟨by assumption,
      List.forall_mem_cons.2 ⟨within_of_plain (by decide), by assumption⟩⟩

theorem within_phrase {whole : List Text} (h : ∀ t ∈ whole, t.Within p) (fraction : Text) :
    (phrase whole fraction).Within p := by
  have hzero : zeroWord.Within p := within_of_plain (by decide)
  have hdigit : ∀ d, (digitWord d).Within p := fun d => within_ite hzero (within_smallWord d)
  refine within_join (within_of_plain (by decide)) ?_
  rw [List.forall_mem_append]
  constructor
  · split
    · exact fun t ht => List.mem_singleton.1 ht ▸ hzero
    · exact h
  · split
    · exact List.forall_mem_nil _
    · refine List.forall_mem_cons.2 ⟨within_of_plain (by decide), fun t ht => ?_⟩
      obtain ⟨c, -, rfl⟩ := List.mem_map.1 ht
      exact hdigit _

theorem within_spell {v : Value} {t : Text} (h : spell v = .ok t) : t.Within p := by
  unfold spell at h
  cases hp : parts v with
  | error e => rw [hp] at h; cases h
  | ok p =>
    rw [hp] at h
    cases h
    exact within_phrase (within_of_mem_words p.1) p.2

end Spelling

/-! ## Names and dates in words -/

theorem within_titledName {name front back : Text} (hn : name.Within p) (hf : front.Within p)
    (hb : back.Within p) : (titledName name front back).Within p := by
  have hblank : Within p [' '] := within_of_plain (by decide)
  have hcomma : Within p [',', ' '] := within_of_plain (by decide)
  rw [titledName, within_append, within_append]
  exact ⟨⟨within_ite within_nil (within_append.2 ⟨hf, hblank⟩), hn⟩,
    within_ite within_nil (within_append.2 ⟨hcomma, hb⟩)⟩

variable {z : Zone} {now : Moment}

theorem within_localDate {fmt t : Text} {m : Moment} (hfmt : fmt.Within p)
    (h : localDate z fmt m = .ok t) : t.Within p := by
  unfold localDate at h
  cases hrender : DateFormat.render z m fmt with
  | error f => rw [hrender] at h; cases h
  | ok s =>
    rw [hrender] at h
    exact Except.ok.inj h ▸ Indonesian.within_localize (DateFormat.within_render hfmt hrender)

theorem within_dateInWords {fmt t : Text} {v : Value} (hfmt : fmt.Within p)
    (h : dateInWords z now fmt v = .ok t) : t.Within p := by
  unfold dateInWords at h
  cases hv : v.moment? now with
  | error f => rw [hv] at h; cases h
  | ok x =>
    rw [hv] at h
    cases x with
    | none => cases h; exact within_nil
    | some x => exact within_localDate hfmt h

/-! ## Inline expressions -/

namespace InlineField

omit [HasPlain p] in
theorem within_find? {t : Text} (ht : t.Within p) {f : InlineField} (h : find? t = some f) :
    f.value.Within p ∧ (f.options.getD []).Within p := by
  obtain ⟨front, hfirst⟩ := find?_eq_some_iff.1 h
  have hwritten := (within_append.1 (ht.of_subset hfirst.stands.subset)).2
  obtain ⟨type, value, options⟩ := f
  cases options with
  | none => simp_all [written, Token.wrap]
  | some o => simp_all [written, Token.wrap]

theorem within_evaluate {f : InlineField} (hvalue : f.value.Within p)
    (hoptions : (f.options.getD []).Within p) {t : Text} (h : f.evaluate z now = .ok t) :
    t.Within p := by
  unfold evaluate at h
  dsimp only at h
  split at h
  · split at h
    · rename_i hmoney
      exact Except.ok.inj h ▸ Amount.within_formatMoney hoptions hmoney
    · exact Except.ok.inj h ▸ within_nil
  split at h
  · split at h
    · rename_i hwords
      exact Except.ok.inj h ▸ Spelling.within_spell hwords
    · exact Except.ok.inj h ▸ within_nil
  split at h
  · have hfmt : (Address.orElse (f.options.getD []) usualDateFormat).Within p :=
      within_ite (within_of_plain (by decide)) hoptions
    split at h
    · exact Except.ok.inj h ▸ within_nil
    · exact Except.ok.inj h ▸ within_nil
    · exact within_dateInWords hfmt h
  split at h
  · split at h
    · split at h
      · rename_i hnumber
        exact Except.ok.inj h ▸ Amount.within_format hnumber
      · exact Except.ok.inj h ▸ within_nil
    · exact Except.ok.inj h ▸ within_nil
  split at h
  · obtain ⟨hfront, hback⟩ := within_cut '|' hoptions
    exact Except.ok.inj h ▸ within_titledName hvalue hfront hback
  · exact Except.ok.inj h ▸ hvalue

end InlineField

theorem within_evaluateInline {s t : Text} (hs : s.Within p)
    (h : evaluateInline z now s = .ok t) : t.Within p := by
  unfold evaluateInline at h
  split at h
  · exact Except.ok.inj h ▸ hs
  · rename_i f hf
    obtain ⟨hvalue, hoptions⟩ := InlineField.within_find? hs hf
    exact InlineField.within_evaluate hvalue hoptions h

end

end MailMerge
