import MailMerge.Proofs.Number.Precision
import MailMerge.Proofs.Number.Printing
import MailMerge.Proofs.Spelling.Meaning
/-!
# Spelled fractions

The phrase of a value has the words of its whole part in front of the point, and behind it those of
the digits of its fraction. The fraction is calculated with a limited number of digits: where they
suffice, the words are those of all its digits, and they tell the value; where they do not, other
digits are spelled, which belong to another value.

Results:
* `splitWhole_spec`: the whole part of an amount and what remains.
* `fractionOf_fractionDigits`: the digits of a fraction that is short enough.
* `spell_fraction`: what stands in front of the point and behind it.
-/
namespace MailMerge.Spelling

open Decimal (magnitude IsShort)

/-! ## Digits behind the point -/

/-- The number below one with these digits behind the point. -/
def fractionOf : List Nat → ℚ
  | [] => 0
  | d :: ds => (d + fractionOf ds) / 10

/-- The digits of a numeral. -/
def digitsOf (t : Text) : List Nat := t.map fun c => c.toNat - '0'.toNat

/-- The digits behind the point make the number of the numeral in units of the last one. -/
theorem ofDigitChars_eq_fractionOf (t : Text) (n : Nat) :
    (Nat.ofDigitChars 10 t n : ℚ) = (n + fractionOf (digitsOf t)) * 10 ^ t.length := by
  induction t generalizing n with
  | nil => simp [digitsOf, fractionOf]
  | cons c t ih =>
    rw [Nat.ofDigitChars_cons, ih, List.length_cons, pow_succ]
    show _ = (n + ((c.toNat - '0'.toNat : Nat) + fractionOf (digitsOf t)) / 10) * _
    push_cast
    ring

theorem fractionOf_ofNatPadded (width n : Nat) :
    fractionOf (digitsOf (Text.ofNatPadded width n)) =
      magnitude (n, -(max width (Decimal.digitCount n) : Nat)) := by
  have hvalue := ofDigitChars_eq_fractionOf (Text.ofNatPadded width n) 0
  rw [ofDigitChars_ofNatPadded, length_ofNatPadded, Nat.cast_zero, zero_add] at hvalue
  have hpos : (10 : ℚ) ^ max width (Decimal.digitCount n) ≠ 0 := by positivity
  unfold magnitude
  rw [hvalue, zpow_neg, zpow_natCast, mul_assoc, mul_inv_cancel₀ hpos, mul_one]

theorem getLast?_digitsOf_ofNatPadded (width n : Nat) :
    (digitsOf (Text.ofNatPadded width n)).getLast? = some (n % 10) := by
  have hdigit : ∀ d : Fin 10, (Nat.digitChar d).toNat - '0'.toNat = d := by decide
  have hlast : (Text.ofNat n).getLast? = some (Nat.digitChar (n % 10)) := by
    rw [Text.ofNat, Nat.toDigits_eq_if (by decide)]
    split
    · rw [Nat.mod_eq_of_lt ‹_›]
      rfl
    · rw [List.getLast?_concat]
  have hne : Text.ofNat n ≠ [] := Nat.toDigits_ne_nil
  rw [digitsOf, List.getLast?_map, Text.ofNatPadded, Text.padLeft,
    Text.getLast?_append_of_ne_nil _ hne, hlast, Option.map_some,
    hdigit ⟨n % 10, Nat.mod_lt n (by decide)⟩]

theorem lt_ten_of_mem_digitsOf {t : Text} (h : ∀ c ∈ t, c.isDigit = true) :
    ∀ d ∈ digitsOf t, d < 10 := by
  have hall : ∀ c ∈ "0123456789".toList, c.toNat - '0'.toNat < 10 := forall_mem_of_all (by decide)
  intro d hd
  obtain ⟨c, hc, rfl⟩ := List.mem_map.1 hd
  exact hall c (mem_of_isDigit (h c hc))

/-! ## The digits of a fraction -/

/-- Whether the digits that are kept suffice for a fraction. -/
def IsPrecise (q : ℚ) : Prop := IsShort fractionPrecision leastFractionPlace q

/-- A number below one has no digit in front of the point. -/
theorem digitCount_le_of_magnitude_lt_one {c : Nat} {e : Int} (hc : 0 < c)
    (h : magnitude (c, e) < 1) : Decimal.digitCount c ≤ (-e).toNat ∧ e = -((-e).toNat : Int) := by
  have hneg : e < 0 := by
    by_contra hle
    have hone : (1 : ℚ) ≤ magnitude (c, e) :=
      one_le_mul_of_one_le_of_one_le (Nat.one_le_cast.2 hc)
        (one_le_zpow₀ (by norm_num) (Int.not_lt.1 hle))
    exact absurd h (not_lt.2 hone)
  have hexponent : e = -((-e).toNat : Int) := by omega
  refine ⟨Decimal.digitCount_le_of_lt_pow (by omega) ?_, hexponent⟩
  have hpos : (0 : ℚ) < 10 ^ (-e).toNat := by positivity
  rw [magnitude, hexponent, zpow_neg, zpow_natCast, ← div_eq_mul_inv, div_lt_one hpos] at h
  exact_mod_cast h

section
variable {rest : Nat} {exponent : Int}

/-- The digits that are spelled are those of what is left of the fraction. -/
theorem fractionDigits_eq (h : rest ≠ 0) :
    fractionDigits rest exponent =
      let rounded := Decimal.roundTo fractionPrecision leastFractionPlace rest exponent
      let short := Decimal.normalize rounded.1 rounded.2
      Text.ofNatPadded (-short.2).toNat short.1 := by
  unfold fractionDigits
  rw [if_neg h]
  rfl

theorem isDigit_of_mem_fractionDigits {c : Char} (h : c ∈ fractionDigits rest exponent) :
    c.isDigit = true := by
  by_cases hrest : rest = 0
  · rw [fractionDigits, if_pos hrest] at h
    exact absurd h List.not_mem_nil
  · rw [fractionDigits_eq hrest] at h
    exact isDigit_of_mem_ofNatPadded h

theorem fractionDigits_eq_nil_iff : fractionDigits rest exponent = [] ↔ rest = 0 := by
  constructor
  · intro hnil
    by_contra hrest
    have hlength := congrArg List.length hnil
    rw [fractionDigits_eq hrest, length_ofNatPadded] at hlength
    have hpos := Nat.length_toDigits_pos
      (b := 10) (n := (Decimal.normalize (Decimal.roundTo fractionPrecision leastFractionPlace rest
        exponent).1 (Decimal.roundTo fractionPrecision leastFractionPlace rest exponent).2).1)
    simp only [Decimal.digitCount, Text.ofNat, List.length_nil] at hlength
    omega
  · intro h
    rw [fractionDigits, if_pos h]

/-- Whatever is spelled behind the point is a precise fraction. -/
theorem isPrecise_fractionDigits (rest : Nat) (exponent : Int) :
    IsPrecise (fractionOf (digitsOf (fractionDigits rest exponent))) := by
  by_cases hrest : rest = 0
  · rw [fractionDigits, if_pos hrest]
    exact ⟨0, 0, by simp [digitsOf, fractionOf, magnitude], by decide, by decide⟩
  obtain ⟨hfew, hleast⟩ := Decimal.roundTo_bounds fractionPrecision leastFractionPlace rest exponent
  rw [fractionDigits_eq hrest]
  generalize Decimal.roundTo fractionPrecision leastFractionPlace rest exponent = rounded at hfew hleast
  obtain ⟨c, e⟩ := rounded
  dsimp only at hfew hleast ⊢
  have hbounds : (Decimal.normalize c e).1 < 10 ^ fractionPrecision ∧
      leastFractionPlace ≤ (Decimal.normalize c e).2 := by
    by_cases hc : c = 0
    · rw [Decimal.normalize, if_pos hc]
      exact ⟨by decide, by decide⟩
    · obtain ⟨-, -, hle, hexponent⟩ := Decimal.normalize_spec (Nat.pos_of_ne_zero hc) e
      exact ⟨Nat.lt_of_le_of_lt hle hfew, Int.le_trans hleast hexponent⟩
  have hcount := Decimal.digitCount_le_of_lt_pow (by decide) hbounds.1
  rw [fractionOf_ofNatPadded]
  refine ⟨_, _, rfl, hbounds.1, ?_⟩
  simp only [leastFractionPlace, fractionPrecision] at hbounds hcount ⊢
  omega

/-- A precise fraction is spelled with all its digits and no zero at the end. -/
theorem fractionOf_fractionDigits (hrest : rest ≠ 0) (hlt : magnitude (rest, exponent) < 1)
    (hprecise : IsPrecise (magnitude (rest, exponent))) :
    fractionOf (digitsOf (fractionDigits rest exponent)) = magnitude (rest, exponent) ∧
      (digitsOf (fractionDigits rest exponent)).getLast? ≠ some 0 := by
  have hrounded := Decimal.magnitude_roundTo_of_isShort hprecise
  have hpos : 0 < magnitude (rest, exponent) := by
    have := Nat.pos_of_ne_zero hrest
    unfold magnitude
    positivity
  rw [fractionDigits_eq hrest]
  generalize Decimal.roundTo fractionPrecision leastFractionPlace rest exponent = rounded at hrounded
  obtain ⟨c, e⟩ := rounded
  have hc : 0 < c := by
    refine Nat.pos_of_ne_zero fun hzero => ?_
    rw [← hrounded, hzero, magnitude, Nat.cast_zero, zero_mul] at hpos
    exact lt_irrefl _ hpos
  obtain ⟨hvalue, hlast, -, -⟩ := Decimal.normalize_spec hc e
  rw [hrounded] at hvalue
  dsimp only
  generalize Decimal.normalize c e = short at hvalue hlast
  obtain ⟨c', e'⟩ := short
  dsimp only at hlast ⊢
  obtain ⟨hcount, hexponent⟩ := digitCount_le_of_magnitude_lt_one (c := c') (e := e')
    (Nat.pos_of_ne_zero fun hzero => hlast (by rw [hzero])) (by rwa [hvalue])
  constructor
  · rw [fractionOf_ofNatPadded, Nat.max_eq_left hcount, ← hexponent, hvalue]
  · rw [getLast?_digitsOf_ofNatPadded]
    exact fun h => hlast (Option.some.inj h)

end

/-! ## The whole part -/

/-- An amount is its whole part and what remains, which is below one. -/
theorem splitWhole_spec (a : Amount) :
    |a.toRat| = (splitWhole a).1 + magnitude ((splitWhole a).2, a.exponent) ∧
      magnitude ((splitWhole a).2, a.exponent) < 1 := by
  have hzero : ∀ e, magnitude (0, e) = 0 := fun e => by simp [magnitude]
  have habs : |a.toRat| = magnitude (a.coefficient, a.exponent) := Amount.abs_toRat a
  rw [habs]
  unfold splitWhole
  by_cases h0 : a.coefficient = 0
  · rw [if_pos h0, h0, hzero]
    simp
  rw [if_neg h0]
  by_cases hwhole : 0 ≤ a.exponent
  · obtain ⟨k, hk⟩ := Int.eq_ofNat_of_zero_le hwhole
    rw [if_pos hwhole, hk, hzero]
    simp [magnitude]
  rw [if_neg hwhole]
  have hexponent : a.exponent = -(a.exponent.natAbs : Int) := by omega
  generalize a.exponent.natAbs = k at hexponent ⊢
  have hpos : (0 : ℚ) < 10 ^ k := by positivity
  have hscale : ∀ c, magnitude (c, a.exponent) = c / 10 ^ k := by
    intro c
    rw [magnitude, hexponent, zpow_neg, zpow_natCast, div_eq_mul_inv]
  by_cases hpart : Decimal.digitCount a.coefficient < k
  · rw [if_pos hpart, hscale, div_lt_one hpos]
    have hlt : a.coefficient < 10 ^ k := Nat.lt_of_lt_of_le (Decimal.lt_pow_digitCount _)
      (Nat.pow_le_pow_right (by decide) (Nat.le_of_lt hpart))
    exact ⟨by simp, by exact_mod_cast hlt⟩
  · rw [if_neg hpart, hscale, hscale, div_lt_one hpos]
    have hmod : a.coefficient % 10 ^ k < 10 ^ k := Nat.mod_lt _ (Nat.pow_pos (by decide))
    refine ⟨?_, by exact_mod_cast hmod⟩
    have hdivmod : (10 ^ k : ℚ) * (a.coefficient / 10 ^ k : Nat) + (a.coefficient % 10 ^ k : Nat) =
        a.coefficient := by exact_mod_cast Nat.div_add_mod a.coefficient (10 ^ k)
    rw [← hdivmod]
    field_simp

theorem floor_toRat (a : Amount) : ⌊|a.toRat|⌋ = ((splitWhole a).1 : ℤ) := by
  obtain ⟨hsum, hlt⟩ := splitWhole_spec a
  have hnonneg : 0 ≤ magnitude ((splitWhole a).2, a.exponent) := by
    unfold magnitude
    positivity
  rw [hsum, Int.floor_eq_iff]
  push_cast
  constructor <;> linarith

theorem fract_toRat (a : Amount) :
    Int.fract |a.toRat| = magnitude ((splitWhole a).2, a.exponent) := by
  obtain ⟨hsum, -⟩ := splitWhole_spec a
  rw [Int.fract, floor_toRat, Int.cast_natCast, hsum, add_sub_cancel_left]

/-! ## Phrases with a point -/

/-- The words of a phrase in front of the point. -/
def wholeWords (t : Text) : List Text := (Text.splitOn ' ' t).takeWhile (· != pointWord)

/-- The words of a phrase behind the point. -/
def fractionWords (t : Text) : List Text := ((Text.splitOn ' ' t).dropWhile (· != pointWord)).drop 1

/-- Whether words are those of all the digits behind the point of a number below one, without zeros at
the end. -/
def Expands (ws : List Text) (q : ℚ) : Prop :=
  ∃ ds : List Nat, (∀ d ∈ ds, d < 10) ∧ ds.getLast? ≠ some 0 ∧ fractionOf ds = q ∧
    ws = ds.map digitWord

/-- The words of digits tell the digits. -/
theorem map_digitWord_inj {ds ds' : List Nat} (h : ∀ d ∈ ds, d < 10) (h' : ∀ d ∈ ds', d < 10)
    (hwords : ds.map digitWord = ds'.map digitWord) : ds = ds' := by
  have hinj : ∀ i j : Fin 10, digitWord i = digitWord j → i = j := by decide
  induction ds generalizing ds' with
  | nil => exact (List.map_eq_nil_iff.1 hwords.symm).symm
  | cons d ds ih =>
    cases ds' with
    | nil => cases hwords
    | cons d' ds' =>
      rw [List.map_cons, List.map_cons, List.cons.injEq] at hwords
      have hhead := hinj ⟨d, h d (List.mem_cons_self ..)⟩ ⟨d', h' d' (List.mem_cons_self ..)⟩ hwords.1
      rw [Fin.mk.inj hhead, ih (fun x hx => h x (List.mem_cons_of_mem _ hx))
        (fun x hx => h' x (List.mem_cons_of_mem _ hx)) hwords.2]

theorem Expands.unique {ws : List Text} {p q : ℚ} (h : Expands ws p) (h' : Expands ws q) : p = q := by
  obtain ⟨ds, hten, -, rfl, hwords⟩ := h
  obtain ⟨ds', hten', -, rfl, hwords'⟩ := h'
  rw [map_digitWord_inj hten hten' (hwords.symm.trans hwords')]

/-- The words behind the point, the point among them. -/
def backWords (f : Text) : List Text :=
  if f.isEmpty then [] else pointWord :: (digitsOf f).map digitWord

section
variable {n : Nat} {f : Text}

theorem splitOn_phrase_fraction (hn : n ≤ maxValue) (hf : ∀ c ∈ f, c.isDigit = true) :
    Text.splitOn ' ' (phrase (words n) f) = wordsAlone n ++ backWords f := by
  have hdigit : ∀ d : Fin 10, ' ' ∉ digitWord d := by decide
  have hback : ∀ w ∈ backWords f, ' ' ∉ w := by
    intro w hw
    unfold backWords at hw
    split at hw
    · exact absurd hw List.not_mem_nil
    · rcases List.mem_cons.1 hw with rfl | hw
      · decide
      · obtain ⟨d, hd, rfl⟩ := List.mem_map.1 hw
        exact hdigit ⟨d, lt_ten_of_mem_digitsOf hf d hd⟩
  have hphrase : phrase (words n) f = Text.join [' '] (wordsAlone n ++ backWords f) := by
    simp only [phrase, wordsAlone, backWords, digitsOf, List.map_map]
    rfl
  rw [hphrase]
  refine Text.splitOn_join (fun w hw => ?_) (List.append_ne_nil_of_left_ne_nil (wordsAlone_ne_nil n) _)
  rcases List.mem_append.1 hw with hw | hw
  · exact (ne_nil_of_mem_wordsAlone hn w hw).2
  · exact hback w hw

/-- The word for the point is not among those of whole numbers. -/
theorem ne_pointWord_of_mem_wordsAlone (hn : n ≤ maxValue) {w : Text} (hw : w ∈ wordsAlone n) :
    (w != pointWord) = true := by
  have hall : ∀ p ∈ lexicon, (p.1 != pointWord) = true := by decide
  obtain ⟨s, hrun, -⟩ := run_wordsAlone hn
  obtain ⟨m, hm⟩ := Reading.exists_mem_lexicon_of_run hrun w hw
  exact hall (w, m) hm

theorem wholeWords_phrase (hn : n ≤ maxValue) (hf : ∀ c ∈ f, c.isDigit = true) :
    wholeWords (phrase (words n) f) = wordsAlone n := by
  have hback : (backWords f).takeWhile (· != pointWord) = [] := by
    unfold backWords
    split
    · rfl
    · rw [List.takeWhile_cons_of_neg (by simp)]
  rw [wholeWords, splitOn_phrase_fraction hn hf,
    List.takeWhile_append_of_pos fun w hw => ne_pointWord_of_mem_wordsAlone hn hw, hback,
    List.append_nil]

theorem fractionWords_phrase (hn : n ≤ maxValue) (hf : ∀ c ∈ f, c.isDigit = true) :
    fractionWords (phrase (words n) f) = (digitsOf f).map digitWord := by
  rw [fractionWords, splitOn_phrase_fraction hn hf,
    List.dropWhile_append_of_pos fun w hw => ne_pointWord_of_mem_wordsAlone hn hw]
  unfold backWords
  split
  · rename_i hnone
    rw [List.isEmpty_iff.1 hnone]
    rfl
  · rw [List.dropWhile_cons_of_neg (by simp)]
    rfl

theorem pointWord_mem_phrase_iff (hn : n ≤ maxValue) (hf : ∀ c ∈ f, c.isDigit = true) :
    pointWord ∈ Text.splitOn ' ' (phrase (words n) f) ↔ f ≠ [] := by
  have hfront : pointWord ∉ wordsAlone n := fun h =>
    absurd (ne_pointWord_of_mem_wordsAlone hn h) (by simp)
  rw [splitOn_phrase_fraction hn hf, List.mem_append, or_iff_right hfront]
  cases f with
  | nil => simp [backWords]
  | cons c f => simp [backWords]

end

/-! ## Values -/

/-- What is spelled is an amount, by its whole part and the digits of what remains. -/
theorem spell_eq_ok_iff {v : Value} {t : Text} :
    spell v = .ok t ↔ ∃ a, Amount.ofValue v = .ok a ∧ exceeds a = false ∧
      t = phrase (words (splitWhole a).1) (fractionDigits (splitWhole a).2 a.exponent) := by
  unfold spell
  rcases parts_cases v with ⟨e, hvalue, hparts⟩ | ⟨a, hvalue, hexceeds, hparts⟩ |
    ⟨a, hvalue, hexceeds, hparts⟩
  · rw [hparts, hvalue]
    refine iff_of_false nofun ?_
    rintro ⟨b, h, -⟩
    cases h
  · rw [hparts, hvalue]
    refine iff_of_false nofun ?_
    rintro ⟨b, h, hexceeds', -⟩
    cases h
    cases hexceeds.symm.trans hexceeds'
  · rw [hparts, hvalue]
    constructor
    · intro h
      cases h
      exact ⟨a, rfl, hexceeds, rfl⟩
    · rintro ⟨b, h, -, rfl⟩
      cases h
      rfl

/-- The digits that are spelled are all those of the fraction just when the fraction is precise. -/
theorem expands_fractionDigits_iff (a : Amount) :
    Expands ((digitsOf (fractionDigits (splitWhole a).2 a.exponent)).map digitWord)
      (Int.fract |a.toRat|) ↔ IsPrecise (Int.fract |a.toRat|) := by
  have hten : ∀ d ∈ digitsOf (fractionDigits (splitWhole a).2 a.exponent), d < 10 :=
    lt_ten_of_mem_digitsOf fun _ => isDigit_of_mem_fractionDigits
  constructor
  · rintro ⟨ds, hds, -, hvalue, hwords⟩
    rw [← hvalue, ← map_digitWord_inj hten hds hwords]
    exact isPrecise_fractionDigits _ _
  · intro hprecise
    rw [fract_toRat] at hprecise ⊢
    by_cases hrest : (splitWhole a).2 = 0
    · rw [hrest, fractionDigits, if_pos rfl]
      exact ⟨[], fun d hd => absurd hd List.not_mem_nil, nofun, by simp [fractionOf, magnitude], rfl⟩
    · obtain ⟨hvalue, hlast⟩ := fractionOf_fractionDigits hrest (splitWhole_spec a).2 hprecise
      exact ⟨_, hten, hlast, hvalue, rfl⟩

theorem fract_ne_zero_iff (a : Amount) : Int.fract |a.toRat| ≠ 0 ↔ (splitWhole a).2 ≠ 0 := by
  have hscale : (10 : ℚ) ^ a.exponent ≠ 0 := by positivity
  rw [fract_toRat, magnitude, mul_ne_zero_iff_right hscale, Nat.cast_ne_zero]

/-- What is spelled in front of the point and behind it. -/
theorem spell_parts {v : Value} {t : Text} (h : spell v = .ok t) :
    ∃ a, Amount.ofValue v = .ok a ∧
      spell (.int ⌊|a.toRat|⌋) = .ok (Text.join [' '] (wholeWords t)) ∧
      (pointWord ∈ Text.splitOn ' ' t ↔ Int.fract |a.toRat| ≠ 0) ∧
      (Expands (fractionWords t) (Int.fract |a.toRat|) ↔ IsPrecise (Int.fract |a.toRat|)) := by
  obtain ⟨a, ha, hexceeds, rfl⟩ := spell_eq_ok_iff.1 h
  have hn := splitWhole_le_maxValue hexceeds
  have hf : ∀ c ∈ fractionDigits (splitWhole a).2 a.exponent, c.isDigit = true :=
    fun _ => isDigit_of_mem_fractionDigits
  refine ⟨a, ha, ?_, ?_, ?_⟩
  · rw [wholeWords_phrase hn hf, ← phrase_words, floor_toRat]
    exact spell_int_eq_ok_iff.2 ⟨by rwa [Int.natAbs_natCast], by rw [Int.natAbs_natCast]⟩
  · rw [pointWord_mem_phrase_iff hn hf, fract_ne_zero_iff, ne_eq, fractionDigits_eq_nil_iff]
  · rw [fractionWords_phrase hn hf]
    exact expands_fractionDigits_iff a

/-- Whole numbers that are spelled alike are the same but for their signs. -/
theorem natAbs_eq_of_spell {m n : Int} {t : Text} (hm : spell (.int m) = .ok t)
    (hn : spell (.int n) = .ok t) : m.natAbs = n.natAbs := by
  obtain ⟨hle, ht⟩ := spell_int_eq_ok_iff.1 hm
  obtain ⟨hle', ht'⟩ := spell_int_eq_ok_iff.1 hn
  have hread := read?_phrase hle
  rw [← ht, ht', read?_phrase hle'] at hread
  exact (Option.some.inj hread).symm

/-- The words in front of the point spell the whole part of a value, there is a point just when the
value is not whole, and behind it stand the words of all the digits of the fraction just when the
digits that are kept suffice for it. Values with such fractions share their words only with their
opposites. -/
theorem spell_fraction {v : Value} {t : Text} (h : spell v = .ok t) :
    ∃ a, Amount.ofValue v = .ok a ∧
      spell (.int ⌊|a.toRat|⌋) = .ok (Text.join [' '] (wholeWords t)) ∧
      (pointWord ∈ Text.splitOn ' ' t ↔ Int.fract |a.toRat| ≠ 0) ∧
      (Expands (fractionWords t) (Int.fract |a.toRat|) ↔ IsPrecise (Int.fract |a.toRat|)) ∧
      ∀ v' a', spell v' = .ok t → Amount.ofValue v' = .ok a' → IsPrecise (Int.fract |a.toRat|) →
        IsPrecise (Int.fract |a'.toRat|) → |a'.toRat| = |a.toRat| := by
  obtain ⟨a, ha, hwhole, hpoint, hexpands⟩ := spell_parts h
  refine ⟨a, ha, hwhole, hpoint, hexpands, fun v' a' h' ha' hprecise hprecise' => ?_⟩
  obtain ⟨b, hb, hwhole', -, hexpands'⟩ := spell_parts h'
  cases ha'.symm.trans hb
  have hfloor : ⌊|a'.toRat|⌋ = ⌊|a.toRat|⌋ := by
    have hsame := natAbs_eq_of_spell hwhole' hwhole
    have hnonneg := Int.floor_nonneg.2 (abs_nonneg a.toRat)
    have hnonneg' := Int.floor_nonneg.2 (abs_nonneg a'.toRat)
    omega
  have hfract := (hexpands'.2 hprecise').unique (hexpands.2 hprecise)
  rw [← Int.floor_add_fract |a'.toRat|, hfloor, hfract, Int.floor_add_fract]

theorem spell_minus_twelve :
    spell (.text "-12.0500".toList) = .ok "dua belas koma nol lima".toList := by
  have hamount : Amount.ofValue (.text "-12.0500".toList) = .ok ⟨true, 120500, -4⟩ :=
    Amount.ofValue_text (by decide +kernel)
  have hdigits : splitWhole ⟨true, 120500, -4⟩ = (12, 500) ∧
      fractionDigits 500 (-4) = "05".toList := by decide +kernel
  have hwords : words 12 = ["dua".toList, "belas".toList] := words_teen (by decide) (by decide)
  refine spell_eq_ok_iff.2 ⟨_, hamount, by decide +kernel, ?_⟩
  rw [hdigits.1, hdigits.2, hwords]
  rfl

theorem spell_fraction_minus_twelve :
    spell (.text "-12.0500".toList) = .ok "dua belas koma nol lima".toList ∧
    ∃ a, Amount.ofValue (.text "-12.0500".toList) = .ok a ∧
      spell (.int ⌊|a.toRat|⌋) =
        .ok (Text.join [' '] (wholeWords "dua belas koma nol lima".toList)) ∧
      (pointWord ∈ Text.splitOn ' ' "dua belas koma nol lima".toList ↔ Int.fract |a.toRat| ≠ 0) ∧
      (Expands (fractionWords "dua belas koma nol lima".toList) (Int.fract |a.toRat|) ↔
        IsPrecise (Int.fract |a.toRat|)) ∧
      ∀ v' a', spell v' = .ok "dua belas koma nol lima".toList → Amount.ofValue v' = .ok a' →
        IsPrecise (Int.fract |a.toRat|) → IsPrecise (Int.fract |a'.toRat|) →
        |a'.toRat| = |a.toRat| :=
  ⟨spell_minus_twelve, spell_fraction spell_minus_twelve⟩

/-- Twenty-nine nines are carried into the whole part, and the one that is left is read as a tenth. -/
theorem spell_nines : spell (.text "0.99999999999999999999999999999".toList) =
      .ok "nol koma satu".toList ∧
    spell (.text "0.1".toList) = .ok "nol koma satu".toList ∧
    ∃ a b, Amount.ofValue (.text "0.99999999999999999999999999999".toList) = .ok a ∧
      Amount.ofValue (.text "0.1".toList) = .ok b ∧ |a.toRat| ≠ |b.toRat| := by
  have hnines : Amount.ofValue (.text "0.99999999999999999999999999999".toList) =
      .ok ⟨false, 99999999999999999999999999999, -29⟩ := Amount.ofValue_text (by decide +kernel)
  have htenth : Amount.ofValue (.text "0.1".toList) = .ok ⟨false, 1, -1⟩ :=
    Amount.ofValue_text (by decide +kernel)
  have hdigits : splitWhole ⟨false, 99999999999999999999999999999, -29⟩ =
        (0, 99999999999999999999999999999) ∧
      fractionDigits 99999999999999999999999999999 (-29) = "1".toList := by decide +kernel
  have hdigits' : splitWhole ⟨false, 1, -1⟩ = (0, 1) ∧ fractionDigits 1 (-1) = "1".toList := by
    decide +kernel
  refine ⟨spell_eq_ok_iff.2 ⟨_, hnines, by decide +kernel, ?_⟩,
    spell_eq_ok_iff.2 ⟨_, htenth, by decide +kernel, ?_⟩, _, _, hnines, htenth, ?_⟩
  · rw [hdigits.1, hdigits.2, words_zero]
    rfl
  · rw [hdigits'.1, hdigits'.2, words_zero]
    rfl
  · rw [Amount.abs_toRat, Amount.abs_toRat]
    norm_num

end MailMerge.Spelling
