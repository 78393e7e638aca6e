import MailMerge.Proofs.Number.Precision
import MailMerge.Proofs.Number.Writing
import MailMerge.Proofs.Spelling.Meaning
/-!
# What is not spelled

A value is not spelled when it is no number, when it is a special one, or when it lies beyond the
greatest whole number that is spelled. Fractions between that and the next whole number are beyond it,
though they are below the limit that is told.

Results:
* `ofValue_cases`: which values are amounts.
* `exceeds_iff`: which amounts are too large.
* `spell_refuses_iff`: what both ways of spelling refuse, and that they spell everything else.
-/
namespace MailMerge

namespace Value

/-- The number that a value is, if it is one; a number with a binary fraction is the one that its
written form says. -/
def number? : Value → Option Decimal
  | .int n => some (.finite (decide (n < 0)) n.natAbs 0)
  | .float x => Decimal.ofText? x.toText
  | .decimal d => if d.IsHeld then some d else none
  | .text t => Decimal.ofText? t
  | _ => none

/-! ## Values that are no numbers -/

theorem isForeign_of_mem {c : Char} (h : c ∈ "o:=[\x7b".toList) : Decimal.IsForeign c := by
  have hall : ∀ c ∈ "o:=[\x7b".toList, Decimal.IsBare c ∧ c.isDigit = false ∧
      c ∉ "+-.eE".toList ∧ c.toLower.isDigit = false ∧
        c.toLower ∉ "snan".toList ++ "infinity".toList := forall_mem_of_all (by decide)
  obtain ⟨hbare, hdigit, hmark, hspecial⟩ := hall c h
  exact ⟨hbare, hdigit, hmark, hspecial⟩

theorem ofText?_date (d : Date) : Decimal.ofText? d.toText = none := by
  have hplain : ∀ width n, ∀ c ∈ Text.ofNatPadded width n, c ∈ Decimal.plainChars :=
    fun width n c hc => Decimal.mem_plainChars_of_isDigit (isDigit_of_mem_ofNatPadded hc)
  have hne : Text.ofNatPadded 4 d.year ≠ [] := by
    refine List.ne_nil_of_length_pos ?_
    rw [length_ofNatPadded]
    omega
  unfold Date.toText
  have hdigit : ∀ c ∈ Text.ofNatPadded 4 d.year, c.isDigit = true :=
    fun c hc => isDigit_of_mem_ofNatPadded hc
  have hyear := hplain 4 d.year
  generalize Text.ofNatPadded 4 d.year = year at hne hdigit hyear
  obtain ⟨first, rest, rfl⟩ := List.exists_cons_of_ne_nil hne
  rw [List.cons_append, List.cons_append]
  refine Decimal.ofText?_of_minus_within (hdigit first (List.mem_cons_self ..)) (fun c hc => ?_) ?_
  · rcases List.mem_append.1 hc with hc | hc
    · rcases List.mem_append.1 hc with hc | hc
      · exact hyear c (List.mem_cons_of_mem _ hc)
      · rcases List.mem_cons.1 hc with rfl | hc
        · decide
        · exact hplain _ _ c hc
    · rcases List.mem_cons.1 hc with rfl | hc
      · decide
      · exact hplain _ _ c hc
  · exact List.mem_append_right _ (List.mem_cons_self ..)

/-- Nothing but numbers and texts that write them is read as a number. -/
theorem plain?_bind_ofText? {v : Value} (hbool : ∀ b, v ≠ .bool b)
    (hlong : ∀ n, v = .int n → Decimal.digitCount n.natAbs ≤ digitLimit) :
    v.plain?.bind Decimal.ofText? = v.number? := by
  have hforeign : ∀ {t : Text} {c : Char}, c ∈ "o:=[\x7b".toList → c ∈ t → Decimal.ofText? t = none :=
    fun h hc => Decimal.ofText?_of_foreign (isForeign_of_mem h) hc
  cases v with
  | null =>
    have hwritten : plain? .null = some "None".toList := rfl
    rw [hwritten, Option.bind_some]
    exact hforeign (c := 'o') (by decide) (by decide)
  | bool b => exact absurd rfl (hbool b)
  | int n =>
    have hheld : Decimal.Fits n.natAbs 0 := by
      have hcount := hlong n rfl
      simp only [Decimal.Fits, Decimal.minExponent, Decimal.maxExponent, Decimal.adjusted,
        digitLimit] at hcount ⊢
      omega
    have hwritten : plain? (.int n) = some (Text.ofInt n) := if_pos (hlong n rfl)
    rw [hwritten, Option.bind_some, Decimal.ofText?_ofInt hheld]
    rfl
  | float x => rfl
  | decimal d => exact Decimal.ofText?_toText d
  | text t => rfl
  | date d =>
    have hwritten : plain? (.date d) = some d.toText := rfl
    rw [hwritten, Option.bind_some]
    exact ofText?_date d
  | moment m =>
    have hwritten : plain? (.moment m) = some (m.toTextWith ' ') := rfl
    have hcolon : ':' ∈ m.toTextWith ' ' := by simp [Moment.toTextWith]
    rw [hwritten, Option.bind_some]
    exact hforeign (by decide) hcolon
  | asset a =>
    have hwritten : plain? (.asset a) =
        if a.writable then some (Text.join [' '] a.fields) else none := rfl
    have hsource : "source_path".toList ++ '=' :: a.source.quoted ∈ a.fields := by
      unfold Asset.fields
      exact List.mem_cons_self ..
    have hsign : '=' ∈ Text.join [' '] a.fields :=
      Text.mem_join_of_mem hsource (List.mem_append_right _ (List.mem_cons_self ..))
    rw [hwritten]
    split
    · rw [Option.bind_some]
      exact hforeign (by decide) hsign
    · rfl
  | list vs =>
    have hwritten : plain? (.list vs) = shown? (.list vs) := rfl
    rw [hwritten, shown?]
    cases shownItems? vs with
    | none => rfl
    | some ts =>
      rw [Option.map_some, Option.bind_some]
      exact hforeign (by decide) (List.mem_cons_self ..)
  | map es =>
    have hwritten : plain? (.map es) = shown? (.map es) := rfl
    rw [hwritten, shown?]
    cases shownEntries? es with
    | none => rfl
    | some ts =>
      rw [Option.map_some, Option.bind_some]
      exact hforeign (by decide) (List.mem_cons_self ..)

end Value

/-! ## Values that are amounts -/

namespace Amount

/-- A value that is no number is no amount, nor is a special value, and every other one is, unless it
has too many digits to be written. -/
theorem ofValue_cases (v : Value) :
    (v.number? = none ∧ ofValue v = .error (.notNumeric v)) ∨
    (∃ d, v.number? = some d ∧ d.isFinite = false ∧ ofValue v = .error (.notFinite v)) ∨
    (∃ a : Amount, v.number? = some a.toDecimal ∧ ofValue v = .ok a) ∨
    ∃ n, v = .int n ∧ digitLimit < Decimal.digitCount n.natAbs ∧
      ofValue v = .error (.notNumeric v) := by
  by_cases hbool : ∃ b, v = .bool b
  · obtain ⟨b, rfl⟩ := hbool
    exact Or.inl ⟨rfl, rfl⟩
  by_cases hlong : ∃ n, v = .int n ∧ digitLimit < Decimal.digitCount n.natAbs
  · obtain ⟨n, rfl, hlong⟩ := hlong
    refine Or.inr (Or.inr (Or.inr ⟨n, rfl, hlong, ?_⟩))
    have hnone : Value.plain? (.int n) = none := if_neg (Nat.not_le.2 hlong)
    unfold ofValue
    dsimp only
    rw [hnone]
    rfl
  have hread := Value.plain?_bind_ofText? (v := v) (fun b hb => hbool ⟨b, hb⟩)
    fun n hn => Nat.not_lt.1 fun hlt => hlong ⟨n, hn, hlt⟩
  have hplain : ∀ b, v ≠ .bool b := fun b hb => hbool ⟨b, hb⟩
  unfold ofValue
  dsimp only
  rw [← hread]
  split
  · rename_i hnone
    split at hnone
    · exact absurd rfl (hplain _)
    · exact Or.inl ⟨hnone, rfl⟩
  · rename_i s c e hsome
    split at hsome
    · cases hsome
    · exact Or.inr (Or.inr (Or.inl ⟨⟨s, c, e⟩, hsome, rfl⟩))
  · rename_i d hspecial hsome
    split at hsome
    · cases hsome
    · refine Or.inr (Or.inl ⟨d, hsome, ?_, rfl⟩)
      cases d with
      | finite s c e => exact absurd rfl (hspecial s c e)
      | infinite s => rfl
      | nan s signaling p => rfl

end Amount

/-! ## Amounts that are too large -/

namespace Spelling

open Decimal (magnitude)

theorem pow_adjusted_le {c : Nat} {e : Int} (hc : 0 < c) :
    (10 : ℚ) ^ Decimal.adjusted c e ≤ magnitude (c, e) := by
  have hten : (10 : ℚ) ≠ 0 := by norm_num
  have hpos : 0 < Decimal.digitCount c := Nat.length_toDigits_pos
  have hle : 10 ^ (Decimal.digitCount c - 1) ≤ c := Decimal.pow_le_of_lt_digitCount hc (by omega)
  have hplace : Decimal.adjusted c e = (Decimal.digitCount c - 1 : Nat) + e := by
    unfold Decimal.adjusted
    omega
  rw [hplace, zpow_add₀ hten, zpow_natCast, magnitude]
  exact mul_le_mul_of_nonneg_right (by exact_mod_cast hle) (by positivity)

theorem magnitude_lt_pow (c : Nat) (e : Int) :
    magnitude (c, e) < (10 : ℚ) ^ (Decimal.adjusted c e + 1) := by
  have hten : (10 : ℚ) ≠ 0 := by norm_num
  have hscale : (0 : ℚ) < 10 ^ e := by positivity
  have hlt := Decimal.lt_pow_digitCount c
  have hplace : Decimal.adjusted c e + 1 = (Decimal.digitCount c : Int) + e := by
    unfold Decimal.adjusted
    omega
  rw [hplace, zpow_add₀ hten, zpow_natCast, magnitude]
  exact mul_lt_mul_of_pos_right (by exact_mod_cast hlt) hscale

/-- An amount is too large when it lies beyond the greatest one that is spelled. -/
theorem exceeds_iff (a : Amount) : exceeds a = true ↔ (maxValue : ℚ) < |a.toRat| := by
  have habs : |a.toRat| = magnitude (a.coefficient, a.exponent) := Amount.abs_toRat a
  rw [habs]
  unfold exceeds
  by_cases h0 : a.coefficient = 0
  · rw [if_pos h0, h0]
    refine iff_of_false Bool.false_ne_true (not_lt.2 ?_)
    simp [magnitude]
  rw [if_neg h0]
  have hone : (1 : ℚ) < 10 := by norm_num
  by_cases hfar : 16 < Decimal.adjusted a.coefficient a.exponent
  · rw [if_pos hfar]
    refine iff_of_true rfl ?_
    calc (maxValue : ℚ) < 10 ^ (16 : Int) := by norm_num [maxValue]
      _ ≤ 10 ^ Decimal.adjusted a.coefficient a.exponent :=
        zpow_le_zpow_right₀ (le_of_lt hone) (le_of_lt hfar)
      _ ≤ magnitude (a.coefficient, a.exponent) := pow_adjusted_le (Nat.pos_of_ne_zero h0)
  rw [if_neg hfar]
  by_cases hwhole : 0 ≤ a.exponent
  · obtain ⟨k, hk⟩ := Int.eq_ofNat_of_zero_le hwhole
    have hvalue : magnitude (a.coefficient, a.exponent) = ((a.coefficient * 10 ^ k : Nat) : ℚ) := by
      rw [magnitude, hk, zpow_natCast]
      push_cast
      rfl
    rw [if_pos hwhole, hvalue, Nat.cast_lt, decide_eq_true_eq, hk, Int.toNat_natCast]
  rw [if_neg hwhole]
  by_cases hsmall : Decimal.adjusted a.coefficient a.exponent < 0
  · rw [if_pos hsmall]
    refine iff_of_false Bool.false_ne_true (not_lt.2 ?_)
    calc magnitude (a.coefficient, a.exponent)
        ≤ 10 ^ (Decimal.adjusted a.coefficient a.exponent + 1) := le_of_lt (magnitude_lt_pow _ _)
      _ ≤ 10 ^ (0 : Int) := zpow_le_zpow_right₀ (le_of_lt hone) (by omega)
      _ ≤ maxValue := by norm_num [maxValue]
  · have hexponent : a.exponent = -(a.exponent.natAbs : Int) := by omega
    have hpos : (0 : ℚ) < 10 ^ a.exponent.natAbs := by positivity
    have hvalue : magnitude (a.coefficient, a.exponent) =
        a.coefficient / (10 : ℚ) ^ a.exponent.natAbs := by
      rw [magnitude, hexponent, zpow_neg, zpow_natCast, Int.natAbs_neg, Int.natAbs_natCast,
        div_eq_mul_inv]
    rw [if_neg hsmall, hvalue, decide_eq_true_eq, lt_div_iff₀ hpos]
    norm_cast

/-! ## Values that are refused -/

/-- Whether a value is not spelled: it is no number, a special one, or lies beyond the greatest whole
number below `10 ^ 15`. -/
inductive Refused (v : Value) : Prop where
  | notNumeric (h : v.number? = none)
  | notFinite {d} (h : v.number? = some d) (hspecial : d.isFinite = false)
  | tooLarge {a : Amount} (h : v.number? = some a.toDecimal) (hlarge : (10 : ℚ) ^ 15 - 1 < |a.toRat|)

section
variable {v : Value}

theorem cast_maxValue : (maxValue : ℚ) = 10 ^ 15 - 1 := by norm_num [maxValue]

theorem refused_number_iff {a : Amount} (h : v.number? = some a.toDecimal) :
    Refused v ↔ exceeds a = true := by
  rw [exceeds_iff, cast_maxValue]
  constructor
  · intro hrefused
    cases hrefused with
    | notNumeric hnone => cases h.symm.trans hnone
    | notFinite hsome hspecial =>
      cases h.symm.trans hsome
      cases hspecial
    | @tooLarge b hsome hlarge =>
      have hsame : a = b := by
        obtain ⟨s, c, e⟩ := a
        obtain ⟨s', c', e'⟩ := b
        cases h.symm.trans hsome
        rfl
      exact hsame ▸ hlarge
  · exact .tooLarge h

theorem refused_of_long {n : Int} (h : digitLimit < Decimal.digitCount n.natAbs) :
    Refused (.int n) := by
  refine .tooLarge (a := ⟨decide (n < 0), n.natAbs, 0⟩) rfl ?_
  rw [Amount.abs_toRat, zpow_zero, mul_one, ← cast_maxValue, Nat.cast_lt]
  exact Nat.lt_of_lt_of_le (by decide) (pow_le_natAbs_of_long h)

theorem parts_of_error {e : AmountError} (h : Amount.ofValue v = .error e) :
    ∃ e, parts v = .error e := by
  unfold parts
  rw [h]
  exact ⟨e, rfl⟩

theorem spell_eq_error_iff {e : AmountError} : spell v = .error e ↔ parts v = .error e := by
  unfold spell
  cases parts v with
  | error e' =>
    constructor <;> intro h <;> cases h <;> rfl
  | ok p => exact iff_of_false nofun nofun

theorem refused_iff : Refused v ↔ ∃ e, parts v = .error e := by
  rcases Amount.ofValue_cases v with ⟨hnumber, hvalue⟩ | ⟨d, hnumber, hspecial, hvalue⟩ |
    ⟨a, hnumber, hvalue⟩ | ⟨n, rfl, hlong, hvalue⟩
  · exact iff_of_true (.notNumeric hnumber) (parts_of_error hvalue)
  · exact iff_of_true (.notFinite hnumber hspecial) (parts_of_error hvalue)
  · rw [refused_number_iff hnumber]
    rcases parts_cases v with ⟨e, hvalue', -⟩ | ⟨b, hvalue', hexceeds, hparts⟩ |
      ⟨b, hvalue', hexceeds, hparts⟩
    · cases hvalue.symm.trans hvalue'
    · cases hvalue.symm.trans hvalue'
      exact iff_of_true hexceeds ⟨_, hparts⟩
    · cases hvalue.symm.trans hvalue'
      refine iff_of_false (by rw [hexceeds]; exact Bool.false_ne_true) ?_
      rintro ⟨e, h⟩
      cases hparts.symm.trans h
  · exact iff_of_true (refused_of_long hlong) (parts_of_error hvalue)

theorem spellByGroup_eq (v : Value) : spellByGroup v = spell v := by
  unfold spell spellByGroup
  cases hparts : parts v with
  | error e => rfl
  | ok p =>
    obtain ⟨n, f⟩ := p
    show Except.ok (phrase (wordsByGroup n) f) = Except.ok (phrase (words n) f)
    rw [words_eq_wordsByGroup (whole_le_maxValue hparts)]

/-- Both ways of spelling refuse the same values, each for one of three reasons, and spell all
others. -/
theorem spell_refuses_iff (v : Value) :
    ((∃ e, spell v = .error e ∧ spellByGroup v = .error e ∧
      (e = .notNumeric v ∨ e = .notFinite v ∨ e = .tooLarge v)) ↔ Refused v) ∧
    ((∃ t, spell v = .ok t ∧ spellByGroup v = .ok t) ↔ ¬ Refused v) := by
  rw [refused_iff]
  constructor
  · constructor
    · rintro ⟨e, h, -, -⟩
      exact ⟨e, spell_eq_error_iff.1 h⟩
    · rintro ⟨e, h⟩
      have hspell := spell_eq_error_iff.2 h
      exact ⟨e, hspell, (spellByGroup_eq v).trans hspell, parts_error h⟩
  · constructor
    · rintro ⟨t, h, -⟩ ⟨e, he⟩
      cases h.symm.trans (spell_eq_error_iff.2 he)
    · intro h
      cases hspell : spell v with
      | error e => exact absurd ⟨e, spell_eq_error_iff.1 hspell⟩ h
      | ok t => exact ⟨t, rfl, (spellByGroup_eq v).trans hspell⟩

/-- A half less than the limit that is told is refused. -/
theorem spell_half_below :
    ∃ a : Amount, Value.number? (.text "999999999999999.5".toList) = some a.toDecimal ∧
      |a.toRat| < 10 ^ 15 ∧
      spell (.text "999999999999999.5".toList) =
        .error (.tooLarge (.text "999999999999999.5".toList)) ∧
      spellByGroup (.text "999999999999999.5".toList) =
        .error (.tooLarge (.text "999999999999999.5".toList)) := by
  have hread : Decimal.ofText? "999999999999999.5".toList =
      some (.finite false 9999999999999995 (-1)) := by decide +kernel
  have hspell : spell (.text "999999999999999.5".toList) =
      .error (.tooLarge (.text "999999999999999.5".toList)) := by
    rw [spell_eq_error_iff, parts, Amount.ofValue_text hread]
    rfl
  refine ⟨⟨false, 9999999999999995, -1⟩, hread, ?_, hspell, (spellByGroup_eq _).trans hspell⟩
  rw [Amount.abs_toRat]
  norm_num

end

end Spelling

end MailMerge
