import MailMerge.Phrase
import MailMerge.Proofs.Text.Cutting
import MailMerge.Proofs.Text.Digits
import MailMerge.Resolution.Texts
/-!
# Places after the point, read in two ways

How many places a number gets is read by an inline expression from options that are nothing but
digits (`InlineField.places?`), and by a placeholder from a field that is a whole number, with a sign
or blanks around it or without (`Resolution.wholeField`). Some digits, like superscripts, make no
number: there an inline expression gives up, and a placeholder takes the default.

* `ReadsAlike`: the texts from which both read the same.
* `readsAlike_iff`: that they do, up to the bounds within which places are counted.
-/
namespace MailMerge

/-! ## Digits -/

section
variable {t : Text}

theorem mapM_digitValue?_eq_some (h : t.all isDecimalDigit = true) :
    ∃ ds, t.mapM digitValue? = some ds ∧ ds.length = t.length := by
  induction t with
  | nil => exact ⟨[], rfl, rfl⟩
  | cons c t ih =>
    rw [List.all_cons, Bool.and_eq_true] at h
    obtain ⟨d, hd⟩ := Option.isSome_iff_exists.1 h.1
    obtain ⟨ds, hds, hlen⟩ := ih h.2
    exact ⟨d :: ds, by simp [List.mapM_cons, hd, hds], by simp [hlen]⟩

theorem mapM_digitValue?_eq_none (h : ¬ t.all isDecimalDigit = true) :
    t.mapM digitValue? = none := by
  induction t with
  | nil => exact absurd rfl h
  | cons c t ih =>
    rw [List.mapM_cons]
    cases hc : digitValue? c with
    | none => rfl
    | some d =>
      have hrest : ¬ t.all isDecimalDigit = true := by
        intro ht
        refine h ?_
        rw [List.all_cons, isDecimalDigit, hc, ht]
        rfl
      rw [ih hrest]
      rfl

end

/-- Digits are read without a sign and without blanks. -/
theorem splitSign_trim_of_isDigitLike {t : Text} (h : t.all isDigitLike = true) :
    Decimal.splitSign t.trim = (false, t) := by
  have htrim : t.trim = t :=
    Text.trimBy_eq_self fun c hc => isBlank_of_isDigitLike (List.all_eq_true.1 h c hc)
  rw [htrim]
  cases t with
  | nil => rfl
  | cons c t =>
    have hc : isDigitLike c = true := List.all_eq_true.1 h c (List.mem_cons_self ..)
    unfold Decimal.splitSign
    split
    · rename_i hminus
      rw [(List.cons.inj hminus).1] at hc
      exact absurd hc (by decide)
    · rename_i hplus
      rw [(List.cons.inj hplus).1] at hc
      exact absurd hc (by decide)
    · rfl

/-! ## Bounds -/

namespace Amount

theorem clampPlaces_clampPlaces (n : Int) : clampPlaces (clampPlaces n) = clampPlaces n := by
  simp only [clampPlaces, maxPlaces]
  omega

/-- Only the places within the bounds count. -/
theorem format_congr {p q : Int} (h : clampPlaces p = clampPlaces q) (v : Value) :
    format { places := p } v = format { places := q } v := by
  simp only [format, print?, h]

/-- The number one, printed with so many places; nothing stands for what cannot be printed. -/
def printedOne (places : Int) : Text := (format { places } (.text ['1'])).toOption.getD []

theorem printedOne_clampPlaces (n : Int) : printedOne (clampPlaces n) = printedOne n := by
  rw [printedOne, format_congr (clampPlaces_clampPlaces n), printedOne]

theorem printedOne_ne_nil (n : Int) : printedOne n ≠ [] := by
  have hall : ∀ i : Fin (maxPlaces + 1), printedOne (i : Nat) ≠ [] := by decide +kernel
  have hne := hall ⟨clampPlaces n, Nat.lt_succ_of_le (clampPlaces_le n)⟩
  simpa only [printedOne_clampPlaces] using hne

/-- The number one looks different with different places. -/
theorem printedOne_inj {p q : Int} (h : printedOne p = printedOne q) :
    clampPlaces p = clampPlaces q := by
  have hall : ∀ i j : Fin (maxPlaces + 1),
      printedOne (i : Nat) = printedOne (j : Nat) → i = j := by decide +kernel
  have hinj := hall ⟨clampPlaces p, Nat.lt_succ_of_le (clampPlaces_le p)⟩
    ⟨clampPlaces q, Nat.lt_succ_of_le (clampPlaces_le q)⟩
  simp only [printedOne_clampPlaces, Fin.mk.injEq] at hinj
  exact hinj h

end Amount

/-! ## Two readings -/

namespace Placeholder

open Resolution (wholeField)
open InlineField (places?)

/-- Whether an inline expression and a placeholder read the same number of places from a text: it is
made of decimal digits, not too many, or it holds other characters than digits and a placeholder
reads no positive number from it. -/
inductive ReadsAlike (t : Text) : Prop
  | digits (all : t.all isDecimalDigit = true) (short : t.length ≤ digitLimit)
  | none {n : Int} (other : t.all isDigitLike = false) (read : wholeField (some t) 0 = .ok n)
      (le : n ≤ 0)

section
variable {t : Text}

/-- From digits that make no number a placeholder takes the default. -/
theorem wholeField_eq_default (h : t.all isDigitLike = true) (hd : ¬ t.all isDecimalDigit = true) :
    wholeField (some t) 0 = .ok 0 := by
  simp only [wholeField, readNumber, splitSign_trim_of_isDigitLike h, mapM_digitValue?_eq_none hd]

theorem places?_of_not_digits (h : t.all isDigitLike = false) : places? t = some 0 := by
  simp [places?, h]

theorem isDigitLike_of_isDecimalDigit (h : t.all isDecimalDigit = true) :
    t.all isDigitLike = true := by
  refine List.all_eq_true.2 fun c hc => ?_
  simp [isDigitLike, List.all_eq_true.1 h c hc]

/-- Too many digits make no number. -/
theorem readNumber_of_long (h : t.all isDecimalDigit = true) (hlong : digitLimit < t.length) :
    readNumber t = .tooLong t.length := by
  obtain ⟨ds, hds, hlen⟩ := mapM_digitValue?_eq_some h
  simp only [readNumber, splitSign_trim_of_isDigitLike (isDigitLike_of_isDecimalDigit h), hds]
  cases ds with
  | nil => exact absurd (hlen ▸ hlong) (by decide)
  | cons d ds =>
    rw [← hlen] at hlong ⊢
    exact if_pos hlong

/-- From decimal digits both read the number that they write, as long as they are not too many. -/
theorem places?_of_digits (hne : t ≠ []) (h : t.all isDecimalDigit = true) :
    (t.length ≤ digitLimit → ∃ n : Nat, places? t = some n ∧ wholeField (some t) 0 = .ok n) ∧
      (digitLimit < t.length → places? t = none) := by
  have hlike := isDigitLike_of_isDecimalDigit h
  obtain ⟨ds, hds, hlen⟩ := mapM_digitValue?_eq_some h
  constructor
  · intro hshort
    have hds' : ds ≠ [] := by
      intro hnil
      rw [hnil] at hlen
      exact hne (List.length_eq_zero_iff.1 hlen.symm)
    have hshort' : ¬ digitLimit < t.length := by omega
    refine ⟨ds.foldl (fun n d => 10 * n + d) 0, ?_, ?_⟩
    · simp [places?, hne, hlike, hshort', hds]
    · simp only [wholeField, readNumber, splitSign_trim_of_isDigitLike hlike, hds]
      cases ds with
      | nil => exact absurd rfl hds'
      | cons d ds =>
        rw [← hlen] at hshort'
        simp only [if_neg hshort', Bool.false_eq_true, if_false]
  · intro hlong
    simp [places?, hne, hlike, hlong]

/-- Both read the same number of places, up to the bounds within which places are counted. -/
theorem readsAlike_iff (hne : t ≠ []) : ReadsAlike t ↔ ∃ (n : Nat) (z : Int),
    places? t = some n ∧ wholeField (some t) 0 = .ok z ∧
      Amount.clampPlaces n = Amount.clampPlaces z := by
  constructor
  · intro h
    cases h with
    | digits all short =>
      obtain ⟨n, hn, hz⟩ := (places?_of_digits hne all).1 short
      exact ⟨n, n, hn, hz, rfl⟩
    | none other read le =>
      refine ⟨0, _, places?_of_not_digits other, read, ?_⟩
      simp only [Amount.clampPlaces, Amount.maxPlaces]
      omega
  · rintro ⟨n, z, hn, hz, hclamp⟩
    cases hlike : t.all isDigitLike with
    | false =>
      rw [places?_of_not_digits hlike] at hn
      cases hn
      refine .none hlike hz ?_
      simp only [Amount.clampPlaces, Amount.maxPlaces] at hclamp
      omega
    | true =>
      have hdigits : t.all isDecimalDigit = true := by
        refine Decidable.byContradiction fun hd => ?_
        simp [places?, hne, hlike, mapM_digitValue?_eq_none hd] at hn
      refine .digits hdigits (Nat.le_of_not_lt fun hlong => ?_)
      rw [(places?_of_digits hne hdigits).2 hlong] at hn
      cases hn

end

end Placeholder

end MailMerge
