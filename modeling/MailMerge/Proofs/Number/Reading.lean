import MailMerge.Number.Decimal
import MailMerge.Proofs.Text.Cutting
/-!
# Numerals are read back

A numeral in digits, a point among them or not and an exponent behind them or not, is read as its sign,
the number that its digits make and the exponent less the number of places after the point.

Results:
* `ofDigitChars_ofNatPadded`: a numeral tells its number, however many zeros it is filled with.
* `ofText?_pointed`: how a numeral is read, within the bounds of exponents and beyond them.
* `ofText?_plain`: how a numeral without an exponent is read.
* `ofText?_ofInt`: a whole number is read as it is written.
-/
namespace MailMerge

/-! ## Digits -/

section
variable {c : Char}

/-- A fact about characters is checked on the list of them. -/
theorem forall_mem_of_all {l : Text} {p : Char → Prop} [DecidablePred p]
    (h : l.all (fun c => decide (p c)) = true) : ∀ c ∈ l, p c :=
  fun c hc => of_decide_eq_true (List.all_eq_true.1 h c hc)

theorem mem_of_isDigit (h : c.isDigit = true) : c ∈ "0123456789".toList := by
  have hcode : 48 ≤ c.toNat ∧ c.toNat ≤ 57 := Char.isDigit_iff_toNat.1 h
  have hall : ∀ n : Fin 10, Char.ofNat (48 + n) ∈ "0123456789".toList := by decide
  have := hall ⟨c.toNat - 48, by omega⟩
  rwa [show 48 + (c.toNat - 48) = c.toNat by omega, Char.ofNat_toNat] at this

theorem isDigit_of_mem_ofNatPadded {width n : Nat} (h : c ∈ Text.ofNatPadded width n) :
    c.isDigit = true := by
  rcases List.mem_append.1 h with h | h
  · rw [List.eq_of_mem_replicate h]
    rfl
  · exact Nat.isDigit_of_mem_toDigits (by decide) (by decide) h

theorem length_ofNatPadded (width n : Nat) :
    (Text.ofNatPadded width n).length = max width (Decimal.digitCount n) := by
  simp only [Text.ofNatPadded, Text.padLeft, List.length_append, List.length_replicate,
    Decimal.digitCount]
  omega

theorem ofDigitChars_ofNatPadded (width n : Nat) :
    Nat.ofDigitChars 10 (Text.ofNatPadded width n) 0 = n := by
  rw [Text.ofNatPadded, Text.padLeft, Nat.ofDigitChars_append, Nat.ofDigitChars_replicate_zero,
    Nat.mul_zero, Text.ofNat, Nat.ofDigitChars_ten_toDigits]

end

namespace Decimal

/-- The characters of a decimal with all its digits written out. -/
def plainChars : Text := "0123456789.-".toList

theorem mem_plainChars_of_isDigit {c : Char} (h : c.isDigit = true) : c ∈ plainChars := by
  have hall : ∀ c ∈ "0123456789".toList, c ∈ plainChars := forall_mem_of_all (by decide)
  exact hall c (mem_of_isDigit h)

/-- Whether a character of a numeral is read as it is: it is neither dropped nor stands for another. -/
def IsBare (c : Char) : Prop :=
  isBlank c = false ∧ (c != '_') = true ∧ (0 < c.toNat && c.toNat < 128) = true

instance (c : Char) : Decidable (IsBare c) := inferInstanceAs (Decidable (_ ∧ _ ∧ _))

theorem isBare_of_mem_plainChars {c : Char} (h : c ∈ plainChars) : IsBare c := by
  have hall : ∀ c ∈ plainChars, IsBare c := forall_mem_of_all (by decide)
  exact hall c h

theorem isBare_of_isDigit {c : Char} (h : c.isDigit = true) : IsBare c :=
  isBare_of_mem_plainChars (mem_plainChars_of_isDigit h)

theorem isBare_of_mem_exponentText {x : Int} {c : Char} (h : c ∈ exponentText x) : IsBare c := by
  rcases List.mem_cons.1 h with rfl | h
  · decide
  · rcases List.mem_cons.1 h with rfl | h
    · split <;> decide
    · exact isBare_of_isDigit (Nat.isDigit_of_mem_toDigits (by decide) (by decide) h)

theorem plainNumeral?_of_isBare {t : Text} (h : ∀ c ∈ t, IsBare c) : plainNumeral? t = some t := by
  have htrim : t.trim = t := Text.trimBy_eq_self fun c hc => (h c hc).1
  have hfilter : t.filter (· != '_') = t := List.filter_eq_self.2 fun c hc => (h c hc).2.1
  rw [plainNumeral?, htrim, hfilter]
  clear htrim hfilter
  induction t with
  | nil => rfl
  | cons c t ih =>
    rw [List.mapM_cons, ih fun c hc => h c (List.mem_cons_of_mem _ hc),
      if_pos (h c (List.mem_cons_self ..)).2.2]
    rfl

theorem isBare_of_mem_signText {neg : Bool} {c : Char} (h : c ∈ signText neg) : IsBare c := by
  cases neg with
  | false => exact absurd h List.not_mem_nil
  | true => exact List.mem_singleton.1 h ▸ (by decide)

theorem splitSign_signText_append {d : Char} (hminus : d ≠ '-') (hplus : d ≠ '+') (neg : Bool)
    (t : Text) : splitSign (signText neg ++ d :: t) = (neg, d :: t) := by
  cases neg with
  | true => rfl
  | false =>
    show splitSign (d :: t) = (false, d :: t)
    unfold splitSign
    split
    · exact absurd (List.cons.inj ‹_›).1 hminus
    · exact absurd (List.cons.inj ‹_›).1 hplus
    · rfl

theorem not_infinity {d : Char} (hd : d ≠ 'i') (r : Text) :
    ¬ (decide (d :: r = "inf".toList) || decide (d :: r = "infinity".toList)) = true := by
  have hhead : ∀ u : Text, d :: r ≠ 'i' :: u := fun u h => hd (List.cons.inj h).1
  rw [Bool.or_eq_true, decide_eq_true_eq, decide_eq_true_eq]
  exact fun h => h.elim (hhead _) (hhead _)

/-- What begins with a digit is no special value. -/
theorem ofText?_of_digit {d : Char} {t : Text} (hd : d.isDigit = true) (ht : ∀ c ∈ t, IsBare c)
    (neg : Bool) : ofText? (signText neg ++ d :: t) = unsigned? neg (d :: t) := by
  have hbare : ∀ c ∈ signText neg ++ d :: t, IsBare c := by
    intro c hc
    rcases List.mem_append.1 hc with hc | hc
    · exact isBare_of_mem_signText hc
    · rcases List.mem_cons.1 hc with rfl | hc
      · exact isBare_of_isDigit hd
      · exact ht c hc
  have hall : ∀ d ∈ "0123456789".toList,
      d.toLower = d ∧ d ≠ 'i' ∧ 'n' ≠ d ∧ 's' ≠ d ∧ d ≠ '-' ∧ d ≠ '+' :=
    forall_mem_of_all (by decide)
  obtain ⟨hlow, hi, hn, hs, hminus, hplus⟩ := hall d (mem_of_isDigit hd)
  unfold ofText?
  rw [plainNumeral?_of_isBare hbare, Option.bind_eq_bind, Option.bind_some,
    splitSign_signText_append hminus hplus]
  dsimp only
  rw [List.map_cons, hlow, if_neg (not_infinity hi _), show "nan".toList = 'n' :: "an".toList from rfl,
    Text.dropStart?_of_ne hn, show "snan".toList = 's' :: "nan".toList from rfl,
    Text.dropStart?_of_ne hs]

/-! ## The number of the digits -/

theorem digits?_of_isDigit {t : Text} (hne : t ≠ []) (h : ∀ c ∈ t, c.isDigit = true) :
    digits? t = some (Nat.ofDigitChars 10 t 0) := by
  rw [digits?, List.all_eq_true.2 h, List.isEmpty_eq_false_iff.2 hne]
  rfl

/-- Whether a decimal is within the bounds of exponents. -/
def IsHeld : Decimal → Prop
  | .finite _ c e => minExponent ≤ e ∧ adjusted c e ≤ maxExponent
  | _ => True

instance : DecidablePred IsHeld
  | .finite .. => inferInstanceAs (Decidable (_ ∧ _))
  | .infinite _ => .isTrue trivial
  | .nan .. => .isTrue trivial

/-- A coefficient with its point within the bounds of exponents. -/
def Fits (c places : Nat) : Prop :=
  minExponent ≤ -(places : Int) ∧ adjusted c (-(places : Int)) ≤ maxExponent

/-- What is read is a number within the bounds. -/
theorem bounded_eq (neg : Bool) (c : Nat) (e : Int) :
    (if e < minExponent then (none : Option Decimal)
      else if c = 0 then (if maxExponent < e then none else some (.finite neg 0 e))
      else if maxExponent < adjusted c e then none
      else some (.finite neg c e)) =
    if IsHeld (.finite neg c e) then some (.finite neg c e) else none := by
  by_cases hmin : e < minExponent
  · rw [if_pos hmin, if_neg fun h => Int.not_lt.2 h.1 hmin]
  rw [if_neg hmin]
  by_cases hzero : c = 0
  · have hplace : adjusted 0 e = e := by
      show e + 1 - 1 = e
      omega
    rw [if_pos hzero, hzero]
    by_cases hmax : maxExponent < e
    · rw [if_pos hmax, if_neg fun h => Int.not_lt.2 h.2 (hplace.symm ▸ hmax)]
    · rw [if_neg hmax, if_pos ⟨Int.not_lt.1 hmin, hplace.symm ▸ Int.not_lt.1 hmax⟩]
  · rw [if_neg hzero]
    by_cases hmax : maxExponent < adjusted c e
    · rw [if_pos hmax, if_neg fun h => Int.not_lt.2 h.2 hmax]
    · rw [if_neg hmax, if_pos ⟨Int.not_lt.1 hmin, Int.not_lt.1 hmax⟩]

/-- An exponent is read as it is written. -/
theorem exponent?_exponentText (x : Int) :
    exponent? ((if x < 0 then '-' else '+') :: Text.ofNat x.natAbs) = some x := by
  have hdigits : digits? (Text.ofNat x.natAbs) = some x.natAbs := by
    have hread := digits?_of_isDigit (t := Text.ofNat x.natAbs) Nat.toDigits_ne_nil fun c hc =>
      Nat.isDigit_of_mem_toDigits (by decide) (by decide) hc
    rwa [Text.ofNat, Nat.ofDigitChars_ten_toDigits] at hread
  unfold exponent?
  by_cases h : x < 0
  · have habs : -(x.natAbs : Int) = x := by omega
    rw [if_pos h, splitSign]
    dsimp only
    rw [hdigits]
    exact congrArg some habs
  · have habs : (x.natAbs : Int) = x := by omega
    rw [if_neg h, splitSign]
    dsimp only
    rw [hdigits]
    exact congrArg some habs

/-- The digits with their point, which is left out where no digit follows. -/
def pointed (whole part : Text) : Text := whole ++ if part = [] then [] else '.' :: part

section
variable {whole part : Text} (hdigits : ∀ c ∈ whole ++ part, c.isDigit = true)
include hdigits

theorem mem_plainChars_of_mem_pointed : ∀ c ∈ pointed whole part, c ∈ plainChars := by
  intro c hc
  rcases List.mem_append.1 hc with hc | hc
  · exact mem_plainChars_of_isDigit (hdigits c (List.mem_append_left _ hc))
  · split at hc
    · exact absurd hc List.not_mem_nil
    · rcases List.mem_cons.1 hc with rfl | hc
      · decide
      · exact mem_plainChars_of_isDigit (hdigits c (List.mem_append_right _ hc))

theorem cut_pointed : (Text.cut '.' (pointed whole part)).1 = whole ∧
    (Text.cut '.' (pointed whole part)).2.getD [] = part := by
  have hpoint : '.' ∉ whole := fun h => absurd (hdigits _ (List.mem_append_left _ h)) (by decide)
  unfold pointed
  by_cases hpart : part = []
  · rw [if_pos hpart, List.append_nil, Text.cut_of_not_mem hpoint, hpart]
    exact ⟨rfl, rfl⟩
  · rw [if_neg hpart, Text.cut_append hpoint]
    exact ⟨rfl, rfl⟩

/-- Digits with a point, with an exponent or without one, are read as the number of the digits, with the
places after the point taken away from the exponent. -/
theorem unsigned?_pointed (hne : whole ≠ []) {tail : Text} {x : Int}
    (htail : tail = [] ∧ x = 0 ∨ tail = exponentText x) (neg : Bool) :
    unsigned? neg (pointed whole part ++ tail) =
      if IsHeld (.finite neg (Nat.ofDigitChars 10 (whole ++ part) 0) (x - part.length)) then
        some (.finite neg (Nat.ofDigitChars 10 (whole ++ part) 0) (x - part.length))
      else none := by
  have hall : ∀ c ∈ plainChars, (c != 'e' && c != 'E') = true := forall_mem_of_all (by decide)
  have hbefore : ∀ c ∈ pointed whole part, (c != 'e' && c != 'E') = true :=
    fun c hc => hall c (mem_plainChars_of_mem_pointed hdigits c hc)
  obtain ⟨hwhole, hpart⟩ := cut_pointed hdigits
  have hnumber := digits?_of_isDigit (List.append_ne_nil_of_left_ne_nil hne _) hdigits
  unfold unsigned?
  rw [List.takeWhile_append_of_pos hbefore, List.dropWhile_append_of_pos hbefore]
  rcases htail with ⟨rfl, rfl⟩ | rfl
  · rw [List.takeWhile_nil, List.dropWhile_nil, List.append_nil]
    dsimp only [Option.bind_eq_bind, Option.bind_some]
    rw [hwhole, hpart, hnumber, Option.bind_some, bounded_eq]
  · rw [exponentText, List.takeWhile_cons_of_neg (by decide), List.dropWhile_cons_of_neg (by decide),
      List.append_nil]
    dsimp only [Option.bind_eq_bind]
    rw [exponent?_exponentText, Option.bind_some, hwhole, hpart, hnumber, Option.bind_some, bounded_eq]

/-- A numeral is read as its sign and the number of its digits, if it is within the bounds. -/
theorem ofText?_pointed (hne : whole ≠ []) {tail : Text} {x : Int}
    (htail : tail = [] ∧ x = 0 ∨ tail = exponentText x) (neg : Bool) :
    ofText? (signText neg ++ (pointed whole part ++ tail)) =
      if IsHeld (.finite neg (Nat.ofDigitChars 10 (whole ++ part) 0) (x - part.length)) then
        some (.finite neg (Nat.ofDigitChars 10 (whole ++ part) 0) (x - part.length))
      else none := by
  have hread := unsigned?_pointed hdigits hne htail neg
  have hbare : ∀ c ∈ pointed whole part ++ tail, IsBare c := by
    intro c hc
    rcases List.mem_append.1 hc with hc | hc
    · exact isBare_of_mem_plainChars (mem_plainChars_of_mem_pointed hdigits c hc)
    · rcases htail with ⟨rfl, -⟩ | rfl
      · exact absurd hc List.not_mem_nil
      · exact isBare_of_mem_exponentText hc
  obtain ⟨d, r, rfl⟩ := List.exists_cons_of_ne_nil hne
  have hd := hdigits d (List.mem_append_left _ (List.mem_cons_self ..))
  rw [pointed, List.cons_append, List.cons_append] at hread hbare ⊢
  rw [ofText?_of_digit hd fun c hc => hbare c (List.mem_cons_of_mem _ hc), hread]

end

/-- A numeral is read as its sign, its digits and the number of places after the point. -/
theorem ofText?_plain {whole part : Text} (hne : whole ≠ [])
    (hdigits : ∀ c ∈ whole ++ part, c.isDigit = true)
    (hfits : Fits (Nat.ofDigitChars 10 (whole ++ part) 0) part.length) (neg : Bool) :
    ofText? (signText neg ++ whole ++ (if part = [] then [] else '.' :: part)) =
      some (.finite neg (Nat.ofDigitChars 10 (whole ++ part) 0) (-(part.length : Int))) := by
  have hheld : IsHeld (.finite neg (Nat.ofDigitChars 10 (whole ++ part) 0) (-(part.length : Int))) :=
    hfits
  have hread := ofText?_pointed hdigits hne (Or.inl ⟨rfl, rfl⟩) neg
  rw [Int.zero_sub, if_pos hheld, List.append_nil, pointed, ← List.append_assoc] at hread
  exact hread

theorem ofInt_eq (n : Int) : Text.ofInt n = signText (decide (n < 0)) ++ Text.ofNat n.natAbs := by
  by_cases h : n < 0
  · rw [Text.ofInt, if_pos h, decide_eq_true h]
    rfl
  · rw [Text.ofInt, if_neg h, decide_eq_false h]
    rfl

/-- A whole number is read as it is written. -/
theorem ofText?_ofInt {n : Int} (h : Fits n.natAbs 0) :
    ofText? (Text.ofInt n) = some (.finite (decide (n < 0)) n.natAbs 0) := by
  have hdigits : ∀ c ∈ Text.ofNat n.natAbs ++ [], c.isDigit = true := by
    rw [List.append_nil]
    exact fun c hc => Nat.isDigit_of_mem_toDigits (by decide) (by decide) hc
  have hnumber : Nat.ofDigitChars 10 (Text.ofNat n.natAbs ++ []) 0 = n.natAbs := by
    rw [List.append_nil]
    exact Nat.ofDigitChars_ten_toDigits
  have hread := @ofText?_plain (Text.ofNat n.natAbs) [] Nat.toDigits_ne_nil hdigits
    (by rwa [hnumber]) (decide (n < 0))
  rwa [if_pos rfl, hnumber, List.append_nil, ← ofInt_eq] at hread

end Decimal
end MailMerge
