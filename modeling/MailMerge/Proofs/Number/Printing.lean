import MailMerge.Proofs.Number.Reading
import MailMerge.Proofs.Number.Rounding
/-!
# Printed numbers

A number is printed as a numeral: a sign, the digits of the whole part in groups, and the digits
after the point. Without the marks between the groups, and with a point for the comma, the numeral
is read as the amount rounded to its places.

Results:
* `Numeral`: what a printed number is made of.
* `Numeral.ofValue_unmarked`: the number that a numeral tells.
* `print?_eq`: what is printed is the numeral of the rounded amount.
* `format_rounds`: every amount whose leading digit stands below the greatest place is printed, and
  what is printed tells the amount, rounded away from zero.
-/
namespace MailMerge.Amount

/-- A numeral with its whole part in groups and so many digits after the point. -/
structure Numeral (places : Nat) where
  negative : Bool
  first : Text
  rest : List Text
  part : Text
  isDigit : ∀ c ∈ (first :: rest).flatten ++ part, c.isDigit = true
  length_first : 1 ≤ first.length ∧ first.length ≤ 3
  length_rest : ∀ g ∈ rest, g.length = 3
  length_part : part.length = places
  no_zero : first.head? = some '0' → first = ['0'] ∧ rest = []

/-! ## The digits of a numeral -/

section
variable {n : Nat}

theorem head?_ofNat_ne_zero (h : 0 < n) : (Text.ofNat n).head? ≠ some '0' := by
  induction n using Nat.strongRecOn with
  | ind n ih =>
    rw [Text.ofNat, Nat.toDigits_eq_if (by decide)]
    split
    · rename_i hlt
      have hall : ∀ i : Fin 10, 0 < i.val → Nat.digitChar i ≠ '0' := by decide
      exact fun hhead => hall ⟨n, hlt⟩ h (Option.some.inj hhead)
    · rw [List.head?_append_of_ne_nil _ Nat.toDigits_ne_nil]
      exact ih (n / 10) (by omega) (by omega)

theorem length_ofNat_of_lt_ten (h : n < 10) : (Text.ofNat n).length = 1 := by
  rw [Text.ofNat, Nat.toDigits_of_lt_base h]
  rfl

/-- A numeral that is longer than it had to be made does not begin with a zero. -/
theorem head?_ofNatPadded_ne_zero {places : Nat}
    (h : places + 1 < (Text.ofNatPadded (places + 1) n).length) :
    (Text.ofNatPadded (places + 1) n).head? ≠ some '0' := by
  have hlong : places + 1 < (Text.ofNat n).length := by
    rw [length_ofNatPadded, Decimal.digitCount] at h
    omega
  have hsame : Text.ofNatPadded (places + 1) n = Text.ofNat n := by
    rw [Text.ofNatPadded, Text.padLeft, Nat.sub_eq_zero_of_le (Nat.le_of_lt hlong)]
    rfl
  rw [hsame]
  refine head?_ofNat_ne_zero (Nat.pos_of_ne_zero fun hzero => ?_)
  rw [length_ofNat_of_lt_ten (by omega)] at hlong
  omega

theorem all_zero_ofNatPadded_iff (width : Nat) :
    (Text.ofNatPadded width n).all (· == '0') = true ↔ n = 0 := by
  constructor
  · intro hall
    have hzeros : Text.ofNatPadded width n =
        List.replicate (Text.ofNatPadded width n).length '0' :=
      List.eq_replicate_iff.2 ⟨rfl, fun c hc => eq_of_beq (List.all_eq_true.1 hall c hc)⟩
    have hread := ofDigitChars_ofNatPadded width n
    rw [hzeros, Nat.ofDigitChars_replicate_zero, Nat.mul_zero] at hread
    exact hread.symm
  · rintro rfl
    refine List.all_eq_true.2 fun c hc => ?_
    rcases List.mem_append.1 hc with hc | hc
    · rw [List.eq_of_mem_replicate hc]
      rfl
    · rw [List.mem_singleton.1 hc]
      rfl

end

/-! ## Groups -/

theorem length_of_mem_threes {t : Text} (h : t.length % 3 = 0) : ∀ g ∈ threes t, g.length = 3 := by
  fun_induction threes t with
  | case1 a b c r ih =>
    intro g hg
    rcases List.mem_cons.1 hg with rfl | hg
    · rfl
    · exact ih (by simp only [List.length_cons] at h; omega) g hg
  | case2 => exact fun g hg => absurd hg List.not_mem_nil
  | case3 r hlong hne =>
    -- one digit or two are no whole group
    rcases r with _ | ⟨a, _ | ⟨b, _ | ⟨c, r⟩⟩⟩
    · exact absurd rfl hne
    · cases h
    · cases h
    · exact absurd rfl (hlong a b c r)

/-! ## Numerals -/

/-- The digits in front of the point of a number in units of its last place. -/
def wholeDigits (places n : Nat) : Text :=
  (Text.ofNatPadded (places + 1) n).take ((Text.ofNatPadded (places + 1) n).length - places)

/-- The digits after the point. -/
def partDigits (places n : Nat) : Text :=
  (Text.ofNatPadded (places + 1) n).drop ((Text.ofNatPadded (places + 1) n).length - places)

section
variable (places n : Nat)

theorem wholeDigits_append_partDigits :
    wholeDigits places n ++ partDigits places n = Text.ofNatPadded (places + 1) n :=
  List.take_append_drop ..

theorem length_partDigits : (partDigits places n).length = places := by
  have hlength := length_ofNatPadded (places + 1) n
  rw [partDigits, List.length_drop]
  omega

theorem length_wholeDigits :
    (wholeDigits places n).length = (Text.ofNatPadded (places + 1) n).length - places := by
  rw [wholeDigits, List.length_take]
  omega

theorem length_wholeDigits_pos : 0 < (wholeDigits places n).length := by
  have hlength := length_ofNatPadded (places + 1) n
  rw [length_wholeDigits]
  omega

variable {places n} in
/-- A zero in front stands alone. -/
theorem wholeDigits_of_head? (h : (wholeDigits places n).head? = some '0') :
    wholeDigits places n = ['0'] := by
  have hlength : (wholeDigits places n).length = 1 := by
    have hpos := length_wholeDigits_pos places n
    have hhead : (Text.ofNatPadded (places + 1) n).head? = some '0' := by
      rw [← wholeDigits_append_partDigits,
        List.head?_append_of_ne_nil _ (List.ne_nil_of_length_pos hpos), h]
    have hshort : ¬ places + 1 < (Text.ofNatPadded (places + 1) n).length := fun hlong =>
      head?_ofNatPadded_ne_zero hlong hhead
    rw [length_wholeDigits] at hpos ⊢
    omega
  obtain ⟨c, hc⟩ := List.length_eq_one_iff.1 hlength
  rw [hc] at h ⊢
  rw [Option.some.inj h]

end

namespace Numeral

/-- The numeral of a number in units of its last place. -/
def ofDigits (negative : Bool) (places n : Nat) : Numeral places where
  negative := negative
  first := (wholeDigits places n).take (((wholeDigits places n).length - 1) % 3 + 1)
  rest := threes ((wholeDigits places n).drop (((wholeDigits places n).length - 1) % 3 + 1))
  part := partDigits places n
  isDigit := by
    intro c hc
    rw [List.flatten_cons, threes_flatten, List.take_append_drop, wholeDigits_append_partDigits] at hc
    exact isDigit_of_mem_ofNatPadded hc
  length_first := by
    have hpos := length_wholeDigits_pos places n
    rw [List.length_take]
    omega
  length_rest := by
    have hpos := length_wholeDigits_pos places n
    exact length_of_mem_threes (by rw [List.length_drop]; omega)
  length_part := length_partDigits places n
  no_zero := by
    intro hzero
    have hwhole : wholeDigits places n = ['0'] := by
      refine wholeDigits_of_head? ?_
      rwa [List.head?_take, if_neg (by omega)] at hzero
    rw [hwhole]
    exact ⟨rfl, rfl⟩

variable {places : Nat}

/-- The numeral as it is printed. -/
def toText (m : Numeral places) : Text :=
  Decimal.signText m.negative ++ Text.join ['.'] (m.first :: m.rest) ++
    (if places = 0 then [] else ',' :: m.part)

/-- The number of all its digits. -/
def digits (m : Numeral places) : Nat :=
  Nat.ofDigitChars 10 ((m.first :: m.rest).flatten ++ m.part) 0

theorem digits_ofDigits (negative : Bool) (places n : Nat) :
    (ofDigits negative places n).digits = n := by
  have hall : ((ofDigits negative places n).first :: (ofDigits negative places n).rest).flatten ++
      (ofDigits negative places n).part = Text.ofNatPadded (places + 1) n := by
    rw [← wholeDigits_append_partDigits, ← groupDigits_flatten (wholeDigits places n)]
    rfl
  rw [digits, hall, ofDigitChars_ofNatPadded]

end Numeral

/-! ## Reading what is printed -/

theorem ofValue_text {t : Text} {neg : Bool} {c : Nat} {e : Int}
    (h : Decimal.ofText? t = some (.finite neg c e)) : ofValue (.text t) = .ok ⟨neg, c, e⟩ := by
  unfold ofValue
  dsimp only [Value.plain?, Option.bind_some]
  rw [h]

/-- A printed number without the marks between its groups and with a point for its comma. -/
def unmarked (t : Text) : Text := (t.filter (· != '.')).map fun c => if c = ',' then '.' else c

theorem unmarked_append (s t : Text) : unmarked (s ++ t) = unmarked s ++ unmarked t := by
  rw [unmarked, List.filter_append, List.map_append]
  rfl

theorem unmarked_of_unmarked {t : Text} (h : ∀ c ∈ t, c ≠ '.' ∧ c ≠ ',') : unmarked t = t := by
  have hkept : t.filter (· != '.') = t :=
    List.filter_eq_self.2 fun c hc => bne_iff_ne.2 (h c hc).1
  rw [unmarked, hkept]
  exact (List.map_congr_left fun c hc => if_neg (h c hc).2).trans (List.map_id t)

theorem unmarked_join {l : List Text} (h : ∀ c ∈ l.flatten, c ≠ '.' ∧ c ≠ ',') :
    unmarked (Text.join ['.'] l) = l.flatten := by
  induction l with
  | nil => rfl
  | cons t l ih =>
    have hl := ih fun c hc => h c (List.mem_append_right _ hc)
    have ht := unmarked_of_unmarked fun c hc => h c (List.mem_append_left _ hc)
    cases l with
    | nil => rw [Text.join, ht, List.flatten_singleton]
    | cons u l =>
      rw [Text.join_cons_of_ne_nil _ _ (List.cons_ne_nil u l), unmarked_append, unmarked_append, hl, ht,
        show unmarked ['.'] = [] from rfl, List.append_nil]
      rfl

namespace Numeral

variable {places : Nat} (m : Numeral places)

theorem part_eq_nil_iff : m.part = [] ↔ places = 0 := by
  rw [← List.length_eq_zero_iff, m.length_part]

theorem unmarked_toText : unmarked m.toText =
    Decimal.signText m.negative ++ (m.first :: m.rest).flatten ++
      (if m.part = [] then [] else '.' :: m.part) := by
  have hall : ∀ c ∈ "0123456789".toList, c ≠ '.' ∧ c ≠ ',' := forall_mem_of_all (by decide)
  have hmarks : ∀ c ∈ (m.first :: m.rest).flatten ++ m.part, c ≠ '.' ∧ c ≠ ',' :=
    fun c hc => hall c (mem_of_isDigit (m.isDigit c hc))
  have hsign : unmarked (Decimal.signText m.negative) = Decimal.signText m.negative := by
    cases m.negative <;> rfl
  have hpart : unmarked (if places = 0 then [] else ',' :: m.part) =
      if m.part = [] then [] else '.' :: m.part := by
    by_cases h : places = 0
    · rw [if_pos h, if_pos (m.part_eq_nil_iff.2 h)]
      rfl
    · rw [if_neg h, if_neg (mt m.part_eq_nil_iff.1 h),
        show ',' :: m.part = [','] ++ m.part from rfl, unmarked_append,
        unmarked_of_unmarked fun c hc => hmarks c (List.mem_append_right _ hc)]
      rfl
  rw [toText, unmarked_append, unmarked_append, hsign, hpart,
    unmarked_join fun c hc => hmarks c (List.mem_append_left _ hc)]

/-- A numeral is read as its sign, its digits and its places. -/
theorem ofValue_unmarked (h : Decimal.Fits m.digits places) :
    ofValue (.text (unmarked m.toText)) = .ok ⟨m.negative, m.digits, -places⟩ := by
  have hne : (m.first :: m.rest).flatten ≠ [] := by
    have hpos := m.length_first.1
    exact List.append_ne_nil_of_left_ne_nil (List.ne_nil_of_length_pos hpos) _
  have hread := Decimal.ofText?_plain hne m.isDigit (by rwa [m.length_part]) m.negative
  rw [m.length_part] at hread
  rw [unmarked_toText]
  exact ofValue_text hread

end Numeral

/-! ## Printing -/

section
variable {a : Amount} {places : Nat}

theorem toRat_neg_iff : a.toRat < 0 ↔ a.negative = true ∧ a.coefficient ≠ 0 := by
  have hscale : (0 : ℚ) < 10 ^ a.exponent := by positivity
  unfold toRat
  cases a.negative with
  | false =>
    rw [if_neg Bool.false_ne_true, one_mul]
    exact ⟨fun h => absurd h (not_lt.2 (by positivity)), fun h => absurd h.1 Bool.false_ne_true⟩
  | true =>
    rw [if_pos rfl, neg_one_mul, neg_lt_zero, mul_pos_iff_of_pos_right hscale, Nat.cast_pos]
    exact ⟨fun h => ⟨rfl, Nat.ne_of_gt h⟩, fun h => Nat.pos_of_ne_zero h.2⟩

theorem rounded_of_zero (h : a.coefficient = 0) : a.rounded places = 0 := by
  have hround := rounded_eq_round a places
  rw [abs_toRat, h, Nat.cast_zero, zero_mul, zero_mul, round_zero] at hround
  exact Int.ofNat_eq_zero.1 hround

/-- Whether the rounded amount is below zero. -/
def minus (a : Amount) (places : Nat) : Bool := a.negative && decide (a.rounded places ≠ 0)

theorem toRat_rounded (a : Amount) (places : Nat) :
    toRat ⟨a.minus places, a.rounded places, -places⟩ = roundAway a.toRat places := by
  unfold roundAway
  rw [← rounded_eq_round, toRat, zpow_neg, zpow_natCast, mul_div_assoc, div_eq_mul_inv, Int.cast_natCast]
  by_cases hzero : a.rounded places = 0
  · rw [hzero, Nat.cast_zero, zero_mul, mul_zero, mul_zero]
  · have hsign : a.minus places = true ↔ a.toRat < 0 := by
      rw [toRat_neg_iff, minus, decide_eq_true hzero, Bool.and_true]
      exact ⟨fun h => ⟨h, mt rounded_of_zero hzero⟩, And.left⟩
    simp only [hsign]

theorem minus_iff : a.minus places = true ↔ roundAway a.toRat places < 0 := by
  rw [← toRat_rounded, toRat_neg_iff, minus, Bool.and_eq_true, decide_eq_true_eq, and_assoc, and_self]

theorem negative_and_not_all_zero (a : Amount) (places : Nat) :
    (a.negative && !(Text.ofNatPadded (places + 1) (a.rounded places)).all (· == '0')) =
      a.minus places := by
  rw [minus, Bool.eq_iff_iff]
  simp only [Bool.and_eq_true, Bool.not_eq_true', decide_eq_true_eq, ne_eq,
    ← all_zero_ofNatPadded_iff (places + 1), Bool.not_eq_true]

theorem digitCount_rounded_le (place : Nat)
    (h : Decimal.adjusted a.coefficient a.exponent < place) (places : Nat) :
    Decimal.digitCount (a.rounded places) ≤ place + places + 1 :=
  (Nat.length_toDigits_le_iff (by decide) (Nat.succ_pos _)).2
    (Nat.lt_of_le_of_lt (rounded_le h places) (Nat.pow_lt_pow_succ (by decide)))

/-- The numeral of the rounded amount. -/
def numeral (a : Amount) (places : Nat) : Numeral places :=
  .ofDigits (a.minus places) places (a.rounded places)

variable (h : Decimal.adjusted a.coefficient a.exponent < 999999)
include h

theorem fits_rounded (hp : places ≤ maxPlaces) : Decimal.Fits (a.rounded places) places := by
  have hcount := digitCount_rounded_le 999999 h places
  simp only [Decimal.Fits, Decimal.minExponent, Decimal.maxExponent, Decimal.adjusted, maxPlaces]
    at hp ⊢
  omega

/-- Read back, it is the rounded amount. -/
theorem ofValue_numeral (hp : places ≤ maxPlaces) :
    ofValue (.text (unmarked (a.numeral places).toText)) =
      .ok ⟨a.minus places, a.rounded places, -places⟩ := by
  have hdigits : (a.numeral places).digits = a.rounded places := Numeral.digits_ofDigits ..
  rw [Numeral.ofValue_unmarked _ (by rw [hdigits]; exact fits_rounded h hp), hdigits]
  rfl

theorem print?_eq (n : Int) :
    a.print? { places := n } = some (a.numeral (clampPlaces n)).toText := by
  have hnear : ¬ (decide (a.coefficient ≠ 0) && decide (greatestPlace <
      Decimal.adjusted a.coefficient a.exponent)) = true := fun hfar =>
    lt_asymm (of_decide_eq_true (Bool.and_eq_true_iff.1 hfar).2) h
  have hlength : ¬ greatestPlace < ((Text.ofNatPadded (clampPlaces n + 1)
      (a.rounded (clampPlaces n))).length : Int) - 1 - clampPlaces n := by
    have hcount := digitCount_rounded_le 999999 h (clampPlaces n)
    rw [length_ofNatPadded, greatestPlace]
    omega
  unfold print?
  dsimp only
  rw [if_neg hnear, roundedDigits_eq, ← Text.ofNatPadded, if_neg hlength, negative_and_not_all_zero]
  rfl

end

/-- An amount is printed, and what is printed tells the amount, rounded away from zero; it has a
minus sign just when the rounded amount is below zero. -/
theorem format_rounds {v : Value} {a : Amount} (h : ofValue v = .ok a)
    (hplace : Decimal.adjusted a.coefficient a.exponent < 999999) (n : Int) :
    ∃ (m : Numeral (clampPlaces n)) (b : Amount), format { places := n } v = .ok m.toText ∧
      ofValue (.text (unmarked m.toText)) = .ok b ∧ b.toRat = roundAway a.toRat (clampPlaces n) ∧
        (m.negative = true ↔ roundAway a.toRat (clampPlaces n) < 0) := by
  have hp := clampPlaces_le n
  have hprecise : ¬ greatestPrecision <
      Decimal.adjusted a.coefficient a.exponent + clampPlaces n + 3 := by
    simp only [greatestPrecision, maxPlaces] at hp ⊢
    omega
  have hformat : format { places := n } v = .ok (a.numeral (clampPlaces n)).toText := by
    unfold format
    rw [h]
    dsimp only [bind, Except.bind]
    rw [if_neg hprecise, print?_eq hplace]
  exact ⟨a.numeral (clampPlaces n), _, hformat, ofValue_numeral hplace hp, toRat_rounded a _,
    minus_iff⟩

theorem format_rounds_carry :
    ofValue (.text "-9.995".toList) = .ok ⟨true, 9995, -3⟩ ∧ Decimal.adjusted 9995 (-3) < 999999 ∧
    ∃ (m : Numeral (clampPlaces 2)) (b : Amount),
      format { places := 2 } (.text "-9.995".toList) = .ok m.toText ∧
      ofValue (.text (unmarked m.toText)) = .ok b ∧
      b.toRat = roundAway (toRat ⟨true, 9995, -3⟩) (clampPlaces 2) ∧
      (m.negative = true ↔ roundAway (toRat ⟨true, 9995, -3⟩) (clampPlaces 2) < 0) :=
  ⟨ofValue_text (by decide +kernel), by decide,
    format_rounds (ofValue_text (by decide +kernel)) (by decide) 2⟩

-- a half is carried through all the digits, and what is rounded to nothing loses its sign
example : (format { places := 2 } (.text "-999999.995".toList)).toOption =
      some "-1.000.000,00".toList ∧
    (format {} (.text "-0.4".toList)).toOption = some ['0'] := by
  decide +kernel

end MailMerge.Amount
