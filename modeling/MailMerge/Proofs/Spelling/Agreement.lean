import MailMerge.Spelling.Phrase
/-!
# The two ways of spelling

Peeling off the largest part that has a name and going through the groups of three digits spell the
same words, up to the greatest amount that is spelled. From there on they part: the number of
billions is then no group of three digits any more.

Results:
* `belowThousand_eq_words`: the words of one group.
* `Peels`: the words of a group and of what remains below it are the words of both together.
* `splitWhole_le_maxValue`: what is spelled has at most five groups.
* `parts_cases`: which values are taken apart, and into what.
* `spell_agrees_spellByGroup`: both ways spell every value alike, or refuse it for the same reason.
-/
namespace MailMerge.Spelling

/-! ## One group -/

section
variable {n : Nat}

theorem words_zero : words 0 = [] := by rw [words, if_pos rfl]

theorem words_of_lt_twelve (h0 : n ≠ 0) (h : n < 12) : words n = [smallWord n] := by
  rw [words, if_neg h0, if_pos h]

theorem words_teen (h0 : 12 ≤ n) (h : n < 20) : words n = [smallWord (n - 10), "belas".toList] := by
  rw [words, if_neg (by omega), if_neg (by omega), if_pos h, words_of_lt_twelve (by omega) (by omega)]
  rfl

theorem words_tens (h0 : 20 ≤ n) (h : n < 100) :
    words n = smallWord (n / 10) :: "puluh".toList :: words (n % 10) := by
  rw [words, if_neg (by omega), if_neg (by omega), if_neg (by omega), if_pos h,
    words_of_lt_twelve (n := n / 10) (by omega) (by omega)]
  rfl

theorem words_hundred (h0 : 100 ≤ n) (h : n < 200) :
    words n = "seratus".toList :: words (n % 100) := by
  rw [words, if_neg (by omega), if_neg (by omega), if_neg (by omega), if_neg (by omega), if_pos h,
    show n - 100 = n % 100 by omega]

theorem words_hundreds (h0 : 200 ≤ n) (h : n < 1000) :
    words n = smallWord (n / 100) :: "ratus".toList :: words (n % 100) := by
  rw [words, if_neg (by omega), if_neg (by omega), if_neg (by omega), if_neg (by omega),
    if_neg (by omega), if_pos h, words_of_lt_twelve (n := n / 100) (by omega) (by omega)]
  rfl

/-- The words below one hundred, told as they are in a group. -/
theorem belowThousand_of_lt_hundred (h : n < 100) : belowThousand n = words n := by
  have hh : n / 100 = 0 := by omega
  have hr : n % 100 = n := by omega
  unfold belowThousand
  dsimp only
  rw [hh, hr, if_neg (by decide), if_neg (by decide), List.nil_append]
  by_cases h20 : 20 ≤ n
  · rw [if_pos h20, words_tens h20 h]
    by_cases hu : n % 10 = 0
    · rw [if_pos hu, hu, words_zero]
      rfl
    · rw [if_neg hu, words_of_lt_twelve hu (by omega)]
      rfl
  · rw [if_neg h20]
    by_cases h12 : 12 ≤ n
    · rw [if_pos h12, words_teen h12 (by omega)]
    · rw [if_neg h12]
      by_cases h0 : n = 0
      · rw [if_pos h0, h0, words_zero]
      · rw [if_neg h0, words_of_lt_twelve h0 (by omega)]

/-- The hundreds of a group stand in front of its rest. -/
theorem belowThousand_eq_append (n : Nat) :
    belowThousand n = (if n / 100 = 1 then ["seratus".toList]
      else if 1 < n / 100 then [smallWord (n / 100), "ratus".toList] else []) ++
        belowThousand (n % 100) := by
  have hh : n % 100 / 100 = 0 := by omega
  have hr : n % 100 % 100 = n % 100 := by omega
  simp only [belowThousand, hh, hr]
  rfl

theorem belowThousand_eq_words (h : n < 1000) : belowThousand n = words n := by
  rw [belowThousand_eq_append, belowThousand_of_lt_hundred (Nat.mod_lt n (by decide))]
  by_cases h200 : 200 ≤ n
  · rw [words_hundreds h200 h, if_neg (by omega), if_pos (by omega)]
    rfl
  · by_cases h100 : 100 ≤ n
    · rw [words_hundred h100 (by omega), if_pos (by omega)]
      rfl
    · rw [if_neg (by omega), if_neg (by omega), Nat.mod_eq_of_lt (by omega)]
      rfl

end

/-! ## Group after group -/

/-- Whether the words of numbers that have a group of some units on their left are the words of that
group and of what remains below it. -/
def Peels (unit : Nat) (name : Text) : Prop :=
  ∀ n, n < 1000 * unit → words n = groupWords (n / unit) name ++ words (n % unit)

/-- Numbers that reach the unit decide, since the others have no such group. -/
theorem peels_of_le {unit : Nat} {name : Text}
    (h : ∀ n, unit ≤ n → n < 1000 * unit →
      words n = groupWords (n / unit) name ++ words (n % unit)) : Peels unit name := by
  intro n hn
  by_cases hle : unit ≤ n
  · exact h n hle hn
  · rw [Nat.div_eq_of_lt (Nat.lt_of_not_le hle), Nat.mod_eq_of_lt (Nat.lt_of_not_le hle)]
    rfl

theorem groupWords_of_named {g : Nat} {name : Text} (h0 : g ≠ 0) (hg : g < 1000) (hname : name ≠ [])
    (hone : ¬ (name = "ribu".toList ∧ g = 1)) : groupWords g name = words g ++ [name] := by
  unfold groupWords
  rw [if_neg h0, if_neg (by simpa using hone), if_neg (by simpa using hname), belowThousand_eq_words hg]

/-- One thousand has a word of its own, the other thousands are counted. -/
theorem peels_thousand : Peels (10 ^ 3) "ribu".toList := by
  refine peels_of_le fun n hle hn => ?_
  by_cases h2 : n < 2000
  · have hwords : words n = "seribu".toList :: words (n - 1000) := by
      rw [words]
      repeat' split
      all_goals first | omega | rfl
    rw [hwords, show n / 10 ^ 3 = 1 by omega, show n - 1000 = n % 10 ^ 3 by omega]
    rfl
  · have hwords : words n = words (n / 10 ^ 3) ++ "ribu".toList :: words (n % 10 ^ 3) := by
      rw [words]
      repeat' split
      all_goals first | omega | rfl
    rw [hwords, groupWords_of_named (by omega) (by omega) (by decide) (by omega), List.append_assoc]
    rfl

/-- Larger groups are always counted. -/
theorem peels_of_counted {unit : Nat} {name : Text} (hunit : 0 < unit) (hname : name ≠ [])
    (hne : name ≠ "ribu".toList)
    (h : ∀ n, unit ≤ n → n < 1000 * unit → words n = words (n / unit) ++ name :: words (n % unit)) :
    Peels unit name := by
  refine peels_of_le fun n hle hn => ?_
  have h0 : n / unit ≠ 0 := Nat.ne_of_gt (Nat.div_pos hle hunit)
  have hg : n / unit < 1000 := Nat.div_lt_of_lt_mul (by rwa [Nat.mul_comm])
  rw [h n hle hn, groupWords_of_named h0 hg hname fun hone => hne hone.1, List.append_assoc]
  rfl

theorem peels_million : Peels (10 ^ 6) "juta".toList := by
  refine peels_of_counted (by decide) (by decide) (by decide) fun n hle hn => ?_
  rw [words]
  repeat' split
  all_goals first | omega | rfl

theorem peels_milliard : Peels (10 ^ 9) "milyar".toList := by
  refine peels_of_counted (by decide) (by decide) (by decide) fun n hle hn => ?_
  rw [words]
  repeat' split
  all_goals first | omega | rfl

theorem peels_billion : Peels (10 ^ 12) "trilyun".toList := by
  refine peels_of_counted (by decide) (by decide) (by decide) fun n hle hn => ?_
  rw [words]
  repeat' split
  all_goals first | omega | rfl

/-- The last group has no name. -/
theorem groupWords_last {n : Nat} (h : n < 1000) : groupWords n [] = words n := by
  by_cases h0 : n = 0
  · rw [h0, words_zero]
    rfl
  · unfold groupWords
    rw [if_neg h0, if_neg (by simp), belowThousand_eq_words h]
    exact List.append_nil _

/-- Both ways give the same words where all groups are. -/
theorem words_eq_wordsByGroup {n : Nat} (h : n ≤ maxValue) : words n = wordsByGroup n := by
  have hmax : maxValue = 10 ^ 15 - 1 := rfl
  unfold wordsByGroup groups
  simp only [wordsOfGroups, List.append_nil, Nat.div_one]
  rw [peels_billion n (by omega), peels_milliard (n % 10 ^ 12) (by omega),
    peels_million (n % 10 ^ 12 % 10 ^ 9) (by omega),
    peels_thousand (n % 10 ^ 12 % 10 ^ 9 % 10 ^ 6) (by omega), ← groupWords_last (by omega)]

-- one more, and the thousand billions are spelled as a number by the one way only
example : words (maxValue + 1) = ["seribu".toList, "trilyun".toList] ∧
    wordsByGroup (maxValue + 1) = ["sepuluh".toList, "ratus".toList, "trilyun".toList] := by
  constructor <;> cbv

/-! ## Amounts -/

/-- The whole part of an amount that is spelled is not beyond the greatest one. -/
theorem splitWhole_le_maxValue {a : Amount} (h : exceeds a = false) :
    (splitWhole a).1 ≤ maxValue := by
  unfold exceeds at h
  unfold splitWhole
  by_cases h0 : a.coefficient = 0
  · rw [if_pos h0]
    exact Nat.zero_le _
  rw [if_neg h0] at h ⊢
  by_cases hfar : 16 < Decimal.adjusted a.coefficient a.exponent
  · rw [if_pos hfar] at h
    cases h
  rw [if_neg hfar] at h
  by_cases hwhole : 0 ≤ a.exponent
  · rw [if_pos hwhole] at h ⊢
    exact Nat.not_lt.1 (of_decide_eq_false h)
  rw [if_neg hwhole] at h ⊢
  by_cases hpart : Decimal.digitCount a.coefficient < a.exponent.natAbs
  · rw [if_pos hpart]
    exact Nat.zero_le _
  rw [if_neg hpart]
  by_cases hsmall : Decimal.adjusted a.coefficient a.exponent < 0
  · -- as many digits as places stand after the point, so none before it
    have hcount : Decimal.digitCount a.coefficient = a.exponent.natAbs := by
      unfold Decimal.adjusted at hsmall
      omega
    have hlt := Decimal.lt_pow_digitCount a.coefficient
    rw [hcount] at hlt
    rw [Nat.div_eq_of_lt hlt]
    exact Nat.zero_le _
  · rw [if_neg hsmall] at h
    have hle := Nat.not_lt.1 (of_decide_eq_false h)
    exact Nat.div_le_of_le_mul (by rwa [Nat.mul_comm])

/-- A value that is an amount is taken apart, unless it is too large. -/
theorem parts_cases (v : Value) :
    (∃ e, Amount.ofValue v = .error e ∧ parts v = .error e) ∨
    (∃ a, Amount.ofValue v = .ok a ∧ exceeds a = true ∧ parts v = .error (.tooLarge v)) ∨
    ∃ a, Amount.ofValue v = .ok a ∧ exceeds a = false ∧
      parts v = .ok ((splitWhole a).1, fractionDigits (splitWhole a).2 a.exponent) := by
  unfold parts
  cases Amount.ofValue v with
  | error e => exact Or.inl ⟨e, rfl, rfl⟩
  | ok a =>
    refine Or.inr ?_
    simp only [bind, Except.bind]
    cases hexceeds : exceeds a with
    | true => exact Or.inl ⟨a, rfl, hexceeds, rfl⟩
    | false => exact Or.inr ⟨a, rfl, hexceeds, rfl⟩

theorem whole_le_maxValue {v : Value} {n : Nat} {f : Text} (h : parts v = .ok (n, f)) :
    n ≤ maxValue := by
  rcases parts_cases v with ⟨e, -, hparts⟩ | ⟨a, -, -, hparts⟩ | ⟨a, -, hexceeds, hparts⟩
  · cases hparts.symm.trans h
  · cases hparts.symm.trans h
  · cases hparts.symm.trans h
    exact splitWhole_le_maxValue hexceeds

/-- Why a value is not spelled. -/
theorem parts_error {v : Value} {e : AmountError} (h : parts v = .error e) :
    e = .notNumeric v ∨ e = .notFinite v ∨ e = .tooLarge v := by
  rcases parts_cases v with ⟨e', hvalue, hparts⟩ | ⟨a, -, -, hparts⟩ | ⟨a, -, -, hparts⟩
  · cases hparts.symm.trans h
    unfold Amount.ofValue at hvalue
    dsimp only at hvalue
    split at hvalue
    · cases hvalue
      exact Or.inl rfl
    · cases hvalue
    · cases hvalue
      exact Or.inr (Or.inl rfl)
  · cases hparts.symm.trans h
    exact Or.inr (Or.inr rfl)
  · cases hparts.symm.trans h

/-- Both ways spell a value alike, or both refuse it for the same reason. -/
theorem spell_agrees_spellByGroup (v : Value) :
    (∃ t, spell v = .ok t ∧ spellByGroup v = .ok t) ∨
      ∃ e, spell v = .error e ∧ spellByGroup v = .error e ∧
        (e = .notNumeric v ∨ e = .notFinite v ∨ e = .tooLarge v) := by
  unfold spell spellByGroup
  cases hparts : parts v with
  | error e => exact Or.inr ⟨e, rfl, rfl, parts_error hparts⟩
  | ok p =>
    obtain ⟨n, f⟩ := p
    refine Or.inl ⟨phrase (words n) f, rfl, ?_⟩
    rw [words_eq_wordsByGroup (whole_le_maxValue hparts)]
    rfl

end MailMerge.Spelling
