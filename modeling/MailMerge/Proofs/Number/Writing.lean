import MailMerge.Proofs.Number.Printing
/-!
# Written decimals are read back

Every decimal within the bounds of exponents is read as it is written, with or without an exponent, and
so are the special values. A text with a character that occurs in none of them is no numeral.

Results:
* `ofText?_toText`: a decimal is read back.
* `ofText?_of_foreign`, `ofText?_of_minus_within`: what is no numeral.
-/
namespace MailMerge.Decimal

section
variable {neg : Bool} {c : Nat} {e : Int}

theorem fixedText_eq (c places : Nat) :
    fixedText c places = pointed (Amount.wholeDigits places c) (Amount.partDigits places c) := by
  have hlength := Amount.length_partDigits places c
  unfold fixedText pointed
  dsimp only
  by_cases hplaces : places = 0
  · have hnone : Amount.partDigits places c = [] := List.length_eq_zero_iff.1 (hlength.trans hplaces)
    rw [if_pos hplaces, if_pos hnone, List.append_nil, Amount.wholeDigits, hplaces, Nat.sub_zero,
      List.take_length]
    rfl
  · have hsome : Amount.partDigits places c ≠ [] := fun hnone =>
      hplaces (hlength.symm.trans (List.length_eq_zero_iff.2 hnone))
    rw [if_neg hplaces, if_neg hsome]
    rfl

/-- A number without an exponent is read as it is written. -/
theorem ofText?_fixedText (neg : Bool) (c : Nat) (he : e ≤ 0) :
    ofText? (signText neg ++ fixedText c e.natAbs) =
      if IsHeld (.finite neg c e) then some (.finite neg c e) else none := by
  have hexponent : (0 : Int) - e.natAbs = e := by omega
  have hall := Amount.wholeDigits_append_partDigits e.natAbs c
  have hne : Amount.wholeDigits e.natAbs c ≠ [] :=
    List.ne_nil_of_length_pos (Amount.length_wholeDigits_pos _ _)
  have hdigits : ∀ d ∈ Amount.wholeDigits e.natAbs c ++ Amount.partDigits e.natAbs c,
      d.isDigit = true := by
    rw [hall]
    exact fun d hd => isDigit_of_mem_ofNatPadded hd
  have hread := ofText?_pointed hdigits hne (Or.inl ⟨rfl, rfl⟩) neg
  rw [hall, ofDigitChars_ofNatPadded, Amount.length_partDigits, hexponent, List.append_nil] at hread
  rw [fixedText_eq, hread]

/-- A number with an exponent is read as it is written. -/
theorem ofText?_exponentText (neg : Bool) {d : Char} {r : Text} (hc : Text.ofNat c = d :: r) (e : Int) :
    ofText? (signText neg ++ (pointed [d] r ++ exponentText (adjusted c e))) =
      if IsHeld (.finite neg c e) then some (.finite neg c e) else none := by
  have hdigits : ∀ x ∈ [d] ++ r, x.isDigit = true := by
    intro x hx
    refine Nat.isDigit_of_mem_toDigits (n := c) (by decide) (b := 10) (by decide) ?_
    rw [← Text.ofNat, hc]
    exact hx
  have hnumber : Nat.ofDigitChars 10 ([d] ++ r) 0 = c := by
    rw [List.singleton_append, ← hc, Text.ofNat, Nat.ofDigitChars_ten_toDigits]
  have hexponent : adjusted c e - r.length = e := by
    rw [adjusted, digitCount, hc, List.length_cons]
    omega
  have hread := ofText?_pointed hdigits (List.cons_ne_nil d []) (Or.inr rfl) neg
    (x := adjusted c e)
  rwa [hnumber, hexponent] at hread

theorem ofText?_finite (neg : Bool) (c : Nat) (e : Int) :
    ofText? (Decimal.finite neg c e).toText =
      if IsHeld (.finite neg c e) then some (.finite neg c e) else none := by
  show ofText? (signText neg ++ toScientific c e) = _
  unfold toScientific
  dsimp only
  split
  · rename_i hfixed
    exact ofText?_fixedText neg c (of_decide_eq_true (Bool.and_eq_true_iff.1 hfixed).1)
  · have hne : Text.ofNat c ≠ [] := Nat.toDigits_ne_nil
    obtain ⟨d, r, hc⟩ := List.exists_cons_of_ne_nil hne
    have hread := ofText?_exponentText neg hc e
    rw [hc]
    cases r with
    | nil => exact hread
    | cons d' r => exact hread

end

/-! ## Special values -/

theorem map_toLower_of_isDigit {t : Text} (h : ∀ c ∈ t, c.isDigit = true) : t.map Char.toLower = t := by
  have hall : ∀ c ∈ "0123456789".toList, c.toLower = c := forall_mem_of_all (by decide)
  exact (List.map_congr_left fun c hc => hall c (mem_of_isDigit (h c hc))).trans (List.map_id t)

/-- A value that is no number is read with what follows its mark. -/
theorem ofText?_mark {t : Text} (h : ∀ c ∈ t, c.isDigit = true) (neg signaling : Bool) :
    ofText? (signText neg ++ (if signaling then "sNaN".toList else "NaN".toList) ++ t) =
      (payload? t).map (.nan neg signaling) := by
  have hmark : ∀ c ∈ "sNaN".toList ++ "NaN".toList, IsBare c := forall_mem_of_all (by decide)
  have hbare : ∀ c ∈ signText neg ++ (if signaling then "sNaN".toList else "NaN".toList) ++ t,
      IsBare c := by
    intro c hc
    rcases List.mem_append.1 hc with hc | hc
    · rcases List.mem_append.1 hc with hc | hc
      · exact isBare_of_mem_signText hc
      · split at hc
        · exact hmark c (List.mem_append_left _ hc)
        · exact hmark c (List.mem_append_right _ hc)
    · exact isBare_of_isDigit (h c hc)
  have hlow := map_toLower_of_isDigit h
  unfold ofText?
  rw [plainNumeral?_of_isBare hbare, Option.bind_eq_bind, Option.bind_some, List.append_assoc]
  cases signaling with
  | true =>
    have hsign := splitSign_signText_append (d := 's') (by decide) (by decide) neg ("NaN".toList ++ t)
    have hmap : ('s' :: ("NaN".toList ++ t)).map Char.toLower = 's' :: ("nan".toList ++ t) := by
      rw [List.map_cons, List.map_append, hlow]
      rfl
    have hdrop : Text.dropStart? "snan".toList ('s' :: ("nan".toList ++ t)) = some t :=
      Text.dropStart?_append "snan".toList t
    rw [if_pos rfl, show "sNaN".toList ++ t = 's' :: ("NaN".toList ++ t) from rfl, hsign]
    dsimp only
    rw [hmap, if_neg (not_infinity (by decide) _), hdrop,
      show "nan".toList = 'n' :: "an".toList from rfl,
      Text.dropStart?_of_ne (by decide)]
  | false =>
    have hsign := splitSign_signText_append (d := 'N') (by decide) (by decide) neg ("aN".toList ++ t)
    have hmap : ('N' :: ("aN".toList ++ t)).map Char.toLower = 'n' :: ("an".toList ++ t) := by
      rw [List.map_cons, List.map_append, hlow]
      rfl
    have hdrop : Text.dropStart? "nan".toList ('n' :: ("an".toList ++ t)) = some t :=
      Text.dropStart?_append "nan".toList t
    rw [if_neg Bool.false_ne_true, show "NaN".toList ++ t = 'N' :: ("aN".toList ++ t) from rfl, hsign]
    dsimp only
    rw [hmap, if_neg (not_infinity (by decide) _), hdrop]

theorem ofText?_nan (neg signaling : Bool) (p : Nat) :
    ofText? (Decimal.nan neg signaling p).toText = some (.nan neg signaling p) := by
  have hread := fun t h => ofText?_mark (t := t) h neg signaling
  show ofText? (signText neg ++ _ ++ if p = 0 then [] else Text.ofNat p) = _
  by_cases hp : p = 0
  · rw [if_pos hp, hread [] (fun c hc => absurd hc List.not_mem_nil), hp]
    rfl
  · have hdigits : ∀ c ∈ Text.ofNat p, c.isDigit = true := fun c hc =>
      Nat.isDigit_of_mem_toDigits (by decide) (by decide) hc
    have hne : Text.ofNat p ≠ [] := Nat.toDigits_ne_nil
    rw [if_neg hp, hread _ hdigits, payload?, if_neg (by simpa using hne),
      digits?_of_isDigit hne hdigits, Text.ofNat, Nat.ofDigitChars_ten_toDigits, Option.map_some]

/-- A decimal within the bounds is read as it is written, and no other one is read. -/
theorem ofText?_toText (d : Decimal) : ofText? d.toText = if d.IsHeld then some d else none := by
  cases d with
  | finite neg c e => exact ofText?_finite neg c e
  | infinite neg => cases neg <;> decide +kernel
  | nan neg signaling p => exact ofText?_nan neg signaling p

/-! ## Texts that are no numerals -/

/-- Whether a character occurs in no numeral. -/
structure IsForeign (c : Char) : Prop where
  bare : IsBare c
  not_digit : c.isDigit = false
  not_mark : c ∉ "+-.eE".toList
  not_special : c.toLower.isDigit = false ∧ c.toLower ∉ "snan".toList ++ "infinity".toList

section
variable {c : Char} {t : Text}

theorem mem_dropWhile {p : Char → Bool} (hc : c ∈ t) (hp : p c = false) : c ∈ t.dropWhile p := by
  rw [← List.takeWhile_append_dropWhile (p := p) (l := t)] at hc
  refine (List.mem_append.1 hc).resolve_left fun hbefore => ?_
  exact absurd (List.all_eq_true.1 List.all_takeWhile c hbefore) (by rw [hp]; exact Bool.false_ne_true)

theorem mem_trimBy {p : Char → Bool} (hc : c ∈ t) (hp : p c = false) : c ∈ t.trimBy p := by
  have hleft := mem_dropWhile hc hp
  exact List.mem_reverse.2 (mem_dropWhile (List.mem_reverse.2 hleft) hp)

theorem mem_of_mapM {f : Char → Option Char} {u : Text} (h : t.mapM f = some u) (hc : c ∈ t)
    (hf : f c = some c) : c ∈ u := by
  induction t generalizing u with
  | nil => exact absurd hc List.not_mem_nil
  | cons d t ih =>
    rw [List.mapM_cons] at h
    obtain ⟨d', hd, hrest⟩ := Option.bind_eq_some_iff.1 h
    obtain ⟨u', hu, hcons⟩ := Option.bind_eq_some_iff.1 hrest
    cases hcons
    rcases List.mem_cons.1 hc with rfl | hc
    · cases hf.symm.trans hd
      exact List.mem_cons_self ..
    · exact List.mem_cons_of_mem _ (ih hu hc)

/-- A character that is read as it is stays in the numeral. -/
theorem mem_plainNumeral {u : Text} (h : plainNumeral? t = some u) (hc : c ∈ t) (hbare : IsBare c) :
    c ∈ u :=
  mem_of_mapM h (List.mem_filter.2 ⟨mem_trimBy hc hbare.1, hbare.2.1⟩) (if_pos hbare.2.2)

theorem mem_splitSign (hc : c ∈ t) (hplus : c ≠ '+') (hminus : c ≠ '-') : c ∈ (splitSign t).2 := by
  unfold splitSign
  split
  · exact (List.mem_cons.1 hc).resolve_left hminus
  · exact (List.mem_cons.1 hc).resolve_left hplus
  · exact hc

theorem digits?_of_mem (hc : c ∈ t) (h : c.isDigit = false) : digits? t = none := by
  have hall : t.all Char.isDigit = false :=
    List.all_eq_false.2 ⟨c, hc, by rw [h]; exact Bool.false_ne_true⟩
  rw [digits?, hall, Bool.and_false, if_neg Bool.false_ne_true]

theorem exponent?_of_mem (hc : c ∈ t) (h : c.isDigit = false) (hplus : c ≠ '+') (hminus : c ≠ '-') :
    exponent? t = none := by
  have hnone := digits?_of_mem (mem_splitSign hc hplus hminus) h
  unfold exponent?
  dsimp only
  rw [hnone]
  rfl

theorem mem_cut (hc : c ∈ t) (hpoint : c ≠ '.') :
    c ∈ (Text.cut '.' t).1 ++ (Text.cut '.' t).2.getD [] := by
  rw [← Text.cut_fst_append '.' t] at hc
  rcases List.mem_append.1 hc with hc | hc
  · exact List.mem_append_left _ hc
  · cases hpart : (Text.cut '.' t).2 with
    | none =>
      rw [hpart] at hc
      exact absurd hc List.not_mem_nil
    | some part =>
      rw [hpart] at hc
      exact List.mem_append_right _ ((List.mem_cons.1 hc).resolve_left hpoint)

/-- Only digits and a point stand in front of the exponent. -/
theorem unsigned?_of_mem_mantissa (hc : c ∈ t.takeWhile fun c => c != 'e' && c != 'E')
    (h : c.isDigit = false) (hpoint : c ≠ '.') (neg : Bool) : unsigned? neg t = none := by
  have hnone := digits?_of_mem (mem_cut hc hpoint) h
  unfold unsigned?
  dsimp only [Option.bind_eq_bind]
  rw [hnone]
  split
  · rfl
  · rename_i r _
    cases exponent? r <;> rfl

theorem unsigned?_of_foreign (h : IsForeign c) (hc : c ∈ t) (neg : Bool) : unsigned? neg t = none := by
  have hmark : ∀ d ∈ "+-.eE".toList, c ≠ d := fun d hd he => h.not_mark (he ▸ hd)
  rw [← List.takeWhile_append_dropWhile (p := fun c => c != 'e' && c != 'E') (l := t)] at hc
  rcases List.mem_append.1 hc with hc | hc
  · exact unsigned?_of_mem_mantissa hc h.not_digit (hmark '.' (by decide)) neg
  · have hhead := List.head?_dropWhile_not (fun c => c != 'e' && c != 'E') t
    unfold unsigned?
    dsimp only [Option.bind_eq_bind]
    cases hrest : t.dropWhile fun c => c != 'e' && c != 'E' with
    | nil =>
      rw [hrest] at hc
      exact absurd hc List.not_mem_nil
    | cons d r =>
      rw [hrest] at hc hhead
      have hd : c ≠ d := by
        rintro rfl
        simp [hmark 'e' (by decide), hmark 'E' (by decide)] at hhead
      dsimp only
      rw [exponent?_of_mem ((List.mem_cons.1 hc).resolve_left hd) h.not_digit
        (hmark '+' (by decide)) (hmark '-' (by decide)), Option.bind_none]

theorem payload?_of_mem (hc : c ∈ t) (h : c.isDigit = false) : payload? t = none := by
  have hsome : ¬ t.isEmpty = true := by
    rw [List.isEmpty_iff]
    exact List.ne_nil_of_mem hc
  rw [payload?, if_neg hsome, digits?_of_mem hc h]

/-- A text with such a character is no numeral. -/
theorem ofText?_of_foreign (h : IsForeign c) (hc : c ∈ t) : ofText? t = none := by
  obtain ⟨hdigit, hletter⟩ := h.not_special
  have hmark : ∀ d ∈ "+-.eE".toList, c ≠ d := fun d hd he => h.not_mark (he ▸ hd)
  unfold ofText?
  cases hplain : plainNumeral? t with
  | none => rfl
  | some u =>
    have hr := mem_splitSign (mem_plainNumeral hplain hc h.bare) (hmark '+' (by decide))
      (hmark '-' (by decide))
    rw [Option.bind_eq_bind, Option.bind_some]
    generalize splitSign u = signed at hr
    obtain ⟨neg, r⟩ := signed
    dsimp only at hr ⊢
    have hlow : c.toLower ∈ r.map Char.toLower := List.mem_map_of_mem hr
    have hword : ∀ word rest : Text, (∀ d ∈ word, d ∈ "snan".toList ++ "infinity".toList) →
        r.map Char.toLower = word ++ rest → c.toLower ∈ rest := fun word rest hall heq =>
      (List.mem_append.1 (heq ▸ hlow)).resolve_left fun h => hletter (hall _ h)
    have hfinite : ¬ (decide (r.map Char.toLower = "inf".toList) ||
        decide (r.map Char.toLower = "infinity".toList)) = true := by
      rw [Bool.or_eq_true, decide_eq_true_eq, decide_eq_true_eq]
      rintro (heq | heq)
      · exact absurd (hword "inf".toList [] (forall_mem_of_all (by decide)) heq) List.not_mem_nil
      · exact absurd (hword "infinity".toList [] (forall_mem_of_all (by decide)) heq) List.not_mem_nil
    rw [if_neg hfinite]
    cases hnan : Text.dropStart? "nan".toList (r.map Char.toLower) with
    | some p =>
      have hp := hword _ p (forall_mem_of_all (by decide)) (Text.eq_append_of_dropStart? hnan)
      dsimp only
      rw [payload?_of_mem hp hdigit, Option.map_none]
    | none =>
      cases hsnan : Text.dropStart? "snan".toList (r.map Char.toLower) with
      | some p =>
        have hp := hword _ p (forall_mem_of_all (by decide)) (Text.eq_append_of_dropStart? hsnan)
        dsimp only
        rw [payload?_of_mem hp hdigit, Option.map_none]
      | none => exact unsigned?_of_foreign h hr neg

/-- Nor is one that begins with a digit and has a minus sign without an exponent in front of it. -/
theorem ofText?_of_minus_within {d : Char} (hd : d.isDigit = true) (ht : ∀ c ∈ t, c ∈ plainChars)
    (hminus : '-' ∈ t) : ofText? (d :: t) = none := by
  have hall : ∀ c ∈ plainChars, (c != 'e' && c != 'E') = true := forall_mem_of_all (by decide)
  have hplain : ∀ c ∈ d :: t, (c != 'e' && c != 'E') = true := by
    intro c hc
    rcases List.mem_cons.1 hc with rfl | hc
    · exact hall c (mem_plainChars_of_isDigit hd)
    · exact hall c (ht c hc)
  have hmantissa : '-' ∈ (d :: t).takeWhile fun c => c != 'e' && c != 'E' := by
    rw [← List.append_nil (d :: t), List.takeWhile_append_of_pos hplain]
    exact List.mem_append_left _ (List.mem_cons_of_mem _ hminus)
  have hread := ofText?_of_digit hd (fun c hc => isBare_of_mem_plainChars (ht c hc)) false
  rw [show signText false ++ d :: t = d :: t from rfl] at hread
  rw [hread, unsigned?_of_mem_mantissa hmantissa (by decide) (by decide)]

end

end MailMerge.Decimal
