import MailMerge.Calendar.Shape
import MailMerge.Proofs.Number.Reading
import MailMerge.Proofs.Text.Digits
/-!
# Which texts can have a shape

Whether a text can have a shape shows when all its digits are replaced by ones: what a part takes
are digits, blanks, a name in letters or a character of its own, and ones are among the digits that
every number may have. So a family of texts that differ in their digits is told from a shape by a
single member of it.

* `Part.ones_mem_rests`: a part takes as much of the text of ones.
* `reach_ones_of_read?`: a text of a shape is of that shape, its numbers apart, in ones.
-/
namespace MailMerge.Shape

/-! ## What remains -/

/-- What may be left of a text when a part has matched its beginning. -/
def Part.rests (p : Part) (t : Text) : List Text := (p.ways {} t).map Prod.snd

/-- What may be left of a text when parts have matched one after the other. -/
def reach : List Part → Text → List Text
  | [], t => [t]
  | p :: ps, t => (p.rests t).flatMap (reach ps)

theorem Part.mem_rests {p : Part} {f g : Found} {t r : Text} (h : (g, r) ∈ p.ways f t) :
    r ∈ p.rests t := by
  cases p <;> simp only [ways, rests, List.mem_map, List.map_map] at h ⊢ <;>
    obtain ⟨w, hw, he⟩ := h <;> exact ⟨w, hw, congrArg Prod.snd he⟩

theorem mem_reach_of_matchParts {ps : List Part} {f g : Found} {t r : Text}
    (h : matchParts ps f t = some (g, r)) : r ∈ reach ps t := by
  induction ps generalizing f t with
  | nil =>
    cases h
    exact List.mem_singleton_self _
  | cons p ps ih =>
    rw [matchParts] at h
    obtain ⟨w, hw, h⟩ := List.exists_of_findSome?_eq_some h
    exact List.mem_flatMap.2 ⟨w.2, p.mem_rests hw, ih h⟩

theorem nil_mem_reach_of_read? {shape : List Part} {t : Text} {m : Moment}
    (h : read? shape t = some m) : [] ∈ reach shape t := by
  obtain ⟨w, hw, h⟩ := Option.bind_eq_some_iff.1 h
  have hmatch := mem_reach_of_matchParts hw
  dsimp only at h
  split at h
  · rename_i hempty
    rwa [List.isEmpty_iff.1 hempty] at hmatch
  · cases h

/-! ## Ones for digits -/

/-- The digit one in place of a decimal digit. -/
def one (c : Char) : Char := if isDecimalDigit c then '1' else c

/-- The text with ones in place of all its decimal digits. -/
def ones (t : Text) : Text := t.map one

theorem isBlank_one (c : Char) : isBlank (one c) = isBlank c := by
  unfold one
  split
  · rename_i h
    have hlike : isDigitLike c = true := by simp [isDigitLike, h]
    rw [isBlank_of_isDigitLike hlike]
    rfl
  · rfl

theorem one_eq_self {c : Char} (h : isDecimalDigit c = false) : one c = c := by simp [one, h]

theorem ones_eq_self {t : Text} (h : ∀ c ∈ t, isDecimalDigit c = false) : ones t = t :=
  (List.map_congr_left fun c hc => one_eq_self (h c hc)).trans (List.map_id t)

theorem ones_digits_append {ds : Text} (h : ∀ c ∈ ds, isDecimalDigit c = true) (r : Text) :
    ones (ds ++ r) = List.replicate ds.length '1' ++ ones r := by
  have hone : ∀ c ∈ ds, one c = '1' := fun c hc => by simp [one, h c hc]
  rw [ones, List.map_append, List.map_congr_left hone, List.map_const']
  rfl

/-- Whether all that a reader takes are so many decimal digits. -/
def TakesDigits (k : Nat) (q : Text → List (Nat × Text)) : Prop :=
  ∀ t, ∀ w ∈ q t, ∃ ds, t = ds ++ w.2 ∧ ds.length = k ∧ ∀ c ∈ ds, isDecimalDigit c = true

theorem isDecimalDigit_of_isDigit {c : Char} (h : c.isDigit = true) : isDecimalDigit c = true :=
  List.all_eq_true.1 isDecimalDigit_zero_to_nine c (mem_of_isDigit h)

theorem takesDigits_oneOf {low high : Nat} (h : high ≤ 9) : TakesDigits 1 (oneOf low high) := by
  intro t w hw
  cases t with
  | nil => cases hw
  | cons c r =>
    simp only [oneOf] at hw
    split at hw
    · rename_i hc
      simp at hc
      have hdigit : c.isDigit = true := by
        rw [Char.isDigit_iff_toNat, show '0'.toNat = 48 from rfl, show '9'.toNat = 57 from rfl]
        omega
      rw [List.mem_singleton] at hw
      rw [hw]
      exact ⟨[c], rfl, rfl, by simpa using isDecimalDigit_of_isDigit hdigit⟩
    · cases hw

theorem takesDigits_anyDigit : TakesDigits 1 anyDigit := by
  intro t w hw
  cases t with
  | nil => cases hw
  | cons c r =>
    simp only [anyDigit, List.mem_map, Option.mem_toList] at hw
    obtain ⟨n, hn, rfl⟩ := hw
    exact ⟨[c], rfl, rfl, by simp [isDecimalDigit, hn]⟩

/-- Two readers one after the other take the digits of both. -/
theorem TakesDigits.both {j k : Nat} {p q : Text → List (Nat × Text)} (hp : TakesDigits j p)
    (hq : TakesDigits k q) (f : Nat → Nat → Nat) : TakesDigits (j + k) fun t =>
      (p t).flatMap fun v => (q v.2).map fun u => (f v.1 u.1, u.2) := by
  intro t w hw
  simp only [List.mem_flatMap, List.mem_map] at hw
  obtain ⟨v, hv, u, hu, rfl⟩ := hw
  obtain ⟨ds, ht, hds, hdigits⟩ := hp t v hv
  obtain ⟨es, hr, hes, hdigits'⟩ := hq v.2 u hu
  refine ⟨ds ++ es, by rw [ht, hr, List.append_assoc], by simp [hds, hes], ?_⟩
  exact List.forall_mem_append.2 ⟨hdigits, hdigits'⟩

theorem TakesDigits.pair {j k : Nat} {p q : Text → List (Nat × Text)} (hp : TakesDigits j p)
    (hq : TakesDigits k q) : TakesDigits (j + k) (pair p q) :=
  hp.both hq fun a b => 10 * a + b

theorem takesDigits_fourDigits : TakesDigits 4 fourDigits :=
  (takesDigits_anyDigit.pair takesDigits_anyDigit).both
    (takesDigits_anyDigit.pair takesDigits_anyDigit) fun a b => 100 * a + b

/-- A part that takes ones takes them for the digits that a reader takes. -/
theorem TakesDigits.ones_mem_rests {k : Nat} {q : Text → List (Nat × Text)} (hq : TakesDigits k q)
    {t : Text} {w : Nat × Text} (hw : w ∈ q t) {p : Part}
    (hp : ∀ u, u ∈ p.rests (List.replicate k '1' ++ u)) : ones w.2 ∈ p.rests (ones t) := by
  obtain ⟨ds, ht, hlen, hds⟩ := hq t w hw
  rw [ht, ones_digits_append hds, hlen]
  exact hp _

/-! ## Names, gaps, single characters -/

/-- A digit is no capital letter. -/
theorem toLower_of_isDecimalDigit {c : Char} (h : isDecimalDigit c = true) : c.toLower = c := by
  unfold Char.toLower
  split
  · rename_i hupper
    have hA : 65 ≤ c.toNat := UInt32.le_iff_toNat_le.1 hupper.1
    have hZ : c.toNat ≤ 90 := UInt32.le_iff_toNat_le.1 hupper.2
    have hall : ∀ n : Fin 26, isDecimalDigit (Char.ofNat (65 + n)) = false := by decide
    have hcode := hall ⟨c.toNat - 65, by omega⟩
    rw [show 65 + (c.toNat - 65) = c.toNat by omega, Char.ofNat_toNat, h] at hcode
    cases hcode
  · rfl

theorem ones_mem_name {names : List Text} {t : Text} {w : Nat × Text} (hw : w ∈ name names t)
    (hnames : ∀ n ∈ names, (n.map Char.toLower).any isDecimalDigit = false) :
    ∃ v ∈ name names (ones t), v.2 = ones w.2 := by
  obtain ⟨⟨n, i⟩, hn, hw⟩ := List.mem_filterMap.1 hw
  dsimp only at hw
  split at hw
  · rename_i hlower
    have hmem : n ∈ names := (List.mem_zipIdx hn).2.2 ▸ List.getElem_mem _
    have hfront : ones (t.take n.length) = t.take n.length := by
      refine ones_eq_self fun c hc => Bool.eq_false_iff.2 fun hdigit => ?_
      have hin : c.toLower ∈ n.map Char.toLower := hlower ▸ List.mem_map_of_mem hc
      rw [toLower_of_isDecimalDigit hdigit] at hin
      exact List.any_eq_false.1 (hnames n hmem) c hin hdigit
    refine ⟨(i + 1, (ones t).drop n.length), List.mem_filterMap.2 ⟨(n, i), hn, ?_⟩, ?_⟩
    · have htake : (ones t).take n.length = t.take n.length :=
        List.map_take.symm.trans hfront
      dsimp only
      rw [htake]
      exact if_pos hlower
    · rw [← Option.some.inj hw]
      exact List.map_drop.symm
  · cases hw

theorem gaps_ones (t : Text) : gaps (ones t) = (gaps t).map ones := by
  have hblanks : ((ones t).takeWhile isBlank).length = (t.takeWhile isBlank).length := by
    rw [ones, List.takeWhile_map, List.length_map]
    congr 1
    exact congrArg (List.takeWhile · t) (funext isBlank_one)
  simp only [gaps, hblanks, List.map_map]
  exact List.map_congr_left fun i _ => (List.map_drop ..).symm

theorem not_digit_monthNames : ∀ names ∈ [monthNames, monthNames.map (·.take 3)],
    ∀ n ∈ names, (n.map Char.toLower).any isDecimalDigit = false := by
  decide +kernel

/-- Whether a part is not a digit of its own. -/
def Part.isNoDigit : Part → Bool
  | .just c => !isDecimalDigit c
  | _ => true

/-- A part takes as much of the text of ones. -/
theorem Part.ones_mem_rests {p : Part} (hp : p.isNoDigit = true) {t r : Text}
    (h : r ∈ p.rests t) : ones r ∈ p.rests (ones t) := by
  have hone := fun low {high} h => @takesDigits_oneOf low high h
  have hany := takesDigits_anyDigit
  have hdigit : digitValue? '1' = some 1 := by decide
  cases p with
  | year =>
    simp only [rests, ways, List.map_map, List.mem_map] at h
    obtain ⟨w, hw, rfl⟩ := h
    exact takesDigits_fourDigits.ones_mem_rests hw fun u => List.mem_singleton_self u
  | month =>
    have htwo : ∀ u, u ∈ Part.month.rests ('1' :: '1' :: u) := fun u => List.mem_cons_self
    have hsingle : ∀ u, u ∈ Part.month.rests ('1' :: u) := fun u => by simp [rests, ways, oneOf]
    simp only [rests, ways, List.map_map, List.mem_map, List.mem_append] at h
    obtain ⟨w, (hw | hw) | hw, rfl⟩ := h
    · exact ((hone 1 (by decide)).pair (hone 0 (by decide))).ones_mem_rests hw htwo
    · exact ((hone 0 (by decide)).pair (hone 1 (by decide))).ones_mem_rests hw htwo
    · exact (hone 1 (by decide)).ones_mem_rests hw hsingle
  | day =>
    have htwo : ∀ u, u ∈ Part.day.rests ('1' :: '1' :: u) := fun u => List.mem_cons_self
    have hsingle : ∀ u, u ∈ Part.day.rests ('1' :: u) := fun u => by simp [rests, ways, oneOf]
    simp only [rests, ways, List.map_map, List.mem_map, List.mem_append] at h
    obtain ⟨w, (((hw | hw) | hw) | hw) | hw, rfl⟩ := h
    · exact ((hone 3 (by decide)).pair (hone 0 (by decide))).ones_mem_rests hw htwo
    · exact ((hone 1 (by decide)).pair hany).ones_mem_rests hw htwo
    · exact ((hone 0 (by decide)).pair (hone 1 (by decide))).ones_mem_rests hw htwo
    · exact (hone 1 (by decide)).ones_mem_rests hw hsingle
    · obtain ⟨u, hu, hw⟩ := List.mem_flatMap.1 hw
      rw [Text.eq_append_of_dropStart? (Option.mem_toList.1 hu)]
      obtain ⟨ds, rfl, hlen, hds⟩ := hone 1 (by decide) u w hw
      have hblank : ones ([' '] ++ (ds ++ w.2)) = ' ' :: '1' :: ones w.2 := by
        rw [List.singleton_append, ones, List.map_cons, ← ones, ones_digits_append hds, hlen]
        rfl
      rw [hblank]
      simp [rests, ways, oneOf, pair, anyDigit, Text.dropStart?]
  | hour =>
    have htwo : ∀ u, u ∈ Part.hour.rests ('1' :: '1' :: u) := fun u => List.mem_cons_self
    have hsingle : ∀ u, u ∈ Part.hour.rests ('1' :: u) := fun u => by
      simp [rests, ways, anyDigit, hdigit]
    simp only [rests, ways, List.map_map, List.mem_map, List.mem_append] at h
    obtain ⟨w, (hw | hw) | hw, rfl⟩ := h
    · exact ((hone 2 (by decide)).pair (hone 0 (by decide))).ones_mem_rests hw htwo
    · exact ((hone 0 (by decide)).pair hany).ones_mem_rests hw htwo
    · exact hany.ones_mem_rests hw hsingle
  | minute =>
    have htwo : ∀ u, u ∈ Part.minute.rests ('1' :: '1' :: u) := fun u => List.mem_cons_self
    have hsingle : ∀ u, u ∈ Part.minute.rests ('1' :: u) := fun u => by
      simp [rests, ways, anyDigit, hdigit]
    simp only [rests, ways, List.map_map, List.mem_map, List.mem_append] at h
    obtain ⟨w, hw | hw, rfl⟩ := h
    · exact ((hone 0 (by decide)).pair hany).ones_mem_rests hw htwo
    · exact hany.ones_mem_rests hw hsingle
  | second =>
    have htwo : ∀ u, u ∈ Part.second.rests ('1' :: '1' :: u) := fun u => List.mem_cons_self
    have hsingle : ∀ u, u ∈ Part.second.rests ('1' :: u) := fun u => by
      simp [rests, ways, anyDigit, hdigit]
    simp only [rests, ways, List.map_map, List.mem_map, List.mem_append] at h
    obtain ⟨w, (hw | hw) | hw, rfl⟩ := h
    · exact ((hone 6 (by decide)).pair (hone 0 (by decide))).ones_mem_rests hw htwo
    · exact ((hone 0 (by decide)).pair hany).ones_mem_rests hw htwo
    · exact hany.ones_mem_rests hw hsingle
  | monthName =>
    simp only [rests, ways, List.map_map, List.mem_map] at h ⊢
    obtain ⟨w, hw, rfl⟩ := h
    exact ones_mem_name hw (not_digit_monthNames _ (by simp))
  | monthAbbr =>
    simp only [rests, ways, List.map_map, List.mem_map] at h ⊢
    obtain ⟨w, hw, rfl⟩ := h
    exact ones_mem_name hw (not_digit_monthNames _ (by simp))
  | gap =>
    simp only [rests, ways, List.map_map, List.mem_map] at h ⊢
    obtain ⟨u, hu, rfl⟩ := h
    exact ⟨ones u, gaps_ones t ▸ List.mem_map_of_mem hu, rfl⟩
  | just c =>
    simp only [rests, ways, List.map_map, List.mem_map] at h ⊢
    obtain ⟨u, hu, rfl⟩ := h
    rw [Text.eq_append_of_dropStart? (Option.mem_toList.1 hu), List.singleton_append, ones,
      List.map_cons, one_eq_self (Bool.not_eq_true' _ ▸ hp)]
    exact ⟨ones u, Option.mem_toList.2 (Text.dropStart?_append [c] _), rfl⟩

/-! ## Whole shapes -/

/-- What parts leave of a text they also leave, in ones, of the text of ones. -/
theorem ones_mem_reach {ps : List Part} (hps : ∀ p ∈ ps, p.isNoDigit = true) {t u : Text}
    (h : u ∈ reach ps t) : ones u ∈ reach ps (ones t) := by
  induction ps generalizing t with
  | nil => exact List.mem_singleton.2 (congrArg ones (List.mem_singleton.1 h))
  | cons p ps ih =>
    obtain ⟨hp, hps⟩ := List.forall_mem_cons.1 hps
    obtain ⟨r, hr, hu⟩ := List.mem_flatMap.1 h
    exact List.mem_flatMap.2 ⟨ones r, p.ones_mem_rests hp hr, ih hps hu⟩

theorem isNoDigit_of_mem_accepted : ∀ shape ∈ accepted, ∀ p ∈ shape, p.isNoDigit = true := by
  decide

/-- A text of an accepted shape is of that shape, its numbers apart, in ones. -/
theorem reach_ones_of_read? {shape : List Part} (hshape : shape ∈ accepted) {t : Text} {m : Moment}
    (h : read? shape t = some m) : [] ∈ reach shape (ones t) :=
  ones_mem_reach (isNoDigit_of_mem_accepted shape hshape) (nil_mem_reach_of_read? h)

end MailMerge.Shape
