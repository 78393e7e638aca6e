import Mathlib.Data.List.TakeWhile
import MailMerge.Calendar.IsoText
import MailMerge.Proofs.Calendar.Written
/-!
# The forms of ISO 8601

What is written with dashes in the order of year, month and day, alone or before hours and minutes
or hours, minutes and seconds, is read as the form of ISO 8601 that it is (`moment?_dashed`). What
is read as any form of ISO 8601 begins with four digits that a dash, the letter of weeks or a
further digit follows (`date?_beginning`).
-/
namespace MailMerge.IsoText

/-! ## Numbers -/

theorem digitChar_ne_week {n : Nat} (h : n < 10) : Nat.digitChar n ≠ 'W' := by
  have hall : ∀ n : Fin 10, Nat.digitChar n ≠ 'W' := by decide
  exact hall ⟨n, h⟩

theorem utf8Size_of_isDigit {c : Char} (h : c.isDigit = true) : c.utf8Size = 1 := by
  have hall : ∀ c ∈ "0123456789".toList, c.utf8Size = 1 := forall_mem_of_all (by decide)
  exact hall c (mem_of_isDigit h)

theorem spread_eq_self {t : Text} (h : ∀ c ∈ t, c.utf8Size = 1) : spread t = t := by
  induction t with
  | nil => rfl
  | cons c t ih =>
    obtain ⟨hc, ht⟩ := List.forall_mem_cons.1 h
    rw [spread, List.flatMap_cons, hc, ← spread, ih ht]
    rfl

theorem digits?_append {n : Nat} {ds : Text} (hlen : ds.length = n)
    (h : ∀ c ∈ ds, c.isDigit = true) (r : Text) :
    digits? n (ds ++ r) = some (Nat.ofDigitChars 10 ds 0, r) := by
  subst hlen
  rw [digits?, List.take_left, List.drop_left, List.all_eq_true.2 h]
  simp

theorem digits?_two {n : Nat} (h : n < 100) (r : Text) :
    digits? 2 (Text.ofNatPadded 2 n ++ r) = some (n, r) := by
  have hdigits : ∀ c ∈ Text.ofNatPadded 2 n, c.isDigit = true :=
    fun c hc => isDigit_of_mem_ofNatPadded hc
  rw [digits?_append (length_ofNatPadded_two h) hdigits, ofDigitChars_ofNatPadded]

theorem digits?_four {n : Nat} (h : 1000 ≤ n ∧ n < 10000) (r : Text) :
    digits? 4 (Text.ofNat n ++ r) = some (n, r) := by
  have hlen : (Text.ofNat n).length = 4 := by
    rw [ofNat_four h]
    rfl
  have hdigits : ∀ c ∈ Text.ofNat n, c.isDigit = true :=
    fun c hc => Nat.isDigit_of_mem_toDigits (by decide) (by decide) hc
  rw [digits?_append hlen hdigits, Text.ofNat, Nat.ofDigitChars_ten_toDigits]

/-! ## Times -/

theorem fields?_last {n : Nat} (h : n < 100) (more : Nat) (colons : Bool) {here : Nat}
    (hhere : here ≤ 3) :
    fields? (more + 1) colons here (Text.ofNatPadded 2 n) = some ([n], 0, false) := by
  have hdigits := digits?_two h []
  rw [List.append_nil] at hdigits
  simp [fields?, hdigits, hhere, goesOn]

theorem fields?_colon {n : Nat} (h : n < 100) {more : Nat} {colons : Bool}
    (hcolons : more = 2 ∨ colons = true) {here : Nat} (hhere : 3 < here) (r : Text) :
    fields? (more + 1) colons here (Text.ofNatPadded 2 n ++ ':' :: r) =
      (fields? more true (here - 3) r).map fun w => (n :: w.1, w.2.1, w.2.2) := by
  have hflag : (if more = 2 then (':' :: r).head? == some ':' else colons) = true := by
    split
    · rfl
    · exact hcolons.resolve_left ‹_›
  rw [fields?, digits?_two h]
  simp only [Option.bind_eq_bind, Option.bind_some, hflag]
  rw [if_neg (by omega)]
  simp
  cases fields? more true (here - 3) r <;> rfl

/-- A time without a distance from universal time. -/
theorem clock?_of_fields? {t : Text} {vs : List Nat} {c : ClockTime}
    (ht : ∀ c ∈ t, startsOffset c = false)
    (hfields : fields? 3 true t.length t = some (vs, 0, false))
    (hc : ClockTime.of? (vs.getD 0 0) (vs.getD 1 0) (vs.getD 2 0) 0 = some c) :
    clock? t = some (c, none) := by
  have hfront : t.takeWhile (!startsOffset ·) = t :=
    List.takeWhile_eq_self_iff.2 fun c hc => by rw [ht c hc]; rfl
  have hback : t.dropWhile (!startsOffset ·) = [] :=
    List.dropWhile_eq_nil_iff.2 fun c hc => by rw [ht c hc]; rfl
  rw [clock?, hfront, hback, time?, hfields]
  simp only [Option.map_some, Option.bind_eq_bind, Option.bind_some, hc]
  rfl

theorem startsOffset_ofNatPadded {n : Nat} {c : Char} (h : c ∈ Text.ofNatPadded 2 n) :
    startsOffset c = false := by
  have hall : ∀ c ∈ "0123456789".toList, startsOffset c = false := forall_mem_of_all (by decide)
  exact hall c (mem_of_isDigit (isDigit_of_mem_ofNatPadded h))

section
variable {c : ClockTime} (hwhole : c.microsecond = 0)
include hwhole

theorem clock?_minutes (hsecond : c.second = 0) :
    clock? (Text.ofNatPadded 2 c.hour ++ ':' :: Text.ofNatPadded 2 c.minute) = some (c, none) := by
  obtain ⟨hh, hm, -, -⟩ := c.isTime
  have hhour := length_ofNatPadded_two (show c.hour < 100 by omega)
  have hminute := length_ofNatPadded_two (show c.minute < 100 by omega)
  refine @clock?_of_fields? _ [c.hour, c.minute] c ?_ ?_ ?_
  · intro d hd
    simp only [List.mem_append, List.mem_cons] at hd
    rcases hd with hd | rfl | hd
    · exact startsOffset_ofNatPadded hd
    · rfl
    · exact startsOffset_ofNatPadded hd
  · rw [fields?_colon (by omega) (Or.inl rfl) (by simp; omega),
      fields?_last (by omega) _ _ (by simp; omega)]
    rfl
  · have hself := c.of?_self hwhole
    rwa [hsecond] at hself

theorem clock?_seconds : clock? (Text.ofNatPadded 2 c.hour ++ ':' ::
    (Text.ofNatPadded 2 c.minute ++ ':' :: Text.ofNatPadded 2 c.second)) = some (c, none) := by
  obtain ⟨hh, hm, hs, -⟩ := c.isTime
  have hhour := length_ofNatPadded_two (show c.hour < 100 by omega)
  have hminute := length_ofNatPadded_two (show c.minute < 100 by omega)
  have hsecond := length_ofNatPadded_two (show c.second < 100 by omega)
  refine @clock?_of_fields? _ [c.hour, c.minute, c.second] c ?_ ?_ (c.of?_self hwhole)
  · intro d hd
    simp only [List.mem_append, List.mem_cons] at hd
    rcases hd with hd | rfl | hd | rfl | hd
    · exact startsOffset_ofNatPadded hd
    · rfl
    · exact startsOffset_ofNatPadded hd
    · rfl
    · exact startsOffset_ofNatPadded hd
  · rw [fields?_colon (by omega) (Or.inl rfl) (by simp; omega),
      fields?_colon (by omega) (Or.inr rfl) (by simp; omega),
      fields?_last (by omega) _ _ (by simp; omega)]
    rfl

end

/-! ## Dates -/

/-- Year, month and day with dashes between them. -/
def dashed (d : Date) : Text :=
  Text.ofNat d.year ++ '-' :: (Text.ofNatPadded 2 d.month ++ '-' :: Text.ofNatPadded 2 d.day)

theorem utf8Size_dashed (d : Date) : ∀ c ∈ dashed d, c.utf8Size = 1 := by
  intro c hc
  simp only [dashed, List.mem_append, List.mem_cons] at hc
  rcases hc with hc | rfl | hc | rfl | hc
  · exact utf8Size_of_isDigit (Nat.isDigit_of_mem_toDigits (by decide) (by decide) hc)
  · rfl
  · exact utf8Size_of_isDigit (isDigit_of_mem_ofNatPadded hc)
  · rfl
  · exact utf8Size_of_isDigit (isDigit_of_mem_ofNatPadded hc)

section
variable {d : Date} (h : 1000 ≤ d.year) (r : Text)
include h

theorem dashed_eq : dashed d =
    [Nat.digitChar (d.year / 1000), Nat.digitChar (d.year / 100 % 10),
      Nat.digitChar (d.year / 10 % 10), Nat.digitChar (d.year % 10), '-',
      Nat.digitChar (d.month / 10), Nat.digitChar (d.month % 10), '-',
      Nat.digitChar (d.day / 10), Nat.digitChar (d.day % 10)] := by
  obtain ⟨-, hyear, -, hmonth, -, -⟩ := d.isDate
  have hday := Date.day_le d
  rw [dashed, ofNat_four ⟨h, by omega⟩, ofNatPadded_two (by omega), ofNatPadded_two (by omega)]
  rfl

theorem length_dashed : (dashed d).length = 10 := by
  rw [dashed_eq h]
  rfl

theorem separatorPlace_dashed : separatorPlace (dashed d ++ r) = 10 := by
  obtain ⟨-, -, -, hmonth, -, -⟩ := d.isDate
  have hmark : Nat.digitChar (d.month / 10) ≠ 'W' := digitChar_ne_week (by omega)
  rw [dashed_eq h]
  simp [separatorPlace, hmark]

theorem date?_dashed (place : Nat) : date? place (dashed d ++ r) = some d := by
  obtain ⟨-, hyear, -, hmonth, -, -⟩ := d.isDate
  have hday := Date.day_le d
  have hhead : (Text.ofNatPadded 2 d.month ++ '-' :: (Text.ofNatPadded 2 d.day ++ r)).head? ≠
      some 'W' := by
    rw [ofNatPadded_two (by omega)]
    exact fun he => digitChar_ne_week (by omega) (Option.some.inj he)
  have hdate : Date.of? d.year d.month d.day = some d := Date.of?_eq_some_iff.2 ⟨rfl, rfl, rfl⟩
  simp only [dashed, List.append_assoc, List.cons_append, date?, Option.bind_eq_bind]
  rw [digits?_four ⟨h, by omega⟩]
  simp only [Option.bind_some, List.head?_cons, List.tail_cons]
  simp only [if_true, decide_true]
  rw [if_neg hhead, digits?_two (by omega)]
  simp [digits?_two (show d.day < 100 by omega), hdate]

/-- A date with dashes names the beginning of its day. -/
theorem moment?_dashed : moment? (dashed d) = some (.ofDate d) := by
  have hplace := separatorPlace_dashed h []
  have hdate := date?_dashed h [] 10
  rw [List.append_nil] at hplace hdate
  have hend : (dashed d).drop 10 = [] := List.drop_of_length_le (Nat.le_of_eq (length_dashed h))
  simp [moment?, spread_eq_self (utf8Size_dashed d), hplace, hdate, hend]

/-- A date with dashes, and a time that follows it after a blank. -/
theorem moment?_dashed_clock {t : Text} (ht : ∀ c ∈ t, c.utf8Size = 1) {c : ClockTime}
    (hc : clock? t = some (c, none)) : moment? (dashed d ++ ' ' :: t) =
      some { date := d, time := c, offset := none } := by
  have hspace : ' '.utf8Size = 1 := rfl
  have hascii : ∀ c ∈ dashed d ++ ' ' :: t, c.utf8Size = 1 :=
    List.forall_mem_append.2 ⟨utf8Size_dashed d, List.forall_mem_cons.2 ⟨hspace, ht⟩⟩
  simp [moment?, spread_eq_self hascii, separatorPlace_dashed h, date?_dashed h,
    List.drop_left' (length_dashed h), hspace, hc]

end

/-! ## Beginnings -/

theorem digits?_eq_some {n v : Nat} {t r : Text} (h : digits? n t = some (v, r)) :
    ∃ ds, t = ds ++ r ∧ ds.length = n ∧ ∀ c ∈ ds, c.isDigit = true := by
  simp only [digits?] at h
  split at h
  · rename_i hds
    rw [Bool.and_eq_true, decide_eq_true_eq, List.all_eq_true] at hds
    cases h
    exact ⟨t.take n, (List.take_append_drop n t).symm, hds⟩
  · cases h

/-- What is read as a date begins with four digits and goes on with a dash, the letter of weeks or
a digit. -/
theorem date?_beginning {place : Nat} {t : Text} {d : Date} (h : date? place t = some d) :
    ∃ ds c r, t = ds ++ c :: r ∧ ds.length = 4 ∧ (∀ e ∈ ds, e.isDigit = true) ∧
      (c = '-' ∨ c = 'W' ∨ c.isDigit = true) := by
  obtain ⟨w, hyear, h⟩ := Option.bind_eq_some_iff.1 h
  obtain ⟨ds, rfl, hlen, hds⟩ := digits?_eq_some hyear
  refine ⟨ds, ?_⟩
  cases hw : w.2 with
  | nil => simp [hw, digits?] at h
  | cons c r =>
    refine ⟨c, r, rfl, hlen, hds, ?_⟩
    by_cases hdash : c = '-'
    · exact Or.inl hdash
    by_cases hweek : c = 'W'
    · exact Or.inr (Or.inl hweek)
    simp [hw, hdash, hweek, Option.bind_eq_some_iff] at h
    obtain ⟨month, u, hmonth, -⟩ := h
    obtain ⟨es, hes, hlen, hdigits⟩ := digits?_eq_some hmonth
    obtain ⟨e, es, rfl⟩ := List.exists_cons_of_length_eq_add_one hlen
    exact Or.inr (Or.inr ((List.cons.inj hes).1 ▸ hdigits e List.mem_cons_self))

end MailMerge.IsoText
