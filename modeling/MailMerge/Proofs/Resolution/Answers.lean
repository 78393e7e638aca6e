import MailMerge.Proofs.Calendar.Faults
import MailMerge.Proofs.Resolution.Texts
import MailMerge.Proofs.Resolution.Written
/-!
# Which placeholders get a text

A placeholder that stands for text gets one, whatever the data hold, but for the cases of
`Obstructed`: a whole number of more than 4300 digits that is to be written or read, and the two
ends of the calendar. Money, numbers in words and fields of the site always get a text.

* `text?_answers`: a placeholder gets a text just when nothing obstructs it.
* `text?_tomorrow`: the day after the last one is asked for, and there is no text.
-/
namespace MailMerge

/-! ## Addresses -/

namespace Address

/-- The names of the parts of an address that are always looked at. -/
def partNames : List String :=
  ["alamat", "kecamatan", "kabupaten", "provinsi", "kode_pos", "separator"]

theorem part?_eq_none_iff (m : List (Text × Value)) (name : String) :
    part? m name = none ↔ ∃ v, Table.get? m name.toList = some v ∧ v.HoldsLong := by
  unfold part?
  cases Table.get? m name.toList with
  | none => simp
  | some v =>
    cases v with
    | null => simpa using fun h => nomatch h
    | _ => simp [Value.plain?_eq_none_iff]

theorem mapM_plain?_texts {l : List Value} (h : ∀ v ∈ l, ∃ t, v = .text t) :
    ∃ ts, l.mapM Value.plain? = some ts := by
  induction l with
  | nil => exact ⟨[], rfl⟩
  | cons v l ih =>
    obtain ⟨t, rfl⟩ := h v (List.mem_cons_self ..)
    obtain ⟨ts, hts⟩ := ih fun w hw => h w (List.mem_cons_of_mem _ hw)
    exact ⟨t :: ts, by simp [List.mapM_cons, Value.plain?, hts]⟩

/-- An address of texts can be written. -/
theorem line?_texts (sep a b c d e : Text) :
    ∃ t, line? sep ⟨.text a, .text b, .text c, .text d, .text e⟩ = some t := by
  have hparts : ∀ marked, ∃ ts, ([Value.text a, .text marked, .text c, .text d, .text e].filter
      Value.isPresent).mapM Value.plain? = some ts := by
    refine fun marked => mapM_plain?_texts fun v hv => ?_
    have hv := (List.mem_filter.1 hv).1
    simp only [List.mem_cons, List.not_mem_nil, or_false] at hv
    rcases hv with rfl | rfl | rfl | rfl | rfl <;> exact ⟨_, rfl⟩
  unfold line? parts?
  dsimp only
  split
  · obtain ⟨ts, hts⟩ := hparts (districtMark ++ b)
    exact ⟨Text.join sep ts, by simp [Value.plain?, hts]⟩
  · obtain ⟨ts, hts⟩ := hparts []
    exact ⟨Text.join sep ts, by simp [hts]⟩

theorem line?_parts_eq_none_iff (sep street : Text) (b c d e own : Option Text) :
    (do
      let district ← b
      let regency ← c
      let province ← d
      let postcode ← e
      let own ← own
      line? (orElse own sep)
        ⟨.text street, .text district, .text regency, .text province, .text postcode⟩) = none ↔
      b = none ∨ c = none ∨ d = none ∨ e = none ∨ own = none := by
  cases b with
  | none => simp
  | some b =>
  cases c with
  | none => simp
  | some c =>
  cases d with
  | none => simp
  | some d =>
  cases e with
  | none => simp
  | some e =>
  cases own with
  | none => simp
  | some own =>
    obtain ⟨t, ht⟩ := line?_texts (orElse own sep) street b c d e
    simp [ht]

theorem lineOfMap?_eq_none_iff (sep : Text) (m : List (Text × Value)) :
    lineOfMap? sep m = none ↔ (∃ name ∈ partNames, part? m name = none) ∨
      part? m "alamat" = some [] ∧ part? m "street" = none := by
  simp only [partNames, List.mem_cons, List.not_mem_nil, or_false, exists_eq_or_imp,
    exists_eq_left]
  unfold lineOfMap?
  have hrest := fun street => line?_parts_eq_none_iff sep street (part? m "kecamatan")
    (part? m "kabupaten") (part? m "provinsi") (part? m "kode_pos") (part? m "separator")
  cases part? m "alamat" with
  | none => simp
  | some street =>
    cases street with
    | cons c r => simpa using hrest (c :: r)
    | nil =>
      cases part? m "street" with
      | none => simp
      | some street => simpa using hrest street

end Address

/-! ## Inline expressions -/

theorem Value.moment?_text_error_iff (now : Moment) (t : Text) :
    (∃ f, Value.moment? now (.text t) = .error f) ↔ DateReading.NamesNoDay now t := by
  rw [← DateReading.ofText_eq_outOfCalendar_iff, Value.moment?]
  cases DateReading.ofText now t <;> simp

theorem localDate_error_iff {z : Zone} {fmt : Text} {x : Moment} {f : DateFault} :
    localDate z fmt x = .error f ↔ z.place x = .error f ∧ DateFormat.AsksOffset fmt := by
  rw [← DateFormat.render_error_iff, localDate]
  cases DateFormat.render z x fmt <;> simp [Except.map]

/-- Whether the calendar ends before a text is put into words as a date: the text is the word for a
day that is not in the calendar, or the format asks for the place in universal time of a moment
whose place is not. -/
inductive LeavesCalendar (z : Zone) (now : Moment) (fmt t : Text) : Prop
  | noDay (names : DateReading.NamesNoDay now t)
  | noPlace {x : Moment} (names : DateReading.ofText now t = .moment x)
      (lost : z.place x = .error .outOfCalendar) (asks : DateFormat.AsksOffset fmt)

theorem dateInWords_outOfCalendar_iff (z : Zone) (now : Moment) (fmt t : Text) :
    dateInWords z now fmt (.text t) = .error .outOfCalendar ↔ LeavesCalendar z now fmt t := by
  have hcases : LeavesCalendar z now fmt t ↔ DateReading.NamesNoDay now t ∨
      ∃ x, DateReading.ofText now t = .moment x ∧ z.place x = .error .outOfCalendar ∧
        DateFormat.AsksOffset fmt := by
    constructor
    · rintro (h | ⟨hx, hlost, hasks⟩)
      · exact .inl h
      · exact .inr ⟨_, hx, hlost, hasks⟩
    · rintro (h | ⟨x, hx, hlost, hasks⟩)
      · exact .noDay h
      · exact .noPlace hx hlost hasks
  rw [hcases, ← DateReading.ofText_eq_outOfCalendar_iff]
  unfold dateInWords Value.moment?
  cases hr : DateReading.ofText now t with
  | unreadable => simp [hr, bind, Except.bind, pure, Except.pure]
  | outOfCalendar => simp [hr, bind, Except.bind]
  | moment x => simpa [hr, bind, Except.bind] using localDate_error_iff

namespace InlineField

/-- The format in which an inline expression puts a date. -/
def dateFormat (f : InlineField) : Text := Address.orElse (f.options.getD []) usualDateFormat

/-- Only a date that leaves the calendar keeps an inline expression from being evaluated. -/
theorem evaluate_error_iff (z : Zone) (now : Moment) (f : InlineField) :
    (∃ e, f.evaluate z now = .error e) ↔
      f.type = "tanggal".toList ∧ LeavesCalendar z now f.dateFormat f.value := by
  by_cases htype : f.type = "tanggal".toList
  · have hmoney : f.type ≠ "money".toList := by rw [htype]; decide
    have hspell : f.type ≠ "terbilang".toList := by rw [htype]; decide
    rw [evaluate, if_neg hmoney, if_neg hspell, if_pos htype,
      ← dateInWords_outOfCalendar_iff, dateFormat]
    cases dateInWords z now (Address.orElse (f.options.getD []) usualDateFormat) (.text f.value) with
    | ok t => simp [htype]
    | error e => cases e <;> simp [htype]
  · refine iff_of_false ?_ fun h => htype h.1
    rintro ⟨e, he⟩
    rw [evaluate, if_neg htype] at he
    dsimp only at he
    repeat' split at he
    all_goals cases he

end InlineField

theorem evaluateInline_error_iff (z : Zone) (now : Moment) (t : Text) :
    (∃ e, evaluateInline z now t = .error e) ↔ ∃ f, InlineField.find? t = some f ∧
      f.type = "tanggal".toList ∧ LeavesCalendar z now f.dateFormat f.value := by
  unfold evaluateInline
  cases InlineField.find? t with
  | none => simp
  | some f => simpa using InlineField.evaluate_error_iff z now f

/-! ## Placeholders -/

namespace Noted

/-- Whether a fault kept a text from being made. -/
def Fails (n : Noted) : Prop := ∃ f, n.result = .error f

@[simp] theorem not_fails_plain (t : Text) : ¬ (plain t).Fails := fun ⟨_, h⟩ => by cases h

@[simp] theorem not_fails_empty (event : String) : ¬ (empty event).Fails :=
  fun ⟨_, h⟩ => by cases h

/-- An amount that cannot be written is noted. -/
@[simp] theorem not_fails_ofAmount (event : String) (r : Except AmountError Text) :
    ¬ (ofAmount event r).Fails := by
  cases r with
  | ok t => exact not_fails_plain t
  | error e => exact not_fails_empty event

theorem fails_ofWritten_iff (t : Option Text) : (ofWritten t).Fails ↔ t = none := by
  cases t with
  | none => exact iff_of_true ⟨_, rfl⟩ rfl
  | some t => exact iff_of_false (not_fails_plain t) (by simp)

theorem fails_mapError_iff {e : Except DateFault Text} {log : List Event} :
    (Noted.mk (e.mapError .ofDate) log).Fails ↔ ∃ f, e = .error f := by
  cases e with
  | error f => exact iff_of_true ⟨.ofDate f, rfl⟩ ⟨f, rfl⟩
  | ok t => exact iff_of_false nofun nofun

theorem answers_iff (n : Noted) : (∃ t, n.result = .ok t) ↔ ¬ n.Fails := by
  unfold Fails
  cases n.result <;> simp

end Noted

namespace Resolution

/-- The date that a placeholder asks for, and the format. -/
def dateAsked (env : Environment) (m : DataMap) (d : Descriptor) : Value × Text :=
  let own := env.settings.dateFormat
  let (key, fmt) := match d.arg? 0, d.arg? 1 with
    | some t, none => if !Table.has m t && isFormat t then (none, t) else (some t, own)
    | key, none => (key, own)
    | key, some fmt => (key, fmt)
  ((key.bind (Table.get? m)).getD (.moment env.now), fmt)

theorem date_eq (env : Environment) (m : DataMap) (d : Descriptor) :
    date env m d = dateOf env.zone env.now (dateAsked env m d).2 (dateAsked env m d).1 := rfl

/-- What keeps a date from being put into words: the value cannot even be quoted in the note, it is
the word for a day that the calendar does not have, or the format asks for the place in universal
time of a moment that has none. -/
inductive Undatable (z : Zone) (now : Moment) (fmt : Text) : Value → Prop
  | unwritten {v : Value} (long : v.HoldsLong) : Undatable z now fmt v
  | noDay {t : Text} (names : DateReading.NamesNoDay now t) : Undatable z now fmt (.text t)
  | noPlace {v : Value} {x : Moment} {f : DateFault} (names : v.moment? now = .ok (some x))
      (lost : z.place x = .error f) (asks : DateFormat.AsksOffset fmt) : Undatable z now fmt v

theorem dateOf_fails_iff (z : Zone) (now : Moment) (fmt : Text) (v : Value) :
    (dateOf z now fmt v).Fails ↔ Undatable z now fmt v := by
  have hnone : v.HoldsLong → v.moment? now = .ok none := fun h => by cases h <;> rfl
  cases hm : v.moment? now with
  | error f =>
    refine iff_of_true ⟨_, by rw [dateOf, hm]⟩ ?_
    cases v with
    | text t => exact .noDay ((Value.moment?_text_error_iff now t).1 ⟨f, hm⟩)
    | _ => cases hm
  | ok x =>
    have hday : ∀ t, v = .text t → ¬ DateReading.NamesNoDay now t := by
      rintro t rfl h
      obtain ⟨f, hf⟩ := (Value.moment?_text_error_iff now t).2 h
      rw [hm] at hf
      cases hf
    cases x with
    | none =>
      have hshown : (dateOf z now fmt v).Fails ↔ v.shown? = none := by
        rw [dateOf, hm]
        cases hs : v.shown? with
        | none => exact iff_of_true ⟨_, rfl⟩ rfl
        | some t => exact iff_of_false (Noted.not_fails_empty _) (by simp)
      rw [hshown, Value.shown?_eq_none_iff]
      refine ⟨.unwritten, ?_⟩
      rintro (h | h | h)
      · exact h
      · exact absurd h (hday _ rfl)
      · rw [hm] at h
        cases h
    | some x =>
      have hlocal : (dateOf z now fmt v).Fails ↔ ∃ f, localDate z fmt x = .error f := by
        rw [dateOf, hm]
        exact Noted.fails_mapError_iff
      simp only [hlocal, localDate_error_iff]
      constructor
      · rintro ⟨f, hlost, hasks⟩
        exact .noPlace hm hlost hasks
      · rintro (h | h | ⟨hx, hlost, hasks⟩)
        · rw [hnone h] at hm
          cases hm
        · exact absurd h (hday _ rfl)
        · rw [hm] at hx
          cases hx
          exact ⟨_, hlost, hasks⟩

/-- Whether a field of the user is one that only the host knows and that may be shown. -/
def IsExtra (field : Text) : Prop :=
  field ∉ ["name", "display_name", "email", "role", "roles"].map String.toList ∧
    field ∉ hiddenFields ∧ field.isName = true

/-- The tests on the field of a user are, in other words, that it is an extra one. -/
theorem isExtra_iff (field : Text) : IsExtra field ↔
    ¬ (decide (field = "name".toList) || decide (field = "display_name".toList)) = true ∧
      field ≠ "email".toList ∧ field ≠ "role".toList ∧
      ¬ (!field.isName || decide (field ∈ hiddenFields) || decide (field = "roles".toList)) =
        true := by
  simp only [IsExtra, List.map_cons, List.map_nil, List.mem_cons, List.not_mem_nil, or_false,
    not_or, Bool.or_eq_true, decide_eq_true_eq, Bool.not_eq_true', Bool.not_eq_false]
  constructor
  · rintro ⟨⟨h1, h2, h3, h4, h5⟩, h6, h7⟩
    exact ⟨⟨h1, h2⟩, h3, h4, ⟨h7, h6⟩, h5⟩
  · rintro ⟨⟨h1, h2⟩, h3, h4, ⟨h7, h6⟩, h5⟩
    exact ⟨⟨h1, h2, h3, h4, h5⟩, h6, h7⟩

theorem user_of_extra {env : Environment} {d : Descriptor} {field : Text}
    (ha : d.arg? 0 = some field) (h : IsExtra field) :
    user env d = match Table.get? env.user.extras field with
      | some v => Noted.ofWritten v.textual?
      | none => Noted.plain [] := by
  obtain ⟨hname, hemail, hrole, hshown⟩ := (isExtra_iff field).1 h
  unfold user
  simp only [ha, Option.getD_some]
  rw [if_neg hname, if_neg hemail, if_neg hrole]
  exact if_neg hshown

theorem user_of_not_extra {env : Environment} {d : Descriptor}
    (h : ∀ field, d.arg? 0 = some field → ¬ IsExtra field) : ¬ (user env d).Fails := by
  unfold user
  cases ha : d.arg? 0 with
  | none => simp [Text.isName]
  | some field =>
    have hextra := mt (isExtra_iff field).2 (h field ha)
    simp only [Option.getD_some]
    split
    · exact Noted.not_fails_plain _
    split
    · exact Noted.not_fails_plain _
    split
    · exact Noted.not_fails_plain _
    split
    · exact Noted.not_fails_plain _
    · rename_i hname hemail hrole hshown
      exact absurd ⟨hname, hemail, hrole, hshown⟩ hextra

theorem user_fails_iff (env : Environment) (d : Descriptor) :
    (user env d).Fails ↔ ∃ field v, d.arg? 0 = some field ∧ IsExtra field ∧
      Table.get? env.user.extras field = some v ∧ v.IsLong := by
  constructor
  · intro hfails
    refine Classical.byContradiction fun hno => user_of_not_extra (fun field ha hextra => ?_) hfails
    rw [user_of_extra ha hextra] at hfails
    cases hv : Table.get? env.user.extras field with
    | none => simp [hv] at hfails
    | some v =>
      simp only [hv, Noted.fails_ofWritten_iff, Value.textual?_eq_none_iff] at hfails
      exact hno ⟨field, v, ha, hextra, hv, hfails⟩
  · rintro ⟨field, v, ha, hextra, hv, hlong⟩
    rw [user_of_extra ha hextra, hv]
    exact (Noted.fails_ofWritten_iff _).2 ((Value.textual?_eq_none_iff v).2 hlong)

theorem number_fails_iff (m : DataMap) (d : Descriptor) :
    (number m d).Fails ↔
      ∃ t n, d.arg? 1 = some t ∧ Placeholder.readNumber t = .tooLong n := by
  unfold number wholeField
  cases d.arg? 1 with
  | none => simp
  | some t =>
    cases hr : Placeholder.readNumber t with
    | tooLong n => exact iff_of_true ⟨.unreadableNumber n, by simp only [hr]⟩ ⟨t, n, rfl, hr⟩
    | _ => simp [hr]

theorem textOrField?_eq_none_iff (m : DataMap) (field : Option Text) :
    textOrField? m field = none ↔ ∃ t, field = some t ∧ (valueOrField m t).IsLong := by
  cases field with
  | none => simp [textOrField?]
  | some t => simp [textOrField?, Value.textual?_eq_none_iff]

/-- One of the first fields means a whole number too long to be written. -/
theorem exists_field_iff (m : DataMap) (d : Descriptor) (n : Nat) :
    (∃ i t, i < n ∧ d.arg? i = some t ∧ (valueOrField m t).IsLong) ↔
      ∃ i, i < n ∧ textOrField? m (d.arg? i) = none := by
  simp only [textOrField?_eq_none_iff, exists_and_left]

theorem gelar_fails_iff (m : DataMap) (d : Descriptor) :
    (gelar m d).Fails ↔ ∃ i t, i < 3 ∧ d.arg? i = some t ∧ (valueOrField m t).IsLong := by
  rw [exists_field_iff]
  simp only [Nat.exists_lt_succ_right, Nat.not_lt_zero, false_and, exists_false, false_or]
  rw [gelar, Noted.fails_ofWritten_iff]
  cases textOrField? m (d.arg? 0) with
  | none => simp
  | some name =>
  cases textOrField? m (d.arg? 1) with
  | none => simp
  | some front =>
  cases textOrField? m (d.arg? 2) with
  | none => simp
  | some back =>
    simp only [bind, Option.bind_some]
    split <;> simp

theorem textual?_firstValue (m : DataMap) (d : Descriptor) :
    (firstValue m d).textual? = textOrField? m (d.arg? 0) := by
  unfold firstValue
  cases d.arg? 0 <;> rfl

theorem alamat_map_fails_iff {m : DataMap} {d : Descriptor} {parts : List (Text × Value)}
    (h : firstValue m d = .map parts) :
    (alamat m d).Fails ↔
      (∃ name ∈ Address.partNames, ∃ v, Table.get? parts name.toList = some v ∧ v.HoldsLong) ∨
      Address.part? parts "alamat" = some [] ∧
        ∃ v, Table.get? parts "street".toList = some v ∧ v.HoldsLong := by
  rw [alamat, h, Noted.fails_ofWritten_iff, Address.lineOfMap?_eq_none_iff]
  simp only [Address.part?_eq_none_iff]

theorem alamat_fields_fails_iff {m : DataMap} {d : Descriptor}
    (h : ∀ parts, firstValue m d ≠ .map parts) :
    (alamat m d).Fails ↔ ∃ i t, i < 5 ∧ d.arg? i = some t ∧ (valueOrField m t).IsLong := by
  rw [exists_field_iff]
  simp only [Nat.exists_lt_succ_right, Nat.not_lt_zero, false_and, exists_false, false_or]
  unfold alamat
  split
  · rename_i parts hparts
    exact absurd hparts (h parts)
  · rename_i hother
    rw [Noted.fails_ofWritten_iff, textual?_firstValue]
    cases textOrField? m (d.arg? 1) with
    | none => simp
    | some district =>
    cases textOrField? m (d.arg? 2) with
    | none => simp
    | some regency =>
    cases textOrField? m (d.arg? 3) with
    | none => simp
    | some province =>
    cases textOrField? m (d.arg? 4) with
    | none => simp
    | some postcode =>
    cases textOrField? m (d.arg? 0) with
    | none => simp
    | some street =>
      obtain ⟨t, ht⟩ := Address.line?_texts addressMark street district regency province postcode
      simp [ht]

theorem custom_fails_iff (env : Environment) (m : DataMap) (d : Descriptor) :
    (custom env m d).Fails ↔ ∃ key v, d.sourceKey? = some key ∧ Table.get? m key = some v ∧
      (v.IsLong ∨ ∃ t f, v.textual? = some t ∧ hasOpening t = true ∧
        InlineField.find? t = some f ∧ f.type = "tanggal".toList ∧
        LeavesCalendar env.zone env.now f.dateFormat f.value) := by
  unfold custom
  cases hk : d.sourceKey? with
  | none => simp
  | some key =>
    cases hv : Table.get? m key with
    | none => simp [hv]
    | some v =>
      simp only [Option.bind_some, hv, Option.map_some, Option.some.injEq, exists_and_left,
        exists_eq_left', ← Value.textual?_eq_none_iff]
      cases v.textual? with
      | none => exact iff_of_true ⟨_, rfl⟩ (Or.inl rfl)
      | some t =>
        cases hopen : hasOpening t with
        | false => simp [hopen]
        | true =>
          simp only [hopen, if_true, Noted.fails_mapError_iff, evaluateInline_error_iff]
          simp [hopen]

/-- What keeps a placeholder from getting a text: a whole number of more than 4300 digits where it
is to be written or read, or an end of the calendar. -/
def Obstructed (env : Environment) (m : DataMap) (d : Descriptor) : Prop :=
  match d.kind with
  | .date => Undatable env.zone env.now (dateAsked env m d).2 (dateAsked env m d).1
  | .user => ∃ field v, d.arg? 0 = some field ∧ IsExtra field ∧
      Table.get? env.user.extras field = some v ∧ v.IsLong
  | .number => ∃ t n, d.arg? 1 = some t ∧ Placeholder.readNumber t = .tooLong n
  | .gelar => ∃ i t, i < 3 ∧ d.arg? i = some t ∧ (valueOrField m t).IsLong
  | .alamat =>
    match firstValue m d with
    | .map parts =>
      (∃ name ∈ Address.partNames, ∃ v, Table.get? parts name.toList = some v ∧ v.HoldsLong) ∨
        Address.part? parts "alamat" = some [] ∧
          ∃ v, Table.get? parts "street".toList = some v ∧ v.HoldsLong
    | _ => ∃ i t, i < 5 ∧ d.arg? i = some t ∧ (valueOrField m t).IsLong
  | .custom => ∃ key v, d.sourceKey? = some key ∧ Table.get? m key = some v ∧
      (v.IsLong ∨ ∃ t f, v.textual? = some t ∧ hasOpening t = true ∧
        InlineField.find? t = some f ∧ f.type = "tanggal".toList ∧
        LeavesCalendar env.zone env.now f.dateFormat f.value)
  | .site | .money | .terbilang | .image | .qrcode => False

theorem fails_iff_obstructed {env : Environment} {m : DataMap} {d : Descriptor} {noted : Noted}
    (h : text? env m d = some noted) : noted.Fails ↔ Obstructed env m d := by
  unfold text? at h
  unfold Obstructed
  cases hk : d.kind <;> simp only [hk] at h ⊢ <;> cases h
  case date =>
    rw [date_eq]
    exact dateOf_fails_iff _ _ _ _
  case user => exact user_fails_iff env d
  case site => exact iff_of_false (Noted.not_fails_plain _) id
  case money => exact iff_of_false (Noted.not_fails_ofAmount _ _) id
  case terbilang => exact iff_of_false (Noted.not_fails_ofAmount _ _) id
  case number => exact number_fails_iff m d
  case gelar => exact gelar_fails_iff m d
  case alamat =>
    split
    · rename_i parts hparts
      exact alamat_map_fails_iff hparts
    · rename_i hother
      exact alamat_fields_fails_iff fun parts hparts => hother parts hparts
  case custom => exact custom_fails_iff env m d

/-- A placeholder that does not stand for a picture gets a text, whatever its fields, the data and
the surroundings are, just when no overlong whole number and no end of the calendar obstructs it. -/
theorem text?_answers (env : Environment) (m : DataMap) (d : Descriptor)
    (h : d.kind.isPicture = false) :
    ∃ noted, text? env m d = some noted ∧
      ((∃ t, noted.result = .ok t) ↔ ¬ Obstructed env m d) := by
  cases hn : text? env m d with
  | none =>
    rw [text?_eq_none_iff, h] at hn
    cases hn
  | some noted => exact ⟨noted, rfl, by rw [Noted.answers_iff, fails_iff_obstructed hn]⟩

/-- A morning of the last day of the calendar. -/
def lastMorning : Environment where
  now := { date := ⟨9999, 12, 31, by decide⟩, time := ⟨10, 0, 0, 0, by decide⟩, offset := none }
  settings := { cacheDirectory := Path.ofText "/cache".toList }

/-- More places than are ever printed are asked for, and there is a text. -/
theorem text?_answers_places :
    ∃ noted, text? lastMorning [("total".toList, .int 5)]
        ⟨.number, "number:total:30".toList, ["total".toList, "30".toList]⟩ = some noted ∧
      ∃ t, noted.result = .ok t := by
  obtain ⟨noted, hn, hiff⟩ := text?_answers lastMorning [("total".toList, .int 5)]
    ⟨.number, "number:total:30".toList, ["total".toList, "30".toList]⟩ rfl
  refine ⟨noted, hn, hiff.2 ?_⟩
  rintro ⟨field, digits, hfield, hlong⟩
  cases hfield
  have hread : Placeholder.readNumber "30".toList = .number 30 := by decide
  rw [hread] at hlong
  cases hlong

/-- A task that is due on the day after. -/
def dueTomorrow : DataMap := [("due".toList, .text "tomorrow".toList)]

/-- The day after the last one gets no text. -/
theorem text?_tomorrow :
    ∃ d, Placeholder.parse "date:due".toList = some d ∧ d.kind.isPicture = false ∧
      ∀ noted, text? lastMorning dueTomorrow d = some noted → ∀ t, noted.result ≠ .ok t := by
  refine ⟨⟨.date, "date:due".toList, ["due".toList]⟩, by decide, rfl, fun noted hn t ht => ?_⟩
  have hobstructed : Obstructed lastMorning dueTomorrow
      ⟨.date, "date:due".toList, ["due".toList]⟩ :=
    .noDay (.tomorrow (by decide) ⟨rfl, rfl, rfl⟩)
  exact (Noted.answers_iff noted).1 ⟨t, ht⟩ ((fails_iff_obstructed hn).2 hobstructed)

end Resolution
end MailMerge
