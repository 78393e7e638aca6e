import MailMerge.Proofs.Calendar.Faults
import MailMerge.Proofs.Placeholder.Expression
import MailMerge.Proofs.Placeholder.Grammar
import MailMerge.Proofs.Placeholder.Places
import MailMerge.Proofs.Resolution.Answers
import MailMerge.Proofs.Resolution.Independence
/-!
# Inline expressions and placeholders

An amount, a name or a date can be written into a value as an inline expression, or it can be asked
for by a placeholder that names the key of a value. Both come to the same text, with these
exceptions: an option of a number that is read in two ways, and a date at an end of the calendar
that cannot be put in its format, for which a placeholder has no text at all.

* `inline_eq_placeholder`: when both come to the same text.
* `number_of_superscript`: the places of a number, read in two ways.
-/
namespace MailMerge

namespace InlineField

theorem evaluateInline_written {f : InlineField} (h : f.IsWritable) (z : Zone) (now : Moment) :
    evaluateInline z now f.written = f.evaluate z now := by
  rw [evaluateInline, find?_written h]

/-! ### The types -/

section
variable (z : Zone) (now : Moment) (v : Text) (o : Option Text)

theorem evaluate_money : evaluate z now ⟨"money".toList, v, o⟩ =
    .ok ((Amount.formatMoney (o.getD []) (.text v)).toOption.getD []) := by
  unfold evaluate
  dsimp only
  generalize Amount.formatMoney _ _ = r
  refine (if_pos rfl).trans ?_
  cases r <;> rfl

theorem evaluate_terbilang : evaluate z now ⟨"terbilang".toList, v, o⟩ =
    .ok ((Spelling.spell (.text v)).toOption.getD []) := by
  have hmoney : "terbilang".toList ≠ "money".toList := by decide
  unfold evaluate
  dsimp only
  generalize Spelling.spell _ = r
  refine (if_neg hmoney).trans ((if_pos rfl).trans ?_)
  cases r <;> rfl

/-- A number whose places cannot be read is left out. -/
theorem evaluate_number : evaluate z now ⟨"number".toList, v, o⟩ =
    .ok (((places? (o.getD [])).bind fun n =>
      (Amount.format { places := n } (.text v)).toOption).getD []) := by
  have hmoney : "number".toList ≠ "money".toList := by decide
  have hspell : "number".toList ≠ "terbilang".toList := by decide
  have hdate : "number".toList ≠ "tanggal".toList := by decide
  unfold evaluate
  refine (if_neg hmoney).trans ((if_neg hspell).trans ((if_neg hdate).trans
    ((if_pos rfl).trans ?_)))
  dsimp only
  cases places? (o.getD []) with
  | none => rfl
  | some n => cases hf : Amount.format { places := n } (.text v) <;> simp [hf, Except.toOption]

theorem evaluate_gelar : evaluate z now ⟨"gelar".toList, v, o⟩ =
    .ok (titledName v (Text.cut '|' (o.getD [])).1 ((Text.cut '|' (o.getD [])).2.getD [])) := by
  have hmoney : "gelar".toList ≠ "money".toList := by decide
  have hspell : "gelar".toList ≠ "terbilang".toList := by decide
  have hdate : "gelar".toList ≠ "tanggal".toList := by decide
  have hnumber : "gelar".toList ≠ "number".toList := by decide
  unfold evaluate
  exact (if_neg hmoney).trans ((if_neg hspell).trans ((if_neg hdate).trans
    ((if_neg hnumber).trans (if_pos rfl))))

/-- A date that cannot be put in its format is left out. -/
theorem evaluate_tanggal {fmt : Text} (h : fmt ≠ []) {r : Except DateFault Text}
    (hr : dateInWords z now fmt (.text v) = r) (hcal : r ≠ .error .outOfCalendar) :
    evaluate z now ⟨"tanggal".toList, v, some fmt⟩ = .ok (r.toOption.getD []) := by
  have hmoney : "tanggal".toList ≠ "money".toList := by decide
  have hspell : "tanggal".toList ≠ "terbilang".toList := by decide
  have hfmt : Address.orElse fmt usualDateFormat = fmt := by simp [Address.orElse, h]
  unfold evaluate
  refine (if_neg hmoney).trans ((if_neg hspell).trans ((if_pos rfl).trans ?_))
  simp only [Option.getD_some, hfmt, hr]
  cases r with
  | ok t => rfl
  | error e =>
    cases e with
    | outOfCalendar => exact absurd rfl hcal
    | beforeCalendar => rfl
    | afterCalendar => rfl

end

end InlineField

namespace Resolution

/-- What the placeholder that a text writes comes to, if it writes one that stands for text. -/
def textOf? (env : Environment) (m : DataMap) (t : Text) : Option (Except Fault Text) :=
  (Placeholder.parse t).bind fun d => (text? env m d).map Noted.result

/-- Whether an inline expression, evaluated at the time `now` on the same machine, and a placeholder
come to the same text. -/
def SameText (now : Moment) (f : InlineField) (env : Environment) (m : DataMap) (k : Kind)
    (fields : List Text) : Prop :=
  ∃ t, evaluateInline env.zone now f.written = .ok t ∧ textOf? env m (k.written fields) = some (.ok t)

/-- Whether a text is a word for the present or for one of the days around it. -/
def IsDayWord (t : Text) : Prop :=
  t.trim.map Char.toLower ∈ ["now", "today", "tomorrow", "yesterday"].map String.toList

instance (t : Text) : Decidable (IsDayWord t) :=
  inferInstanceAs (Decidable (t.trim.map Char.toLower ∈ List.map _ _))

/-- A value that stands under a key, and an option that is no key, both of which can be written in
an expression. -/
structure Setting (m : DataMap) (k v o : Text) : Prop where
  key : k ≠ [] ∧ ':' ∉ k
  value : ∀ c ∈ v, InlineField.inName c = true
  option : o ≠ [] ∧ ∀ c ∈ o, InlineField.inOptions c = true
  holds : Table.get? m k = some (.text v)
  free : Table.get? m o = none

/-- Other texts name the same moment at any time. -/
theorem ofText_of_not_isDayWord {t : Text} (h : ¬ IsDayWord t) (now now' : Moment) :
    DateReading.ofText now t = DateReading.ofText now' t := by
  have hnow : t.trim.map Char.toLower ≠ "now".toList := by
    intro e
    exact h (by simp [IsDayWord, e])
  have hday : DateReading.relativeDays.lookup (t.trim.map Char.toLower) = none := by
    cases hl : DateReading.relativeDays.lookup (t.trim.map Char.toLower) with
    | none => rfl
    | some n =>
      refine absurd ?_ h
      rcases DateReading.lookup_relativeDays.1 hl with ⟨e, -⟩ | ⟨e, -⟩ | ⟨e, -⟩ <;>
        simp [IsDayWord, e]
  simp only [DateReading.ofText, if_neg hnow, hday]

theorem not_namesNoDay {t : Text} (h : ¬ IsDayWord t) (now : Moment) :
    ¬ DateReading.NamesNoDay now t := by
  intro hno
  cases hno with
  | tomorrow word => exact h (by simp [IsDayWord, word])
  | yesterday word => exact h (by simp [IsDayWord, word])

/-- A text is put into words as a date, if only into none, unless it is the word for a day that is
not in the calendar, or the format asks for the place in universal time of a moment without one. -/
theorem dateInWords_error_iff {z : Zone} {now : Moment} {fmt t : Text} :
    (∃ f, dateInWords z now fmt (.text t) = .error f) ↔ DateReading.NamesNoDay now t ∨
      ∃ x, DateReading.ofText now t = .moment x ∧ (∃ f, z.place x = .error f) ∧
        DateFormat.AsksOffset fmt := by
  rw [← DateReading.ofText_eq_outOfCalendar_iff]
  unfold dateInWords Value.moment?
  cases hr : DateReading.ofText now t with
  | outOfCalendar => simp [hr, bind, Except.bind]
  | unreadable => simp [hr, bind, Except.bind, pure, Except.pure]
  | moment x =>
    simp only [hr, DateReading.moment.injEq, exists_eq_left', ← exists_and_right, reduceCtorEq,
      false_or]
    exact exists_congr fun f => localDate_error_iff

theorem unwrap_written (k : Kind) (fields : List Text) :
    Token.unwrap (k.written fields) = k.written fields := by
  refine Token.unwrap_of_head? ?_
  have hname := Kind.head?_name k
  rw [Kind.written]
  cases hn : k.name with
  | nil => exact absurd hn (Kind.name_ne_nil k)
  | cons c r => rwa [hn] at hname

/-- What a placeholder comes to that is written with fields its kind takes. -/
theorem textOf?_written (env : Environment) (m : DataMap) {k : Kind} {fields : List Text}
    (h : k.Takes fields) : textOf? env m (k.written fields) =
      (text? env m ⟨k, k.written fields, fields⟩).map Noted.result := by
  have hparse : Placeholder.parse (k.written fields) = some ⟨k, k.written fields, fields⟩ := by
    rw [Placeholder.parse_eq_some_iff, unwrap_written]
    exact ⟨rfl, h, rfl⟩
  rw [textOf?, hparse]
  rfl

/-- A field that is not empty is there to be asked for. -/
theorem arg?_eq_some {d : Descriptor} {i : Nat} {t : Text} (h : d.args[i]? = some t)
    (ht : t ≠ []) : d.arg? i = some t := by
  unfold Descriptor.arg?
  rw [h]
  cases t with
  | nil => exact absurd rfl ht
  | cons c t => rfl

theorem result_ofAmount (event : String) (r : Except AmountError Text) :
    (Noted.ofAmount event r).result = .ok (r.toOption.getD []) := by
  cases r <;> rfl

namespace Setting

variable {now : Moment} {env : Environment} {m : DataMap} {k v o : Text}

theorem evaluate_written (h : Setting m k v o) {type : Text}
    (htype : type.all InlineField.inName = true) :
    evaluateInline env.zone now (InlineField.written ⟨type, v, some o⟩) =
      InlineField.evaluate env.zone now ⟨type, v, some o⟩ := by
  refine InlineField.evaluateInline_written ⟨List.all_eq_true.1 htype, h.value, ?_⟩ _ now
  intro t ht
  cases ht
  exact h.option.2

/-- The key is asked for first. -/
theorem arg?_key (h : Setting m k v o) (kind : Kind) (raw : Text) (fields : List Text) :
    Descriptor.arg? ⟨kind, raw, k :: fields⟩ 0 = some k :=
  arg?_eq_some rfl h.key.1

theorem arg?_option (h : Setting m k v o) (kind : Kind) (raw : Text) (fields : List Text) :
    Descriptor.arg? ⟨kind, raw, k :: o :: fields⟩ 1 = some o :=
  arg?_eq_some rfl h.option.1

theorem firstValue_eq (h : Setting m k v o) (kind : Kind) (raw : Text) (fields : List Text) :
    firstValue m ⟨kind, raw, k :: fields⟩ = .text v := by
  simp [firstValue, valueOrField, h.arg?_key, h.holds]

theorem takesOpen (h : Setting m k v o) : Kind.TakesOpen [k, o] :=
  ⟨k, h.key.2, .inr ⟨o, rfl⟩⟩

theorem takesUpTo (h : Setting m k v o) (ho : ':' ∉ o) (n : Nat) :
    Kind.TakesUpTo (n + 2) [k, o] :=
  ⟨k, [o], rfl, h.key.1, by simp, by simpa using ⟨h.key.2, ho⟩⟩

theorem money (h : Setting m k v o) :
    SameText now ⟨"money".toList, v, some o⟩ env m .money [k, o] := by
  have htakes : Kind.money.Takes [k, o] := ⟨h.takesOpen, by simpa using h.key.1⟩
  refine ⟨_, (h.evaluate_written (by decide)).trans (InlineField.evaluate_money ..), ?_⟩
  rw [textOf?_written env m htakes]
  simp [text?, Resolution.money, h.arg?_option, h.firstValue_eq, result_ofAmount]

theorem terbilang (h : Setting m k v o) :
    SameText now ⟨"terbilang".toList, v, none⟩ env m .terbilang [k] := by
  have htakes : Kind.terbilang.Takes [k] := ⟨k, rfl, h.key⟩
  have htype : ∀ c ∈ "terbilang".toList, InlineField.inName c = true :=
    List.all_eq_true.1 (by decide)
  have hwritable : InlineField.IsWritable ⟨"terbilang".toList, v, none⟩ :=
    ⟨htype, h.value, fun _ ho => by cases ho⟩
  refine ⟨_, (InlineField.evaluateInline_written hwritable _ now).trans
    (InlineField.evaluate_terbilang ..), ?_⟩
  rw [textOf?_written env m htakes]
  simp only [text?, Resolution.terbilang, h.firstValue_eq, result_ofAmount, Option.map_some]

theorem gelar (h : Setting m k v o) (ho : ':' ∉ o) :
    SameText now ⟨"gelar".toList, v, some o⟩ env m .gelar [k, o] := by
  have htakes : Kind.gelar.Takes [k, o] := h.takesUpTo ho 1
  have hname : textOrField? m (some k) = some v := by
    rw [textOrField?, valueOrField, h.holds]
    rfl
  have hfront : textOrField? m (some o) = some o := by
    rw [textOrField?, valueOrField, h.free]
    rfl
  have hback : textOrField? m
      (Descriptor.arg? ⟨.gelar, Kind.gelar.written [k, o], [k, o]⟩ 2) = some [] := rfl
  refine ⟨_, (h.evaluate_written (by decide)).trans (InlineField.evaluate_gelar ..), ?_⟩
  rw [textOf?_written env m htakes, text?, Option.map_some, Resolution.gelar, h.arg?_key,
    h.arg?_option, hname, hfront, hback, Option.getD_some]
  have hall := Text.cut_fst_append '|' o
  cases hcut : Text.cut '|' o with
  | mk front back =>
    rw [hcut] at hall
    cases back with
    | some back =>
      simp [hcut]
      rfl
    | none =>
      have hfront : front = o := by simpa using hall
      simp [hcut, hfront]
      rfl

theorem textOf?_number (h : Setting m k v o) (ho : ':' ∉ o) :
    textOf? env m (Kind.number.written [k, o]) =
      some ((wholeField (some o) 0).map fun n =>
        (Amount.format { places := n } (.text v)).toOption.getD []) := by
  have htakes : Kind.number.Takes [k, o] := h.takesUpTo ho 0
  rw [textOf?_written env m htakes, text?, Option.map_some, Resolution.number, h.arg?_option,
    h.firstValue_eq]
  cases wholeField (some o) 0 with
  | error f => rfl
  | ok n =>
    simp only [result_ofAmount, Except.map]
    rw [Amount.format_congr (Amount.clampPlaces_clampPlaces n)]

/-- Numbers come to the same text if their places are read alike. -/
theorem number (h : Setting m k v o) (ho : ':' ∉ o) (halike : Placeholder.ReadsAlike o) :
    SameText now ⟨"number".toList, v, some o⟩ env m .number [k, o] := by
  obtain ⟨n, z, hn, hz, hclamp⟩ := (Placeholder.readsAlike_iff h.option.1).1 halike
  refine ⟨_, (h.evaluate_written (by decide)).trans (InlineField.evaluate_number ..), ?_⟩
  rw [h.textOf?_number ho, hz, Option.getD_some, hn, Option.bind_some,
    Amount.format_congr hclamp]
  rfl

/-- The number one comes to the same text only if its places are read alike. -/
theorem readsAlike (h : Setting m k ['1'] o) (ho : ':' ∉ o)
    (hsame : SameText now ⟨"number".toList, ['1'], some o⟩ env m .number [k, o]) :
    Placeholder.ReadsAlike o := by
  obtain ⟨t, hinline, htoken⟩ := hsame
  rw [h.evaluate_written (by decide), InlineField.evaluate_number, Option.getD_some] at hinline
  rw [h.textOf?_number ho] at htoken
  cases hz : wholeField (some o) 0 with
  | error f =>
    rw [hz] at htoken
    cases htoken
  | ok z =>
    rw [hz] at htoken
    have hprinted : t = Amount.printedOne z := (Except.ok.inj (Option.some.inj htoken)).symm
    cases hn : InlineField.places? o with
    | none =>
      rw [hn] at hinline
      exact absurd (hprinted.symm.trans (Except.ok.inj hinline).symm) (Amount.printedOne_ne_nil z)
    | some n =>
      rw [hn] at hinline
      have hprinted' : t = Amount.printedOne n := (Except.ok.inj hinline).symm
      exact (Placeholder.readsAlike_iff h.option.1).2
        ⟨n, z, hn, hz, Amount.printedOne_inj (hprinted'.symm.trans hprinted)⟩

theorem textOf?_date (h : Setting m k v o) :
    textOf? env m (Kind.date.written [k, o]) =
      some ((dateInWords env.zone env.now o (.text v)).mapError .ofDate) := by
  have htakes : Kind.date.Takes [k, o] := h.takesOpen
  have hdate : Resolution.date env m ⟨.date, Kind.date.written [k, o], [k, o]⟩ =
      dateOf env.zone env.now o (.text v) := by
    unfold Resolution.date
    rw [h.arg?_key, h.arg?_option]
    simp [h.holds]
  rw [textOf?_written env m htakes, text?, Option.map_some, hdate, dateOf, dateInWords]
  cases Value.moment? env.now (.text v) with
  | error f => rfl
  | ok x =>
    cases x with
    | none => rfl
    | some x => rfl

/-- At one time, and for a value that is no word for a day at any time, dates come to the same text
unless the value names no day, or a moment without the place in universal time that the format asks
for. -/
theorem date (h : Setting m k v o) (hword : IsDayWord v → now = env.now) :
    SameText now ⟨"tanggal".toList, v, some o⟩ env m .date [k, o] ↔
      ¬ DateReading.NamesNoDay env.now v ∧
        ∀ x, DateReading.ofText env.now v = .moment x → DateFormat.AsksOffset o →
          ∃ p, env.zone.place x = .ok p := by
  have hwords : dateInWords env.zone now o (.text v) = dateInWords env.zone env.now o (.text v) := by
    by_cases hv : IsDayWord v
    · rw [hword hv]
    · simp only [dateInWords, Value.moment?, ofText_of_not_isDayWord hv now env.now]
  have hsame : SameText now ⟨"tanggal".toList, v, some o⟩ env m .date [k, o] ↔
      ¬ ∃ f, dateInWords env.zone env.now o (.text v) = .error f := by
    unfold SameText
    rw [h.evaluate_written (by decide), h.textOf?_date]
    cases hr : dateInWords env.zone env.now o (.text v) with
    | error f =>
      refine iff_of_false ?_ (not_not_intro ⟨f, rfl⟩)
      intro hsome
      obtain ⟨t, -, htoken⟩ := hsome
      cases htoken
    | ok t =>
      refine iff_of_true ⟨t, ?_, rfl⟩ ?_
      · exact InlineField.evaluate_tanggal env.zone now v h.option.1 (hwords.trans hr) (by simp)
      · rintro ⟨f, hf⟩
        cases hf
  rw [hsame, dateInWords_error_iff, not_or]
  refine and_congr_right fun _ => ?_
  constructor
  · intro hnone x hx hasks
    cases hp : env.zone.place x with
    | ok p => exact ⟨p, rfl⟩
    | error f => exact absurd ⟨x, hx, ⟨f, hp⟩, hasks⟩ hnone
  · rintro hall ⟨x, hx, ⟨f, hf⟩, hasks⟩
    obtain ⟨p, hp⟩ := hall x hx hasks
    rw [hf] at hp
    cases hp

end Setting

/-- An inline expression and a placeholder come to the same text: amounts of money, numbers in words
and names always do, dates unless they are not in the calendar or have no place in universal time
though their format asks for it, and numbers just when their places are read alike. -/
theorem inline_eq_placeholder (now : Moment) (env : Environment) {m : DataMap} {k v o : Text}
    (h : Setting m k v o) :
    SameText now ⟨"money".toList, v, some o⟩ env m .money [k, o] ∧
    SameText now ⟨"terbilang".toList, v, none⟩ env m .terbilang [k] ∧
    (':' ∉ o → SameText now ⟨"gelar".toList, v, some o⟩ env m .gelar [k, o]) ∧
    ((IsDayWord v → now = env.now) →
      (SameText now ⟨"tanggal".toList, v, some o⟩ env m .date [k, o] ↔
        ¬ DateReading.NamesNoDay env.now v ∧
          ∀ x, DateReading.ofText env.now v = .moment x → DateFormat.AsksOffset o →
            ∃ p, env.zone.place x = .ok p)) ∧
    (':' ∉ o → ((∀ v m, Setting m k v o →
      SameText now ⟨"number".toList, v, some o⟩ env m .number [k, o]) ↔
        Placeholder.ReadsAlike o)) := by
  refine ⟨h.money, h.terbilang, h.gelar, h.date, fun ho => ⟨fun hall => ?_, ?_⟩⟩
  · have hne : o ≠ k := by
      intro e
      have hfree := h.free
      rw [e, h.holds] at hfree
      cases hfree
    have hone : Setting [(k, .text ['1'])] k ['1'] o :=
      ⟨h.key, List.all_eq_true.1 (by decide), h.option, by simp [Table.get?],
        by simp [Table.get?, hne.symm]⟩
    exact hone.readsAlike ho (hall _ _ hone)
  · intro halike v m hv
    exact hv.number ho halike

/-- An amount, and an option that asks for two places. -/
def priced : DataMap := [("k".toList, .text "1500".toList)]

theorem setting_priced : Setting priced "k".toList "1500".toList "2".toList :=
  ⟨by decide, List.all_eq_true.1 (by decide), ⟨by decide, List.all_eq_true.1 (by decide)⟩, rfl, rfl⟩

/-- An amount comes to the same text as money, as a number with two places, and as a date, which it
is not. -/
theorem inline_eq_placeholder_priced :
    Setting priced "k".toList "1500".toList "2".toList ∧
      SameText newYear.now ⟨"money".toList, "1500".toList, some "2".toList⟩ newYear priced .money
        ["k".toList, "2".toList] ∧
      SameText newYear.now ⟨"number".toList, "1500".toList, some "2".toList⟩ newYear priced .number
        ["k".toList, "2".toList] ∧
      SameText newYear.now ⟨"tanggal".toList, "1500".toList, some "2".toList⟩ newYear priced .date
        ["k".toList, "2".toList] := by
  have hread : DateReading.ofText newYear.now "1500".toList = .unreadable := by decide
  have hword : ¬ IsDayWord "1500".toList := by decide
  have halike : Placeholder.ReadsAlike "2".toList := .digits (by decide) (by decide)
  obtain ⟨hmoney, -, -, hdate, hnumber⟩ :=
    inline_eq_placeholder newYear.now newYear setting_priced
  refine ⟨setting_priced, hmoney, (hnumber (by decide)).2 halike _ _ setting_priced,
    (hdate fun hday => absurd hday hword).2 ⟨not_namesNoDay hword _, fun x hx => ?_⟩⟩
  rw [hread] at hx
  cases hx

/-- An amount under a key. -/
def halved : DataMap := [("k".toList, .text "1.5".toList)]

/-- A superscript is a digit that makes no number: an inline expression leaves the number out, and a
placeholder prints it without places. -/
theorem number_of_superscript :
    Setting halved "k".toList "1.5".toList "²".toList ∧ ':' ∉ "²".toList ∧
      evaluateInline newYear.zone newYear.now
        (InlineField.written ⟨"number".toList, "1.5".toList, some "²".toList⟩) = .ok [] ∧
      textOf? newYear halved (Kind.number.written ["k".toList, "²".toList]) =
        some (.ok "2".toList) ∧
      ¬ SameText newYear.now ⟨"number".toList, "1.5".toList, some "²".toList⟩ newYear halved .number
        ["k".toList, "²".toList] := by
  have hset : Setting halved "k".toList "1.5".toList "²".toList :=
    ⟨by decide, List.all_eq_true.1 (by decide), ⟨by decide, List.all_eq_true.1 (by decide)⟩,
      rfl, rfl⟩
  have hplaces : InlineField.places? "²".toList = none := by decide
  have hfield : wholeField (some "²".toList) 0 = .ok 0 :=
    Placeholder.wholeField_eq_default (by decide) (by decide)
  have hprinted : (Amount.format { places := 0 } (.text "1.5".toList)).toOption =
      some "2".toList := by decide
  have hinline : evaluateInline newYear.zone newYear.now
      (InlineField.written ⟨"number".toList, "1.5".toList, some "²".toList⟩) = .ok [] := by
    rw [hset.evaluate_written (by decide), InlineField.evaluate_number, Option.getD_some, hplaces]
    rfl
  have htoken : textOf? newYear halved (Kind.number.written ["k".toList, "²".toList]) =
      some (.ok "2".toList) := by
    rw [hset.textOf?_number (by decide), hfield, Except.map, hprinted]
    rfl
  refine ⟨hset, by decide, hinline, htoken, ?_⟩
  intro hsame
  obtain ⟨t, ht, ht'⟩ := hsame
  rw [hinline] at ht
  rw [htoken] at ht'
  cases ht
  cases ht'

end Resolution
end MailMerge
