import MailMerge.Proofs.Resolution.Keys
import MailMerge.Resolution.Texts
/-!
# What placeholders for text read

A placeholder that stands for text reads the data under keys without colons only
(`text?_congr`). What other placeholders store stands under keys with colons, so it is never seen.
-/
namespace MailMerge.Resolution

/-- Whether two data maps hold the same under every key without a colon. -/
def SameSources (m m' : DataMap) : Prop := ∀ k, ':' ∉ k → Table.get? m k = Table.get? m' k

section
variable {m m' : DataMap} {d : Descriptor}

theorem valueOrField_congr (h : SameSources m m') {t : Text} (ht : ':' ∉ t) :
    valueOrField m t = valueOrField m' t := by
  rw [valueOrField, valueOrField, h t ht]

theorem textOrField?_congr (h : SameSources m m') {field : Option Text}
    (hf : ∀ t, field = some t → ':' ∉ t) : textOrField? m field = textOrField? m' field := by
  cases field with
  | none => rfl
  | some t => rw [textOrField?, textOrField?, valueOrField_congr h (hf t rfl)]

theorem firstValue_congr (h : SameSources m m') (hd : d.IsParsed) :
    firstValue m d = firstValue m' d := by
  unfold firstValue
  cases ha : d.arg? 0 with
  | none => rfl
  | some t => exact valueOrField_congr h (Descriptor.colon_not_mem_arg?_zero hd ha)

theorem date_congr (env : Environment) (h : SameSources m m') (hd : d.IsParsed) :
    date env m d = date env m' d := by
  unfold date
  cases ha : d.arg? 0 with
  | none => cases d.arg? 1 <;> rfl
  | some t =>
    have hget := h t (Descriptor.colon_not_mem_arg?_zero hd ha)
    have hhas : Table.has m t = Table.has m' t := by rw [Table.has, Table.has, hget]
    cases d.arg? 1 with
    | none =>
      dsimp only
      rw [hhas]
      split <;> simp only [Option.bind_none, Option.bind_some, hget]
    | some fmt => simp only [Option.bind_some, hget]

theorem gelar_congr (h : SameSources m m') (hd : d.IsParsed)
    (hopen : d.kind.fields.openEnd = false) : gelar m d = gelar m' d := by
  have harg : ∀ i, textOrField? m (d.arg? i) = textOrField? m' (d.arg? i) := fun i =>
    textOrField?_congr h fun _ ha => Descriptor.colon_not_mem_arg? hd hopen ha
  unfold gelar
  rw [harg 0, harg 1, harg 2]

theorem alamat_congr (h : SameSources m m') (hd : d.IsParsed)
    (hopen : d.kind.fields.openEnd = false) : alamat m d = alamat m' d := by
  have harg : ∀ i, textOrField? m (d.arg? i) = textOrField? m' (d.arg? i) := fun i =>
    textOrField?_congr h fun _ ha => Descriptor.colon_not_mem_arg? hd hopen ha
  unfold alamat
  rw [firstValue_congr h hd, harg 1, harg 2, harg 3, harg 4]

theorem custom_congr (env : Environment) (h : SameSources m m') (hd : d.IsParsed)
    (hk : d.kind = .custom) : custom env m d = custom env m' d := by
  obtain ⟨first, more, hargs, hfirst, -⟩ := Descriptor.args_eq hd
  have hs : d.sourceKey? = some first := by
    unfold Descriptor.sourceKey?
    rw [hk, hargs]
  unfold custom
  rw [hs, Option.bind_some, Option.bind_some, h first hfirst]

/-- A placeholder for text reads nothing under keys with colons. -/
theorem text?_congr (env : Environment) (h : SameSources m m') (hd : d.IsParsed) :
    text? env m d = text? env m' d := by
  unfold text?
  cases hk : d.kind with
  | date => rw [date_congr env h hd]
  | user => rfl
  | site => rfl
  | money => simp only [money, firstValue_congr h hd]
  | terbilang => simp only [terbilang, firstValue_congr h hd]
  | number => simp only [number, firstValue_congr h hd]
  | gelar => rw [gelar_congr h hd (by rw [hk]; rfl)]
  | alamat => rw [alamat_congr h hd (by rw [hk]; rfl)]
  | custom => rw [custom_congr env h hd hk]
  | image => rfl
  | qrcode => rfl

end

theorem text?_eq_none_iff (env : Environment) (m : DataMap) (d : Descriptor) :
    text? env m d = none ↔ d.kind.isPicture = true := by
  unfold text?
  cases d.kind <;> simp [Kind.isPicture]

end MailMerge.Resolution
