import MailMerge.Phrase
/-!
# Which values can be written

A value has no written form just when it is, or holds at any depth, a whole number of more than
4300 digits (`Value.shown?_eq_none_iff`, `Value.plain?_eq_none_iff`). Of the values that are put
into documents as text only such a number itself has none (`Value.textual?_eq_none_iff`).
-/
namespace MailMerge

theorem intText?_eq_none_iff {n : Int} :
    intText? n = none ↔ digitLimit < Decimal.digitCount n.natAbs := by
  unfold intText?
  split <;> simp <;> omega

namespace Value

/-- Whether a value is a whole number with too many digits to be written. -/
def IsLong : Value → Prop
  | .int n => digitLimit < Decimal.digitCount n.natAbs
  | _ => False

/-- Whether a whole number with too many digits to be written is the value or stands in it. -/
inductive HoldsLong : Value → Prop
  | int {n : Int} (long : digitLimit < Decimal.digitCount n.natAbs) : HoldsLong (.int n)
  | width {a : Asset} (long : digitLimit < Decimal.digitCount a.width) : HoldsLong (.asset a)
  | height {a : Asset} (long : digitLimit < Decimal.digitCount a.height) : HoldsLong (.asset a)
  | item {vs : List Value} {v : Value} (mem : v ∈ vs) (long : HoldsLong v) : HoldsLong (.list vs)
  | entry {es : List (Text × Value)} {k : Text} {v : Value} (mem : (k, v) ∈ es)
      (long : HoldsLong v) : HoldsLong (.map es)

theorem holdsLong_int {n : Int} :
    HoldsLong (.int n) ↔ digitLimit < Decimal.digitCount n.natAbs :=
  ⟨fun | .int h => h, .int⟩

theorem holdsLong_asset {a : Asset} : HoldsLong (.asset a) ↔ a.writable = false := by
  have hw : a.writable = false ↔
      digitLimit < Decimal.digitCount a.width ∨ digitLimit < Decimal.digitCount a.height := by
    rw [← Bool.not_eq_true, Asset.writable, Bool.and_eq_true, decide_eq_true_eq, decide_eq_true_eq]
    omega
  rw [hw]
  exact ⟨fun | .width h => Or.inl h | .height h => Or.inr h, fun h => h.elim .width .height⟩

theorem holdsLong_list {vs : List Value} : HoldsLong (.list vs) ↔ ∃ v ∈ vs, HoldsLong v :=
  ⟨fun | .item hm h => ⟨_, hm, h⟩, fun ⟨_, hm, h⟩ => .item hm h⟩

theorem holdsLong_map {es : List (Text × Value)} : HoldsLong (.map es) ↔ ∃ e ∈ es, HoldsLong e.2 :=
  ⟨fun | .entry hm h => ⟨_, hm, h⟩, fun ⟨_, hm, h⟩ => .entry hm h⟩

mutual

/-- A value cannot be quoted just when it holds a whole number with too many digits. -/
theorem shown?_eq_none_iff : (v : Value) → (v.shown? = none ↔ v.HoldsLong)
  | .int n => by rw [shown?, intText?_eq_none_iff, holdsLong_int]
  | .asset a => by
    rw [shown?, holdsLong_asset]
    cases a.writable <;> simp
  | .list vs => by rw [shown?, Option.map_eq_none_iff, shownItems?_eq_none_iff vs, holdsLong_list]
  | .map es => by rw [shown?, Option.map_eq_none_iff, shownEntries?_eq_none_iff es, holdsLong_map]
  | .null | .bool _ | .float _ | .decimal _ | .text _ | .date _ | .moment _ =>
    ⟨fun h => by simp [shown?] at h, fun h => by cases h⟩

theorem shownItems?_eq_none_iff : (vs : List Value) →
    (shownItems? vs = none ↔ ∃ v ∈ vs, HoldsLong v)
  | [] => by simp [shownItems?]
  | v :: r => by
    have hv := shown?_eq_none_iff v
    have hr := shownItems?_eq_none_iff r
    simp only [List.mem_cons, exists_eq_or_imp, ← hv, ← hr, shownItems?]
    cases v.shown? <;> cases shownItems? r <;> simp

theorem shownEntries?_eq_none_iff : (es : List (Text × Value)) →
    (shownEntries? es = none ↔ ∃ e ∈ es, HoldsLong e.2)
  | [] => by simp [shownEntries?]
  | (k, v) :: r => by
    have hv := shown?_eq_none_iff v
    have hr := shownEntries?_eq_none_iff r
    simp only [List.mem_cons, exists_eq_or_imp, ← hv, ← hr, shownEntries?]
    cases v.shown? <;> cases shownEntries? r <;> simp

end

theorem plain?_eq_none_iff (v : Value) : v.plain? = none ↔ v.HoldsLong := by
  cases v with
  | text | decimal | date | moment => exact ⟨fun h => by simp [plain?] at h, fun h => by cases h⟩
  | asset a =>
    rw [plain?, holdsLong_asset]
    cases a.writable <;> simp
  | null | bool | int | float | list | map => exact shown?_eq_none_iff _

theorem textual?_eq_none_iff (v : Value) : v.textual? = none ↔ v.IsLong := by
  cases v with
  | int n => exact intText?_eq_none_iff
  | text | float | decimal => simp [textual?, isTextual, plain?, shown?, IsLong]
  | null | bool | date | moment | asset | list | map => simp [textual?, isTextual, IsLong]

end Value
end MailMerge
