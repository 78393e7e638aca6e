import MailMerge.Proofs.Resolution.Characters
import MailMerge.Proofs.Resolution.Inline
import MailMerge.Proofs.Text.Replacement
/-!
# Expressions in the midst of other text

A text without an inline expression is left as it is, also when it is the value of a custom
placeholder. Where an expression stands in a text, what it evaluates to takes the place of the whole
text, and all that stands around it is lost: what an expression evaluates to has no braces, so it is
never the text itself (`Resolution.text_passes_iff`).
-/
namespace MailMerge

namespace InlineField

instance : HasPlain inOptions where
  plain c hc := by
    have hopen : c ≠ '\x7b' := fun h => absurd hc (h ▸ by decide)
    have hclose : c ≠ '\x7d' := fun h => absurd hc (h ▸ by decide)
    simp [inOptions, hopen, hclose]

/-- What an expression evaluates to has no braces. -/
theorem evaluate_within {f : InlineField} (hf : f.IsWritable) {z : Zone} {now : Moment} {t : Text}
    (h : f.evaluate z now = .ok t) : t.Within inOptions := by
  have hvalue : f.value.Within inOptions := fun c hc => by
    have hname := hf.value c hc
    rw [inName, Bool.and_eq_true] at hname
    exact hname.2
  have hoptions : (f.options.getD []).Within inOptions := by
    cases ho : f.options with
    | none => exact Text.within_nil
    | some o => exact hf.options o ho
  exact within_evaluate hvalue hoptions h

theorem not_within_written (f : InlineField) : ¬ f.written.Within inOptions :=
  fun h => absurd (h '\x7b' (by simp [written, Token.wrap, Token.opening])) (by decide)

/-- An expression in a text never evaluates to the text. -/
theorem StandsFirst.evaluate_ne {f : InlineField} {front s : Text} (h : f.StandsFirst front s)
    (z : Zone) (now : Moment) : f.evaluate z now ≠ .ok s := by
  intro heval
  have hs := evaluate_within h.writable heval
  exact f.not_within_written (hs.of_subset fun c hc =>
    h.stands.subset (List.mem_append_right _ hc))

end InlineField

open InlineField

theorem evaluateInline_of_standsFirst {f : InlineField} {front s : Text}
    (h : f.StandsFirst front s) (z : Zone) (now : Moment) :
    evaluateInline z now s = f.evaluate z now := by
  rw [evaluateInline, find?_eq_some_iff.2 ⟨front, h⟩]

theorem evaluateInline_eq_self_iff (z : Zone) (now : Moment) (s : Text) :
    evaluateInline z now s = .ok s ↔ IsFree s := by
  rw [← find?_eq_none_iff]
  cases hf : find? s with
  | none => simp [evaluateInline, hf]
  | some f =>
    obtain ⟨front, h⟩ := find?_eq_some_iff.1 hf
    simp [evaluateInline, hf, h.evaluate_ne z now]

namespace Resolution

/-- Where there is no opening of a token there is no expression. -/
theorem isFree_of_not_hasOpening {s : Text} (h : hasOpening s = false) : IsFree s := by
  intro f _ hstands
  obtain ⟨u, v, rfl⟩ := hstands
  obtain ⟨r, hr⟩ : ∃ r, f.written = '$' :: ['\x7b'] ++ r := ⟨_, List.append_assoc ..⟩
  have hfresh : '$' ∉ ['\x7b'] := by decide
  have hhits := Text.hits_le_hits_append hfresh u ('$' :: ['\x7b'] ++ (r ++ v))
  have hsplit : u ++ f.written ++ v = u ++ ('$' :: ['\x7b'] ++ (r ++ v)) := by simp [hr]
  have hnone : Text.hits Token.opening (u ++ f.written ++ v) = 0 := by
    simpa [hasOpening, Text.hits] using h
  rw [Text.hits_needle_append hfresh, ← hsplit] at hhits
  rw [Token.opening] at hnone
  omega

/-- The value of a custom placeholder is evaluated, whether or not a token could begin in it. -/
theorem custom_result {m : DataMap} {d : Descriptor} {s : Text}
    (hs : d.sourceKey?.bind (Table.get? m) = some (.text s)) (env : Environment) :
    (custom env m d).result = (evaluateInline env.zone env.now s).mapError .ofDate := by
  have htext : (Value.text s).textual? = some s := rfl
  simp only [custom, hs, Option.map_some, htext]
  cases hopen : hasOpening s with
  | true => rfl
  | false =>
    rw [(evaluateInline_eq_self_iff env.zone env.now s).2 (isFree_of_not_hasOpening hopen)]
    rfl

theorem mapError_eq_ok_iff {e : Except DateFault Text} {t : Text} :
    e.mapError Fault.ofDate = .ok t ↔ e = .ok t := by
  cases e with
  | error e => exact iff_of_false nofun nofun
  | ok s =>
    have hok : (Except.ok s : Except DateFault Text).mapError Fault.ofDate = .ok s := rfl
    rw [hok, Except.ok.injEq, Except.ok.injEq]

/-- A text passes unchanged just when no expression stands in it; where one stands, the first one
takes the place of the whole text. -/
theorem text_passes_iff (s : Text) :
    (∀ z now, evaluateInline z now s = .ok s ↔ IsFree s) ∧
    (∀ env m d, d.sourceKey?.bind (Table.get? m) = some (.text s) →
      ((custom env m d).result = .ok s ↔ IsFree s)) ∧
    ∀ (f : InlineField) (front : Text), f.StandsFirst front s →
      (∀ z now, evaluateInline z now s = f.evaluate z now) ∧
      ∀ env m d, d.sourceKey?.bind (Table.get? m) = some (.text s) →
        (custom env m d).result = (f.evaluate env.zone env.now).mapError .ofDate := by
  refine ⟨fun z now => evaluateInline_eq_self_iff z now s, fun env m d hs => ?_, fun f front h => ?_⟩
  · rw [custom_result hs, mapError_eq_ok_iff, evaluateInline_eq_self_iff]
  · refine ⟨evaluateInline_of_standsFirst h, fun env m d hs => ?_⟩
    rw [custom_result hs, evaluateInline_of_standsFirst h]

/-- An expression with a word in front of it. -/
def billLine : Text := "Total: $\x7bmoney:5:Rp\x7d".toList

/-- A text with braces and no expression, and data in which it stands under a key. -/
def plainLine : Text := "Total: $\x7bmoney\x7d".toList

def billData : DataMap := [("line".toList, .text plainLine)]

theorem text_passes_plainLine :
    IsFree plainLine ∧ evaluateInline newYear.zone newYear.now plainLine = .ok plainLine ∧
      (custom newYear billData ⟨.custom, "line".toList, ["line".toList]⟩).result =
        .ok plainLine := by
  have hfree : IsFree plainLine := find?_eq_none_iff.1 (by decide)
  obtain ⟨hevaluate, hcustom, -⟩ := text_passes_iff plainLine
  exact ⟨hfree, (hevaluate newYear.zone newYear.now).2 hfree, (hcustom newYear billData _ rfl).2 hfree⟩

theorem text_lost_billLine : (∀ f : InlineField, f.written ≠ billLine) ∧
    evaluateInline newYear.zone newYear.now billLine = .ok "Rp 5,00".toList := by
  have hfind : find? billLine = some ⟨"money".toList, "5".toList, some "Rp".toList⟩ := by decide
  constructor
  · intro f h
    cases h
  · rw [evaluateInline, hfind]
    exact (evaluate_money ..).trans (congrArg Except.ok (by decide +kernel))

end Resolution
end MailMerge
