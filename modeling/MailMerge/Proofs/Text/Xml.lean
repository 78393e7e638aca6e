import MailMerge.Number.Binary64
import MailMerge.Proofs.Text.Within
import MailMerge.Text.Quoted
import MailMerge.Text.Xml
/-!
# Texts that an XML document can hold

`Text.IsXml t` says that a document can hold every character of `t`. It holds of what is cut out of
such texts and of what is put together from them, of every numeral, and of every text in quotation
marks: what is not printable is escaped there, and all that a document cannot hold is not printable.
-/
namespace MailMerge

theorem isXmlChar_of_ascii {c : Char} (h : 32 ≤ c.toNat) (h' : c.toNat < 128) :
    isXmlChar c = true := by
  simp [isXmlChar]
  omega

/-- What a document cannot hold is not printable. -/
theorem isXmlChar_of_isPrintable {c : Char} (h : isPrintable c = true) : isXmlChar c = true := by
  have hfffe : (printableChanges.takeWhile (· ≤ 0xFFFE)).length % 2 = 0 := by decide +kernel
  have hffff : (printableChanges.takeWhile (· ≤ 0xFFFF)).length % 2 = 0 := by decide +kernel
  unfold isPrintable at h
  split at h
  · rename_i hlow
    exact isXmlChar_of_ascii (of_decide_eq_true h) (by omega)
  · rename_i hhigh
    have hne : c.toNat ≠ 0xFFFE := fun e => by rw [e, hfffe] at h; cases h
    have hne' : c.toNat ≠ 0xFFFF := fun e => by rw [e, hffff] at h; cases h
    simp [isXmlChar, hne, hne']
    omega

instance : HasPlain isXmlChar where
  plain c h := by
    simp only [isPlainChar, Bool.and_eq_true, decide_eq_true_eq] at h
    exact isXmlChar_of_ascii h.1 (by omega)

namespace Text

/-- Whether an XML document can hold every character of a text. -/
def IsXml (t : Text) : Prop := ∀ c ∈ t, isXmlChar c = true

instance (t : Text) : Decidable t.IsXml :=
  decidable_of_iff (t.all isXmlChar = true) List.all_eq_true

theorem isXml_iff_xmlOnly {t : Text} : t.IsXml ↔ t.xmlOnly = t := (xmlOnly_eq_self_iff t).symm

theorem isXml_xmlOnly (t : Text) : t.xmlOnly.IsXml := fun _ hc => (List.mem_filter.1 hc).2

/-! ## Cutting and joining -/

@[simp] theorem isXml_nil : IsXml [] := within_nil

@[simp] theorem isXml_cons {c : Char} {t : Text} :
    IsXml (c :: t) ↔ isXmlChar c = true ∧ t.IsXml :=
  within_cons

@[simp] theorem isXml_append {s t : Text} : IsXml (s ++ t) ↔ s.IsXml ∧ t.IsXml := within_append

theorem IsXml.of_subset {s t : Text} (h : t.IsXml) (hs : s ⊆ t) : s.IsXml := Within.of_subset h hs

/-! ## Quotation marks -/

theorem isXml_hexCode (width : Nat) (c : Char) : (hexCode width c).IsXml :=
  within_padLeft (by decide) (within_toDigits (by decide) (by decide) _) width

theorem isXml_quoteChar {q : Char} (hq : isXmlChar q = true) (c : Char) : (quoteChar q c).IsXml := by
  have hback : isXmlChar '\\' = true := by decide
  unfold quoteChar
  split
  · rename_i h
    rcases (by simpa using h : c = q ∨ c = '\\') with rfl | rfl <;> simp [hq, hback]
  · split
    · decide
    · split
      · decide
      · split
        · decide
        · split
          · rename_i h
            exact isXml_cons.2 ⟨isXmlChar_of_isPrintable h, isXml_nil⟩
          · split
            · exact isXml_append.2 ⟨by decide, isXml_hexCode 2 c⟩
            · split
              · exact isXml_append.2 ⟨by decide, isXml_hexCode 4 c⟩
              · exact isXml_append.2 ⟨by decide, isXml_hexCode 8 c⟩

/-- A document can hold any text in quotation marks. -/
theorem isXml_quoted (t : Text) : t.quoted.IsXml := by
  have hq : isXmlChar (quoteFor t) = true := by
    unfold quoteFor
    split <;> decide
  rw [quoted, List.cons_append, isXml_cons, isXml_append, isXml_cons]
  refine ⟨hq, fun c hc => ?_, hq, isXml_nil⟩
  obtain ⟨d, -, hd⟩ := List.mem_flatMap.1 hc
  exact isXml_quoteChar hq d c hd

end Text

/-! ## Numbers -/

namespace Decimal

open Text

theorem isXml_signText (negative : Bool) : (signText negative).IsXml := by
  cases negative <;> decide

theorem isXml_fixedText (c places : Nat) : (fixedText c places).IsXml := by
  have hds : (padLeft (places + 1) '0' (ofNat c)).IsXml :=
    within_padLeft (by decide) (within_ofNat c) _
  unfold fixedText
  dsimp only
  split
  · exact hds
  · rw [isXml_append, isXml_cons]
    exact ⟨hds.of_subset (List.take_subset _ _), by decide,
      hds.of_subset (List.drop_subset _ _)⟩

theorem isXml_exponentText (e : Int) : (exponentText e).IsXml := by
  rw [exponentText, isXml_cons, isXml_cons]
  exact ⟨by decide, by split <;> decide, within_ofNat _⟩

theorem isXml_toScientific (c : Nat) (e : Int) : (toScientific c e).IsXml := by
  have hds : (ofNat c).IsXml := within_ofNat c
  unfold toScientific
  dsimp only
  split
  · exact isXml_fixedText c _
  · split
    · rename_i d hd
      rw [hd, isXml_cons] at hds
      exact isXml_cons.2 ⟨hds.1, isXml_exponentText _⟩
    · rename_i d r hd
      rw [hd, isXml_cons] at hds
      rw [List.cons_append, List.cons_append, isXml_cons, isXml_cons, isXml_append]
      exact ⟨hds.1, by decide, hds.2, isXml_exponentText _⟩
    · exact isXml_nil

theorem isXml_toText (d : Decimal) : d.toText.IsXml := by
  cases d with
  | finite negative c e => exact isXml_append.2 ⟨isXml_signText negative, isXml_toScientific c e⟩
  | infinite negative => exact isXml_append.2 ⟨isXml_signText negative, by decide⟩
  | nan negative signaling p =>
    rw [toText, isXml_append, isXml_append]
    refine ⟨⟨isXml_signText negative, by split <;> decide⟩, ?_⟩
    split
    · exact isXml_nil
    · exact within_ofNat p

end Decimal

namespace Binary64

open Text

theorem isXml_exponentForm {ds : Text} (h : ds.IsXml) (x : Int) : (exponentForm ds x).IsXml := by
  have htail : IsXml ('e' :: (if x < 0 then '-' else '+') :: ofNatPadded 2 x.natAbs) := by
    rw [isXml_cons, isXml_cons]
    exact ⟨by decide, by split <;> decide, within_ofNatPadded 2 _⟩
  unfold exponentForm
  refine isXml_append.2 ⟨?_, htail⟩
  split
  · exact isXml_nil
  · exact h
  · rw [isXml_cons] at h
    rw [isXml_cons, isXml_cons]
    exact ⟨h.1, by decide, h.2⟩

theorem isXml_positionalForm {ds : Text} (h : ds.IsXml) (x : Int) :
    (positionalForm ds x).IsXml := by
  have hzeros : ∀ n, IsXml (List.replicate n '0') := fun n => within_replicate (by decide) n
  unfold positionalForm
  dsimp only
  split
  · rw [isXml_append, isXml_append]
    exact ⟨⟨by decide, hzeros _⟩, h⟩
  · split
    · exact isXml_append.2 ⟨h, hzeros _⟩
    · rw [isXml_append, isXml_cons]
      exact ⟨h.of_subset (List.take_subset _ _), by decide, h.of_subset (List.drop_subset _ _)⟩

theorem isXml_toText (x : Binary64) : x.toText.IsXml := by
  cases x with
  | nan => decide
  | infinite negative => cases negative <;> decide
  | finite negative m e =>
    refine isXml_append.2 ⟨Decimal.isXml_signText negative, ?_⟩
    split
    · decide
    · have hds : (digitsOf (shortestDigits m e).1 (shortestDigits m e).2).1.IsXml := within_ofNat _
      dsimp only
      split
      · split
        · exact isXml_positionalForm hds _
        · exact isXml_append.2 ⟨isXml_positionalForm hds _, by decide⟩
      · exact isXml_exponentForm hds _

end Binary64
end MailMerge
