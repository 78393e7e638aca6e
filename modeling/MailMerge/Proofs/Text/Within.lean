import MailMerge.Proofs.Text.Digits
/-!
# Texts of a class of characters

`Text.Within p t` says that all characters of `t` are of the class `p`. It holds of what is cut out
of such texts and of what is put together from them. A class that holds all plain characters
(`HasPlain`) holds those of numerals and of the words and names that the library writes, so what is
written with such a text as its only part of other origin is again within the class.
-/
namespace MailMerge

/-- Whether a character is a blank, a sign, a digit or a letter of ASCII, braces apart. -/
def isPlainChar (c : Char) : Bool := 32 ≤ c.toNat && c.toNat ≤ 122

/-- A class that holds all plain characters. -/
class HasPlain (p : Char → Bool) : Prop where
  plain : ∀ c, isPlainChar c = true → p c = true

namespace Text

/-- Whether all characters of a text are of a class. -/
def Within (p : Char → Bool) (t : Text) : Prop := ∀ c ∈ t, p c = true

instance (p : Char → Bool) (t : Text) : Decidable (t.Within p) :=
  decidable_of_iff (t.all p = true) List.all_eq_true

section
variable {p : Char → Bool}

/-! ## Cutting and joining -/

@[simp] theorem within_nil : Within p [] := fun _ hc => absurd hc List.not_mem_nil

@[simp] theorem within_cons {c : Char} {t : Text} :
    Within p (c :: t) ↔ p c = true ∧ t.Within p :=
  List.forall_mem_cons

@[simp] theorem within_append {s t : Text} : Within p (s ++ t) ↔ s.Within p ∧ t.Within p :=
  List.forall_mem_append

theorem Within.of_subset {s t : Text} (h : t.Within p) (hs : s ⊆ t) : s.Within p :=
  fun c hc => h c (hs hc)

theorem within_ite {q : Prop} [Decidable q] {s t : Text} (hs : s.Within p) (ht : t.Within p) :
    Within p (if q then s else t) := by
  split
  · exact hs
  · exact ht

theorem within_replicate {c : Char} (h : p c = true) (n : Nat) :
    Within p (List.replicate n c) :=
  fun _ hd => List.eq_of_mem_replicate hd ▸ h

theorem within_padLeft {c : Char} {t : Text} (h : p c = true) (ht : t.Within p) (width : Nat) :
    (padLeft width c t).Within p :=
  within_append.2 ⟨within_replicate h _, ht⟩

theorem within_join {sep : Text} {l : List Text} (hsep : sep.Within p)
    (hl : ∀ t ∈ l, t.Within p) : (join sep l).Within p := by
  induction l with
  | nil => exact within_nil
  | cons t l ih =>
    cases l with
    | nil => exact hl t List.mem_cons_self
    | cons u r =>
      rw [List.forall_mem_cons] at hl
      rw [join, within_append, within_append]
      exact ⟨⟨hl.1, hsep⟩, ih hl.2⟩

theorem within_cut (sep : Char) {t : Text} (h : t.Within p) :
    (cut sep t).1.Within p ∧ ((cut sep t).2.getD []).Within p := by
  have happend := cut_fst_append sep t
  rw [← happend, within_append] at h
  refine ⟨h.1, ?_⟩
  cases hr : (cut sep t).2 with
  | none => exact within_nil
  | some r =>
    rw [hr] at h
    exact (within_cons.1 h.2).2

/-! ## Plain texts -/

variable [HasPlain p]

theorem within_of_plain {t : Text} (h : t.Within isPlainChar) : t.Within p :=
  fun c hc => HasPlain.plain c (h c hc)

/-- The texts of a list with plain texts are within the class, whichever of them is taken. -/
theorem within_getD {l : List Text} (h : ∀ t ∈ l, t.Within isPlainChar) (n : Nat) :
    (l.getD n []).Within p := by
  rw [List.getD_eq_getElem?_getD]
  cases hn : l[n]? with
  | none => exact within_nil
  | some t => exact within_of_plain (h t (List.mem_of_getElem? hn))

theorem within_toDigits {b : Nat} (hb : 1 < b) (hb' : b ≤ 16) (n : Nat) :
    Within p (Nat.toDigits b n) := by
  have hall : hexDigits.Within isPlainChar := by decide
  exact within_of_plain fun c hc => hall c (mem_hexDigits_of_mem_toDigits hb hb' hc)

theorem within_ofNat (n : Nat) : (ofNat n).Within p := within_toDigits (by decide) (by decide) n

theorem within_ofNatPadded (width n : Nat) : (ofNatPadded width n).Within p :=
  within_padLeft (HasPlain.plain '0' (by decide)) (within_ofNat n) width

theorem within_ofInt (n : Int) : (ofInt n).Within p := by
  unfold ofInt
  split
  · exact within_cons.2 ⟨HasPlain.plain '-' (by decide), within_ofNat _⟩
  · exact within_ofNat _

end

end Text
end MailMerge
