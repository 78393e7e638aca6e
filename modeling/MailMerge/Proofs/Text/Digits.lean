import MailMerge.Text.Blank
import MailMerge.Text.Digit
/-!
# Characters of numerals

Numerals of bases up to sixteen, filled with zeros or not, are made of hexadecimal digits, and a filled
numeral tells its number (`padLeft_toDigits_inj`). No digit of any script is a blank.

* `code_of_isAlphanum`: the codes of letters and digits.
-/
namespace MailMerge

/-- The code points of the blanks. -/
def blankCodes : List Nat :=
  [9, 10, 11, 12, 13, 28, 29, 30, 31, 32, 0x85, 0xA0, 0x1680, 0x2000, 0x2001, 0x2002, 0x2003, 0x2004,
    0x2005, 0x2006, 0x2007, 0x2008, 0x2009, 0x200A, 0x2028, 0x2029, 0x202F, 0x205F, 0x3000]

theorem isBlank_of_isDigitLike {c : Char} (h : isDigitLike c = true) : isBlank c = false := by
  refine Bool.eq_false_iff.2 fun hblank => ?_
  have hcode : c.toNat ∈ blankCodes := by
    simp [isBlank, blankCodes] at hblank ⊢
    omega
  have hall : ∀ n ∈ blankCodes, isDigitLike (Char.ofNat n) = false := by decide
  have := hall _ hcode
  rw [Char.ofNat_toNat, h] at this
  cases this

/-- Letters and digits have codes in three ranges. -/
theorem code_of_isAlphanum {c : Char} (h : c.isAlphanum = true) :
    (65 ≤ c.toNat ∧ c.toNat ≤ 90 ∨ 97 ≤ c.toNat ∧ c.toNat ≤ 122) ∨
      48 ≤ c.toNat ∧ c.toNat ≤ 57 := by
  delta Char.isAlphanum Char.isAlpha Char.isUpper Char.isLower Char.isDigit at h
  simpa [UInt32.le_iff_toNat_le] using h

namespace Text

/-- The digits of base sixteen. -/
def hexDigits : Text := "0123456789abcdef".toList

theorem digitChar_mem_hexDigits {n : Nat} (h : n < 16) : Nat.digitChar n ∈ hexDigits := by
  have hall : ∀ n : Fin 16, Nat.digitChar n ∈ hexDigits := by decide
  exact hall ⟨n, h⟩

theorem mem_hexDigits_of_mem_toDigits {b n : Nat} (hb : 1 < b) (hb' : b ≤ 16) {c : Char}
    (h : c ∈ Nat.toDigits b n) : c ∈ hexDigits := by
  induction n using Nat.strongRecOn with
  | ind n ih =>
    rw [Nat.toDigits_eq_if hb] at h
    split at h
    · rw [List.mem_singleton.1 h]
      exact digitChar_mem_hexDigits (by omega)
    · rename_i hn
      rcases List.mem_append.1 h with h | h
      · exact ih (n / b) (Nat.div_lt_self (by omega) hb) h
      · rw [List.mem_singleton.1 h]
        exact digitChar_mem_hexDigits (Nat.lt_of_lt_of_le (Nat.mod_lt n (by omega)) hb')

theorem mem_hexDigits_of_mem_padLeft {width b n : Nat} (hb : 1 < b) (hb' : b ≤ 16) {c : Char}
    (h : c ∈ padLeft width '0' (Nat.toDigits b n)) : c ∈ hexDigits := by
  rcases List.mem_append.1 h with h | h
  · rw [List.eq_of_mem_replicate h]
    decide
  · exact mem_hexDigits_of_mem_toDigits hb hb' h

theorem mem_hexDigits_of_mem_ofNatPadded {width n : Nat} {c : Char} (h : c ∈ ofNatPadded width n) :
    c ∈ hexDigits :=
  mem_hexDigits_of_mem_padLeft (by decide) (by decide) h

/-! ## Reading numerals -/

/-- The value of a digit of base sixteen. -/
def digitValue (c : Char) : Nat := hexDigits.idxOf c

/-- The number that a numeral tells in a base. -/
def readDigits (b : Nat) (t : Text) : Nat := t.foldl (fun n c => n * b + digitValue c) 0

theorem digitValue_digitChar {n : Nat} (h : n < 16) : digitValue (Nat.digitChar n) = n := by
  have hall : ∀ n : Fin 16, digitValue (Nat.digitChar n) = n := by decide
  exact hall ⟨n, h⟩

theorem readDigits_toDigits {b n : Nat} (hb : 1 < b) (hb' : b ≤ 16) :
    readDigits b (Nat.toDigits b n) = n := by
  induction n using Nat.strongRecOn with
  | ind n ih =>
    rw [Nat.toDigits_eq_if hb]
    split
    · rename_i hn
      show 0 * b + digitValue (Nat.digitChar n) = n
      rw [digitValue_digitChar (by omega), Nat.zero_mul, Nat.zero_add]
    · rename_i hn
      have hlast : n % b < 16 := Nat.lt_of_lt_of_le (Nat.mod_lt n (by omega)) hb'
      have hinit := ih (n / b) (Nat.div_lt_self (by omega) hb)
      unfold readDigits at hinit ⊢
      rw [List.foldl_append, hinit]
      show n / b * b + digitValue (Nat.digitChar (n % b)) = n
      rw [digitValue_digitChar hlast, Nat.div_add_mod']

theorem readDigits_padLeft (width b : Nat) (t : Text) :
    readDigits b (padLeft width '0' t) = readDigits b t := by
  have hzeros : ∀ k, (List.replicate k '0').foldl (fun n c => n * b + digitValue c) 0 = 0 := by
    intro k
    induction k with
    | zero => rfl
    | succ k ih =>
      rw [List.replicate_succ, List.foldl_cons]
      show (List.replicate k '0').foldl _ (0 * b + 0) = 0
      rw [Nat.zero_mul]
      exact ih
  unfold readDigits padLeft
  rw [List.foldl_append, hzeros]

/-- Numerals filled with zeros tell their numbers. -/
theorem padLeft_toDigits_inj {width b m n : Nat} (hb : 1 < b) (hb' : b ≤ 16)
    (h : padLeft width '0' (Nat.toDigits b m) = padLeft width '0' (Nat.toDigits b n)) : m = n := by
  have hread := congrArg (readDigits b) h
  rwa [readDigits_padLeft, readDigits_padLeft, readDigits_toDigits hb hb',
    readDigits_toDigits hb hb'] at hread

end Text
end MailMerge
