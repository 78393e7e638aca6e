/-!
# Text

Text is a list of characters. This module holds the few operations on it that the rest of the
library shares: cutting at a character, joining, trimming, padding, and the decimal digits of a
number.

Results:
* `join_splitOn`: joining the pieces of a text with the character it was cut at gives it back.
* `cut_fst_append`: cutting at the first occurrence of a character loses only that character.
-/
namespace MailMerge

/-- A text: its characters in order. -/
abbrev Text := List Char

instance : LawfulBEq Text := inferInstanceAs (LawfulBEq (List Char))

namespace Text

/-- The part before the first `sep`, and the part after it when there is one. -/
def cut (sep : Char) : Text → Text × Option Text
  | [] => ([], none)
  | c :: r => if c = sep then ([], some r) else ((c :: (cut sep r).1), (cut sep r).2)

/-- The pieces between the occurrences of `sep`; there is always at least one. -/
def splitOn (sep : Char) : Text → List Text
  | [] => [[]]
  | c :: r =>
    if c = sep then [] :: splitOn sep r
    else match splitOn sep r with
      | [] => [[c]]
      | p :: ps => (c :: p) :: ps

/-- The texts of a list with `sep` between each two neighbours. -/
def join (sep : Text) : List Text → Text
  | [] => []
  | [t] => t
  | t :: u :: r => t ++ sep ++ join sep (u :: r)

/-- The text without the characters of a class at its end. -/
def trimRight (p : Char → Bool) (t : Text) : Text := (t.reverse.dropWhile p).reverse

/-- The text without the characters of a class at both ends. -/
def trimBy (p : Char → Bool) (t : Text) : Text := trimRight p (t.dropWhile p)

/-- The text filled with `c` on the left up to `width` characters. -/
def padLeft (width : Nat) (c : Char) (t : Text) : Text := List.replicate (width - t.length) c ++ t

/-- The text filled with `c` on the right up to `width` characters. -/
def padRight (width : Nat) (c : Char) (t : Text) : Text := t ++ List.replicate (width - t.length) c

/-- The decimal digits of a number, without a leading zero. -/
def ofNat (n : Nat) : Text := Nat.toDigits 10 n

/-- The decimal digits of a number, with a minus sign when it is negative. -/
def ofInt (n : Int) : Text := if n < 0 then '-' :: ofNat n.natAbs else ofNat n.natAbs

/-- The digits of a number, filled with zeros up to `width`. -/
def ofNatPadded (width n : Nat) : Text := padLeft width '0' (ofNat n)

/-- The text without `pre` in front, when it begins with it. -/
def dropStart? (pre : Text) (t : Text) : Option Text :=
  if pre.isPrefixOf t then some (t.drop pre.length) else none

/-- Whether the text ends in `tail`. -/
def endsIn (tail t : Text) : Bool := tail.isSuffixOf t

/-- The number of bytes of the text in UTF-8. -/
def byteLength : Text → Nat
  | [] => 0
  | c :: r => c.utf8Size + byteLength r

theorem cut_fst_append (sep : Char) (t : Text) :
    (cut sep t).1 ++ ((cut sep t).2.elim [] (sep :: ·)) = t := by
  induction t with
  | nil => rfl
  | cons c r ih => by_cases h : c = sep <;> simp_all [cut]

theorem splitOn_ne_nil (sep : Char) (t : Text) : splitOn sep t ≠ [] := by
  cases t with
  | nil => simp [splitOn]
  | cons c r =>
    unfold splitOn
    split
    · simp
    · split <;> simp

theorem join_cons_of_ne_nil (sep p : Text) {ps : List Text} (h : ps ≠ []) :
    join sep (p :: ps) = p ++ sep ++ join sep ps := by
  cases ps with
  | nil => exact absurd rfl h
  | cons q qs => rfl

theorem join_splitOn (sep : Char) (t : Text) : join [sep] (splitOn sep t) = t := by
  induction t with
  | nil => rfl
  | cons c r ih =>
    have hne := splitOn_ne_nil sep r
    by_cases h : c = sep
    · simp [splitOn, h, join_cons_of_ne_nil _ _ hne, ih]
    · unfold splitOn
      rw [if_neg h]
      match hs : splitOn sep r with
      | [] => exact absurd hs hne
      | [p] => simpa [hs, join] using ih
      | p :: q :: ps => rw [hs] at ih; simp [join] at ih ⊢; exact ih

end Text
end MailMerge
