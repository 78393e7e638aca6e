import MailMerge.Number.Rounding
import MailMerge.Text.Blank
import MailMerge.Text.Digit
/-!
# Decimal numbers

A decimal is a coefficient scaled by a power of ten, or one of the special values. Reading follows
the numeric strings of the General Decimal Arithmetic specification, with two freedoms: low lines
are skipped, and the digits of any script count. The exponent of a number that can be held exactly
is bounded; a text outside the bounds is no number.
-/
namespace MailMerge

/-- A decimal number or a special value. -/
inductive Decimal where
  | finite (negative : Bool) (coefficient : Nat) (exponent : Int)
  | infinite (negative : Bool)
  | nan (negative signaling : Bool) (payload : Nat)
  deriving DecidableEq, Repr

namespace Decimal

/-- The largest exponent of a leading digit. -/
def maxExponent : Int := 999999999999999999

/-- The smallest exponent of a trailing digit. -/
def minExponent : Int := -1999999999999999997

/-- The number of digits of a coefficient. -/
def digitCount (c : Nat) : Nat := (Text.ofNat c).length

theorem lt_pow_digitCount (n : Nat) : n < 10 ^ digitCount n := by
  have hpos : 0 < digitCount n := Nat.length_toDigits_pos
  exact (Nat.length_toDigits_le_iff (by decide) hpos).1 (Nat.le_refl _)

theorem digitCount_le_of_lt_pow {c k : Nat} (hk : 0 < k) (h : c < 10 ^ k) : digitCount c ≤ k :=
  (Nat.length_toDigits_le_iff (by decide) hk).2 h

theorem pow_le_of_lt_digitCount {c k : Nat} (hc : 0 < c) (h : k < digitCount c) : 10 ^ k ≤ c := by
  by_cases hk : k = 0
  · rw [hk]
    exact hc
  · exact Nat.not_lt.1 fun hlt =>
      Nat.not_le.2 h (digitCount_le_of_lt_pow (Nat.pos_of_ne_zero hk) hlt)

/-- The exponent of the leading digit. -/
def adjusted (c : Nat) (e : Int) : Int := e + digitCount c - 1

/-- The text as a numeral in plain digits: blanks at the ends and low lines are dropped, digits of
any script become plain ones; no other character outside the basic range may occur. -/
def plainNumeral? (t : Text) : Option Text :=
  (t.trim.filter (· != '_')).mapM fun c =>
    if 0 < c.toNat && c.toNat < 128 then some c
    else if isBlank c then some ' '
    else (digitValue? c).map Nat.digitChar

/-- The sign in front of a numeral and what follows it. -/
def splitSign : Text → Bool × Text
  | '-' :: r => (true, r)
  | '+' :: r => (false, r)
  | t => (false, t)

/-- The value of a non-empty text of plain digits. -/
def digits? (t : Text) : Option Nat :=
  if !t.isEmpty && t.all Char.isDigit then some (Nat.ofDigitChars 10 t 0) else none

/-- The number after the exponent sign. -/
def exponent? (t : Text) : Option Int :=
  let (neg, ds) := splitSign t
  (digits? ds).map fun n => if neg then -(n : Int) else n

/-- A number, exponent included, without its sign. -/
def unsigned? (neg : Bool) (t : Text) : Option Decimal := do
  let mantissa := t.takeWhile fun c => c != 'e' && c != 'E'
  let e ← match t.dropWhile fun c => c != 'e' && c != 'E' with
    | [] => some 0
    | _ :: r => exponent? r
  let (whole, part) := Text.cut '.' mantissa
  let part := part.getD []
  let c ← digits? (whole ++ part)
  let e := e - part.length
  if e < minExponent then none
  else if c = 0 then (if maxExponent < e then none else some (.finite neg 0 e))
  else if maxExponent < adjusted c e then none
  else some (.finite neg c e)

/-- The diagnostic digits after a special value that is not a number. -/
def payload? (t : Text) : Option Nat := if t.isEmpty then some 0 else digits? t

/-- The number that a text writes, if it writes one. -/
def ofText? (t : Text) : Option Decimal := do
  let plain ← plainNumeral? t
  let (neg, r) := splitSign plain
  let low := r.map Char.toLower
  if low = "inf".toList || low = "infinity".toList then some (.infinite neg)
  else match Text.dropStart? "nan".toList low, Text.dropStart? "snan".toList low with
    | some p, _ => (payload? p).map (.nan neg false)
    | none, some p => (payload? p).map (.nan neg true)
    | none, none => unsigned? neg r

/-- Whether the value is a number and not special. -/
def isFinite : Decimal → Bool
  | .finite .. => true
  | _ => false

/-- Sign in front of a written number. -/
def signText (neg : Bool) : Text := if neg then ['-'] else []

/-- The digits `c` with the point `e` digits to the left of their end. -/
def fixedText (c : Nat) (places : Nat) : Text :=
  let ds := Text.padLeft (places + 1) '0' (Text.ofNat c)
  if places = 0 then ds else ds.take (ds.length - places) ++ '.' :: ds.drop (ds.length - places)

/-- An exponent with its sign. -/
def exponentText (e : Int) : Text :=
  'E' :: (if e < 0 then '-' else '+') :: Text.ofNat e.natAbs

/-- A finite number in scientific notation, unless its exponent is at most zero and its leading
digit stands no further right than the sixth place after the point. -/
def toScientific (c : Nat) (e : Int) : Text :=
  let ds := Text.ofNat c
  if e ≤ 0 && -6 ≤ adjusted c e then fixedText c e.natAbs
  else match ds with
    | [d] => d :: exponentText (adjusted c e)
    | d :: r => d :: '.' :: r ++ exponentText (adjusted c e)
    | [] => []

/-- The written form of a decimal. -/
def toText : Decimal → Text
  | .finite neg c e => signText neg ++ toScientific c e
  | .infinite neg => signText neg ++ "Infinity".toList
  | .nan neg signaling p =>
    signText neg ++ (if signaling then "sNaN".toList else "NaN".toList) ++
      (if p = 0 then [] else Text.ofNat p)

/-- The coefficient and exponent with at most `precision` digits and no digit below `least`, a half
going to the even neighbour. -/
def roundTo (precision : Nat) (least : Int) (c : Nat) (e : Int) : Nat × Int :=
  let target := max (e + ((digitCount c - precision : Nat) : Int)) least
  let drop := (target - e).toNat
  if drop = 0 then (c, e)
  else if digitCount c < drop then (0, target)
  else
    let q := roundDiv c (10 ^ drop) .even
    if precision < digitCount q then (q / 10, target + 1) else (q, target)

/-- The same number with no zero at the end of its coefficient. -/
def stripZeros : Nat → Nat → Int → Nat × Int
  | 0, c, e => (c, e)
  | fuel + 1, c, e => if c % 10 = 0 then stripZeros fuel (c / 10) (e + 1) else (c, e)

/-- The same number with the shortest coefficient; zero has exponent zero. -/
def normalize (c : Nat) (e : Int) : Nat × Int :=
  if c = 0 then (0, 0) else stripZeros (digitCount c) c e

end Decimal
end MailMerge
