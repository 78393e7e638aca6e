import MailMerge.Amount
import MailMerge.Spelling.Words
/-!
# Spelled amounts

The phrase of an amount: the words of its whole part, zero being spelled when there are none, then,
if a fraction remains, the word for the point and the digits of the fraction one by one. Signs are
not spelled. Amounts above `10 ^ 15 - 1` are refused.

The fraction is what is left when the whole part is taken away, calculated with 28 digits, ties
going to the even neighbour, and without zeros at its end.

Section 4.2 of the specification, formatter library: `terbilang` is `spell`, and
`terbilang_iterative` is `spellByGroup`.
-/
namespace MailMerge.Spelling

/-- The greatest amount that is spelled. -/
def maxValue : Nat := 10 ^ 15 - 1

/-- The word for the decimal point. -/
def pointWord : Text := "koma".toList

/-- The digits kept in the calculation of a fraction. -/
def fractionPrecision : Nat := 28

/-- The smallest place of a digit in the calculation of a fraction. -/
def leastFractionPlace : Int := -1000026

/-- Whether the amount, its sign aside, lies above the greatest one that is spelled. -/
def exceeds (a : Amount) : Bool :=
  if a.coefficient = 0 then false
  else if 16 < Decimal.adjusted a.coefficient a.exponent then true
  else if 0 ≤ a.exponent then maxValue < a.coefficient * 10 ^ a.exponent.toNat
  else if Decimal.adjusted a.coefficient a.exponent < 0 then false
  else maxValue * 10 ^ a.exponent.natAbs < a.coefficient

/-- The whole part of an amount and the coefficient of what remains. -/
def splitWhole (a : Amount) : Nat × Nat :=
  if a.coefficient = 0 then (0, 0)
  else if 0 ≤ a.exponent then (a.coefficient * 10 ^ a.exponent.toNat, 0)
  else if Decimal.digitCount a.coefficient < a.exponent.natAbs then (0, a.coefficient)
  else (a.coefficient / 10 ^ a.exponent.natAbs, a.coefficient % 10 ^ a.exponent.natAbs)

/-- The digits after the point for what remains of an amount. -/
def fractionDigits (rest : Nat) (exponent : Int) : Text :=
  if rest = 0 then []
  else
    let (c, e) := Decimal.roundTo fractionPrecision leastFractionPlace rest exponent
    let (c, e) := Decimal.normalize c e
    Text.padLeft (-e).toNat '0' (Text.ofNat c)

/-- The whole part of a value and the digits of its fraction. -/
def parts (v : Value) : Except AmountError (Nat × Text) := do
  let a ← Amount.ofValue v
  if exceeds a then .error (.tooLarge v)
  else
    let (whole, rest) := splitWhole a
    pure (whole, fractionDigits rest a.exponent)

/-- The phrase of the words of a whole number and the digits of a fraction. -/
def phrase (whole : List Text) (fraction : Text) : Text :=
  let front := if whole.isEmpty then [zeroWord] else whole
  let back := if fraction.isEmpty then []
    else pointWord :: fraction.map fun c => digitWord (c.toNat - '0'.toNat)
  Text.join [' '] (front ++ back)

/-- The value in words. -/
def spell (v : Value) : Except AmountError Text :=
  (parts v).map fun (n, f) => phrase (words n) f

/-- The value in words, its whole part spelled group by group. -/
def spellByGroup (v : Value) : Except AmountError Text :=
  (parts v).map fun (n, f) => phrase (wordsByGroup n) f

end MailMerge.Spelling
