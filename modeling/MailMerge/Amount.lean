import MailMerge.Value
/-!
# Amounts

Numbers as they are printed in documents: rounded to a number of places with ties going away from
zero, the digits of the whole part in groups of three.

An amount is read from the written form of any value but a truth value. A rounded number may not
have its leading digit beyond the place 999999, and the digits needed for rounding are counted in
whole numbers of a bounded size.

Section 4.2 of the specification, formatter library: `format_number` and `format_money`.

Results:
* `groupDigits_flatten`: grouping loses no digit.
-/
namespace MailMerge

/-- Why a value is no amount, or no amount that can be printed. -/
inductive AmountError where
  | notNumeric (v : Value)
  | notFinite (v : Value)
  | tooLarge (v : Value)
  | unprintable (v : Value)
  | tooPrecise
  deriving Repr

/-- The message for a whole number with too many digits to be written. -/
def unwritableMessage : Text :=
  ("Exceeds the limit (4300 digits) for integer string conversion; " ++
    "use sys.set_int_max_str_digits() to increase the limit").toList

namespace AmountError

/-- A message that quotes a value; a value without a written form takes the message's place. -/
def about (what : String) (v : Value) : Text :=
  match v.shown? with
  | some t => what.toList ++ t
  | none => unwritableMessage

/-- What is said about the error. -/
def message : AmountError → Text
  | .notNumeric v => about "not a number: " v
  | .notFinite v => about "not a finite number: " v
  | .tooLarge v => about "number too large for terbilang: " v
  | .unprintable v => about "cannot format " v
  | .tooPrecise => "valid range for prec is [1, MAX_PREC]".toList

end AmountError

/-- A finite decimal number. -/
structure Amount where
  negative : Bool
  coefficient : Nat
  exponent : Int
  deriving DecidableEq, Repr

namespace Amount

/-- The decimal number of an amount. -/
def toDecimal (a : Amount) : Decimal := .finite a.negative a.coefficient a.exponent

/-- The amount that a value writes. -/
def ofValue (v : Value) : Except AmountError Amount :=
  let number? := match v with
    | .bool _ => none
    | v => v.plain?.bind Decimal.ofText?
  match number? with
  | none => .error (.notNumeric v)
  | some (.finite s c e) => .ok ⟨s, c, e⟩
  | some _ => .error (.notFinite v)

/-- The greatest place of a leading digit in a rounded number. -/
def greatestPlace : Int := 999999

/-- The greatest number of digits a calculation may ask for. -/
def greatestPrecision : Int := 999999999999999999

/-- The greatest number of places after the point. -/
def maxPlaces : Nat := 20

/-- The number of places to print for the number asked for. -/
def clampPlaces (n : Int) : Nat := (min (max n 0) maxPlaces).toNat

theorem clampPlaces_le (n : Int) : clampPlaces n ≤ maxPlaces := by
  simp only [clampPlaces, maxPlaces]
  omega

/-- The digits of the amount in units of `10 ^ -places`, ties going away from zero. -/
def roundedDigits (a : Amount) (places : Nat) : Text :=
  let shift := a.exponent + places
  if a.coefficient = 0 then ['0']
  else if 0 ≤ shift then Text.ofNat a.coefficient ++ List.replicate shift.toNat '0'
  else if Decimal.digitCount a.coefficient < shift.natAbs then ['0']
  else Text.ofNat (roundDiv a.coefficient (10 ^ shift.natAbs) .up)

/-- The digits in groups of three. -/
def threes : Text → List Text
  | a :: b :: c :: r => [a, b, c] :: threes r
  | [] => []
  | r => [r]

/-- The digits in groups of three counted from the right, the first group having one to three. -/
def groupDigits (ds : Text) : List Text :=
  let first := (ds.length - 1) % 3 + 1
  ds.take first :: threes (ds.drop first)

/-- How numbers are printed. -/
structure Style where
  places : Int := 0
  point : Text := [',']
  groupSep : Text := ['.']

/-- The amount in the given style, or nothing when its leading digit stands too far left. -/
def print? (style : Style) (a : Amount) : Option Text :=
  let places := clampPlaces style.places
  if a.coefficient ≠ 0 && greatestPlace < Decimal.adjusted a.coefficient a.exponent then none
  else
    let ds := Text.padLeft (places + 1) '0' (roundedDigits a places)
    if greatestPlace < (ds.length : Int) - 1 - places then none
    else
      let isZero := ds.all (· == '0')
      let whole := ds.take (ds.length - places)
      let part := ds.drop (ds.length - places)
      some ((if a.negative && !isZero then ['-'] else []) ++
        Text.join style.groupSep (groupDigits whole) ++
        (if places = 0 then [] else style.point ++ part))

/-- The value printed as a number. -/
def format (style : Style) (v : Value) : Except AmountError Text := do
  let a ← ofValue v
  let place := Decimal.adjusted a.coefficient a.exponent
  if greatestPrecision < place + clampPlaces style.places + 3 then .error .tooPrecise
  else match a.print? style with
    | some t => .ok t
    | none => .error (.unprintable v)

/-- The value printed as money: two places after the currency, if there is one. -/
def formatMoney (currency : Text) (v : Value) : Except AmountError Text := do
  let t ← format { places := 2 } v
  pure (if currency.isEmpty then t else currency ++ ' ' :: t)

theorem threes_flatten (t : Text) : (threes t).flatten = t := by
  fun_induction threes t with
  | case1 a b c r ih => simp [ih]
  | case2 => rfl
  | case3 r => simp

theorem groupDigits_flatten (ds : Text) : (groupDigits ds).flatten = ds := by
  simp [groupDigits, threes_flatten]

end Amount
end MailMerge
