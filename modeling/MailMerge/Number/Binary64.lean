import MailMerge.Number.Decimal
/-!
# Binary floating-point numbers

Numbers of the format binary64 of IEEE 754: a whole number below 2^53 scaled by a power of two, the
infinities and the value that is no number. Every operation is computed exactly on fractions and
then rounded once, to the nearest number of the format, a tie going to the even mantissa.

Results:
* `ofFraction_zero`: the fraction zero is the number zero.
-/
namespace MailMerge

/-- A number of the format binary64. The value of `finite s m e` is `m * 2 ^ e`, negated for `s`. -/
inductive Binary64 where
  | nan
  | infinite (negative : Bool)
  | finite (negative : Bool) (mantissa : Nat) (exponent : Int)
  deriving DecidableEq, Repr

instance : Inhabited Binary64 := ⟨.nan⟩

namespace Binary64

/-- The smallest exponent of a mantissa. -/
def leastExponent : Int := -1074

/-- The largest exponent of a mantissa. -/
def greatestExponent : Int := 971

/-- Zero with a sign. -/
def zero (negative : Bool) : Binary64 := .finite negative 0 leastExponent

/-- Numerator and denominator of `num / den * base ^ e`. -/
def scaled (base num den : Nat) (e : Int) : Nat × Nat :=
  (num * base ^ e.toNat, den * base ^ (-e).toNat)

/-- The exponent of two at which the quotient of positive numbers has its leading bit. -/
def floorLog2 (num den : Nat) : Int :=
  let k : Int := num.log2 - den.log2
  let (a, b) := scaled 2 num den (-k)
  if a < b then k - 1 else k

/-- The exponent of ten at which the quotient of positive numbers has its leading digit. -/
def floorLog10 (num den : Nat) : Int :=
  let k : Int := Decimal.digitCount num - Decimal.digitCount den
  let (a, b) := scaled 10 num den (-k)
  if a < b then k - 1 else k

/-- The number nearest to a fraction. -/
def ofFraction (negative : Bool) (num den : Nat) : Binary64 :=
  if num = 0 then zero negative
  else
    let e := max (floorLog2 num den - 52) leastExponent
    let (a, b) := scaled 2 num den (-e)
    let m := roundDiv a b .even
    let (m, e) := if 2 ^ 53 ≤ m then (m / 2, e + 1) else (m, e)
    if greatestExponent < e then .infinite negative else .finite negative m e

/-- The number nearest to a decimal number. Far outside the range of the format the size of the
exponent alone decides. -/
def ofDecimal : Decimal → Binary64
  | .finite neg c e =>
    if c = 0 then zero neg
    else if 400 < Decimal.adjusted c e then .infinite neg
    else if Decimal.adjusted c e < -400 then zero neg
    else let (a, b) := scaled 10 c 1 e; ofFraction neg a b
  | .infinite neg => .infinite neg
  | .nan .. => .nan

/-- The number nearest to a whole number. -/
def ofInt (n : Int) : Binary64 := ofFraction (n < 0) n.natAbs 1

/-- Sign, numerator and denominator of a finite number. -/
def fraction? : Binary64 → Option (Bool × Nat × Nat)
  | .finite s m e => let (a, b) := scaled 2 m 1 e; some (s, a, b)
  | _ => none

/-- A signed numerator over the denominator. -/
def signed (s : Bool) (n : Nat) : Int := if s then -(n : Int) else n

/-- The sum. -/
def add : Binary64 → Binary64 → Binary64
  | .nan, _ | _, .nan => .nan
  | .infinite s, .infinite t => if s = t then .infinite s else .nan
  | .infinite s, .finite .. | .finite .., .infinite s => .infinite s
  | .finite s m e, .finite t n f =>
    let low := min e f
    let x := signed s (m * 2 ^ (e - low).toNat) + signed t (n * 2 ^ (f - low).toNat)
    if x = 0 then zero (s && t)
    else let (a, b) := scaled 2 x.natAbs 1 low; ofFraction (x < 0) a b

/-- The product. -/
def mul : Binary64 → Binary64 → Binary64
  | .finite s m e, .finite t n f =>
    let (a, b) := scaled 2 (m * n) 1 (e + f)
    ofFraction (s != t) a b
  | .infinite s, .finite t n _ | .finite t n _, .infinite s =>
    if n = 0 then .nan else .infinite (s != t)
  | .infinite s, .infinite t => .infinite (s != t)
  | .nan, _ | _, .nan => .nan

/-- Whether the first number is below the second; false when one is no number. -/
def lt : Binary64 → Binary64 → Bool
  | .nan, _ | _, .nan => false
  | .infinite s, .infinite t => s && !t
  | .infinite s, .finite .. => s
  | .finite .., .infinite t => !t
  | .finite s m e, .finite t n f =>
    let low := min e f
    signed s (m * 2 ^ (e - low).toNat) < signed t (n * 2 ^ (f - low).toNat)

/-- The whole number nearest to a finite number, a half going to the even one. -/
def round? (x : Binary64) : Option Int :=
  x.fraction?.map fun (s, a, b) => signed s (roundDiv a b .even)

/-- A finite number without the part after the point. -/
def truncate? (x : Binary64) : Option Int := x.fraction?.map fun (s, a, b) => signed s (a / b)

/-- The digits of a positive finite number and the exponent of the first of them: the fewest digits
that name no other number, and of those the nearest. The ends of the interval of numbers that round
to `m * 2 ^ e` belong to it when `m` is even. -/
def shortestDigits (m : Nat) (e : Int) : Nat × Int :=
  let (a, b) := scaled 2 m 1 e
  let p := floorLog10 a b
  let atEdge := m = 2 ^ 52 && leastExponent < e
  let (low, unit) := scaled 2 (if atEdge then 4 * m - 1 else 4 * m - 2) 1 (e - 2)
  let (high, _) := scaled 2 (4 * m + 2) 1 (e - 2)
  let inside (x y : Nat) : Bool :=
    if m % 2 = 0 then low * y ≤ x * unit && x * unit ≤ high * y
    else low * y < x * unit && x * unit < high * y
  let at? (n : Nat) : Option (Nat × Int) :=
    let (num, den) := scaled 10 a b (n - 1 - p)
    let below := num / den
    let point (d : Nat) : Nat × Nat := scaled 10 d 1 (p - (n - 1))
    let hit (d : Nat) : Bool := let (x, y) := point d; inside x y
    match hit below, hit (below + 1) with
    | true, true => some (roundDiv num den .even, p - (n - 1))
    | true, false => some (below, p - (n - 1))
    | false, true => some (below + 1, p - (n - 1))
    | false, false => none
  ((List.range' 1 17).findSome? at?).getD (0, 0)

/-- The digits of a coefficient with the exponent of the first, without zeros at the end. -/
def digitsOf (c : Nat) (e : Int) : Text × Int :=
  let (c, e) := Decimal.normalize c e
  (Text.ofNat c, Decimal.adjusted c e)

/-- Digits with a point after the first and an exponent of at least two digits. -/
def exponentForm (ds : Text) (x : Int) : Text :=
  let mantissa := match ds with
    | [] => []
    | [d] => [d]
    | d :: r => d :: '.' :: r
  mantissa ++ 'e' :: (if x < 0 then '-' else '+') :: Text.ofNatPadded 2 x.natAbs

/-- Digits written positionally, the first standing for its multiple of `10 ^ x`. -/
def positionalForm (ds : Text) (x : Int) : Text :=
  if x < 0 then "0.".toList ++ List.replicate (x.natAbs - 1) '0' ++ ds
  else
    let whole := x.toNat + 1
    if ds.length ≤ whole then Text.padRight whole '0' ds
    else ds.take whole ++ '.' :: ds.drop whole

/-- The written form: the shortest digits that read back, positionally from 10^-4 up to below
10^16 and with a part after the point, otherwise with an exponent. -/
def toText : Binary64 → Text
  | .nan => "nan".toList
  | .infinite s => Decimal.signText s ++ "inf".toList
  | .finite s m e =>
    Decimal.signText s ++
      (if m = 0 then "0.0".toList
       else
        let (c, low) := shortestDigits m e
        let (ds, x) := digitsOf c low
        if -4 ≤ x && x < 16 then
          let t := positionalForm ds x
          if t.contains '.' then t else t ++ ".0".toList
        else exponentForm ds x)

/-- The number rounded to six digits, without zeros at the end: positionally from 10^-4 up to below
10^6, otherwise with an exponent. -/
def toGeneralText : Binary64 → Text
  | .nan => "nan".toList
  | .infinite s => Decimal.signText s ++ "inf".toList
  | .finite s m e =>
    Decimal.signText s ++
      (if m = 0 then "0".toList
       else
        let (a, b) := scaled 2 m 1 e
        let p := floorLog10 a b
        let (num, den) := scaled 10 a b (5 - p)
        let (ds, x) := digitsOf (roundDiv num den .even) (p - 5)
        if -4 ≤ x && x < 6 then positionalForm ds x else exponentForm ds x)

theorem ofFraction_zero (negative : Bool) (den : Nat) :
    ofFraction negative 0 den = zero negative := by simp [ofFraction]

/-- The seconds of an hour. -/
theorem ofInt_hour : ofInt 3600 = .finite false 7916483719987200 (-41) := by decide +kernel

end Binary64
end MailMerge
