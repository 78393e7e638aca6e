import MailMerge.Number.Rounding
import MailMerge.Text.Basic
/-!
# Number words

Whole numbers in Indonesian words. Ten, eleven and one hundred have words of their own, so has one
thousand; from twelve to nineteen the word `belas` follows the unit. Larger numbers name groups of
three digits: thousands, millions, milliards and billions.

Numbers are spelled twice. `words` peels off the largest part that has a name and spells the parts
by itself; `wordsByGroup` goes through the groups of three digits once, from the left.

Section 4.2 of the specification, formatter library: the bands of `terbilang` and the groups of
`terbilang_iterative`.
-/
namespace MailMerge.Spelling

/-- The words of the numbers below twelve; zero has none within a larger number. -/
def smallWords : List Text := ["", "satu", "dua", "tiga", "empat", "lima", "enam", "tujuh",
  "delapan", "sembilan", "sepuluh", "sebelas"].map String.toList

/-- The word of a number below twelve. -/
def smallWord (n : Nat) : Text := smallWords.getD n []

/-- The word for zero. -/
def zeroWord : Text := "nol".toList

/-- The word of a digit read by itself. -/
def digitWord (d : Nat) : Text := if d = 0 then zeroWord else smallWord d

/-- The words of a number, none for zero. -/
def words (n : Nat) : List Text :=
  if n = 0 then []
  else if n < 12 then [smallWord n]
  else if n < 20 then words (n - 10) ++ ["belas".toList]
  else if n < 100 then words (n / 10) ++ "puluh".toList :: words (n % 10)
  else if n < 200 then "seratus".toList :: words (n - 100)
  else if n < 1000 then words (n / 100) ++ "ratus".toList :: words (n % 100)
  else if n < 2000 then "seribu".toList :: words (n - 1000)
  else if n < 10 ^ 6 then words (n / 10 ^ 3) ++ "ribu".toList :: words (n % 10 ^ 3)
  else if n < 10 ^ 9 then words (n / 10 ^ 6) ++ "juta".toList :: words (n % 10 ^ 6)
  else if n < 10 ^ 12 then words (n / 10 ^ 9) ++ "milyar".toList :: words (n % 10 ^ 9)
  else words (n / 10 ^ 12) ++ "trilyun".toList :: words (n % 10 ^ 12)
termination_by n
decreasing_by all_goals omega

/-- The words of a number below one thousand, without recursion. -/
def belowThousand (n : Nat) : List Text :=
  let h := n / 100
  let rest := n % 100
  (if h = 1 then ["seratus".toList] else if 1 < h then [smallWord h, "ratus".toList] else []) ++
    (if 20 ≤ rest then
      [smallWord (rest / 10), "puluh".toList] ++
        (if rest % 10 = 0 then [] else [smallWord (rest % 10)])
     else if 12 ≤ rest then [smallWord (rest - 10), "belas".toList]
     else if rest = 0 then [] else [smallWord rest])

/-- The groups of three digits with their words, largest first. -/
def groups : List (Nat × Text) :=
  [(10 ^ 12, "trilyun".toList), (10 ^ 9, "milyar".toList), (10 ^ 6, "juta".toList),
    (10 ^ 3, "ribu".toList), (1, [])]

/-- The words of one group, `g` being the number of its units. -/
def groupWords (g : Nat) (name : Text) : List Text :=
  if g = 0 then []
  else if name = "ribu".toList && g = 1 then ["seribu".toList]
  else belowThousand g ++ (if name.isEmpty then [] else [name])

/-- The words of the groups from the left. -/
def wordsOfGroups : List (Nat × Text) → Nat → List Text
  | [], _ => []
  | (unit, name) :: r, n => groupWords (n / unit) name ++ wordsOfGroups r (n % unit)

/-- The words of a number, group by group. -/
def wordsByGroup (n : Nat) : List Text := wordsOfGroups groups n

end MailMerge.Spelling
