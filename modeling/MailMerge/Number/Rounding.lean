/-!
# Rounding of quotients

One way of rounding `num / den` to a whole number, with the two rules for ties that the library
needs: a half goes away from zero, or a half goes to the even neighbour.

Results:
* `roundDiv_dist`: the rounded quotient is never more than half a unit away.
* `roundDiv_of_dvd`: a quotient that is whole is not changed.
-/
namespace MailMerge

-- Powers of numbers are those of the core library, whatever else is imported.
attribute [instance (2000), default_instance 20000] instPowNat

/-- Where a number halfway between two neighbours goes. -/
inductive Tie where
  | up
  | even
  deriving DecidableEq, Repr

/-- The whole number nearest to `num / den`. -/
def roundDiv (num den : Nat) (tie : Tie) : Nat :=
  let q := num / den
  let r := num % den
  if 2 * r < den then q
  else if den < 2 * r then q + 1
  else match tie with
    | .up => q + 1
    | .even => if q % 2 = 0 then q else q + 1

/-- Twice the distance to the quotient is at most one unit. -/
theorem roundDiv_dist (num den : Nat) (tie : Tie) (h : 0 < den) :
    2 * num ≤ 2 * den * roundDiv num den tie + den ∧
      2 * den * roundDiv num den tie ≤ 2 * num + den := by
  have hd := Nat.div_add_mod num den
  have hm := Nat.mod_lt num h
  have key : ∀ q, 2 * den * q = 2 * (den * q) := fun q => Nat.mul_assoc 2 den q
  have succ : den * (num / den + 1) = den * (num / den) + den := Nat.mul_succ _ _
  cases tie <;> simp only [roundDiv, key] <;> repeat' split
  all_goals
    try rw [succ]
    omega

theorem roundDiv_of_dvd {num den : Nat} (tie : Tie) (h : 0 < den) (hd : den ∣ num) :
    roundDiv num den tie = num / den := by
  simp [roundDiv, Nat.mod_eq_zero_of_dvd hd, h]

end MailMerge
