/-!
# Numbers of double precision

The finite binary numbers with 53 bits of precision, as a sign, a significand and a power of two, and the nearest of them
to a ratio (`Double.ofRatio?`): a tie goes to the even significand, and a ratio beyond the largest number has none.
Rounding a ratio to a whole number is off by at most a half (`roundDiv_spec`).
-/

namespace PromptMacros

/-- The whole number nearest to `num / den`; a half goes to the even neighbour. -/
def roundDiv (num den : Nat) : Nat :=
  let quotient := num / den
  let twice := 2 * (num % den)
  if twice < den ∨ twice = den ∧ quotient % 2 = 0 then quotient else quotient + 1

/-- The rounded quotient is off by at most a half. -/
theorem roundDiv_spec {num den : Nat} (h : 0 < den) :
    2 * num ≤ (2 * roundDiv num den + 1) * den ∧ 2 * roundDiv num den * den ≤ 2 * num + den := by
  have hdiv := Nat.div_add_mod num den
  have hmod := Nat.mod_lt num h
  have hcomm : den * (num / den) = num / den * den := Nat.mul_comm _ _
  simp only [roundDiv]
  split
  · constructor <;> simp only [Nat.add_mul, Nat.mul_assoc, Nat.one_mul] <;> omega
  · constructor <;> simp only [Nat.mul_add, Nat.add_mul, Nat.mul_assoc, Nat.one_mul, Nat.mul_one] <;> omega

/-- A finite number of double precision, `significand * 2 ^ exponent` with its sign. -/
structure Double where
  negative : Bool
  significand : Nat
  exponent : Int
  deriving DecidableEq, Repr

namespace Double

/-- The least exponent, that of the numbers nearest to zero. -/
def minExponent : Int := -1074

/-- The greatest exponent, that of the numbers farthest from zero. -/
def maxExponent : Int := 971

/-- The significand of the numbers just above a power of two. -/
def leadingBit : Nat := Nat.pow 2 52

/-- Zero, with its sign. -/
def zero (negative : Bool) : Double :=
  ⟨negative, 0, minExponent⟩

/-- A power of two as a ratio, without a negative exponent. -/
def twoPow (e : Int) : Nat × Nat :=
  (Nat.pow 2 e.toNat, Nat.pow 2 (-e).toNat)

/-- The power of two at or below a ratio of positive numbers. -/
def log2Ratio (num den : Nat) : Int :=
  let e := (num.log2 : Int) - den.log2
  let (up, down) := twoPow e
  if num * down < den * up then e - 1 else e

/-- The number nearest to `num / den` with this sign; none when that is too far from zero. -/
def ofRatio? (negative : Bool) (num den : Nat) : Option Double :=
  if num = 0 then some (zero negative)
  else
    let exponent := max (log2Ratio num den - 52) minExponent
    let (up, down) := twoPow exponent
    let significand := roundDiv (num * down) (den * up)
    let x : Double :=
      if significand = 2 * leadingBit then ⟨negative, leadingBit, exponent + 1⟩ else ⟨negative, significand, exponent⟩
    if maxExponent < x.exponent then none else some x

/-- The size of a number as a ratio. -/
def ratio (x : Double) : Nat × Nat :=
  let (up, down) := twoPow x.exponent
  (x.significand * up, down)

/-- The product of two numbers, rounded; none when it is too far from zero. -/
def mul? (x y : Double) : Option Double :=
  let (a, b) := x.ratio
  let (c, d) := y.ratio
  ofRatio? (x.negative != y.negative) (a * c) (b * d)

/-- The quotient of two numbers, the second not zero, rounded; none when it is too far from zero. -/
def div? (x y : Double) : Option Double :=
  let (a, b) := x.ratio
  let (c, d) := y.ratio
  ofRatio? (x.negative != y.negative) (a * d) (b * c)

/-- Ten to a power, rounded; none when it is too far from zero. -/
def tenPow? (n : Nat) : Option Double :=
  ofRatio? false (Nat.pow 10 n) 1

/-- The number times ten to a power, by one rounded product or quotient when the power of ten is itself a number of
double precision, and else by quotients in steps; none when the result is too far from zero. -/
def scale? (x : Double) (power : Int) : Option Double :=
  if x.significand = 0 then some x
  else if power < -308 then do
    let step ← tenPow? 308
    let y ← x.div? step
    y.scale? (power + 308)
  else if 308 < power then none
  else if 0 ≤ power then do
    let step ← tenPow? power.toNat
    x.mul? step
  else do
    let step ← tenPow? (-power).toNat
    x.div? step
termination_by power.natAbs
decreasing_by omega

end Double

end PromptMacros
