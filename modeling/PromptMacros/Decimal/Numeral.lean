import PromptMacros.Decimal.Double

/-!
# Numerals

Decimal numbers as they are written: a sign, digits, digits behind a point, and a power of ten. A numeral is read as a
number of double precision from its leading digits, as many as fit in 64 bits (`Numeral.absorb`); the digits behind them
only count for the size of the number.
-/

namespace PromptMacros

/-- A decimal number as it is written. -/
structure Numeral where
  negative : Bool
  /-- The digits before the point. -/
  whole : List Nat
  /-- The digits behind the point, if there is a point. -/
  fraction : Option (List Nat)
  /-- The power of ten, if one is written. -/
  power : Option Int
  deriving DecidableEq, Repr

namespace Numeral

/-- The greatest number of 64 bits. -/
def maxWord : Nat := Nat.pow 2 64 - 1

/-- The number before the point, without the sign. -/
def wholePart (n : Numeral) : Nat :=
  n.whole.foldl (fun value digit => 10 * value + digit) 0

/-- Whether the numeral is a row of digits, perhaps with a minus sign. -/
def isWhole (n : Numeral) : Bool :=
  n.fraction.isNone && n.power.isNone

/-- Appends digits to a number up to the first that would take it beyond 64 bits: the number, and the digits left. -/
def absorb (value : Nat) : List Nat → Nat × List Nat
  | [] => (value, [])
  | digit :: digits =>
    let next := 10 * value + digit
    if maxWord < next then (value, digit :: digits) else absorb next digits

/-- What digits are absorbed keeps the number within 64 bits. -/
theorem absorb_le_maxWord {value : Nat} (digits : List Nat) (h : value ≤ maxWord) :
    (absorb value digits).1 ≤ maxWord := by
  induction digits generalizing value with
  | nil => exact h
  | cons digit digits ih =>
    simp only [absorb]
    split
    · exact h
    · next hn => exact ih (Nat.le_of_not_lt hn)

/-- The number of double precision that a numeral is read as; none when it is too far from zero. -/
def toDouble? (n : Numeral) : Option Double := do
  let fraction := n.fraction.getD []
  let (leading, wholeLeft) := absorb 0 n.whole
  let (significand, fractionLeft) := absorb leading fraction
  let places : Int := wholeLeft.length - (fraction.length - fractionLeft.length)
  let x ← Double.ofRatio? n.negative significand 1
  x.scale? (n.power.getD 0 + places)

/-- The number of 64 bits without a sign that a numeral is, if it is one. -/
def toWord? (n : Numeral) : Option Nat :=
  if n.isWhole && !n.negative && n.wholePart ≤ maxWord then some n.wholePart else none

end Numeral

end PromptMacros
