import PromptMacros.Decimal.Double

/-!
# Shortest decimals

The decimal with the fewest digits among those that lie nearer to a number of double precision than to any other; of
several the nearest to the number, and of two equally near the one with the even last digit. A decimal is written plainly,
with at least one digit behind the point, or as a digit, more digits behind a point and a power of ten; `DecimalStyle`
tells where the one ends and the other starts.
-/

namespace PromptMacros

/-- The decimal `digits * 10 ^ exponent`. -/
structure Decimal where
  digits : Nat
  exponent : Int
  deriving DecidableEq, Repr

/-- The number of digits of a number; none for zero. -/
def digitCount (n : Nat) : Nat :=
  if n = 0 then 0 else (Nat.toDigits 10 n).length

/-- The power of ten at or below a ratio of positive numbers. -/
def log10Ratio (num den : Nat) : Int :=
  if den ≤ num then (digitCount (num / den) : Int) - 1 else -(digitCount ((den - 1) / num) : Int)

namespace Double

/-- The decimals with the given power of ten as a unit that lie nearer to the number than to any other, at most the two
next to it: the nearer one. Sizes are counted in quarters of the number's last bit. -/
def nearestOnGrid? (x : Double) (unit : Int) : Option Decimal :=
  let (up, down) := twoPow (x.exponent - 2)
  let size := up * Nat.pow 10 (-unit).toNat
  let step := down * Nat.pow 10 unit.toNat
  let value := 4 * x.significand * size
  let low := value - (if x.significand = leadingBit ∧ minExponent < x.exponent then 1 else 2) * size
  let high := value + 2 * size
  let within (n : Nat) : Bool :=
    if x.significand % 2 = 0 then low ≤ n * step && n * step ≤ high else low < n * step && n * step < high
  let below := value / step
  let lack := value - below * step
  let excess := (below + 1) * step - value
  if within below && (!within (below + 1) || lack < excess || (lack == excess && below % 2 == 0)) then
    some ⟨below, unit⟩
  else if within (below + 1) then some ⟨below + 1, unit⟩
  else none

/-- The shortest decimal of a number that is not zero. Seventeen digits are always enough. -/
def shortest? (x : Double) : Option Decimal :=
  let (num, den) := x.ratio
  let top := log10Ratio num den
  (List.range 17).findSome? fun (n : Nat) => x.nearestOnGrid? (top - n)

end Double

/-- How decimals are written: plainly from the one power of ten to below the other, and else with a power of ten. -/
structure DecimalStyle where
  plainFrom : Int
  plainBelow : Int
  deriving DecidableEq, Repr

/-- Numbers are written plainly from a hundred-thousandth to below ten quadrillions. -/
def DecimalStyle.standard : DecimalStyle :=
  ⟨-5, 16⟩

/-- A decimal of these digits whose first digit counts powers of ten of this size, written plainly. -/
def plainText (digits : List Char) (power : Int) : List Char :=
  if power < 0 then '0' :: '.' :: List.replicate (-power - 1).toNat '0' ++ digits
  else
    let whole := power.toNat + 1
    let padded := digits ++ List.replicate (whole + 1 - digits.length) '0'
    padded.take whole ++ '.' :: padded.drop whole

/-- A decimal of these digits whose first digit counts powers of ten of this size, with the power of ten. -/
def scientificText (digits : List Char) (power : Int) : List Char :=
  let mantissa := match digits with
    | d :: e :: ds => d :: '.' :: e :: ds
    | ds => ds
  mantissa ++ 'e' :: (if power < 0 then '-' else '+') :: (toString power.natAbs).toList

/-- A decimal in this style. -/
def Decimal.text (style : DecimalStyle) (d : Decimal) : List Char :=
  let all := Nat.toDigits 10 d.digits
  let power := d.exponent + all.length - 1
  let digits := match (all.reverse.dropWhile (· = '0')).reverse with
    | [] => ['0']
    | ds => ds
  if style.plainFrom ≤ power ∧ power < style.plainBelow then plainText digits power
  else scientificText digits power

/-- The written form of a number of double precision: its shortest decimal, with a minus sign before it when it is
negative; so is zero. -/
def Double.text (x : Double) : String :=
  let size := (x.shortest?.getD ⟨0, 0⟩).text DecimalStyle.standard
  String.ofList (if x.negative then '-' :: size else size)

end PromptMacros
