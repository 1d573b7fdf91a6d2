import PromptMacros.Decimal.Numeral
import PromptMacros.Decimal.Shortest

/-!
# JSON numbers

The numbers of JSON values: whole ones of 64 bits are kept exactly, and all others are numbers of double precision.
-/

namespace PromptMacros

/-- A number: a whole one of 64 bits, with or without a sign, or one of double precision. -/
inductive Number
  | integer (n : Int)
  | double (x : Double)
  deriving DecidableEq, Repr

namespace Number

/-- The number that a numeral is read as: a whole one when it is written as one and fits 64 bits, where zero with a minus
sign is none. Otherwise it is one of double precision; none when it is too far from zero. -/
def ofNumeral? (n : Numeral) : Option Number :=
  let size := n.wholePart
  if n.isWhole && !n.negative && size ≤ Numeral.maxWord then some (integer size)
  else if n.isWhole && n.negative && 0 < size && size ≤ Nat.pow 2 63 then some (integer (-size))
  else n.toDouble?.map double

/-- The written form of a number. -/
def text : Number → String
  | integer n => toString n
  | double x => x.text

end Number

end PromptMacros
