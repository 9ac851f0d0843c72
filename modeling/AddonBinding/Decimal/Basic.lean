import AddonBinding.Double.Basic

namespace AddonBinding

structure Decimal where
  negative : Bool
  digits : Nat
  exponent : Int
deriving DecidableEq, Repr

namespace Decimal

def ofDigits (digits : List Nat) : Nat :=
  digits.foldl (fun n d => 10 * n + d) 0

-- The double nearest to a decimal, ties to even. Exponents far outside the range of doubles are
-- decided by size alone: `10 ^ 310` is beyond the largest double, and a number of `b` bits is below
-- `10 ^ b`, so that with an exponent of at most `-330 - b` it is nearer to zero than to any other
-- double.
def toDouble (d : Decimal) : Double :=
  if d.digits = 0 then Double.nearest d.negative 0 1
  else if 310 ≤ d.exponent then .infinite d.negative
  else if d.exponent + d.digits.log2 + 1 ≤ -330 then Double.nearest d.negative 0 1
  else if 0 ≤ d.exponent then
    Double.nearest d.negative (d.digits * pow10 d.exponent.toNat * Double.one) 1
  else
    Double.nearest d.negative (d.digits * Double.one) (pow10 (-d.exponent).toNat)

end Decimal

end AddonBinding
