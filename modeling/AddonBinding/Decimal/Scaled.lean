import AddonBinding.Decimal.Scan

namespace AddonBinding

namespace Decimal

-- Append digits to a number while it stays within 64 bits, and count those that are left over.
def gather (n : Nat) : List Nat → Nat × Nat
  | [] => (n, 0)
  | digit :: rest =>
    if 10 * n + digit < pow2 64 then gather (10 * n + digit) rest else (n, rest.length + 1)

def tenTo (n : Nat) : Double :=
  Double.nearest false (pow10 n * Double.one) 1

-- Every step rounds. While the significand has at most 53 bits and the power of ten is at most `10
-- ^ 22`, only the last step is not exact and the result is the nearest double; otherwise it may be
-- a double beside that one. There is no double for a power of ten above `10 ^ 308`. Only zero times
-- such a power is in range. A division by one is made in two steps, and beyond `10 ^ 616` nothing
-- is left of 64 bits.
def scaled? (d : Decimal) : Option Double :=
  let significand := Double.nearest d.negative (d.digits * Double.one) 1
  let product :=
    if d.digits = 0 then significand
    else if 308 < d.exponent then .infinite d.negative
    else if 0 ≤ d.exponent then significand.mul (tenTo d.exponent.toNat)
    else if -308 ≤ d.exponent then significand.div (tenTo (-d.exponent).toNat)
    else if -616 ≤ d.exponent then
      (significand.div (tenTo 308)).div (tenTo (-d.exponent - 308).toNat)
    else Double.nearest d.negative 0 1
  if product.isFinite then some product else none

end Decimal

namespace Numeral

-- The leading digits that fit 64 bits. Whole digits left over raise the exponent, and fraction
-- digits left over are dropped.
def leading (n : Numeral) : Decimal :=
  let (whole, skipped) := Decimal.gather 0 ((natChars n.whole).map digitValue)
  let (digits, dropped) := Decimal.gather whole n.fraction
  { negative := n.negative
    digits
    exponent := n.exponent.getD 0 + skipped + dropped - n.fraction.length }

def scaled? (n : Numeral) : Option Double :=
  n.leading.scaled?

end Numeral

end AddonBinding
