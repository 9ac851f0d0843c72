import AddonBinding.Double.Basic

namespace AddonBinding.Double

-- Every pattern with a full exponent and a fraction reads as `nan`.
def ofBits (bits : UInt64) : Double :=
  let negative := bits.toNat / pow2 63 == 1
  let exponent := bits.toNat / pow2 52 % pow2 11
  let fraction := bits.toNat % pow2 52
  if exponent = 2047 then
    if fraction = 0 then .infinite negative else .nan
  else
    let steps := if exponent = 0 then fraction else (pow2 52 + fraction) * pow2 (exponent - 1)
    if fits : Fits steps then .finite negative steps fits else .nan

-- The encoding of a magnitude: normal numbers drop their leading bit.
def magnitudeBits (steps : Nat) : Nat :=
  if steps < pow2 52 then steps
  else
    let drop := steps.log2 - 52
    (drop + 1) * pow2 52 + (steps / pow2 drop - pow2 52)

def signBit (negative : Bool) : Nat :=
  if negative then pow2 63 else 0

def toBits : Double → UInt64
  | .nan => 0x7ff8000000000000
  | .infinite negative => .ofNat (signBit negative + 0x7ff0000000000000)
  | .finite negative steps _ => .ofNat (signBit negative + magnitudeBits steps)

end AddonBinding.Double
