import AddonBinding.Double.Basic

namespace AddonBinding

structure IntegerRange where
  bits : Nat
  signed : Bool
deriving DecidableEq, Repr

namespace IntegerRange

-- The greatest integer up to which every integer is a double.
def maxSafe : Int :=
  pow2 53 - 1

-- 64-bit types stop where integers are no longer all doubles.
def least (r : IntegerRange) : Int :=
  if !r.signed then 0
  else if r.bits = 64 then -maxSafe
  else -(pow2 (r.bits - 1) : Int)

def greatest (r : IntegerRange) : Int :=
  if r.bits = 64 then maxSafe
  else if r.signed then pow2 (r.bits - 1) - 1
  else pow2 r.bits - 1

def lower (r : IntegerRange) : Double :=
  .ofInt r.least

def upper (r : IntegerRange) : Double :=
  .ofInt r.greatest

-- The number of values of a type narrower than a word.
def span (bits : Nat) : UInt64 :=
  1 <<< UInt64.ofNat bits

def half (bits : Nat) : Int64 :=
  1 <<< Int64.ofNat (bits - 1)

def inUnsigned (bits : Nat) (v : UInt64) : Bool :=
  64 ≤ bits || v < span bits

def inSigned (bits : Nat) (v : Int64) : Bool :=
  64 ≤ bits || (-half bits ≤ v && v < half bits)

def containsSigned (r : IntegerRange) (v : Int64) : Bool :=
  if r.signed then inSigned r.bits v
  else 0 ≤ v && inUnsigned r.bits v.toUInt64

def containsUnsigned (r : IntegerRange) (v : UInt64) : Bool :=
  if r.signed then v.toNat < pow2 63 && inSigned r.bits v.toInt64
  else inUnsigned r.bits v

end IntegerRange

end AddonBinding
