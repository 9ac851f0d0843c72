import AddonBinding.Double.Basic

namespace AddonBinding.Double

def ofSteps (negative : Bool) (n : Nat) : Double :=
  nearest negative n 1

def abs : Double → Double
  | .finite _ m fits => .finite false m fits
  | .infinite _ => .infinite false
  | .nan => .nan

-- Each result here is a number of steps that is a double again, so that nothing is rounded.
def trunc : Double → Double
  | .finite a m _ => ofSteps a (m / one * one)
  | x => x

def roundEven : Double → Double
  | .finite a m _ => ofSteps a (roundDiv m one * one)
  | x => x

-- It has the sign of the dividend.
def fmod : Double → Double → Double
  | .finite a m _, .finite _ n _ => if n = 0 then .nan else ofSteps a (m % n)
  | .finite a m fits, .infinite _ => .finite a m fits
  | _, _ => .nan

-- Not-a-number is zero.
def saturate (least greatest : Int) : Double → Int
  | .nan => 0
  | .infinite negative => if negative then least else greatest
  | .finite negative steps _ =>
    let n := signed negative (steps / one)
    if n < least then least else if greatest < n then greatest else n

def toUInt64 (x : Double) : UInt64 :=
  .ofInt (x.saturate 0 (pow2 64 - 1))

def toInt64 (x : Double) : Int64 :=
  .ofInt (x.saturate (-(pow2 63 : Int)) (pow2 63 - 1))

-- Below zero it counts down from the greatest word.
def wrapToWord (x : Double) : UInt64 :=
  let reduced := x.trunc.fmod (.ofInt (pow2 64))
  let magnitude := reduced.abs.toUInt64
  if reduced.lt .zero then -magnitude else magnitude

end AddonBinding.Double
