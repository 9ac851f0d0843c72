import AddonBinding.Decimal.Basic

namespace AddonBinding

inductive Tie where
  | up
  | even
deriving DecidableEq, Repr

namespace Decimal

-- The interval of numbers that round to a double, in quarters of a step. It reaches half way to the
-- double's two neighbours, and its ends belong to it iff the significand is even.
structure Basin where
  lower : Nat
  upper : Nat
  closed : Bool

namespace Basin

-- Below a power of two the next smaller double is only half as far away as the next larger one.
def of (steps : Nat) : Basin where
  lower :=
    let gap := pow2 (steps.log2 - 52)
    if 52 < steps.log2 ∧ steps = pow2 steps.log2 then 4 * steps - gap else 4 * steps - 2 * gap
  upper := 4 * steps + 2 * pow2 (steps.log2 - 52)
  closed := steps / pow2 (steps.log2 - 52) % 2 == 0

def holds (b : Basin) (n d : Nat) : Bool :=
  if b.closed then b.lower * d ≤ n && n ≤ b.upper * d
  else b.lower * d < n && n < b.upper * d

end Basin

def scaleUp (exponent : Int) : Nat :=
  pow10 exponent.toNat

def scaleDown (exponent : Int) : Nat :=
  pow10 (-exponent).toNat

-- How often `point` goes into `target`, or once more: whichever passes, of two the nearer, and
-- `tie` decides between equally near ones.
def neighbour? (tie : Tie) (passes : Nat → Bool) (target point : Nat) : Option Nat :=
  let below := target / point
  match passes below, passes (below + 1) with
  | false, false => none
  | true, false => some below
  | false, true => some (below + 1)
  | true, true =>
    let remainder := target % point
    if 2 * remainder < point then some below
    else if point < 2 * remainder then some (below + 1)
    else match tie with
      | .up => some (below + 1)
      | .even => some (below + below % 2)

def rounds (steps : Nat) (exponent : Int) (n : Nat) : Bool :=
  (Basin.of steps).holds (4 * (n * (scaleUp exponent * Double.one))) (scaleDown exponent)

-- On the first grid with a point in the interval, one of the two points around the double is in it.
def onGrid? (tie : Tie) (steps : Nat) (exponent : Int) : Option Nat :=
  neighbour? tie (rounds steps exponent) (steps * scaleDown exponent) (scaleUp exponent * Double.one)

def coarsest (steps : Nat) : Int :=
  (steps.log2 - 1073 : Int) * 30103 / 100000 + 1

def search (tie : Tie) (steps : Nat) : Nat → Int → Nat × Int
  | 0, exponent => (steps * scaleDown exponent / (scaleUp exponent * Double.one), exponent)
  | fuel + 1, exponent =>
    match onGrid? tie steps exponent with
    | some digits => (digits, exponent)
    | none => search tie steps fuel (exponent - 1)

-- Seventeen digits always suffice, so twenty grids below the coarsest one are enough.
def shortest (tie : Tie) (negative : Bool) (steps : Nat) : Decimal :=
  if steps = 0 then ⟨negative, 0, 0⟩
  else
    let (digits, exponent) := search tie steps 20 (coarsest steps)
    ⟨negative, digits, exponent⟩

end Decimal

end AddonBinding
