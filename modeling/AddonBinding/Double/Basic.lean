import AddonBinding.Power

namespace AddonBinding

-- The quotient `n / d` rounded to the nearest natural number; a half goes to the even neighbour.
def roundDiv (n d : Nat) : Nat :=
  if 2 * (n % d) < d then n / d
  else if d < 2 * (n % d) then n / d + 1
  else n / d + n / d % 2

-- The number `n / d` rounded to `precision` significant bits, with no bit below position `lowest`.
def roundBits (precision lowest n d : Nat) : Nat :=
  let drop := max lowest ((n / d).log2 + 1 - precision)
  roundDiv n (d * pow2 drop) * pow2 drop

namespace Double

def one : Nat :=
  pow2 1074

def limit : Nat :=
  pow2 2098

theorem one_pos : 0 < one := by
  unfold one
  exact pow2_pos 1074

theorem limit_pos : 0 < limit := by
  unfold limit
  exact pow2_pos 2098

-- Below the limit and at most 53 bits wide.
def Fits (steps : Nat) : Prop :=
  steps < limit ∧ steps % pow2 (steps.log2 - 52) = 0

instance (steps : Nat) : Decidable (Fits steps) :=
  inferInstanceAs (Decidable (_ ∧ _))

theorem Fits.zero : Fits 0 :=
  ⟨limit_pos, Nat.zero_mod _⟩

end Double

-- Every finite double is a whole number of steps of `2 ^ -1074`, of which at most 53 consecutive
-- bits are used. Two doubles are equal iff they are the same datum: there is one `nan`, and the two
-- zeros differ by their sign.
inductive Double where
  | nan
  | infinite (negative : Bool)
  | finite (negative : Bool) (steps : Nat) (fits : Double.Fits steps)
deriving DecidableEq

namespace Double

def zero : Double :=
  .finite false 0 .zero

instance : Inhabited Double :=
  ⟨zero⟩

def isFinite : Double → Bool
  | .finite .. => true
  | _ => false

def isInfinite : Double → Bool
  | .infinite _ => true
  | _ => false

def isNaN : Double → Bool
  | .nan => true
  | _ => false

def isZero : Double → Bool
  | .finite _ steps _ => steps == 0
  | _ => false

def isNegative : Double → Bool
  | .nan => false
  | .infinite negative => negative
  | .finite negative .. => negative

def signed (negative : Bool) (n : Nat) : Int :=
  if negative then -n else n

-- The double nearest to `n / d` steps, ties to even; beyond the largest double it is infinite.
def nearest (negative : Bool) (n d : Nat) : Double :=
  let steps := roundBits 53 0 n d
  if fits : Fits steps then .finite negative steps fits else .infinite negative

def ofInt (n : Int) : Double :=
  nearest (n < 0) (n.natAbs * one) 1

def singleLimit : Nat :=
  pow2 1202

def toSingle : Double → Double
  | .finite negative steps _ =>
    let rounded := roundBits 24 925 steps 1
    if fits : rounded < singleLimit ∧ Fits rounded then .finite negative rounded fits.2
    else .infinite negative
  | x => x

-- Numeric order: false when either side is not a number, and the two zeros are equal.
def lt : Double → Double → Bool
  | .nan, _ | _, .nan => false
  | .infinite a, .infinite b => a && !b
  | .infinite a, .finite .. => a
  | .finite .., .infinite b => !b
  | .finite a m _, .finite b n _ => signed a m < signed b n

-- Numeric equality: not a number differs from itself, and the two zeros are equal.
def same : Double → Double → Bool
  | .infinite a, .infinite b => a == b
  | .finite a m _, .finite b n _ => signed a m == signed b n
  | _, _ => false

def clamp (x lower upper : Double) : Double :=
  if x.lt lower then lower else if upper.lt x then upper else x

def add : Double → Double → Double
  | .nan, _ | _, .nan => .nan
  | .infinite a, .infinite b => if a = b then .infinite a else .nan
  | .infinite a, .finite .. => .infinite a
  | .finite .., .infinite b => .infinite b
  | .finite a m _, .finite b n _ =>
    let sum := signed a m + signed b n
    nearest (if sum = 0 then a && b else sum < 0) sum.natAbs 1

def mul : Double → Double → Double
  | .nan, _ | _, .nan => .nan
  | .infinite a, .infinite b => .infinite (a != b)
  | .infinite a, .finite b n _ => if n = 0 then .nan else .infinite (a != b)
  | .finite a m _, .infinite b => if m = 0 then .nan else .infinite (a != b)
  | .finite a m _, .finite b n _ => nearest (a != b) (m * n) one

-- Zero divided by zero is not a number, and any other number divided by zero is infinite.
def div : Double → Double → Double
  | .nan, _ | _, .nan => .nan
  | .infinite _, .infinite _ => .nan
  | .infinite a, .finite b _ _ => .infinite (a != b)
  | .finite a _ _, .infinite b => nearest (a != b) 0 1
  | .finite a m _, .finite b n _ =>
    if n ≠ 0 then nearest (a != b) (m * one) n
    else if m = 0 then .nan
    else .infinite (a != b)

def truncate? : Double → Option Int
  | .finite negative steps _ => some (signed negative (steps / one))
  | _ => none

def round? : Double → Option Int
  | .finite negative steps _ => some (signed negative (roundDiv steps one))
  | _ => none

end Double

end AddonBinding
