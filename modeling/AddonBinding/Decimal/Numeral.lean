import AddonBinding.Decimal.Shortest

namespace AddonBinding

-- A number as written; no fraction digits means no point.
structure Numeral where
  negative : Bool
  whole : Nat
  fraction : List Nat := []
  exponent : Option Int := none
deriving DecidableEq, Repr

namespace Numeral

def toDecimal (n : Numeral) : Decimal where
  negative := n.negative
  digits := n.whole * pow10 n.fraction.length + Decimal.ofDigits n.fraction
  exponent := n.exponent.getD 0 - n.fraction.length

def toDouble (n : Numeral) : Double :=
  n.toDecimal.toDouble

def isInteger (n : Numeral) : Bool :=
  n.fraction.isEmpty && n.exponent.isNone

def toInt (n : Numeral) : Int :=
  if n.negative then -n.whole else n.whole

def ofInt (n : Int) : Numeral where
  negative := n < 0
  whole := n.natAbs

def natChars (n : Nat) : List Char :=
  Nat.toDigits 10 n

-- The exponent mark; `plus` also signs exponents that are not negative.
def exponentChars (plus : Bool) (e : Int) : List Char :=
  'e' :: ((if e < 0 then ['-'] else if plus then ['+'] else []) ++ natChars e.natAbs)

def chars (plus : Bool) (n : Numeral) : List Char :=
  (if n.negative then ['-'] else []) ++ natChars n.whole
    ++ (if n.fraction.isEmpty then [] else '.' :: n.fraction.map Nat.digitChar)
    ++ n.exponent.elim [] (exponentChars plus)

def lowDigits (n : Nat) : Nat → List Nat
  | 0 => []
  | width + 1 => n / pow10 width % 10 :: lowDigits n width

-- A decimal with all its digits written out, and at least `places` after the point.
def positional (places : Nat) (d : Decimal) : Numeral :=
  let behind := max places (-d.exponent).toNat
  let scaled := d.digits * pow10 (behind + d.exponent).toNat
  { negative := d.negative, whole := scaled / pow10 behind, fraction := lowDigits scaled behind }

def scientific (d : Decimal) : Numeral :=
  let behind := (natChars d.digits).length - 1
  { negative := d.negative
    whole := d.digits / pow10 behind
    fraction := lowDigits d.digits behind
    exponent := some (d.exponent + behind) }

end Numeral

structure NumberFormat where
  tie : Tie
  -- The least and the greatest power of ten of a leading digit that is written positionally.
  positional : Option (Int × Int)
  places : Nat
  plus : Bool
  signedZero : Bool
  nan : String
  infinity : String

namespace NumberFormat

-- The power of ten of the leading digit.
def leading (d : Decimal) : Int :=
  d.exponent + (Numeral.natChars d.digits).length - 1

def numeral (f : NumberFormat) (negative : Bool) (steps : Nat) : Numeral :=
  if steps = 0 then Numeral.positional f.places ⟨negative && f.signedZero, 0, 0⟩
  else
    let d := Decimal.shortest f.tie negative steps
    match f.positional with
    | none => Numeral.positional f.places d
    | some (least, greatest) =>
      if least ≤ leading d ∧ leading d ≤ greatest then Numeral.positional f.places d
      else Numeral.scientific d

def write (f : NumberFormat) : Double → String
  | .nan => f.nan
  | .infinite negative => if negative then "-" ++ f.infinity else f.infinity
  | .finite negative steps _ => String.ofList ((f.numeral negative steps).chars f.plus)

-- A point or an exponent always shows that the number is not an integer.
def explicit : NumberFormat where
  tie := .up
  positional := some (-4, 15)
  places := 1
  plus := false
  signedZero := true
  nan := "NaN"
  infinity := "inf"

def plain : NumberFormat where
  tie := .up
  positional := none
  places := 0
  plus := false
  signedZero := true
  nan := "NaN"
  infinity := "inf"

end NumberFormat

end AddonBinding
