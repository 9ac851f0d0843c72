import AddonBinding.Decimal.Numeral

namespace AddonBinding.Numeral

def digitValue (c : Char) : Nat :=
  c.toNat - '0'.toNat

def digitValue? (base : Nat) (c : Char) : Option Nat :=
  let value? : Option Nat :=
    if '0' ≤ c ∧ c ≤ '9' then some (c.toNat - '0'.toNat)
    else if 'a' ≤ c ∧ c ≤ 'f' then some (c.toNat - 'a'.toNat + 10)
    else if 'A' ≤ c ∧ c ≤ 'F' then some (c.toNat - 'A'.toNat + 10)
    else none
  value?.filter (· < base)

def splitSign : List Char → Bool × List Char
  | '-' :: rest => (true, rest)
  | '+' :: rest => (false, rest)
  | rest => (false, rest)

def splitDigits (cs : List Char) : List Nat × List Char :=
  ((cs.takeWhile Char.isDigit).map digitValue, cs.dropWhile Char.isDigit)

def splitFraction : List Char → List Nat × List Char
  | '.' :: rest => splitDigits rest
  | rest => ([], rest)

-- An exponent that ends the text: its mark, an optional sign and at least one digit.
def exponent? : List Char → Option Int
  | [] => none
  | mark :: rest =>
    let (negative, rest) := splitSign rest
    let (digits, rest) := splitDigits rest
    if (mark = 'e' ∨ mark = 'E') ∧ !digits.isEmpty ∧ rest.isEmpty then
      some (Double.signed negative (Decimal.ofDigits digits))
    else none

end AddonBinding.Numeral
