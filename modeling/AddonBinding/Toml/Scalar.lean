import AddonBinding.Decimal.Scan

namespace AddonBinding.Toml

-- Digits in a base, with single underscores between some of them.
def digits? (base : Nat) : List Char → Option (List Nat)
  | [] => none
  | [c] => do return [← Numeral.digitValue? base c]
  | c :: '_' :: rest => do return (← Numeral.digitValue? base c) :: (← digits? base rest)
  | c :: rest => do return (← Numeral.digitValue? base c) :: (← digits? base rest)

def whole? (cs : List Char) : Option Nat := do
  let digits ← digits? 10 cs
  guard (digits.length = 1 ∨ digits.head? ≠ some 0)
  return Decimal.ofDigits digits

-- A number of 64 bits with a sign: decimal, or without sign after a mark of its base.
def isInteger : List Char → Bool
  | '0' :: 'x' :: rest => inBase 16 rest
  | '0' :: 'o' :: rest => inBase 8 rest
  | '0' :: 'b' :: rest => inBase 2 rest
  | cs =>
    let (negative, cs) := Numeral.splitSign cs
    (whole? cs).any fun n => if negative then n ≤ pow2 63 else n < pow2 63
where
  inBase (base : Nat) (cs : List Char) : Bool :=
    (digits? base cs).any fun digits => digits.foldl (fun n d => base * n + d) 0 < pow2 63

def isMantissaChar (c : Char) : Bool :=
  c.isDigit || c == '_'

def exponentOf? : List Char → Option Int
  | [] => none
  | mark :: rest => do
    guard (mark = 'e' ∨ mark = 'E')
    let (negative, rest) := Numeral.splitSign rest
    return Double.signed negative (Decimal.ofDigits (← digits? 10 rest))

def numeral? (cs : List Char) : Option Numeral := do
  let (negative, cs) := Numeral.splitSign cs
  let (whole, rest) := cs.span isMantissaChar
  let whole ← whole? whole
  match rest with
  | '.' :: rest =>
    let (fraction, rest) := rest.span isMantissaChar
    let exponent ← if rest.isEmpty then some none else (exponentOf? rest).map some
    return { negative, whole, fraction := ← digits? 10 fraction, exponent }
  | rest => return { negative, whole, exponent := some (← exponentOf? rest) }

-- A number with a fraction or an exponent, or the word for a special one. A positive one must not
-- be too great for a double.
def isFloat (cs : List Char) : Bool :=
  ["inf", "nan"].contains (String.ofList (Numeral.splitSign cs).2)
    || (numeral? cs).any fun n => match n.toDouble with
      | .infinite negative => negative
      | _ => true

def clockPart? (width least greatest : Nat) (cs : List Char) : Option (Nat × List Char) := do
  let (digits, _) := Numeral.splitDigits (cs.take width)
  let n := Decimal.ofDigits digits
  guard (digits.length = width ∧ least ≤ n ∧ n ≤ greatest)
  return (n, cs.drop width)

def expect? (c : Char) : List Char → Option (List Char)
  | [] => none
  | first :: rest => if first = c then some rest else none

def daysIn (year month : Nat) : Nat :=
  if month = 2 then
    if year % 4 = 0 ∧ (year % 100 ≠ 0 ∨ year % 400 = 0) then 29 else 28
  else if [4, 6, 9, 11].contains month then 30
  else 31

def skipDate? (cs : List Char) : Option (List Char) := do
  let (year, cs) ← clockPart? 4 0 9999 cs
  let (month, cs) ← clockPart? 2 1 12 (← expect? '-' cs)
  let (_, cs) ← clockPart? 2 1 (daysIn year month) (← expect? '-' cs)
  return cs

-- What follows a time of day; a minute may have a leap second.
def skipTime? (cs : List Char) : Option (List Char) := do
  let (_, cs) ← clockPart? 2 0 23 cs
  let (_, cs) ← clockPart? 2 0 59 (← expect? ':' cs)
  let (_, cs) ← clockPart? 2 0 60 (← expect? ':' cs)
  match cs with
  | '.' :: rest =>
    let (fraction, rest) := Numeral.splitDigits rest
    guard !fraction.isEmpty
    return rest
  | _ => return cs

def isOffset : List Char → Bool
  | ['Z'] | ['z'] => true
  | sign :: rest =>
    (sign == '+' || sign == '-') && (do
      let (_, cs) ← clockPart? 2 0 23 rest
      let (_, cs) ← clockPart? 2 0 59 (← expect? ':' cs)
      return cs.isEmpty : Option Bool).getD false
  | [] => false

-- A time of day, with or without an offset, which only a time on some date has.
def isTime (dated : Bool) (cs : List Char) : Bool :=
  (skipTime? cs).any fun rest => rest.isEmpty || (dated && isOffset rest)

def isDate (cs : List Char) : Bool :=
  skipDate? cs == some []

def isDateTime (cs : List Char) : Bool :=
  match skipDate? cs with
  | some (separator :: rest) => (separator == 'T' || separator == 't') && isTime true rest
  | _ => false

def isNumber (word : List Char) : Bool :=
  isInteger word || isFloat word

def isMoment (word : List Char) : Bool :=
  isDate word || isDateTime word || isTime false word

end AddonBinding.Toml
