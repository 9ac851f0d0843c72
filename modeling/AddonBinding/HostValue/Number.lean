import AddonBinding.Decimal.Scan
import AddonBinding.Text.Blank

namespace AddonBinding

namespace Numeral

-- A signed decimal with digits on at least one side of the point, and an optional exponent.
def ofDecimalText? (cs : List Char) : Option Numeral :=
  let (negative, cs) := splitSign cs
  let (whole, cs) := splitDigits cs
  let (fraction, cs) := splitFraction cs
  if whole.isEmpty ∧ fraction.isEmpty then none
  else if cs.isEmpty then some { negative, whole := Decimal.ofDigits whole, fraction }
  else (exponent? cs).map fun e =>
    { negative, whole := Decimal.ofDigits whole, fraction, exponent := some e }

end Numeral

namespace Double

-- The words that are numbers, with an optional sign and in any mixture of cases.
def ofWord? (cs : List Char) : Option Double :=
  let (negative, word) := Numeral.splitSign cs
  let word := word.map Char.toLower
  if word = "inf".toList ∨ word = "infinity".toList then some (.infinite negative)
  else if word = "nan".toList then some .nan
  else none

def ofText? (cs : List Char) : Option Double :=
  (Numeral.ofDecimalText? cs).map Numeral.toDouble <|> ofWord? cs

end Double

namespace HostValue

def base? : Char → Option Nat
  | 'x' | 'X' => some 16
  | 'o' | 'O' => some 8
  | 'b' | 'B' => some 2
  | _ => none

-- A number with one more digit, in double precision.
def radixStep (base : Nat) (value : Double) (digit : Nat) : Double :=
  (value.mul (.ofInt base)).add (.ofInt digit)

def radixNumber? (base : Nat) (digits : List Char) : Option Double :=
  if digits.isEmpty then none
  else digits.foldlM (fun value c =>
    (Numeral.digitValue? base c).map (radixStep base value)) .zero

def isDecimalChar (c : Char) : Bool :=
  c.isDigit || "+-.eE".toList.contains c

-- A decimal; the words that are numbers elsewhere are not numbers to the host.
def decimalNumber? (cs : List Char) : Option Double :=
  if cs.all isDecimalChar && cs.any Char.isDigit then Double.ofText? cs else none

-- Nothing is zero, `Infinity` may be signed, integers may be written in base 16, 8 or 2, and
-- anything else is a decimal.
def trimmedNumber? (cs : List Char) : Option Double :=
  if cs = [] then some .zero
  else if cs = "Infinity".toList ∨ cs = "+Infinity".toList then some (.infinite false)
  else if cs = "-Infinity".toList then some (.infinite true)
  else match cs with
    | '0' :: mark :: digits =>
      match base? mark with
      | some base => radixNumber? base digits
      | none => decimalNumber? cs
    | _ => decimalNumber? cs

-- None stands for what the host calls not-a-number.
def numberOfText? (s : String) : Option Double :=
  trimmedNumber? (Text.trim Text.isHostBlank s.toList)

def isBlank (s : String) : Bool :=
  s.toList.all Text.isHostBlank

end HostValue

end AddonBinding
