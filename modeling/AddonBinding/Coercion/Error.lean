import AddonBinding.Decimal.Numeral
import AddonBinding.Text.Quoted

namespace AddonBinding

inductive DecodeError where
  | notNumeric (kind : String)
  | nonNumericText (text : String)
  | nonFinite
  | outOfRange (number : Double)
deriving DecidableEq

namespace DecodeError

def message : DecodeError → String
  | .notNumeric kind => "expected a number but got " ++ kind
  | .nonNumericText s => "the string " ++ Text.quote s ++ " is not numeric"
  | .nonFinite => "the value is not a finite number"
  | .outOfRange x => NumberFormat.plain.write x ++ " is outside the range of the target type"

end DecodeError

end AddonBinding
