import AddonBinding.Decimal.Numeral
import AddonBinding.Text.Quoted

namespace AddonBinding

inductive HostValue where
  | undefined
  | null
  | boolean (value : Bool)
  | number (value : Double)
  | text (value : String)
deriving DecidableEq

namespace HostValue

-- To the host null is an object.
def typeName : HostValue → String
  | .undefined => "undefined"
  | .null => "object"
  | .boolean _ => "boolean"
  | .number _ => "number"
  | .text _ => "string"

def kindName : HostValue → String
  | .null => "null"
  | v => v.typeName

def toBoolean : HostValue → Bool
  | .undefined | .null => false
  | .boolean b => b
  | .number x => !(x.isZero || x.isNaN)
  | .text s => !s.isEmpty

-- Numbers are positional from `10 ^ -6` up to, but not including, `10 ^ 21`, and both zeros are
-- `0`.
def numberFormat : NumberFormat where
  tie := .up
  positional := some (-6, 20)
  places := 0
  plus := true
  signedZero := false
  nan := "NaN"
  infinity := "Infinity"

def toText : HostValue → String
  | .undefined => "undefined"
  | .null => "null"
  | .boolean b => if b then "true" else "false"
  | .number x => numberFormat.write x
  | .text s => s

def display : HostValue → String
  | .text s => Text.quote s
  | v => v.toText

end HostValue

end AddonBinding
