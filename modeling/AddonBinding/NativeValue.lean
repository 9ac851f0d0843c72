import AddonBinding.Decimal.Numeral
import AddonBinding.ScalarType
import AddonBinding.Text.Quoted

namespace AddonBinding

inductive NativeValue where
  | text (value : String)
  | integer (value : Int64)
  | unsigned (value : UInt64)
  | float (value : Double)
  | boolean (value : Bool)
deriving DecidableEq

namespace NativeValue

def describe : NativeValue → String
  | .text s => Text.quote s
  | .integer n => toString n.toInt
  | .unsigned n => toString n.toNat
  | .float x => NumberFormat.explicit.write x
  | .boolean b => if b then "true" else "false"

end NativeValue

namespace ScalarType

def zero : ScalarType → NativeValue
  | .text _ => .text ""
  | .integer t => if t.signed then .integer 0 else .unsigned 0
  | .float _ => .float .zero
  | .boolean => .boolean false

end ScalarType

namespace FloatType

def round (t : FloatType) (x : Double) : Double :=
  if t.single then x.toSingle else x

def holds (t : FloatType) (x : Double) : Bool :=
  (t.unrestricted || x.isFinite) && (!t.single || x.isNaN || x.toSingle.same x)

end FloatType

namespace ScalarType

def holds : ScalarType → NativeValue → Bool
  | .text _, .text _ => true
  | .boolean, .boolean _ => true
  | .integer t, .integer v => t.signed && t.range.containsSigned v
  | .integer t, .unsigned v => !t.signed && t.range.containsUnsigned v
  | .float t, .float x => t.holds x
  | _, _ => false

end ScalarType

end AddonBinding
