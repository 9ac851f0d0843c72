import AddonBinding.Coercion.Error
import AddonBinding.Coercion.Policy
import AddonBinding.Double.Integral
import AddonBinding.HostValue.Basic
import AddonBinding.HostValue.Number
import AddonBinding.NativeValue

namespace AddonBinding

namespace IntegerType

def exact (t : IntegerType) (n : Int) : NativeValue :=
  if t.signed then .integer (.ofInt n) else .unsigned (.ofInt n)

def ofIntegral (t : IntegerType) (x : Double) : NativeValue :=
  if t.signed then .integer x.toInt64 else .unsigned x.toUInt64

-- The low bits of a word, read with the type's sign.
def narrow (t : IntegerType) (word : UInt64) : NativeValue :=
  match t.signed, t.width with
  | true, .w8 => .integer word.toUInt8.toInt8.toInt64
  | true, .w16 => .integer word.toUInt16.toInt16.toInt64
  | true, .w32 => .integer word.toUInt32.toInt32.toInt64
  | true, .w64 => .integer word.toInt64
  | false, .w8 => .unsigned word.toUInt8.toUInt64
  | false, .w16 => .unsigned word.toUInt16.toUInt64
  | false, .w32 => .unsigned word.toUInt32.toUInt64
  | false, .w64 => .unsigned word

def ofNaN (t : IntegerType) (rule : NaNRule) : Except DecodeError NativeValue :=
  match rule with
  | .zero => .ok (t.exact 0)
  | .reject => .error .nonFinite

-- Truncate, then reduce modulo the number of values of the type.
def wrap (t : IntegerType) (rule : NaNRule) (x : Double) : Except DecodeError NativeValue :=
  if x.isInfinite then t.ofNaN rule else .ok (t.narrow x.wrapToWord)

-- Limit to the type's range, then round to the nearest integer, a half going to the even one.
def clamp (t : IntegerType) (x : Double) : Except DecodeError NativeValue :=
  .ok (t.ofIntegral (x.clamp t.range.lower t.range.upper).roundEven)

def enforce (t : IntegerType) (x : Double) : Except DecodeError NativeValue :=
  if x.isInfinite then .error .nonFinite
  else if x.trunc.lt t.range.lower || t.range.upper.lt x.trunc then .error (.outOfRange x)
  else .ok (t.ofIntegral x.trunc)

def ofNumber (t : IntegerType) (policy : CoercionPolicy) (x : Double) :
    Except DecodeError NativeValue :=
  if x.isNaN then t.ofNaN policy.integerNaN
  else match policy.integerOverflow with
    | .wrap => t.wrap policy.integerNaN x
    | .clamp => t.clamp x
    | .reject => t.enforce x

end IntegerType

namespace FloatType

-- The nearest value of the type's precision, which has to be finite unless the type is
-- unrestricted.
def ofNumber (t : FloatType) (x : Double) : Except DecodeError NativeValue :=
  if !t.unrestricted && (!x.isFinite || !(t.round x).isFinite) then .error .nonFinite
  else .ok (.float (t.round x))

end FloatType

namespace HostValue

-- The number that a value is for a numeric type; texts count only where the policy says so.
def toNumber (policy : CoercionPolicy) : HostValue → Except DecodeError Double
  | .number x => .ok x
  | .text s =>
    if !policy.numericStrings then .error (.notNumeric (HostValue.text s).kindName)
    else if isBlank s && !policy.emptyStringAsZero then .error (.nonNumericText s)
    else match numberOfText? s with
      | some x => .ok x
      | none => .error (.nonNumericText s)
  | v => .error (.notNumeric v.kindName)

end HostValue

namespace ScalarType

def decode (t : ScalarType) (policy : CoercionPolicy) (v : HostValue) :
    Except DecodeError NativeValue :=
  match t with
  | .text _ => .ok (.text v.toText)
  | .boolean => .ok (.boolean v.toBoolean)
  | .integer t => v.toNumber policy >>= t.ofNumber policy
  | .float t => v.toNumber policy >>= t.ofNumber

end ScalarType

namespace NativeValue

-- The host value that reads a native value; 64-bit integers become the nearest double.
def encode : NativeValue → HostValue
  | .text s => .text s
  | .integer n => .number (.ofInt n.toInt)
  | .unsigned n => .number (.ofInt n.toNat)
  | .float x => .number x
  | .boolean b => .boolean b

end NativeValue

end AddonBinding
