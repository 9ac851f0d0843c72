import AddonBinding.NativeValue

namespace AddonBinding

inductive Literal where
  | boolean (value : Bool)
  | integer (value : Int64)
  -- Integers beyond the signed range.
  | unsigned (value : UInt64)
  | float (value : Double)
  | text (value : String)
deriving DecidableEq

namespace Literal

def describe : Literal → String
  | .boolean b => "Boolean(" ++ (if b then "true" else "false") ++ ")"
  | .integer n => "Integer(" ++ toString n.toInt ++ ")"
  | .unsigned n => "Unsigned(" ++ toString n.toNat ++ ")"
  | .float x => "Float(" ++ NumberFormat.explicit.write x ++ ")"
  | .text s => "String(" ++ Text.quote s ++ ")"

end Literal

namespace ScalarType

-- The value of a literal in the representation of a type, whether the type holds it or not.
def represent : ScalarType → Literal → Option NativeValue
  | .text _, .text s => some (.text s)
  | .boolean, .boolean b => some (.boolean b)
  | .integer t, .integer n =>
    if t.signed then some (.integer n)
    else if 0 ≤ n then some (.unsigned n.toUInt64)
    else none
  | .integer t, .unsigned n =>
    if !t.signed then some (.unsigned n)
    else if n.toNat < pow2 63 then some (.integer n.toInt64)
    else none
  | .float t, .integer n => some (.float (t.round (.ofInt n.toInt)))
  | .float t, .unsigned n => some (.float (t.round (.ofInt n.toNat)))
  | .float t, .float x => some (.float (t.round x))
  | _, _ => none

def ofLiteral? (t : ScalarType) (literal : Literal) : Option NativeValue :=
  (t.represent literal).filter t.holds

end ScalarType

end AddonBinding
