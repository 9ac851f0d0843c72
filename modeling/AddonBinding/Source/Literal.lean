import AddonBinding.Decimal.Numeral
import AddonBinding.NativeValue

namespace AddonBinding.Source

inductive TypeName where
  | bool
  | int
  | float
  | double
  | size
  | byte
  | word (signed : Bool) (bits : Nat)
  | text
  | named (name : String)
  | pointer (target : TypeName)
  | constantReference (target : TypeName)
deriving DecidableEq, Repr

namespace TypeName

def render : TypeName → String
  | .bool => "bool"
  | .int => "int"
  | .float => "float"
  | .double => "double"
  | .size => "size_t"
  | .byte => "unsigned char"
  | .word signed bits => (if signed then "int" else "uint") ++ toString bits ++ "_t"
  | .text => "std::string"
  | .named name => name
  | .pointer target => target.render ++ "*"
  | .constantReference target => "const " ++ target.render ++ "&"

def storage : ScalarType → TypeName
  | .text _ => .text
  | .boolean => .bool
  | .float t => if t.single then .float else .double
  | .integer t => .word t.signed t.width.bits

end TypeName

-- A byte between the quotes of a string literal; a question mark is escaped because two could start
-- a trigraph.
def byteChars (b : UInt8) : List Char :=
  if b = 0x5c then ['\\', '\\']
  else if b = 0x22 then ['\\', '"']
  else if b = 0x3f then ['\\', '?']
  else if b = 0x0a then ['\\', 'n']
  else if b = 0x0d then ['\\', 'r']
  else if b = 0x09 then ['\\', 't']
  else if 0x20 ≤ b ∧ b ≤ 0x7e then [Char.ofNat b.toNat]
  else '\\' :: [b.toNat / 64, b.toNat / 8 % 8, b.toNat % 8].map Nat.digitChar

def stringLiteral (s : String) : String :=
  String.ofList ('"' :: s.toUTF8.toList.flatMap byteChars ++ ['"'])

-- What is written behind the digits of an integer, and says which type it has.
structure Suffix where
  unsigned : Bool := false
  wide : Bool := false
deriving DecidableEq, Repr

namespace Suffix

def render : Suffix → String
  | ⟨false, false⟩ => ""
  | ⟨true, false⟩ => "u"
  | ⟨false, true⟩ => "LL"
  | ⟨true, true⟩ => "ULL"

end Suffix

end AddonBinding.Source
