import AddonBinding.IntegerRange
import AddonBinding.Text.Blank

namespace AddonBinding

-- Flavours of text; they share one representation.
inductive TextKind where
  | dom
  | usv
  | byte
deriving DecidableEq, Repr

inductive Width where
  | w8
  | w16
  | w32
  | w64
deriving DecidableEq, Repr

namespace Width

def bits : Width → Nat
  | .w8 => 8
  | .w16 => 16
  | .w32 => 32
  | .w64 => 64

end Width

structure IntegerType where
  width : Width
  signed : Bool
deriving DecidableEq, Repr

namespace IntegerType

def range (t : IntegerType) : IntegerRange where
  bits := t.width.bits
  signed := t.signed

end IntegerType

structure FloatType where
  single : Bool
  unrestricted : Bool
deriving DecidableEq, Repr

inductive ScalarType where
  | text (kind : TextKind)
  | integer (type : IntegerType)
  | float (type : FloatType)
  | boolean
deriving DecidableEq, Repr

namespace ScalarType

def all : List ScalarType :=
  [.text .dom, .text .usv, .text .byte,
   .integer ⟨.w8, true⟩, .integer ⟨.w8, false⟩,
   .integer ⟨.w16, true⟩, .integer ⟨.w16, false⟩,
   .integer ⟨.w32, true⟩, .integer ⟨.w32, false⟩,
   .integer ⟨.w64, true⟩, .integer ⟨.w64, false⟩,
   .float ⟨true, false⟩, .float ⟨true, true⟩,
   .float ⟨false, false⟩, .float ⟨false, true⟩,
   .boolean]

def tagWords : ScalarType → List String
  | .text .dom => ["DOMString"]
  | .text .usv => ["USVString"]
  | .text .byte => ["ByteString"]
  | .integer ⟨.w8, signed⟩ => if signed then ["byte"] else ["octet"]
  | .integer ⟨width, signed⟩ =>
    (if signed then [] else ["unsigned"])
      ++ (match width with
        | .w8 | .w16 => ["short"]
        | .w32 => ["long"]
        | .w64 => ["long", "long"])
  | .float ⟨single, unrestricted⟩ =>
    (if unrestricted then ["unrestricted"] else []) ++ (if single then ["float"] else ["double"])
  | .boolean => ["boolean"]

def tag (t : ScalarType) : String :=
  " ".intercalate t.tagWords

-- The type that a tag names; runs of white space around its words do not matter.
def ofTag? (tag : String) : Option ScalarType :=
  all.find? fun t => t.tagWords == Text.words tag

def isNumeric : ScalarType → Bool
  | .integer _ | .float _ => true
  | _ => false

def capitalize (word : String) : String :=
  match word.toList with
  | [] => ""
  | c :: rest => String.ofList (c.toUpper :: rest)

def camelName (t : ScalarType) : String :=
  String.join (t.tagWords.map capitalize)

end ScalarType

end AddonBinding
