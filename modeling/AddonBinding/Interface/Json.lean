import AddonBinding.Decimal.Scaled
import AddonBinding.Interface.Basic
import AddonBinding.Json.Reader
import AddonBinding.Json.Writer

namespace AddonBinding

namespace Literal

-- Integers of at most 64 bits are integers; every other number is floating.
def ofNumeral? (float? : Numeral → Option Double) (n : Numeral) : Option Literal :=
  let asFloat := (float? n).map Literal.float
  if !n.isInteger ∨ (n.negative ∧ n.whole = 0) then asFloat
  else if -(pow2 63 : Int) ≤ n.toInt ∧ n.toInt < pow2 63 then some (.integer (.ofInt n.toInt))
  else if 0 ≤ n.toInt ∧ n.toInt < pow2 64 then some (.unsigned (.ofInt n.toInt))
  else asFloat

def read? (float? : Numeral → Option Double) : Json → Option Literal
  | .boolean b => some (.boolean b)
  | .number n => ofNumeral? float? n
  | .text s => s.map .text
  | _ => none

def ofJson? : Json → Option Literal :=
  read? Numeral.scaled?

def toJson : Literal → Json
  | .boolean b => .boolean b
  | .integer n => .ofInt n.toInt
  | .unsigned n => .ofNat n.toNat
  | .float x => .ofDouble x
  | .text s => .ofText s

end Literal

namespace Attribute

def ofJson? (j : Json) : Option Attribute := do
  let [name, type, readonly] ← j.fields? ["name", "type", "readonly"] | none
  return {
    name := ← name >>= Json.toText?
    type := ← type >>= Json.toText?
    readonly := ← readonly.elim (some false) Json.toBoolean?
  }

def toJson (a : Attribute) : Json :=
  .record [
    ("name", some (.ofText a.name)),
    ("type", some (.ofText a.type)),
    ("readonly", some (.boolean a.readonly))]

end Attribute

namespace Parameter

-- A default that is null is none.
def readDefault? (float? : Numeral → Option Double) : Option Json → Option (Option Literal)
  | none | some .null => some none
  | some j => (Literal.read? float? j).map some

def read? (float? : Numeral → Option Double) (j : Json) : Option Parameter := do
  let [name, type, optional, default] ← j.fields? ["name", "type", "optional", "default"] | none
  return {
    name := ← name >>= Json.toText?
    type := ← type >>= Json.toText?
    optional := ← optional.elim (some false) Json.toBoolean?
    default := ← readDefault? float? default
  }

def toJson (p : Parameter) : Json :=
  .record [
    ("name", some (.ofText p.name)),
    ("type", some (.ofText p.type)),
    ("optional", if p.optional then some (.boolean true) else none),
    ("default", p.default.map Literal.toJson)]

end Parameter

namespace Json

def listOf? {α : Type} (item? : Json → Option α) : Option Json → Option (List α)
  | none => some []
  | some j => j.toList? >>= (·.mapM item?)

end Json

namespace Interface

def read? (float? : Numeral → Option Double) (j : Json) : Option Interface := do
  let [name, constructor, attributes] ← j.fields? ["name", "constructor", "attributes"] | none
  return {
    name := ← name >>= Json.toText?
    constructor := ← Json.listOf? (Parameter.read? float?) constructor
    attributes := ← Json.listOf? Attribute.ofJson? attributes
  }

def toJson (i : Interface) : Json :=
  .record [
    ("name", some (.ofText i.name)),
    ("constructor",
      if i.constructor.isEmpty then none else some (.array (i.constructor.map Parameter.toJson))),
    ("attributes", some (.array (i.attributes.map Attribute.toJson)))]

end Interface

namespace Document

def read? (float? : Numeral → Option Double) (j : Json) : Option Document := do
  let [interfaces] ← j.fields? ["interfaces"] | none
  return { interfaces := ← Json.listOf? (Interface.read? float?) interfaces }

def toJson (d : Document) : Json :=
  .record [("interfaces", some (.array (d.interfaces.map Interface.toJson)))]

def parseWith? (float? : Numeral → Option Double) (s : String) : Option Document :=
  Json.parse? s >>= read? float?

def parse? : String → Option Document :=
  parseWith? Numeral.scaled?

end Document

end AddonBinding
