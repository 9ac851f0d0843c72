import AddonBinding.NativeValue

namespace AddonBinding

structure AttributePlan where
  name : String
  type : ScalarType
  writable : Bool
  slot : Nat
deriving DecidableEq

structure ParameterPlan where
  name : String
  type : ScalarType
  default : Option NativeValue
  slot : Nat
deriving DecidableEq

structure ConstructorPlan where
  interface : String
  parameters : List ParameterPlan
deriving DecidableEq

-- Source, manifest and host objects all come from plans.
structure InterfacePlan where
  name : String
  attributes : List AttributePlan
  constructor : ConstructorPlan
deriving DecidableEq

structure PropertyFlags where
  writable : Bool
  enumerable : Bool
  configurable : Bool
deriving DecidableEq, Repr

namespace AttributePlan

-- Every attribute is listed, and none can be removed.
def flags (a : AttributePlan) : PropertyFlags where
  writable := a.writable
  enumerable := true
  configurable := false

def field (a : AttributePlan) : String :=
  a.name ++ "_"

def getter (a : AttributePlan) : String :=
  "Get_" ++ a.name

def setter? (a : AttributePlan) : Option String :=
  if a.writable then some ("Set_" ++ a.name) else none

end AttributePlan

namespace ParameterPlan

def initial (p : ParameterPlan) : NativeValue :=
  p.default.getD p.type.zero

end ParameterPlan

namespace ConstructorPlan

def required (c : ConstructorPlan) : Nat :=
  (c.parameters.takeWhile fun p => p.default.isNone).length

def total (c : ConstructorPlan) : Nat :=
  c.parameters.length

def argumentNoun (n : Nat) : String :=
  if n = 1 then "argument" else "arguments"

def expectation (c : ConstructorPlan) : String :=
  if c.total = 0 then "expected no arguments"
  else if c.required = c.total then
    "expected exactly " ++ toString c.total ++ " " ++ argumentNoun c.total
  else if c.required = 0 then
    "expected at most " ++ toString c.total ++ " " ++ argumentNoun c.total
  else "expected between " ++ toString c.required ++ " and " ++ toString c.total ++ " arguments"

def parameterSignature (p : ParameterPlan) : String :=
  match p.default with
  | some value => "optional " ++ p.type.tag ++ " " ++ p.name ++ " = " ++ value.describe
  | none => p.type.tag ++ " " ++ p.name

def signature (c : ConstructorPlan) : String :=
  "constructor(" ++ ", ".intercalate (c.parameters.map parameterSignature) ++ ")"

end ConstructorPlan

namespace InterfacePlan

def attribute? (i : InterfacePlan) (name : String) : Option AttributePlan :=
  i.attributes.find? (·.name == name)

def initialStorage (i : InterfacePlan) : List NativeValue :=
  i.attributes.map (·.type.zero)

end InterfacePlan

end AddonBinding
