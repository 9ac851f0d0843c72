import AddonBinding.Plan.Basic

namespace AddonBinding

structure ParameterEntry where
  name : String
  type : String
  optional : Bool
deriving DecidableEq, Repr

structure ConstructorEntry where
  symbol : String
  required : Nat
  total : Nat
  parameters : List ParameterEntry
deriving DecidableEq, Repr

structure AttributeEntry where
  name : String
  type : String
  getter : String
  setter : Option String
  writable : Bool
deriving DecidableEq, Repr

structure InterfaceEntry where
  name : String
  className : String
  constructor : ConstructorEntry
  attributes : List AttributeEntry
deriving DecidableEq, Repr

structure Manifest where
  moduleName : String
  interfaces : List InterfaceEntry
deriving DecidableEq, Repr

namespace InterfacePlan

def symbol (i : InterfacePlan) (member : String) : String :=
  i.name ++ "::" ++ member

def manifestEntry (i : InterfacePlan) : InterfaceEntry where
  name := i.name
  className := i.name
  constructor := {
    symbol := i.symbol "New"
    required := i.constructor.required
    total := i.constructor.total
    parameters := i.constructor.parameters.map fun p => ⟨p.name, p.type.tag, p.default.isSome⟩
  }
  attributes := i.attributes.map fun a =>
    ⟨a.name, a.type.tag, i.symbol a.getter, a.setter?.map i.symbol, a.writable⟩

end InterfacePlan

namespace InterfaceEntry

def symbols (e : InterfaceEntry) : List String :=
  [e.className, e.className ++ "::Init", e.constructor.symbol]
    ++ e.attributes.flatMap fun a => a.getter :: a.setter.toList

end InterfaceEntry

namespace Manifest

def ofPlans (moduleName : String) (plans : List InterfacePlan) : Manifest where
  moduleName
  interfaces := plans.map InterfacePlan.manifestEntry

def interface? (m : Manifest) (name : String) : Option InterfaceEntry :=
  m.interfaces.find? (·.name == name)

def symbols (m : Manifest) : List String :=
  m.interfaces.flatMap InterfaceEntry.symbols ++ ["InitAll"]

end Manifest

end AddonBinding
