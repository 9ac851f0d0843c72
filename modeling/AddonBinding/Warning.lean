import AddonBinding.Plan.Basic

namespace AddonBinding

inductive Warning where
  -- A readonly attribute that no parameter initialises.
  | constant (interface name : String)
  | empty (interface : String)
  -- An attribute whose values are not all doubles.
  | precision (interface name : String) (type : ScalarType)
deriving DecidableEq

namespace Warning

def message : Warning → String
  | .constant i a =>
    "readonly attribute `" ++ i ++ "." ++ a
      ++ "` is never initialized and always reads as its default"
  | .empty i => "interface `" ++ i ++ "` declares no attributes"
  | .precision i a type =>
    "`" ++ i ++ "." ++ a ++ "` is `" ++ type.tag
      ++ "`; values beyond 2^53 - 1 are not exact in the host"

def label : Warning → String
  | .constant .. => "CONSTANT"
  | .empty _ => "EMPTY"
  | .precision .. => "PRECISION"

end Warning

namespace InterfacePlan

def isBound (i : InterfacePlan) (a : AttributePlan) : Bool :=
  i.constructor.parameters.any (·.slot == a.slot)

def attributeWarnings (i : InterfacePlan) (a : AttributePlan) : List Warning :=
  (if !a.writable && !i.isBound a then [.constant i.name a.name] else [])
    ++ (match a.type with
      | .integer ⟨.w64, _⟩ => [.precision i.name a.name a.type]
      | _ => [])

def warnings (i : InterfacePlan) : List Warning :=
  (if i.attributes.isEmpty then [.empty i.name] else [])
    ++ i.attributes.flatMap i.attributeWarnings

end InterfacePlan

end AddonBinding
