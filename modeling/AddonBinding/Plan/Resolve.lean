import AddonBinding.Identifier
import AddonBinding.Plan.Basic
import AddonBinding.Plan.Fault

namespace AddonBinding

def Role.check (r : Role) (name : String) : Except Fault Unit :=
  if !Identifier.isValid name then .error (.invalidIdentifier name r)
  else if Identifier.isReserved name then .error (.reservedIdentifier name r)
  else .ok ()

-- A member's name also has to differ from the name of its interface.
def Role.checkMember (r : Role) (interface name : String) : Except Fault Unit := do
  r.check name
  if name = interface then throw (.sharedName interface r)

def Member.typeOf (m : Member) (tag : String) : Except Fault ScalarType :=
  match ScalarType.ofTag? tag with
  | some t => .ok t
  | none => .error (.unsupportedType tag (some m))

namespace Interface

-- The type of an attribute, in view of the attributes declared before it.
def attributeType (i : Interface) (earlier : List Attribute) (a : Attribute) :
    Except Fault (Attribute × ScalarType) := do
  (Role.attribute i.name).checkMember i.name a.name
  if earlier.any (·.name == a.name) then throw (.repeatedAttribute i.name a.name)
  return (a, ← (Member.attribute i.name a.name).typeOf a.type)

-- Attributes take the slots in declaration order.
def planAttributes (i : Interface) : Except Rejection (List AttributePlan) := do
  let typed ← gather (withEarlier i.attributeType [] i.attributes)
  return typed.mapIdx fun slot (a, type) =>
    { name := a.name, type, writable := !a.readonly, slot }

def checkParameterName (i : Interface) (earlier : List Parameter) (p : Parameter) :
    Except Fault Unit := do
  (Role.parameter i.name).checkMember i.name p.name
  if earlier.any (·.name == p.name) then throw (.repeatedParameter i.name p.name)

-- The first parameter with a proper name that has a default.
def firstOptional? (i : Interface) (earlier : List Parameter) : List Parameter → Option String
  | [] => none
  | p :: rest =>
    if p.hasDefault && (i.checkParameterName earlier p).isOk then some p.name
    else i.firstOptional? (earlier ++ [p]) rest

def parameterDefault (i : Interface) (p : Parameter) (type : ScalarType) :
    Except Fault (Option NativeValue) :=
  match p.default with
  | some literal =>
    match type.ofLiteral? literal with
    | some value => .ok (some value)
    | none => .error (.invalidDefault i.name p.name literal type)
  | none => .ok (if p.optional then some type.zero else none)

-- A parameter initialises the attribute of its name, which has the same type.
def bindParameter (i : Interface) (attributes : List AttributePlan) (p : Parameter) :
    Except Fault ParameterPlan := do
  let type ← (Member.parameter i.name p.name).typeOf p.type
  match attributes.find? (·.name == p.name) with
  | none => throw (.noSuchAttribute i.name p.name)
  | some a =>
    if a.type ≠ type then throw (.differentTypes i.name p.name type a.type)
    return { name := p.name, type, default := ← i.parameterDefault p type, slot := a.slot }

def planParameter (i : Interface) (attributes : List AttributePlan) (earlier : List Parameter)
    (p : Parameter) : Except Fault ParameterPlan := do
  i.checkParameterName earlier p
  if !p.hasDefault then
    if let some optional := i.firstOptional? [] earlier then
      throw (.requiredAfterOptional i.name p.name optional)
  i.bindParameter attributes p

def planConstructor (i : Interface) (attributes : List AttributePlan) :
    Except Rejection ConstructorPlan := do
  let parameters ← gather (withEarlier (i.planParameter attributes) [] i.constructor)
  return { interface := i.name, parameters }

-- The constructor is looked at only if the name and the attributes have no fault.
def plan (i : Interface) : Except Rejection InterfacePlan :=
  let attributes := i.planAttributes
  match Rejection.among ((Role.interface.check i.name).mapError .single)
      ++ Rejection.among attributes with
  | [] =>
    let attributes := attributes.toOption.getD []
    match i.planConstructor attributes with
    | .ok constructor => .ok { name := i.name, attributes, constructor }
    | .error r => .error (rejection [r])
  | rejections => .error (rejection rejections)
where
  rejection (rejections : List Rejection) : Rejection :=
    (Rejection.ofList? rejections).getD (.single (.unplanned i.name))

-- The number of the last declaration of a name, counted from one.
def lastDeclaration (name : String) (earlier : List Interface) : Nat :=
  (earlier.zipIdx.filter (·.1.name == name)).getLast?.elim 0 (·.2 + 1)

def planNext (earlier : List Interface) (i : Interface) : Except Rejection InterfacePlan :=
  if earlier.any (·.name == i.name) then
    let last := lastDeclaration i.name earlier
    .error (.single (.repeatedInterface i.name last (earlier.length + 1)))
  else i.plan

end Interface

def acceptedValues {α : Type} (results : List (Except Rejection α)) : List α :=
  results.filterMap Except.toOption

def planAll (interfaces : List Interface) : Except Rejection (List InterfacePlan) :=
  let results := withEarlier Interface.planNext [] interfaces
  Rejection.orAccept (acceptedValues results)
    (Rejection.ofList? (results.flatMap Rejection.among))

end AddonBinding
