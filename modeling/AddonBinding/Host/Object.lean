import AddonBinding.Coercion.Basic
import AddonBinding.Host.Error

namespace AddonBinding

namespace ConstructorPlan

def target (c : ConstructorPlan) (position : Nat) (p : ParameterPlan) : Target :=
  .argument c.interface position p.name

-- The value for a parameter: the argument at its position, converted, or else its default.
def argument (c : ConstructorPlan) (policy : CoercionPolicy) (args : List HostValue)
    (position : Nat) (p : ParameterPlan) : Except RuntimeError NativeValue :=
  match args[position]? with
  | none => .ok p.initial
  | some v => (p.type.decode policy v).mapError (.typeMismatch (c.target position p) p.type)

def bind (c : ConstructorPlan) (policy : CoercionPolicy) (args : List HostValue) :
    Except RuntimeError (List (Nat × NativeValue)) :=
  if args.length < c.required ∨ c.total < args.length then .error (.arity c args.length)
  else c.parameters.zipIdx.mapM fun (p, position) =>
    return (p.slot, ← c.argument policy args position p)

end ConstructorPlan

structure HostObject where
  plan : InterfacePlan
  policy : CoercionPolicy
  storage : List NativeValue
deriving DecidableEq

namespace InterfacePlan

def construct (i : InterfacePlan) (policy : CoercionPolicy) (args : List HostValue) :
    Except RuntimeError HostObject := do
  let filled ← i.constructor.bind policy args
  let storage := filled.foldl (fun storage (slot, value) => storage.set slot value) i.initialStorage
  return { plan := i, policy, storage }

end InterfacePlan

namespace HostObject

def className (o : HostObject) : String :=
  o.plan.name

def lookup (o : HostObject) (property : String) : Except RuntimeError AttributePlan :=
  match o.plan.attribute? property with
  | some a => .ok a
  | none => .error (.unknownProperty o.plan.name property)

def stored (o : HostObject) (a : AttributePlan) : NativeValue :=
  o.storage.getD a.slot a.type.zero

def get (o : HostObject) (property : String) : Except RuntimeError HostValue := do
  let a ← o.lookup property
  return (o.stored a).encode

-- An assignment that fails changes nothing.
def set (o : HostObject) (property : String) (v : HostValue) : Except RuntimeError HostObject := do
  let a ← o.lookup property
  if !a.writable then throw (.readOnly o.plan.name property)
  let value ← (a.type.decode o.policy v).mapError
    (.typeMismatch (.property o.plan.name a.name) a.type)
  return { o with storage := o.storage.set a.slot value }

def flags? (o : HostObject) (property : String) : Option PropertyFlags :=
  (o.plan.attribute? property).map AttributePlan.flags

def keys (o : HostObject) : List String :=
  (o.plan.attributes.filter (·.flags.enumerable)).map (·.name)

def entries (o : HostObject) : List (String × HostValue) :=
  o.plan.attributes.map fun a => (a.name, (o.stored a).encode)

end HostObject

end AddonBinding
