import AddonBinding.Host.Object
import AddonBinding.Options
import AddonBinding.Plan.Resolve

namespace AddonBinding

structure HostModule where
  name : String
  policy : CoercionPolicy
  classes : List InterfacePlan
deriving DecidableEq

namespace HostModule

-- A fault of the module's own name is reported alone.
def load (interfaces : List Interface) (options : Options) : Except Rejection HostModule := do
  (Role.module.check options.moduleName).mapError .single
  return {
    name := options.moduleName
    policy := options.coercion
    classes := ← planAll interfaces
  }

def classNames (m : HostModule) : List String :=
  m.classes.map (·.name)

def class? (m : HostModule) (name : String) : Option InterfacePlan :=
  m.classes.find? (·.name == name)

def construct (m : HostModule) (name : String) (args : List HostValue) :
    Except RuntimeError HostObject :=
  match m.class? name with
  | some plan => plan.construct m.policy args
  | none => .error (.unknownInterface name)

end HostModule

end AddonBinding
