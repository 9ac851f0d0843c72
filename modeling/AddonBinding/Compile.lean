import AddonBinding.Manifest.Basic
import AddonBinding.Source.Unit

namespace AddonBinding

structure CompiledUnit where
  items : List Source.Item
  manifest : Manifest
  warnings : List Warning

namespace CompiledUnit

def code (u : CompiledUnit) : String :=
  Source.unlines (Source.itemLines u.items)

def ofPlans (options : Options) (plans : List InterfacePlan) : CompiledUnit where
  items := Source.unitItems options plans
  manifest := .ofPlans options.moduleName plans
  warnings := plans.flatMap InterfacePlan.warnings

end CompiledUnit

-- The fault of the module name comes before those of the interfaces.
def compile (options : Options) (interfaces : List Interface) : Except Rejection CompiledUnit :=
  let plans := planAll interfaces
  Rejection.orAccept (.ofPlans options (plans.toOption.getD []))
    (Rejection.ofList?
      (Rejection.among ((Role.module.check options.moduleName).mapError .single)
        ++ Rejection.among plans))

end AddonBinding
