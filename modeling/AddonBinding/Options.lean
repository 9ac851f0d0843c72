import AddonBinding.Coercion.Policy

namespace AddonBinding

structure Options where
  moduleName : String := "binding"
  coercion : CoercionPolicy := {}
  banner : Option String := none
  verbose : Bool := false
deriving DecidableEq

end AddonBinding
