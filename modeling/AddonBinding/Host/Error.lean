import AddonBinding.Coercion.Error
import AddonBinding.Plan.Basic

namespace AddonBinding

inductive Target where
  | argument (interface : String) (position : Nat) (parameter : String)
  | property (interface property : String)
deriving DecidableEq

namespace Target

def describe : Target → String
  | .argument i position p =>
    "Failed to construct '" ++ i ++ "': parameter " ++ toString (position + 1) ++ " ('" ++ p ++ "')"
  | .property i p =>
    "Failed to set the '" ++ p ++ "' property on '" ++ i ++ "': The provided value"

def mismatch (t : Target) (expected : ScalarType) : String :=
  t.describe ++ " is not of type '" ++ expected.tag ++ "'."

end Target

namespace ConstructorPlan

def arityStart (c : ConstructorPlan) : String :=
  "Failed to construct '" ++ c.interface ++ "': " ++ c.expectation ++ ", but "

def arityMessage (c : ConstructorPlan) (count : Nat) : String :=
  c.arityStart ++ toString count ++ (if count = 1 then " was" else " were") ++ " provided."

end ConstructorPlan

inductive RuntimeError where
  | arity (constructor : ConstructorPlan) (count : Nat)
  | typeMismatch (target : Target) (expected : ScalarType) (reason : DecodeError)
  | readOnly (interface property : String)
  | unknownProperty (interface property : String)
  | unknownInterface (name : String)
deriving DecidableEq

namespace RuntimeError

def message : RuntimeError → String
  | .arity c count => c.arityMessage count
  | .typeMismatch target expected _ => target.mismatch expected
  | .readOnly i p => "Cannot assign to read only property '" ++ p ++ "' of object '#<" ++ i ++ ">'"
  | .unknownProperty i p => "'" ++ p ++ "' is not an attribute of '" ++ i ++ "'"
  | .unknownInterface name => "'" ++ name ++ "' is not a constructor"

end RuntimeError

end AddonBinding
