namespace AddonBinding

-- What becomes of a value that is not a number, and of infinities when they would wrap.
inductive NaNRule where
  | zero
  | reject
deriving DecidableEq, Repr, Inhabited

inductive OverflowRule where
  | wrap
  | clamp
  | reject
deriving DecidableEq, Repr, Inhabited

structure CoercionPolicy where
  numericStrings : Bool := false
  emptyStringAsZero : Bool := false
  integerNaN : NaNRule := .zero
  integerOverflow : OverflowRule := .wrap
deriving DecidableEq, Repr, Inhabited

namespace CoercionPolicy

def strict : CoercionPolicy where
  integerNaN := .reject
  integerOverflow := .reject

end CoercionPolicy

namespace NaNRule

def name : NaNRule → String
  | .zero => "zero"
  | .reject => "reject"

def ofName? : String → Option NaNRule
  | "zero" => some .zero
  | "reject" => some .reject
  | _ => none

end NaNRule

namespace OverflowRule

def name : OverflowRule → String
  | .wrap => "wrap"
  | .clamp => "clamp"
  | .reject => "reject"

def ofName? : String → Option OverflowRule
  | "wrap" => some .wrap
  | "clamp" => some .clamp
  | "reject" => some .reject
  | _ => none

end OverflowRule

end AddonBinding
