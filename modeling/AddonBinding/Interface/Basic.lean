import AddonBinding.Literal

namespace AddonBinding

structure Attribute where
  name : String
  type : String
  readonly : Bool := false
deriving DecidableEq

structure Parameter where
  name : String
  type : String
  optional : Bool := false
  default : Option Literal := none
deriving DecidableEq

structure Interface where
  name : String
  constructor : List Parameter := []
  attributes : List Attribute := []
deriving DecidableEq

structure Document where
  interfaces : List Interface := []
deriving DecidableEq

namespace Parameter

def hasDefault (p : Parameter) : Bool :=
  p.optional || p.default.isSome

end Parameter

namespace Interface

def addAttribute (i : Interface) (a : Attribute) : Interface :=
  { i with attributes := i.attributes ++ [a] }

def addParameter (i : Interface) (p : Parameter) : Interface :=
  { i with constructor := i.constructor ++ [p] }

end Interface

end AddonBinding
