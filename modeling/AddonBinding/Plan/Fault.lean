import AddonBinding.Interface.Basic

namespace AddonBinding

inductive Role where
  | module
  | interface
  | attribute (interface : String)
  | parameter (interface : String)
deriving DecidableEq

namespace Role

def noun : Role → String
  | .module => "module name"
  | .interface => "interface name"
  | .attribute _ => "attribute"
  | .parameter _ => "constructor parameter"

def describe (r : Role) : String :=
  match r with
  | .module | .interface => r.noun
  | .attribute i | .parameter i => r.noun ++ " of `" ++ i ++ "`"

end Role

inductive Member where
  | attribute (interface name : String)
  | parameter (interface name : String)
deriving DecidableEq

namespace Member

def path : Member → String
  | .attribute i a => i ++ "." ++ a
  | .parameter i p => i ++ "(" ++ p ++ ")"

end Member

inductive FaultKind where
  | unsupportedType
  | invalidSignature
  | duplicateSymbol
  | invalidIdentifier
deriving DecidableEq, Repr

inductive Fault where
  | unsupportedType (tag : String) (member : Option Member)
  | invalidIdentifier (name : String) (role : Role)
  | reservedIdentifier (name : String) (role : Role)
  | sharedName (interface : String) (role : Role)
  -- The numbers of two declarations of one interface.
  | repeatedInterface (name : String) (earlier later : Nat)
  | repeatedAttribute (interface name : String)
  | repeatedParameter (interface name : String)
  | requiredAfterOptional (interface required optional : String)
  | noSuchAttribute (interface parameter : String)
  | differentTypes (interface name : String) (given declared : ScalarType)
  | invalidDefault (interface parameter : String) (literal : Literal) (type : ScalarType)
  | undeclaredAttribute (interface name : String)
  | unplanned (interface : String)
deriving DecidableEq

namespace Fault

def kind : Fault → FaultKind
  | .unsupportedType .. => .unsupportedType
  | .invalidIdentifier .. => .invalidIdentifier
  | .reservedIdentifier .. | .sharedName .. | .repeatedInterface .. | .repeatedAttribute ..
  | .repeatedParameter .. => .duplicateSymbol
  | .requiredAfterOptional .. | .noSuchAttribute .. | .differentTypes .. | .invalidDefault ..
  | .undeclaredAttribute .. | .unplanned .. => .invalidSignature

def duplicate (symbol reason : String) : String :=
  "duplicate symbol `" ++ symbol ++ "`: " ++ reason

def invalidSignature (interface reason : String) : String :=
  "invalid signature for `" ++ interface ++ "`: " ++ reason

def message : Fault → String
  | .unsupportedType tag member =>
    "unsupported type `" ++ tag ++ "`" ++ member.elim "" fun m => " for `" ++ m.path ++ "`"
  | .invalidIdentifier name role => "invalid identifier `" ++ name ++ "` for " ++ role.describe
  | .reservedIdentifier name role =>
    duplicate name (role.describe ++ " collides with a reserved identifier of the generated source")
  | .sharedName i role =>
    duplicate (i ++ "." ++ i) (role.noun ++ " shares the name of its interface")
  | .repeatedInterface name earlier later =>
    duplicate name ("interface declared more than once (declarations " ++ toString earlier
      ++ " and " ++ toString later ++ ")")
  | .repeatedAttribute i a =>
    duplicate (Member.attribute i a).path "attribute declared more than once"
  | .repeatedParameter i p =>
    duplicate (Member.parameter i p).path "constructor parameter declared more than once"
  | .requiredAfterOptional i required optional =>
    invalidSignature i ("required parameter `" ++ required ++ "` follows optional parameter `"
      ++ optional ++ "`")
  | .noSuchAttribute i p =>
    invalidSignature i ("parameter `" ++ p ++ "` does not name an attribute")
  | .differentTypes i name given declared =>
    invalidSignature i ("parameter `" ++ name ++ "` is `" ++ given.tag ++ "` but attribute `"
      ++ name ++ "` is `" ++ declared.tag ++ "`")
  | .invalidDefault i p literal type =>
    invalidSignature i ("default value " ++ literal.describe ++ " of parameter `" ++ p
      ++ "` is not a valid `" ++ type.tag ++ "`")
  | .undeclaredAttribute i a => invalidSignature i ("attribute `" ++ a ++ "` is not declared")
  | .unplanned i => invalidSignature i "could not be planned"

end Fault

inductive Report where
  | single (fault : Fault)
  | multiple (reports : List Report)

namespace Report

def errors : Report → List Report
  | .single f => [.single f]
  | .multiple reports => reports

-- One report for several. A list among them takes part with its items, which can be lists again.
def ofList? (reports : List Report) : Option Report :=
  match reports.flatMap errors with
  | [] => none
  | [r] => some r
  | rs => some (.multiple rs)

mutual

def message : Report → String
  | .single f => f.message
  | .multiple reports =>
    toString reports.length ++ " errors:\n" ++ "\n".intercalate (listed reports)

def listed : List Report → List String
  | [] => []
  | r :: rest => ("  - " ++ r.message) :: listed rest

end

end Report

structure Rejection where
  first : Fault
  rest : List Fault
deriving DecidableEq

namespace Rejection

def single (f : Fault) : Rejection :=
  ⟨f, []⟩

def faults (r : Rejection) : List Fault :=
  r.first :: r.rest

-- One fault is reported as itself.
def report (r : Rejection) : Report :=
  if r.rest.isEmpty then .single r.first else .multiple (r.faults.map .single)

def message (r : Rejection) : String :=
  r.report.message

def ofFaults? : List Fault → Option Rejection
  | [] => none
  | f :: rest => some ⟨f, rest⟩

-- One rejection for several.
def ofList? (rejections : List Rejection) : Option Rejection :=
  ofFaults? (rejections.flatMap faults)

def among {α : Type} : Except Rejection α → List Rejection
  | .error r => [r]
  | .ok _ => []

def orAccept {α : Type} (value : α) : Option Rejection → Except Rejection α
  | none => .ok value
  | some r => .error r

end Rejection

def faultsOf {α : Type} (results : List (Except Fault α)) : List Fault :=
  results.filterMap fun
    | .error f => some f
    | .ok _ => none

def valuesOf {α : Type} (results : List (Except Fault α)) : List α :=
  results.filterMap fun
    | .error _ => none
    | .ok a => some a

-- A unit is accepted without a fault, or rejected with all of them in declaration order.
def gather {α : Type} (results : List (Except Fault α)) : Except Rejection (List α) :=
  Rejection.orAccept (valuesOf results) (Rejection.ofFaults? (faultsOf results))

-- Treat every item in view of the ones before it.
def withEarlier {α β : Type} (f : List α → α → β) (earlier : List α) : List α → List β
  | [] => []
  | a :: rest => f earlier a :: withEarlier f (earlier ++ [a]) rest

end AddonBinding
