import AddonBinding.Host.Error
import AddonBinding.Plan.Resolve
import AddonBinding.Source.Helper

namespace AddonBinding.Source

structure Fragment where
  entries : List EntryDeclaration := []
  fields : List Field := []
  definitions : List EntryPoint := []
  registrations : List Stmt := []

namespace Fragment

def definitionText (f : Fragment) : String :=
  unlines (spaced (f.definitions.map EntryPoint.lines))

end Fragment

def hostName (name : String) : Expr :=
  (Expr.callName "Nan::New" [.text name]).method "ToLocalChecked"

def throwing (message : Expr) : List Stmt :=
  [.evaluate (.callName "Nan::ThrowTypeError" [message]), .leave none]

def classPointer (className : String) : TypeName :=
  .pointer (.named className)

def answer (value : Expr) : Stmt :=
  .evaluate (((Expr.name "info").method "GetReturnValue").method "Set" [value])

def unwrapSelf (className : String) : Stmt :=
  .declare false (classPointer className) "self"
    (some (.callName ("Nan::ObjectWrap::Unwrap<" ++ className ++ ">")
      [(Expr.name "info").method "Holder"]))

def selfField (name : String) : Expr :=
  .arrow (.name "self") name

end AddonBinding.Source

namespace AddonBinding

open Source

namespace AttributePlan

def signature (a : AttributePlan) : String :=
  (if a.writable then "attribute " else "readonly attribute ") ++ a.type.tag ++ " " ++ a.name

def flagsExpr (a : AttributePlan) : Expr :=
  if a.writable then .name "v8::DontDelete"
  else .cast (.named "v8::PropertyAttribute")
    (.binary .bitOr (.name "v8::ReadOnly") (.name "v8::DontDelete"))

def getterEntry (className : String) (a : AttributePlan) : EntryPoint where
  comment := some a.signature
  kind := .getter
  symbol := className ++ "::" ++ a.getter
  body := [unwrapSelf className, answer (encodeExpr a.type (selfField a.field))]

-- The new value is converted first and stored only if that succeeds.
def setterEntry (className : String) (a : AttributePlan) (setter : String) : EntryPoint where
  comment := none
  kind := .setter
  symbol := className ++ "::" ++ setter
  body :=
    [unwrapSelf className,
      .declare false (.storage a.type) "decoded" (some (.ofNative a.type a.type.zero)),
      .when (.not (decodeCall a.type (.name "value") "decoded"))
        (throwing (.text ((Target.property className a.name).mismatch a.type))),
      .assign (selfField a.field) (.name "decoded")]

-- Without a setter the host itself refuses assignments.
def registration (a : AttributePlan) : Stmt :=
  .evaluate (.callName "Nan::SetAccessor"
    [(Expr.name "tpl").arrowMethod "InstanceTemplate", hostName a.name, .name a.getter,
      a.setter?.elim (.natural 0) .name, .callName "v8::Local<v8::Value>" [], .name "v8::DEFAULT",
      a.flagsExpr])

def fragment (className : String) (a : AttributePlan) : Fragment where
  entries := ⟨.getter, a.getter⟩ :: (a.setter?.map (⟨.setter, ·⟩)).toList
  fields := [⟨.storage a.type, a.field⟩]
  definitions := a.getterEntry className :: (a.setter?.map (a.setterEntry className)).toList
  registrations := [a.registration]

end AttributePlan

namespace ConstructorPlan

def arityCondition (c : ConstructorPlan) : Expr :=
  let tooMany := Expr.binary .greater (.name "argc") (.natural c.total)
  if c.required = 0 then tooMany
  else .binary .either (.binary .less (.name "argc") (.natural c.required)) tooMany

def arityThrow (c : ConstructorPlan) : List Stmt :=
  let count := Expr.name "argc"
  [.declare true .text "message" (some
    (.binary .add
      (.binary .add
        (.binary .add (.callName "std::string" [.text c.arityStart])
          (.callName "std::to_string" [count]))
        (.parens (.conditional (.binary .equal count (.natural 1)) (.text " was") (.text " were"))))
      (.text " provided.")))]
    ++ throwing ((Expr.name "message").method "c_str")

def argumentVariable (p : ParameterPlan) : Stmt :=
  .declare false (.storage p.type) p.name (some (.ofNative p.type p.initial))

-- Optional arguments are converted only if they were given.
def decodeArgument (c : ConstructorPlan) (position : Nat) (p : ParameterPlan) : Stmt :=
  let failed := Expr.not
    (decodeCall p.type (.index (.name "info") (.natural position)) p.name)
  let condition :=
    if position < c.required then failed
    else .binary .both (.binary .greater (.name "argc") (.natural position)) failed
  .when condition
    (throwing (.text ((Target.argument c.interface position p.name).mismatch p.type)))

def body (c : ConstructorPlan) : List Stmt :=
  [.when (.not ((Expr.name "info").method "IsConstructCall"))
      (throwing (.text
        ("Failed to construct '" ++ c.interface ++ "': Please use the 'new' operator."))),
    .declare true .int "argc" (some ((Expr.name "info").method "Length")),
    .when c.arityCondition c.arityThrow]
    ++ c.parameters.map argumentVariable
    ++ c.parameters.zipIdx.map (fun (p, position) => c.decodeArgument position p)
    ++ [.declare false (classPointer c.interface) "self" (some (.new c.interface))]
    ++ c.parameters.map (fun p => .assign (selfField (p.name ++ "_")) (.name p.name))
    ++ [.evaluate ((Expr.name "self").arrowMethod "Wrap" [(Expr.name "info").method "This"]),
      answer ((Expr.name "info").method "This")]

def fragment (c : ConstructorPlan) : Fragment where
  entries := [⟨.method, "New"⟩]
  definitions := [⟨some c.signature, .method, c.interface ++ "::New", c.body⟩]

end ConstructorPlan

namespace Interface

-- The contribution of one attribute, without a look at the constructor.
def attributeFragment (i : Interface) (name : String) : Except Rejection Fragment := do
  (Role.interface.check i.name).mapError .single
  let attributes ← i.planAttributes
  match attributes.find? (·.name == name) with
  | some a => return a.fragment i.name
  | none => throw (.single (.undeclaredAttribute i.name name))

def constructorFragment (i : Interface) : Except Rejection Fragment := do
  (Role.interface.check i.name).mapError .single
  let attributes ← i.planAttributes
  return (← i.planConstructor attributes).fragment

end Interface

end AddonBinding
