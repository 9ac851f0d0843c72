import AddonBinding.Proofs.SourceNumbers
import AddonBinding.Source.Item
import Mathlib.Data.PFun

-- What the generated source does when it is run. Whatever the language leaves undefined has no
-- result here, and neither has a loop that does not end.

namespace AddonBinding

namespace Source

-- A variable: its type and, once it has one, its value.
structure Cell where
  type    : TypeName
  content : Option Value

abbrev Cells := List (String × Cell)

namespace Cells

def content (cells : Cells) (name : String) : Option Value :=
  cells.lookup name >>= Cell.content

def update (name : String) (f : Cell → Option Cell) : Cells → Option Cells
  | []             => none
  | (x, c) :: rest =>
    if x = name then (f c).map fun c => (x, c) :: rest
    else (update name f rest).map fun rest => (x, c) :: rest

def put (cells : Cells) (name : String) (v : Value) : Option Cells :=
  cells.update name fun c => (v.convert c.type).map (⟨c.type, some ·⟩)

-- What a constructor does that gives values to fields.
def initialise (fields : Cells) (initial : List (String × Value)) : Option Cells :=
  initial.foldlM (fun fields (x, v) => fields.put x v) fields

end Cells

-- An instance of a class with its fields in declaration order.
structure Object where
  className : String
  fields    : Cells

-- What a call from the host can reach besides its variables.
structure Host where
  objects : List Object := []
  -- The object behind the receiver.
  wrapped : Option Nat := none
  thrown  : Option (List UInt8) := none
  answer  : Option Value := none

-- The variables of the running function, the latest first, and what its pointer parameters point
-- to.
structure State where
  locals  : Cells
  targets : Cells := []
  host    : Host := {}

namespace State

def declare (s : State) (name : String) (type : TypeName) (content : Option Value) : State :=
  { s with locals := (name, ⟨type, content⟩) :: s.locals }

-- At its end a block leaves as many variables as there were before it.
def leaveBlock (s : State) (depth : Nat) : State :=
  { s with locals := s.locals.drop (s.locals.length - depth) }

def putTarget (s : State) (name : String) (v : Value) : Option State := do
  return { s with targets := ← s.targets.put name v }

def putField (s : State) (number : Nat) (field : String) (v : Value) : Option State := do
  let o ← s.host.objects[number]?
  let fields ← o.fields.put field v
  return { s with host.objects := s.host.objects.set number { o with fields } }

def assign (s : State) (v : Value) : Expr → Option State
  | .name x                => do return { s with locals := ← s.locals.put x v }
  | .dereference (.name x) => do
    match ← s.locals.content x with
    | .target p => s.putTarget p v
    | _         => none
  | .arrow (.name x) field => do
    match ← s.locals.content x with
    | .object n => s.putField n field v
    | _         => none
  | _                      => none

def load (s : State) : Value → Option Value
  | .target p   => s.targets.content p
  | .utf8 bytes => some (.chars bytes)
  | _           => none

end State

section Library

def ofNumber (f : Double → Value) : List Value → Option Value
  | [.floating _ x] => some (f x)
  | _               => none

def ofNumbers (f : Double → Double → Double) : List Value → Option Value
  | [.floating _ x, .floating _ y] => some (.floating false (f x y))
  | _                              => none

def ofHostValue (f : HostValue → Value) : List Value → Option Value
  | [.host v] => some (.just (f v))
  | _         => none

def constant (v : Value) : List Value → Option Value
  | [] => some v
  | _  => none

-- Functions of the libraries that only compute.
def libraryFunctions : List (String × (List Value → Option Value)) :=
  (Arithmetic.Operand.constants.map fun (name, v) => (name, constant v.value)) ++
  [("std::isnan", ofNumber (.bool ·.isNaN)),
    ("std::isinf", ofNumber (.bool ·.isInfinite)),
    ("std::isfinite", ofNumber (.bool ·.isFinite)),
    ("std::fabs", ofNumber (.floating false ·.abs)),
    ("std::trunc", ofNumber (.floating false ·.trunc)),
    ("std::nearbyint", ofNumber (.floating false ·.roundEven)),
    ("std::fmod", ofNumbers .fmod),
    ("std::max", ofNumbers .larger),
    ("std::min", ofNumbers .smaller),
    ("std::string", fun
      | [.chars bytes] => some (.text bytes)
      | _              => none),
    ("std::to_string", fun
      | [.integer _ n] => some (.text (utf8 (toString n)))
      | _              => none),
    ("Nan::To<double>", ofHostValue (.floating false ·.toDouble)),
    ("Nan::To<bool>", ofHostValue (.bool ·.toBoolean)),
    ("Nan::To<v8::String>", ofHostValue fun v => .host (.text v.toText))]

end Library

-- Methods that only compute.
def method : Value → String → List Value → Option Value
  | .text bytes, "size", []                => some (.integer .size bytes.length)
  | .text bytes, "c_str", []               => some (.chars bytes)
  | .utf8 bytes, "length", []              => some (.integer .int bytes.length)
  | .just v, "FromJust", []                => some v
  | .just v, "ToLocalChecked", []          => some v
  | .just _, "IsEmpty", []                 => some (.bool false)
  | .host v, "IsNumber", []                => some (.bool v.isNumber)
  | .host v, "IsString", []                => some (.bool v.isText)
  | .info args _, "Length", []             => some (.integer .int args.length)
  | .info _ creates, "IsConstructCall", [] => some (.bool creates)
  | .info .., "This", []                   => some .receiver
  | .info .., "Holder", []                 => some .receiver
  | .info .., "GetReturnValue", []         => some .answer
  | _, _, _                                => none

namespace State

-- Methods that have an effect.
def act (s : State) : Value → String → List Value → Option State
  | .target p, "assign", [.chars bytes, .integer _ n] => s.putTarget p (.text (bytes.take n.toNat))
  | .object n, "Wrap", [.receiver]                    => some { s with host.wrapped := some n }
  | .answer, "Set", [v]                               => some { s with host.answer := some v }
  | _, _, _                                           => none

def invoke (s : State) (v : Value) (name : String) (args : List Value) : Option (Value × State) :=
  match method v name args with
  | some r => some (r, s)
  | none   => (s.act v name args).map (.void, ·)

end State

-- A function as its callers see it: from the values that it is given, and the contents of the
-- variables of which it is given the addresses, to its result and what those variables contain
-- afterwards.
abbrev Callee :=
  List Value → List (Option Value) → Option (Value × List (Option Value))

-- A class with the values that its constructor gives to its fields.
structure Class where
  declaration : ClassDeclaration
  initial     : List (String × Value)

structure Program where
  functions : List (String × Callee) := []
  classes   : List Class := []

namespace State

-- The values among arguments.
def values : List Value → List Value
  | []                 => []
  | .address _ :: rest => values rest
  | v :: rest          => v :: values rest

-- The variables of which arguments are the addresses.
def addressed : List Value → List String
  | []                 => []
  | .address x :: rest => x :: addressed rest
  | _ :: rest          => addressed rest

def refill (cells : Cells) : List String → List (Option Value) → Option Cells
  | [], []           => some cells
  | x :: xs, c :: cs => do refill (← cells.update x (some ⟨·.type, c⟩)) xs cs
  | _, _             => none

def callFunction (s : State) (f : Callee) (args : List Value) : Option (Value × State) := do
  let cells ← (addressed args).mapM fun x => s.locals.lookup x
  let (v, contents) ← f (values args) (cells.map Cell.content)
  return (v, { s with locals := ← refill s.locals (addressed args) contents })

def throw (s : State) : List Value → Option (Value × State)
  | [.chars message] => some (.void, { s with host.thrown := some message })
  | _                => none

-- The object behind the receiver, if it is of a class.
def unwrap (s : State) (className : String) : Option (Value × State) := do
  let n ← s.host.wrapped
  let o ← s.host.objects[n]?
  if o.className = className then return (.object n, s) else none

end State

-- The function that gives the object behind the receiver.
def unwrapName (c : Class) : String :=
  "Nan::ObjectWrap::Unwrap<" ++ c.declaration.name ++ ">"

-- The value with the other sign, of the type that values take before arithmetic.
def Value.negate : Value → Option Value
  | .integer k n       => (k.promote.convert (-n)).map (.integer k.promote)
  | .floating single x => some (.floating single x.negated)
  | _                  => none

namespace Program

open Arithmetic

def call (p : Program) (f : String) (args : List Value) (s : State) : Option (Value × State) :=
  match libraryFunctions.lookup f, p.classes.find? (unwrapName · = f), p.functions.lookup f with
  | some g, _, _            => do return (← g args, s)
  | none, some c, _         => s.unwrap c.declaration.name
  | none, none, some g      => s.callFunction g args
  | none, none, none        => if f = "Nan::ThrowTypeError" then s.throw args else none

-- A new instance. Its fields have no values before the constructor.
def create (p : Program) (className : String) (s : State) : Option (Value × State) := do
  let c ← p.classes.find? (·.declaration.name = className)
  let declared := c.declaration.fields.map fun f => (f.name, Cell.mk f.type none)
  let fields ← Cells.initialise declared c.initial
  return (.object s.host.objects.length,
    { s with host.objects := s.host.objects ++ [⟨className, fields⟩] })

mutual

def eval (p : Program) : Expr → State → Option (Value × State)
  | .name x, s               => do return (← s.locals.content x, s)
  | .boolean b, s            => some (.bool b, s)
  | .natural n, s            => some (.integer .int n, s)
  | .integer n suffix, s     => do return ((← (Term.integer n suffix).eval?).value, s)
  | .hex _ n, s              => some (.integer .int n, s)
  | .decimal n single, s     => do return ((← (Term.floating n.toDecimal single).eval?).value, s)
  | .text t, s               => some (.chars (utf8 t), s)
  | .negate e, s             => do
    let (v, s) ← p.eval e s
    return (← v.negate, s)
  | .call (.name f) args, s  => do
    let (vs, s) ← p.evalAll args s
    p.call f vs s
  | .call (.dot e m) args, s => do
    let (v, s) ← p.eval e s
    let (vs, s) ← p.evalAll args s
    s.invoke v m vs
  | .call (.arrow e m) args, s => do
    let (v, s) ← p.eval e s
    let (vs, s) ← p.evalAll args s
    s.invoke v m vs
  | .index e i, s            => do
    let (v, s) ← p.eval e s
    let (n, s) ← p.eval i s
    return (← v.element n, s)
  | .dereference e, s        => do
    let (v, s) ← p.eval e s
    return (← s.load v, s)
  | .addressOf (.name x), s  => some (.address x, s)
  | .not e, s                => do
    match ← p.eval e s with
    | (.bool b, s) => some (.bool !b, s)
    | _            => none
  | .binary .both a b, s     => do
    match ← p.eval a s with
    | (.bool true, s)  => p.eval b s
    | (.bool false, s) => some (.bool false, s)
    | _                => none
  | .binary .either a b, s   => do
    match ← p.eval a s with
    | (.bool true, s)  => some (.bool true, s)
    | (.bool false, s) => p.eval b s
    | _                => none
  | .binary op a b, s        => do
    let (x, s) ← p.eval a s
    let (y, s) ← p.eval b s
    return (← op.apply x y, s)
  | .conditional c a b, s    => do
    match ← p.eval c s with
    | (.bool true, s)  => p.eval a s
    | (.bool false, s) => p.eval b s
    | _                => none
  | .cast t e, s             => do
    let (v, s) ← p.eval e s
    return (← v.convert t, s)
  | .parens e, s             => p.eval e s
  | .new c, s                => p.create c s
  | _, _                     => none

def evalAll (p : Program) : List Expr → State → Option (List Value × State)
  | [], s        => some ([], s)
  | e :: rest, s => do
    let (v, s) ← p.eval e s
    let (vs, s) ← p.evalAll rest s
    return (v :: vs, s)

end

end Program

-- How a statement ends: the next one follows, it leaves the enclosing loop or selection, or it
-- leaves the function.
inductive Flow where
  | next
  | exit
  | leave (value : Option Value)

abbrev Outcome := Option (Flow × State)

namespace Outcome

-- What follows a statement is done only if the statement gets there.
def andThen (o : Outcome) (k : State → Outcome) : Outcome :=
  match o with
  | some (.next, s) => k s
  | o               => o

def leaveBlock (o : Outcome) (depth : Nat) : Outcome :=
  o.map fun (flow, s) => (flow, s.leaveBlock depth)

def stopExit (o : Outcome) : Outcome :=
  match o with
  | some (.exit, s) => some (.next, s)
  | o               => o

end Outcome

section Loop

variable (test : State → Option (Value × State)) (body : State → Outcome)

-- One round of a loop: either the loop ends, or there is a state for the next round.
def loopRound (s : State) : Option ((Flow × State) ⊕ State) :=
  match test s with
  | some (.bool true, s)  =>
    match body s with
    | some (.next, s) => some (.inr s)
    | o               => o.stopExit.map .inl
  | some (.bool false, s) => some (.inl (.next, s))
  | _                     => none

def rounds : State →. Flow × State :=
  PFun.fix fun s => loopRound test body s

open Classical in
noncomputable def iterate (s : State) : Outcome :=
  (rounds test body s).toOption

end Loop

namespace Program

-- Count a variable up.
def increment (name : String) (s : State) : Outcome := do
  let v ← BinaryOperator.add.apply (← s.locals.content name) (.integer .int 1)
  return (.next, ← s.assign v (.name name))

mutual

noncomputable def exec (p : Program) : Stmt → State → Outcome
  | .declare _ type name none, s       => some (.next, s.declare name type none)
  | .declare _ type name (some e), s   => do
    let (v, s) ← p.eval e s
    return (.next, s.declare name type (some (← v.convert type)))
  | .construct _ type name args, s     => do
    let (vs, s) ← p.evalAll args s
    return (.next, s.declare name type (some (← Value.construct type vs)))
  | .assign target e, s                => do
    let (v, s) ← p.eval e s
    return (.next, ← s.assign v target)
  | .addAssign target e, s             => do
    let (v, s) ← p.eval (.binary .add target e) s
    return (.next, ← s.assign v target)
  | .evaluate e, s                     => do
    let (_, s) ← p.eval e s
    return (.next, s)
  | .leave none, s                     => some (.leave none, s)
  | .leave (some e), s                 => do
    let (v, s) ← p.eval e s
    return (.leave (some v), s)
  | .exitSwitch, s                     => some (.exit, s)
  | .choose condition yes no, s        => do
    match ← p.eval condition s with
    | (.bool true, t)  => (p.execAll yes t).leaveBlock s.locals.length
    | (.bool false, t) => (p.execAll no t).leaveBlock s.locals.length
    | _                => none
  | .loop condition body, s            =>
    iterate (p.eval condition) (fun s => (p.execAll body s).leaveBlock s.locals.length) s
  | .count type name first limit body, s => do
    let (v, t) ← p.eval first s
    let v ← v.convert type
    Outcome.leaveBlock (iterate (p.eval (.binary .less (.name name) limit))
      (fun s => ((p.execAll body s).leaveBlock s.locals.length).andThen (increment name))
      (t.declare name type (some v))) s.locals.length
  | .select subject labels hit other, s => do
    match ← p.eval subject s with
    | (.integer _ n, t) =>
      -- Without an exit at its end, what is done for the labels is followed by the rest.
      (if labels.any (· = n) then (p.execAll hit t).andThen (p.execAll other)
        else p.execAll other t).stopExit.leaveBlock s.locals.length
    | _                 => none

noncomputable def execAll (p : Program) : List Stmt → State → Outcome
  | [], s        => some (.next, s)
  | t :: rest, s => (p.exec t s).andThen (p.execAll rest)

end

end Program

namespace Function

-- The variables of a call: values are converted to the types of their parameters.
def bindValues : List (TypeName × String) → List Value → Option Cells
  | [], []                      => some []
  | (.pointer t, x) :: rest, vs => do
    return (x, ⟨.pointer t, some (.target x)⟩) :: (← bindValues rest vs)
  | (t, x) :: rest, v :: vs     => do
    return (x, ⟨t, some (← v.convert t)⟩) :: (← bindValues rest vs)
  | _, _                        => none

-- What the pointer parameters point to.
def bindTargets : List (TypeName × String) → List (Option Value) → Option Cells
  | [], []                           => some []
  | [], _ :: _                       => none
  | (.pointer _, _) :: _, []         => none
  | (.pointer t, x) :: rest, c :: cs => do return (x, ⟨t, c⟩) :: (← bindTargets rest cs)
  | _ :: rest, cs                    => bindTargets rest cs

noncomputable def run (p : Program) (f : Function) : Callee := fun args contents => do
  let locals ← bindValues f.parameters args
  let targets ← bindTargets f.parameters contents
  match ← p.execAll f.body { locals, targets } with
  | (.leave (some v), s) => return (← v.convert f.result, s.targets.map (·.2.content))
  | _                    => none

end Function

-- A function can call the ones before it.
noncomputable def link (functions : List Function) : List (String × Callee) :=
  functions.foldl (fun known f => known ++ [(f.name, f.run { functions := known })]) []

end Source

end AddonBinding
