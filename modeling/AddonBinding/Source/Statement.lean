import AddonBinding.Source.Literal

namespace AddonBinding.Source

inductive BinaryOperator where
  | add
  | subtract
  | less
  | greater
  | equal
  | both
  | either
  | bitAnd
  | bitOr
  | shiftLeft
  | shiftRight
deriving DecidableEq, Repr

namespace BinaryOperator

def render : BinaryOperator → String
  | .add => "+"
  | .subtract => "-"
  | .less => "<"
  | .greater => ">"
  | .equal => "=="
  | .both => "&&"
  | .either => "||"
  | .bitAnd => "&"
  | .bitOr => "|"
  | .shiftLeft => "<<"
  | .shiftRight => ">>"

end BinaryOperator

-- Parentheses are part of an expression, so that what is written is what was built.
inductive Expr where
  | name (name : String)
  | boolean (value : Bool)
  | integer (value : Nat) (suffix : Suffix)
  -- A hexadecimal number with at least so many digits.
  | hex (width value : Nat)
  -- A number with a point or an exponent, but without a sign.
  | decimal (value : Numeral) (single : Bool)
  | text (value : String)
  | negate (operand : Expr)
  | call (function : Expr) (args : List Expr)
  | dot (object : Expr) (member : String)
  | arrow (pointer : Expr) (member : String)
  | index (array position : Expr)
  | dereference (pointer : Expr)
  | addressOf (operand : Expr)
  | not (operand : Expr)
  | binary (operator : BinaryOperator) (left right : Expr)
  | conditional (condition yes no : Expr)
  | cast (type : TypeName) (operand : Expr)
  | parens (inner : Expr)
  | new (className : String)

def hexDigits (width value : Nat) : List Char :=
  let digits := (Nat.toDigits 16 value).map Char.toUpper
  List.replicate (width - digits.length) '0' ++ digits

namespace Expr

@[match_pattern]
abbrev natural (n : Nat) : Expr :=
  .integer n {}

def withSign (negative : Bool) (e : Expr) : Expr :=
  if negative then .negate e else e

-- An integer as a floating point number.
def whole (n : Int) : Expr :=
  (Expr.decimal { negative := false, whole := n.natAbs, fraction := [0] } false).withSign (n < 0)

def callName (function : String) (args : List Expr) : Expr :=
  .call (.name function) args

def method (object : Expr) (name : String) (args : List Expr := []) : Expr :=
  .call (.dot object name) args

def arrowMethod (pointer : Expr) (name : String) (args : List Expr := []) : Expr :=
  .call (.arrow pointer name) args

mutual

def render : Expr → String
  | .name n => n
  | .boolean b => if b then "true" else "false"
  | .integer n suffix => toString n ++ suffix.render
  | .hex width n => "0x" ++ String.ofList (hexDigits width n)
  | .decimal n single => String.ofList (n.chars false) ++ (if single then "f" else "")
  | .text s => stringLiteral s
  | .negate e => "-" ++ e.render
  | .call f args => f.render ++ "(" ++ ", ".intercalate (renderArgs args) ++ ")"
  | .dot e m => e.render ++ "." ++ m
  | .arrow e m => e.render ++ "->" ++ m
  | .index e i => e.render ++ "[" ++ i.render ++ "]"
  | .dereference e => "*" ++ e.render
  | .addressOf e => "&" ++ e.render
  | .not e => "!" ++ e.render
  | .binary op a b => a.render ++ " " ++ op.render ++ " " ++ b.render
  | .conditional c a b => c.render ++ " ? " ++ a.render ++ " : " ++ b.render
  | .cast t e => "static_cast<" ++ t.render ++ ">(" ++ e.render ++ ")"
  | .parens e => "(" ++ e.render ++ ")"
  | .new c => "new " ++ c ++ "()"

def renderArgs : List Expr → List String
  | [] => []
  | e :: rest => e.render :: renderArgs rest

end

-- A constant of the numeric limits of a type.
def numericLimit (type : TypeName) (name : String) : Expr :=
  .callName ("std::numeric_limits<" ++ type.render ++ ">::" ++ name) []

def ofDouble (type : FloatType) : Double → Expr
  | .nan => numericLimit (.storage (.float type)) "quiet_NaN"
  | .infinite negative =>
    (numericLimit (.storage (.float type)) "infinity").withSign negative
  | .finite negative steps _ =>
    (Expr.decimal (NumberFormat.explicit.numeral false steps) type.single).withSign negative

-- The least 64-bit integer is a difference, since a sign is not part of a number and the number
-- without it is too large.
def ofInteger (wide : Bool) (n : Int64) : Expr :=
  if n = Int64.minValue then
    .parens (.binary .subtract (.negate (.integer 9223372036854775807 { wide := true }))
      (.natural 1))
  else (Expr.integer n.toInt.natAbs { wide }).withSign (n.toInt < 0)

def isWide : ScalarType → Bool
  | .integer t => t.width == .w64
  | _ => false

-- A native value of a type.
def ofNative (type : ScalarType) : NativeValue → Expr
  | .text s => .text s
  | .boolean b => .boolean b
  | .integer n => ofInteger (isWide type) n
  | .unsigned n => .integer n.toNat { unsigned := true, wide := isWide type }
  | .float x => match type with
    | .float t => ofDouble t x
    | _ => ofDouble ⟨false, true⟩ x

end Expr

def literal (type : ScalarType) (v : NativeValue) : String :=
  (Expr.ofNative type v).render

inductive Stmt where
  | declare (constant : Bool) (type : TypeName) (name : String) (value : Option Expr)
  | construct (constant : Bool) (type : TypeName) (name : String) (args : List Expr)
  | assign (target value : Expr)
  | addAssign (target value : Expr)
  | evaluate (expr : Expr)
  | leave (value : Option Expr)
  | exitSwitch
  | choose (condition : Expr) (yes no : List Stmt)
  | loop (condition : Expr) (body : List Stmt)
  -- Count a variable up from a number as long as it is below a limit.
  | count (type : TypeName) (name : String) (first limit : Expr) (body : List Stmt)
  -- Compare with numbers of four hexadecimal digits, which are treated alike.
  | select (subject : Expr) (labels : List Nat) (hit other : List Stmt)

def line (level : Nat) (text : String) : String :=
  String.ofList (List.replicate (2 * level) ' ') ++ text

namespace Stmt

def returnValue (e : Expr) : Stmt :=
  .leave (some e)

def returnBool (b : Bool) : Stmt :=
  .leave (some (.boolean b))

def when (condition : Expr) (body : List Stmt) : Stmt :=
  .choose condition body []

def constantMark (constant : Bool) : String :=
  if constant then "const " else ""

def isChoice : Stmt → Bool
  | .choose .. => true
  | _ => false

mutual

-- `lead` comes before the first word of a choice.
def linesAfter (lead : String) (level : Nat) : Stmt → List String
  | .declare constant type name value =>
    [line level (constantMark constant ++ type.render ++ " " ++ name
      ++ value.elim "" (fun e => " = " ++ e.render) ++ ";")]
  | .construct constant type name args =>
    [line level (constantMark constant ++ type.render ++ " " ++ name
      ++ "(" ++ ", ".intercalate (Expr.renderArgs args) ++ ");")]
  | .assign target value => [line level (target.render ++ " = " ++ value.render ++ ";")]
  | .addAssign target value => [line level (target.render ++ " += " ++ value.render ++ ";")]
  | .evaluate e => [line level (e.render ++ ";")]
  | .leave value => [line level ("return" ++ value.elim "" (fun e => " " ++ e.render) ++ ";")]
  | .exitSwitch => [line level "break;"]
  | .choose condition yes no =>
    [line level (lead ++ "if (" ++ condition.render ++ ") \x7b")] ++ blockLines (level + 1) yes
      ++ [line level "\x7d"] ++ elseLines level no
  | .loop condition body =>
    [line level ("while (" ++ condition.render ++ ") \x7b")] ++ blockLines (level + 1) body
      ++ [line level "\x7d"]
  | .count type name first limit body =>
    [line level ("for (" ++ type.render ++ " " ++ name ++ " = " ++ first.render ++ "; "
      ++ name ++ " < " ++ limit.render ++ "; ++" ++ name ++ ") \x7b")]
      ++ blockLines (level + 1) body ++ [line level "\x7d"]
  | .select subject labels hit other =>
    [line level ("switch (" ++ subject.render ++ ") \x7b")]
      ++ labels.map (fun n => line (level + 1) ("case 0x" ++ String.ofList (hexDigits 4 n) ++ ":"))
      ++ blockLines (level + 2) hit ++ [line (level + 1) "default:"]
      ++ blockLines (level + 2) other ++ [line level "\x7d"]

def blockLines (level : Nat) : List Stmt → List String
  | [] => []
  | s :: rest => s.linesAfter "" level ++ blockLines level rest

-- The other side of a choice; a further choice goes on in the same line.
def elseLines (level : Nat) : List Stmt → List String
  | [] => []
  | s :: rest =>
    if s.isChoice && rest.isEmpty then s.linesAfter "else " level
    else [line level "else \x7b"] ++ s.linesAfter "" (level + 1) ++ blockLines (level + 1) rest
      ++ [line level "\x7d"]

end

def lines (level : Nat) (s : Stmt) : List String :=
  s.linesAfter "" level

end Stmt

end AddonBinding.Source
