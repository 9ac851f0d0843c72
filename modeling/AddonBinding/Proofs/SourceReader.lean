import AddonBinding.HostValue.Number
import AddonBinding.Proofs.SourceTokens
import AddonBinding.Proofs.StringLiterals
import AddonBinding.Source.Item
import AddonBinding.Text.Lines

-- How the source language reads the tokens of a unit. Only what the generator has a use for is read,
-- and only with a line for every statement and every end of a block.

namespace AddonBinding.Source

namespace Suffix

-- A single `l` is left out, since its type depends on the platform.
def table : List (String × Suffix) :=
  [("", {}), ("u", { unsigned := true }), ("U", { unsigned := true }), ("ll", { wide := true }),
    ("LL", { wide := true }), ("ull", ⟨true, true⟩), ("uLL", ⟨true, true⟩), ("Ull", ⟨true, true⟩),
    ("ULL", ⟨true, true⟩), ("llu", ⟨true, true⟩), ("llU", ⟨true, true⟩), ("LLu", ⟨true, true⟩),
    ("LLU", ⟨true, true⟩)]

def ofChars? (cs : List Char) : Option Suffix :=
  table.lookup (String.ofList cs)

end Suffix

namespace TypeName

-- The types that have names of their own.
def builtIn : List TypeName :=
  [.bool, .int, .float, .double, .size, .byte, .text, .word false 8, .word false 16, .word false 32,
    .word false 64, .word true 8, .word true 16, .word true 32, .word true 64]

def ofName (n : String) : TypeName :=
  (builtIn.find? (·.render = n)).getD (.named n)

end TypeName

-- What a name is at the start of an operand.
inductive Word where
  | boolean (value : Bool)
  | new
  | cast (type : TypeName)
  | name (name : String)
deriving DecidableEq

namespace Word

def castType? (cs : List Char) : Option TypeName := do
  let rest ← "static_cast<".toList.isPrefixOf? cs
  if rest.getLast? = some '>' then some (.ofName (String.ofList rest.dropLast)) else none

def ofChars (cs : List Char) : Word :=
  if cs = "true".toList then .boolean true
  else if cs = "false".toList then .boolean false
  else if cs = "new".toList then .new
  else ((castType? cs).map .cast).getD (.name (String.ofList cs))

end Word

namespace BinaryOperator

-- Of two operators the one with the higher level binds stronger.
def level : BinaryOperator → Nat
  | .either                  => 2
  | .both                    => 3
  | .bitOr                   => 4
  | .bitAnd                  => 5
  | .equal                   => 6
  | .less | .greater         => 7
  | .shiftLeft | .shiftRight => 8
  | .add | .subtract         => 9

end BinaryOperator

namespace Expr

def ofHexDigits? (cs : List Char) : Option Nat :=
  if cs.isEmpty then none
  else cs.foldlM (fun n c => (Numeral.digitValue? 16 c).map (16 * n + ·)) 0

-- A leading zero would make an integer an octal one.
def ofNumber? (cs : List Char) : Option Expr :=
  if cs.take 2 = ['0', 'x'] then (ofHexDigits? (cs.drop 2)).map (.hex (cs.length - 2))
  else
    let (whole, rest) := Numeral.splitDigits cs
    match Suffix.ofChars? rest with
    | some suffix =>
      if whole.length = 1 ∨ whole.head? ≠ some 0 then
        some (.integer (Decimal.ofDigits whole) suffix)
      else none
    | none        =>
      let single := cs.getLast? = some 'f' || cs.getLast? = some 'F'
      let body := if single then cs.dropLast else cs
      if body.any (fun c => c = '.' || c = 'e' || c = 'E') then
        (Numeral.ofDecimalText? body).map (.decimal · single)
      else none

-- The text between two quotes, whose bytes are taken for UTF-8.
def ofText? (cs : List Char) : Option Expr :=
  match StringLiteral.scan .plain (cs ++ ['"']) with
  | some (bytes, []) => (String.fromUTF8? ⟨bytes.toArray⟩).map .text
  | _                => none

-- What waits for an operand.
inductive Pending where
  | unary (make : Expr → Expr)
  | new
  | binary (op : BinaryOperator) (left : Expr)
  | condition (condition : Expr)
  | branch (condition yes : Expr)
  | group
  | args (function : Expr) (done : List Expr)
  | index (array : Expr)
  | castType (type : TypeName)
  | cast (type : TypeName)
  | member (make : String → Expr)

structure Parsing where
  pending : List Pending
  operand : Option Expr

namespace Parsing

-- An operand goes to all that binds at least as strongly as what follows it. Operators of one level
-- are taken from the left.
def settle (level : Nat) : List Pending → Expr → List Pending × Expr
  | .unary make :: ps, e           => settle level ps (make e)
  | .new :: ps, .call (.name c) [] => settle level ps (.new c)
  | .binary op a :: ps, e          =>
    if level ≤ op.level then settle level ps (.binary op a e) else (.binary op a :: ps, e)
  | .branch c a :: ps, e           =>
    if level ≤ 1 then settle level ps (.conditional c a e) else (.branch c a :: ps, e)
  | ps, e                          => (ps, e)

def ofWord (ps : List Pending) : Word → Parsing
  | .boolean b => ⟨ps, some (.boolean b)⟩
  | .new       => ⟨.new :: ps, none⟩
  | .cast t    => ⟨.castType t :: ps, none⟩
  | .name n    => ⟨ps, some (.name n)⟩

-- What a parenthesis closes.
def close : List Pending × Expr → Option Parsing
  | (.group :: ps, e)       => some ⟨ps, some (.parens e)⟩
  | (.cast t :: ps, e)      => some ⟨ps, some (.cast t e)⟩
  | (.args f done :: ps, e) => some ⟨ps, some (.call f (done ++ [e]))⟩
  | _                       => none

def afterOperand (ps : List Pending) (e : Expr) : Mark → Option Parsing
  | .openGroup   => some ⟨.args e [] :: ps, none⟩
  | .openIndex   => some ⟨.index e :: ps, none⟩
  | .dot         => some ⟨.member (.dot e) :: ps, none⟩
  | .arrow       => some ⟨.member (.arrow e) :: ps, none⟩
  | .operator op =>
    let (ps, e) := settle op.level ps e
    some ⟨.binary op e :: ps, none⟩
  | .question    =>
    let (ps, e) := settle 2 ps e
    some ⟨.condition e :: ps, none⟩
  | .colon       =>
    match settle 1 ps e with
    | (.condition c :: ps, a) => some ⟨.branch c a :: ps, none⟩
    | _                       => none
  | .comma       =>
    match settle 1 ps e with
    | (.args f done :: ps, a) => some ⟨.args f (done ++ [a]) :: ps, none⟩
    | _                       => none
  | .closeGroup  => close (settle 1 ps e)
  | .closeIndex  =>
    match settle 1 ps e with
    | (.index a :: ps, i) => some ⟨ps, some (.index a i)⟩
    | _                   => none
  | _            => none

def atName : List Pending → List Char → Parsing
  | .member make :: ps, cs => ⟨ps, some (make (String.ofList cs))⟩
  | ps, cs                 => ofWord ps (.ofChars cs)

def atOpening : List Pending → Parsing
  | .castType t :: ps => ⟨.cast t :: ps, none⟩
  | ps                => ⟨.group :: ps, none⟩

def atClosing : List Pending → Option Parsing
  | .args f [] :: ps => some ⟨ps, some (.call f [])⟩
  | _                => none

def beforeOperand (ps : List Pending) : Token → Option Parsing
  | .number cs                  => (ofNumber? cs).map (⟨ps, some ·⟩)
  | .text cs                    => (ofText? cs).map (⟨ps, some ·⟩)
  | .name cs                    => some (atName ps cs)
  | .mark .openGroup            => some (atOpening ps)
  | .mark .closeGroup           => atClosing ps
  | .mark .star                 => some ⟨.unary .dereference :: ps, none⟩
  | .mark .bang                 => some ⟨.unary .not :: ps, none⟩
  | .mark (.operator .bitAnd)   => some ⟨.unary .addressOf :: ps, none⟩
  | .mark (.operator .subtract) => some ⟨.unary .negate :: ps, none⟩
  | _                           => none

def step : Parsing → Token → Option Parsing
  | ⟨ps, none⟩, t         => beforeOperand ps t
  | ⟨ps, some e⟩, .mark m => afterOperand ps e m
  | _, _                  => none

def finish : Parsing → Option Expr
  | ⟨ps, some e⟩ =>
    match settle 1 ps e with
    | ([], e) => some e
    | _       => none
  | _            => none

end Parsing

def ofTokens? (ts : List Token) : Option Expr :=
  ts.foldlM Parsing.step ⟨[], none⟩ >>= Parsing.finish

def read? (s : String) : Option Expr :=
  ofTokens? (lineTokens s)

-- Expressions with commas between them.
def listOfTokens? (ts : List Token) : Option (List Expr) := do
  match ← ofTokens? (.name [] :: .mark .openGroup :: (ts ++ [.mark .closeGroup])) with
  | .call _ args => some args
  | _            => none

end Expr

-- What comes before a mark at the end.
def upTo? (m : Mark) (ts : List Token) : Option (List Token) :=
  if ts.getLast? = some (.mark m) then some ts.dropLast else none

-- What comes before and after the first of a mark.
def splitAt? (m : Mark) : List Token → Option (List Token × List Token)
  | []        => none
  | t :: rest =>
    if t = .mark m then some ([], rest)
    else (splitAt? m rest).map fun (before, after) => (t :: before, after)

structure Variable where
  constant : Bool
  type     : TypeName
  name     : String
deriving DecidableEq

namespace Variable

def readType : List Token → Option (TypeName × List Token)
  | .name u :: .name c :: rest =>
    if u = "unsigned".toList then some (.ofName ("unsigned " ++ String.ofList c), rest)
    else some (.ofName (String.ofList u), .name c :: rest)
  | .name n :: rest            => some (.ofName (String.ofList n), rest)
  | _                          => none

def readName (constant : Bool) (t : TypeName) : List Token → Option (Variable × List Token)
  | .name x :: rest               => some (⟨constant, t, String.ofList x⟩, rest)
  | .mark .star :: .name x :: rest => some (⟨constant, .pointer t, String.ofList x⟩, rest)
  | .mark (.operator .bitAnd) :: .name x :: rest =>
    if constant then some (⟨false, .constantReference t, String.ofList x⟩, rest) else none
  | _                             => none

-- A type, a name, and what follows them.
def read? (ts : List Token) : Option (Variable × List Token) := do
  let constant := ts.head? = some (.name "const".toList)
  let (t, rest) ← readType (if constant then ts.tail else ts)
  readName constant t rest

end Variable

-- What begins a block.
inductive Block where
  | choice (condition : Expr)
  | elseChoice (condition : Expr)
  | otherwise
  | loop (condition : Expr)
  | count (type : TypeName) (name : String) (first limit : Expr)
  | labels (subject : Expr) (labels : List Nat)
  | default (subject : Expr) (labels : List Nat) (hit : List Stmt)

inductive Line where
  | single (s : Stmt)
  | opening (b : Block)
  | label (n : Nat)
  | default
  | closing

inductive Keyword where
  | choice
  | otherwise
  | loop
  | count
  | select
  | label
  | default
  | leave
  | exit
deriving DecidableEq

namespace Keyword

def table : List (String × Keyword) :=
  [("if", .choice), ("else", .otherwise), ("while", .loop), ("for", .count), ("switch", .select),
    ("case", .label), ("default:", .default), ("return", .leave), ("break", .exit)]

def ofChars? (cs : List Char) : Option Keyword :=
  table.lookup (String.ofList cs)

end Keyword

namespace Line

-- The condition before a block.
def condition? (ts : List Token) : Option Expr := do
  match ← Expr.ofTokens? (← upTo? .openBlock ts) with
  | .parens c => some c
  | _         => none

def count? (ts : List Token) : Option Block := do
  let (start, ts) ← splitAt? .semicolon ts
  let (test, ts) ← splitAt? .semicolon ts
  match start, ts with
  | .mark .openGroup :: start, [.mark .increment, .name x, .mark .closeGroup, .mark .openBlock] =>
    match ← Variable.read? start, ← Expr.ofTokens? test with
    | (v, .mark .assign :: first), .binary .less (.name y) limit =>
      if v.constant = false ∧ v.name = String.ofList x ∧ v.name = y then
        some (.count v.type v.name (← Expr.ofTokens? first) limit)
      else none
    | _, _ => none
  | _, _ => none

def declared? (v : Variable) : List Token → Option Stmt
  | []                    => some (.declare v.constant v.type v.name none)
  | .mark .assign :: rest => (Expr.ofTokens? rest).map (.declare v.constant v.type v.name <| some ·)
  | rest                  => do
    match ← Expr.ofTokens? (.name v.name.toList :: rest) with
    | .call (.name x) args => some (.construct v.constant v.type x args)
    | _                    => none

def simple? (ts : List Token) : Option Stmt :=
  match Variable.read? ts, splitAt? .assign ts, splitAt? .addAssign ts with
  | some (v, rest), _, _          => declared? v rest
  | none, some (target, value), _ =>
    return .assign (← Expr.ofTokens? target) (← Expr.ofTokens? value)
  | none, none, some (target, value) =>
    return .addAssign (← Expr.ofTokens? target) (← Expr.ofTokens? value)
  | none, none, none              => (Expr.ofTokens? ts).map .evaluate

-- What follows a keyword.
def ofKeyword? (ts : List Token) : Keyword → Option Line
  | .choice    => (condition? ts).map fun c => .opening (.choice c)
  | .otherwise =>
    match ts with
    | [.mark .openBlock] => some (.opening .otherwise)
    | .name cs :: ts     =>
      if cs = "if".toList then (condition? ts).map fun c => .opening (.elseChoice c) else none
    | _                  => none
  | .loop      => (condition? ts).map fun c => .opening (.loop c)
  | .count     => (count? ts).map .opening
  | .select    => (condition? ts).map fun e => .opening (.labels e [])
  | .label     =>
    match ts with
    | [.number cs, .mark .colon] =>
      match Expr.ofNumber? cs with
      | some (.hex _ n) => some (.label n)
      | _               => none
    | _ => none
  | .default   => if ts = [] then some .default else none
  | .leave     => do
    match ← upTo? .semicolon ts with
    | [] => some (.single (.leave none))
    | ts => (Expr.ofTokens? ts).map fun e => .single (.leave (some e))
  | .exit      => if ts = [.mark .semicolon] then some (.single .exitSwitch) else none

def ofTokens? (ts : List Token) : Option Line :=
  match ts with
  | [.mark .closeBlock] => some .closing
  | .name cs :: rest    =>
    match Keyword.ofChars? cs with
    | some k => ofKeyword? rest k
    | none   => (upTo? .semicolon ts >>= simple?).map .single
  | _                   => (upTo? .semicolon ts >>= simple?).map .single

end Line

-- A choice whose other side is not there yet gets it.
def Stmt.attach (no : List Stmt) : Stmt → Option Stmt
  | .choose c yes []  => some (.choose c yes no)
  | .choose c yes [s] => (s.attach no).map fun s => .choose c yes [s]
  | _                 => none

def attachLast (before no : List Stmt) : Option (List Stmt) := do
  let s ← (← before.getLast?).attach no
  return before.dropLast ++ [s]

-- The statements of a block so far, and the blocks around it with what comes before it in them.
structure Body where
  done  : List Stmt := []
  outer : List (Block × List Stmt) := []

namespace Body

-- What is in a block that ends, and what comes before it.
def close (before done : List Stmt) : Block → Option (List Stmt)
  | .choice c                => some (before ++ [.choose c done []])
  | .elseChoice c            => attachLast before [.choose c done []]
  | .otherwise               => attachLast before done
  | .loop c                  => some (before ++ [.loop c done])
  | .count type name first limit => some (before ++ [.count type name first limit done])
  | .labels ..               => none
  | .default e labels hit    => some (before ++ [.select e labels hit done])

def step : Body → Line → Option Body
  | ⟨done, outer⟩, .single s                                  => some ⟨done ++ [s], outer⟩
  | ⟨done, outer⟩, .opening b                                 => some ⟨[], (b, done) :: outer⟩
  | ⟨[], (.labels e labels, before) :: outer⟩, .label n       =>
    some ⟨[], (.labels e (labels ++ [n]), before) :: outer⟩
  | ⟨hit, (.labels e labels, before) :: outer⟩, .default      =>
    some ⟨[], (.default e labels hit, before) :: outer⟩
  | ⟨done, (b, before) :: outer⟩, .closing                    =>
    (close before done b).map (⟨·, outer⟩)
  | _, _                                                      => none

end Body

-- What the lines of a unit are in the middle of.
inductive Place where
  | outside
  | helpers (functions : List Function)
  | function (functions : List Function) (head : Function) (body : Body)
  | entry (head : EntryPoint) (body : Body)
  | inClass (isPrivate : Bool) (declaration : ClassDeclaration)

structure Reading where
  items : List Item
  place : Place

namespace Reading

def parameters? (ts : List Token) : Option (List (TypeName × String)) :=
  (ts.splitOn (.mark .comma)).mapM fun ts => do
    match ← Variable.read? ts with
    | (⟨false, type, name⟩, []) => some (type, name)
    | _                         => none

def function? (ts : List Token) : Option Function := do
  match ts with
  | .name cs :: ts =>
    match ← Variable.read? ts with
    | (⟨false, result, name⟩, .mark .openGroup :: ts) =>
      if cs = "inline".toList then
        return ⟨result, name, ← parameters? (← upTo? .closeGroup (← upTo? .openBlock ts)), []⟩
      else none
    | _ => none
  | _ => none

def entryKinds : List EntryKind :=
  [.moduleInit, .method, .getter, .setter]

def entryKind? (cs : List Char) : Option EntryKind :=
  entryKinds.find? (·.macroName.toList = cs)

-- The class whose constructor has a name.
def constructed? (cs : List Char) : Option String :=
  let c := cs.take ((cs.length - 2) / 2)
  if c ++ "::".toList ++ c = cs then some (String.ofList c) else none

def initialised? : Expr → Option (String × Expr)
  | .call (.name x) [e] => some (x, e)
  | _                   => none

def initialisers? : List Token → Option (List (String × Expr))
  | []                  => some []
  | .mark .colon :: ts  => do (← Expr.listOfTokens? ts).mapM initialised?
  | _                   => none

def isHelperNamespace : List Token → Bool
  | [.name k, .name n, .mark .openBlock] =>
    k = "namespace".toList && n = helperNamespace.toList
  | _ => false

def class? : List Token → Option ClassDeclaration
  | [.name k, .name c, .mark .colon, .name p, .name w, .mark .openBlock] =>
    if k = "class".toList ∧ p = "public".toList ∧ w = "Nan::ObjectWrap".toList then
      some ⟨String.ofList c, [], []⟩
    else none
  | _ => none

def entryHead? : List Token → Option EntryPoint
  | [.name k, .mark .openGroup, .name n, .mark .closeGroup, .mark .openBlock] =>
    (entryKind? k).map fun kind => ⟨none, kind, String.ofList n, []⟩
  | _ => none

def registration? : List Token → Option Item
  | [.name k, .mark .openGroup, .name n, .mark .comma, .name i, .mark .closeGroup] =>
    if k = "NODE_MODULE".toList ∧ i = "InitAll".toList then some (.registration (String.ofList n))
    else none
  | _ => none

def destructor? : List Token → Option Item
  | [.name k, .mark .tilde, .name c, .mark .openGroup, .mark .closeGroup, .mark .openBlock,
      .mark .closeBlock] =>
    if k = c ++ "::".toList then some (.destructor (String.ofList c)) else none
  | _ => none

def initialiser? : List Token → Option Item
  | .name k :: .mark .openGroup :: .mark .closeGroup :: ts => do
    let fields ← initialisers? (← upTo? .openBlock (← upTo? .closeBlock ts))
    return .initialiser (← constructed? k) fields
  | _ => none

def outside (items : List Item) (ts : List Token) : Option Reading :=
  if isHelperNamespace ts then some ⟨items, .helpers []⟩
  else (class? ts).map (⟨items, .inClass false ·⟩)
    <|> (entryHead? ts).map (⟨items, .entry · {}⟩)
    <|> (registration? ts <|> destructor? ts <|> initialiser? ts).map (⟨items ++ [·], .outside⟩)

-- An entry point that is declared in a class. The public one is the same in all classes.
def declared? : List Token → Option EntryDeclaration
  | [.name s, .name k, .mark .openGroup, .name n, .mark .closeGroup, .mark .semicolon] =>
    if s = "static".toList then (entryKind? k).map (⟨·, String.ofList n⟩) else none
  | _ => none

def field? (ts : List Token) : Option Field := do
  match ← Variable.read? (← upTo? .semicolon ts) with
  | (⟨false, type, name⟩, []) => some ⟨type, name⟩
  | _                         => none

def member? (isPrivate : Bool) (c : ClassDeclaration) (ts : List Token) : Option Place :=
  let special := [.mark .openGroup, .mark .closeGroup, .mark .semicolon]
  if ts = [.name "public:".toList] then some (.inClass false c)
  else if ts = [.name "private:".toList] then some (.inClass true c)
  else if ts = .name c.name.toList :: special ∨ ts = .mark .tilde :: .name c.name.toList :: special
    then some (.inClass isPrivate c)
  else match declared? ts, field? ts with
    | some d, _       =>
      if isPrivate then some (.inClass isPrivate { c with entries := c.entries ++ [d] })
      else if d = ⟨.moduleInit, "Init"⟩ then some (.inClass isPrivate c)
      else none
    | none, some f    =>
      if isPrivate then some (.inClass isPrivate { c with fields := c.fields ++ [f] }) else none
    | none, none      => none

-- A line of a body. The end of the outermost block is the end of the body.
def inBody (inside : Body → Reading) (after : List Stmt → Reading) (body : Body)
    (ts : List Token) : Option Reading := do
  match body, ← Line.ofTokens? ts with
  | ⟨done, []⟩, .closing => return after done
  | body, line           => return inside (← body.step line)

def step (r : Reading) (ts : List Token) : Option Reading :=
  if ts = [] then some r
  else match r with
    | ⟨items, .outside⟩                    => outside items ts
    | ⟨items, .helpers functions⟩          =>
      if ts = [.mark .closeBlock] then some ⟨items ++ [.helpers functions], .outside⟩
      else (function? ts).map (⟨items, .function functions · {}⟩)
    | ⟨items, .function functions f body⟩  =>
      inBody (⟨items, .function functions f ·⟩)
        (fun body => ⟨items, .helpers (functions ++ [{ f with body }])⟩) body ts
    | ⟨items, .entry e body⟩               =>
      inBody (⟨items, .entry e ·⟩)
        (fun body => ⟨items ++ [.entryPoint { e with body }], .outside⟩) body ts
    | ⟨items, .inClass isPrivate c⟩        =>
      if ts = [.mark .closeBlock, .mark .semicolon] then
        some ⟨items ++ [.classDeclaration c], .outside⟩
      else (member? isPrivate c ts).map (⟨items, ·⟩)

def finish : Reading → Option (List Item)
  | ⟨items, .outside⟩ => some items
  | _                 => none

end Reading

def read? (code : String) : Option (List Item) :=
  ((Text.lines code).map lineTokens).foldlM Reading.step ⟨[], .outside⟩ >>= Reading.finish

end AddonBinding.Source
