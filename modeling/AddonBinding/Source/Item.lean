import AddonBinding.Source.Statement

namespace AddonBinding.Source

inductive EntryKind where
  | moduleInit
  | method
  | getter
  | setter
deriving DecidableEq, Repr

namespace EntryKind

def macroName : EntryKind → String
  | .moduleInit => "NAN_MODULE_INIT"
  | .method => "NAN_METHOD"
  | .getter => "NAN_GETTER"
  | .setter => "NAN_SETTER"

def head (k : EntryKind) (symbol : String) : String :=
  k.macroName ++ "(" ++ symbol ++ ")"

end EntryKind

structure EntryPoint where
  comment : Option String
  kind : EntryKind
  symbol : String
  body : List Stmt

structure Function where
  result : TypeName
  name : String
  parameters : List (TypeName × String)
  body : List Stmt

structure EntryDeclaration where
  kind : EntryKind
  name : String
deriving DecidableEq, Repr

structure Field where
  type : TypeName
  name : String
deriving DecidableEq, Repr

structure ClassDeclaration where
  name : String
  entries : List EntryDeclaration
  fields : List Field
deriving DecidableEq, Repr

inductive Item where
  | comments (texts : List String)
  | includes (headers : List String)
  | helpers (functions : List Function)
  | classDeclaration (declaration : ClassDeclaration)
  -- A constructor that only initialises fields.
  | initialiser (className : String) (fields : List (String × Expr))
  | destructor (className : String)
  | entryPoint (entry : EntryPoint)
  | registration (moduleName : String)

-- Groups of lines with a blank line between neighbours.
def spaced : List (List String) → List String
  | [] => []
  | [group] => group
  | group :: rest => group ++ "" :: spaced rest

def unlines (lines : List String) : String :=
  String.join (lines.map (· ++ "\n"))

def commentLine (text : String) : String :=
  "// " ++ text

namespace EntryPoint

def lines (e : EntryPoint) : List String :=
  (e.comment.map commentLine).toList ++ [e.kind.head e.symbol ++ " \x7b"]
    ++ Stmt.blockLines 1 e.body ++ ["\x7d"]

end EntryPoint

namespace Function

def head (f : Function) : String :=
  "inline " ++ f.result.render ++ " " ++ f.name ++ "("
    ++ ", ".intercalate (f.parameters.map fun (type, name) => type.render ++ " " ++ name) ++ ")"

def lines (f : Function) : List String :=
  [f.head ++ " \x7b"] ++ Stmt.blockLines 1 f.body ++ ["\x7d"]

end Function

namespace EntryDeclaration

def render (d : EntryDeclaration) : String :=
  "static " ++ d.kind.head d.name ++ ";"

end EntryDeclaration

namespace Field

def render (f : Field) : String :=
  f.type.render ++ " " ++ f.name ++ ";"

end Field

namespace ClassDeclaration

def lines (c : ClassDeclaration) : List String :=
  ["class " ++ c.name ++ " : public Nan::ObjectWrap \x7b", " public:",
    line 1 (EntryDeclaration.mk .moduleInit "Init").render, "",
    " private:", line 1 (c.name ++ "();"), line 1 ("~" ++ c.name ++ "();"), ""]
    ++ spaced ([c.entries.map fun d => line 1 d.render]
      ++ (if c.fields.isEmpty then [] else [c.fields.map fun f => line 1 f.render]))
    ++ ["\x7d;"]

end ClassDeclaration

def helperNamespace : String :=
  "widl"

namespace Item

def lines : Item → List String
  | .comments texts => texts
  | .includes headers => headers.map fun h => "#include <" ++ h ++ ">"
  | .helpers functions =>
    ["namespace " ++ helperNamespace ++ " \x7b", ""] ++ spaced (functions.map Function.lines)
      ++ ["", "\x7d  // namespace " ++ helperNamespace]
  | .classDeclaration c => c.lines
  | .initialiser c fields =>
    [c ++ "::" ++ c ++ "()"
      ++ (if fields.isEmpty then ""
        else " : " ++ ", ".intercalate (fields.map fun (f, e) => f ++ "(" ++ e.render ++ ")"))
      ++ " \x7b\x7d"]
  | .destructor c => [c ++ "::~" ++ c ++ "() \x7b\x7d"]
  | .entryPoint e => e.lines
  | .registration name => ["NODE_MODULE(" ++ name ++ ", InitAll)"]

end Item

def itemLines (items : List Item) : List String :=
  spaced (items.map Item.lines)

end AddonBinding.Source
