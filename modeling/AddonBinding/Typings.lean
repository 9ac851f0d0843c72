import AddonBinding.Manifest.Basic

namespace AddonBinding.Typings

def reservedWords : List String :=
  ["arguments", "await", "break", "case", "catch", "class", "const", "continue", "debugger",
   "default", "delete", "do", "else", "enum", "eval", "export", "extends", "false", "finally",
   "for", "function", "if", "implements", "import", "in", "instanceof", "interface", "let", "new",
   "null", "package", "private", "protected", "public", "return", "static", "super", "switch",
   "this", "throw", "true", "try", "typeof", "var", "void", "while", "with", "yield"]

-- A parameter named like a reserved word gets an underscore; properties may have such names.
def parameterName (name : String) : String :=
  if reservedWords.contains name then name ++ "_" else name

def typeName : ScalarType → String
  | .text _ => "string"
  | .boolean => "boolean"
  | .integer _ | .float _ => "number"

def typeOfTag (tag : String) : String :=
  (ScalarType.ofTag? tag).elim "unknown" typeName

def parameter (p : ParameterEntry) : String :=
  parameterName p.name ++ (if p.optional then "?" else "") ++ ": " ++ typeOfTag p.type

def property (a : AttributeEntry) : String :=
  (if a.writable then "" else "readonly ") ++ a.name ++ ": " ++ typeOfTag a.type ++ ";"

def classLines (e : InterfaceEntry) : List String :=
  ["export declare class " ++ e.className ++ " \x7b",
    "  constructor(" ++ ", ".intercalate (e.constructor.parameters.map parameter) ++ ");"]
    ++ e.attributes.map (fun a => "  " ++ property a) ++ ["\x7d"]

def lines (m : Manifest) : List String :=
  ("// Generated by widl-nan for module `" ++ m.moduleName ++ "`. Do not edit.")
    :: m.interfaces.flatMap fun e => "" :: classLines e

def text (m : Manifest) : String :=
  String.join ((lines m).map (· ++ "\n"))

end AddonBinding.Typings
