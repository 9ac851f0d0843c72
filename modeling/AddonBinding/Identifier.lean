namespace AddonBinding.Identifier

def isLetter (c : Char) : Bool :=
  c.isAlpha || c == '_'

def isValid (name : String) : Bool :=
  match name.toList with
  | [] => false
  | c :: rest => isLetter c && rest.all fun c => isLetter c || c.isDigit

def keywords : List String :=
  ["alignas", "alignof", "and", "and_eq", "asm", "auto", "bitand", "bitor", "bool", "break",
   "case", "catch", "char", "char8_t", "char16_t", "char32_t", "class", "compl", "concept",
   "const", "consteval", "constexpr", "constinit", "const_cast", "continue", "co_await",
   "co_return", "co_yield", "decltype", "default", "delete", "do", "double", "dynamic_cast",
   "else", "enum", "explicit", "export", "extern", "false", "float", "for", "friend", "goto", "if",
   "inline", "int", "long", "mutable", "namespace", "new", "noexcept", "not", "not_eq", "nullptr",
   "operator", "or", "or_eq", "private", "protected", "public", "register", "reinterpret_cast",
   "requires", "return", "short", "signed", "sizeof", "static", "static_assert", "static_cast",
   "struct", "switch", "template", "this", "thread_local", "throw", "true", "try", "typedef",
   "typeid", "typename", "union", "unsigned", "using", "virtual", "void", "volatile", "wchar_t",
   "while", "xor", "xor_eq", "NULL"]

def occupied : List String :=
  ["Nan", "v8", "node", "std", "widl", "InitAll", "New", "Init", "info", "value", "property",
   "target", "tpl", "self", "argc", "decoded", "number", "out", "text", "utf8"]

def globalTypes : List String :=
  ["size_t", "ptrdiff_t", "nullptr_t", "max_align_t"]

def widthNames : List String :=
  ["8", "16", "32", "64", "max", "ptr"]

def after? (start : String) (cs : List Char) : Option (List Char) :=
  start.toList.isPrefixOf? cs

-- The name of an integer type: an optional `u`, `int`, an optional kind, a width and `_t`.
def isIntegerType (name : String) : Bool :=
  let cs := name.toList
  match after? "int" ((after? "u" cs).getD cs) >>= ("_t".toList.isSuffixOf? ·) with
  | none => false
  | some rest =>
    let width := ((after? "_least" rest).or (after? "_fast" rest)).getD rest
    widthNames.contains (String.ofList width)

def hasDoubleUnderscore : List Char → Bool
  | '_' :: '_' :: _ => true
  | _ :: rest => hasDoubleUnderscore rest
  | [] => false

-- Spellings that the implementation of the source language keeps for itself.
def isImplementationName (cs : List Char) : Bool :=
  hasDoubleUnderscore cs || match cs with
    | '_' :: c :: _ => c.isUpper
    | _ => false

def macroStarts : List String :=
  ["NAN_", "NODE_", "V8_"]

def isReserved (name : String) : Bool :=
  isImplementationName name.toList
    || macroStarts.any (fun start => (after? start name.toList).isSome)
    || keywords.contains name || occupied.contains name
    || isIntegerType name || globalTypes.contains name

end AddonBinding.Identifier
