import AddonBinding.Json.Basic
import AddonBinding.Json.Text

namespace AddonBinding.Json

-- A text that does not exist is written as the replacement character.
def textChars (s : Option String) : List Char :=
  quoteChars (s.getD "\ufffd")

def separated (separator : List Char) : List (List Char) → List Char
  | [] => []
  | [item] => item
  | item :: rest => item ++ separator ++ separated separator rest

mutual

def compactChars : Json → List Char
  | .null => "null".toList
  | .boolean b => if b then "true".toList else "false".toList
  | .number n => n.chars true
  | .text s => textChars s
  | .array items => '[' :: separated [','] (compactItems items) ++ [']']
  | .object members => '\x7b' :: separated [','] (compactMembers members) ++ ['\x7d']

def compactItems : List Json → List (List Char)
  | [] => []
  | item :: rest => compactChars item :: compactItems rest

def compactMembers : List (Option String × Json) → List (List Char)
  | [] => []
  | (key, value) :: rest => (textChars key ++ ':' :: compactChars value) :: compactMembers rest

end

def newline (level : Nat) : List Char :=
  '\n' :: List.replicate (2 * level) ' '

def indented (level : Nat) (opening closing : Char) (items : List (List Char)) : List Char :=
  if items.isEmpty then [opening, closing]
  else opening :: newline (level + 1) ++ separated (',' :: newline (level + 1)) items
    ++ newline level ++ [closing]

mutual

def prettyChars (level : Nat) : Json → List Char
  | .null => "null".toList
  | .boolean b => if b then "true".toList else "false".toList
  | .number n => n.chars true
  | .text s => textChars s
  | .array items => indented level '[' ']' (prettyItems (level + 1) items)
  | .object members => indented level '\x7b' '\x7d' (prettyMembers (level + 1) members)

def prettyItems (level : Nat) : List Json → List (List Char)
  | [] => []
  | item :: rest => prettyChars level item :: prettyItems level rest

def prettyMembers (level : Nat) : List (Option String × Json) → List (List Char)
  | [] => []
  | (key, value) :: rest =>
    (textChars key ++ ':' :: ' ' :: prettyChars level value) :: prettyMembers level rest

end

def compact (j : Json) : String :=
  String.ofList j.compactChars

def pretty (j : Json) : String :=
  String.ofList (j.prettyChars 0)

end AddonBinding.Json
