import AddonBinding.Toml.Basic
import AddonBinding.Toml.Scalar
import AddonBinding.Toml.Text

namespace AddonBinding.Toml

-- Containers within containers, and parts of a key, are fewer than this.
def nestingLimit : Nat :=
  80

-- A text with line feeds for its line breaks; a carriage return has no other use.
def unifyBreaks? : List Char → Option (List Char)
  | [] => some []
  | '\r' :: '\n' :: rest => (unifyBreaks? rest).map ('\n' :: ·)
  | c :: rest => if c = '\r' then none else (unifyBreaks? rest).map (c :: ·)

def skipComment? (cs : List Char) : Option (List Char) :=
  match cs.dropWhile isBlank with
  | '#' :: rest =>
    let (comment, rest) := rest.span (· != '\n')
    if comment.all isPlain then some rest else none
  | rest => some rest

def lineEnd? (cs : List Char) : Option (List Char) := do
  match ← skipComment? cs with
  | [] => return []
  | c :: rest => if c = '\n' then return rest else none

-- The first argument of a reader that repeats bounds its steps. A document's own bound is never
-- reached.
def skipLines? : Nat → List Char → Option (List Char)
  | 0, _ => none
  | steps + 1, cs => do
    match ← skipComment? cs with
    | '\n' :: rest => skipLines? steps rest
    | rest => return rest

def isBareKeyChar (c : Char) : Bool :=
  c.isAlphanum || c == '_' || c == '-'

def keyPart? (steps : Nat) : List Char → Option (String × List Char)
  | '"' :: rest => do
    let (chars, rest) ← basicText? steps rest
    return (String.ofList chars, rest)
  | '\'' :: rest => do
    let (chars, rest) ← literalText? rest
    return (String.ofList chars, rest)
  | cs => do
    let (key, rest) := cs.span isBareKeyChar
    guard !key.isEmpty
    return (String.ofList key, rest)

def keyParts? : Nat → List Char → Option (List String × List Char)
  | 0, _ => none
  | steps + 1, cs => do
    let (part, rest) ← keyPart? steps (cs.dropWhile isBlank)
    match rest.dropWhile isBlank with
    | '.' :: rest =>
      let (parts, rest) ← keyParts? steps rest
      return (part :: parts, rest)
    | rest => return ([part], rest)

def key? (steps : Nat) (cs : List Char) : Option (List String × List Char) := do
  let (parts, rest) ← keyParts? steps cs
  guard (parts.length < nestingLimit)
  return (parts, rest)

def isWordChar (c : Char) : Bool :=
  c.isAlphanum || ['+', '-', '_', '.', ':'].contains c

-- A value without quotes or brackets. A blank may stand between a date and its time.
def word? (cs : List Char) : Option (Toml × List Char) :=
  let (word, rest) := cs.span isWordChar
  match String.ofList word with
  | "true" => some (.boolean true, rest)
  | "false" => some (.boolean false, rest)
  | _ =>
    let (time, later) := rest.tail.span isWordChar
    if isDate word && rest.head? = some ' ' && isTime true time then some (.moment, later)
    else if isMoment word then some (.moment, rest)
    else if isNumber word then some (.number, rest)
    else none

def text? (steps : Nat) : List Char → Option (List Char × List Char)
  | '"' :: '"' :: '"' :: rest => multilineText? '"' steps (skipBreak rest)
  | '"' :: rest => basicText? steps rest
  | '\'' :: '\'' :: '\'' :: rest => multilineText? '\'' steps (skipBreak rest)
  | '\'' :: rest => literalText? rest
  | _ => none

mutual

-- A value; `depth` more containers may be opened within it.
def value? (depth : Nat) : Nat → List Char → Option (Toml × List Char)
  | 0, _ => none
  | steps + 1, cs =>
    match cs with
    | '[' :: rest => do
      guard (0 < depth)
      let (items, rest) ← items? (depth - 1) steps rest
      return (.array items, rest)
    | '\x7b' :: rest => do
      guard (0 < depth)
      match rest.dropWhile isBlank with
      | '\x7d' :: rest => return (.table .inline [], rest)
      | rest =>
        let (members, rest) ← members? (depth - 1) steps [] rest
        return (.table .inline members, rest)
    | '"' :: _ | '\'' :: _ => do
      let (chars, rest) ← text? steps cs
      return (.text (String.ofList chars), rest)
    | _ => word? cs

def items? (depth : Nat) : Nat → List Char → Option (List Toml × List Char)
  | 0, _ => none
  | steps + 1, cs => do
    match ← skipLines? steps cs with
    | ']' :: rest => return ([], rest)
    | cs =>
      let (item, rest) ← value? depth steps cs
      match ← skipLines? steps rest with
      | ',' :: rest =>
        let (items, rest) ← items? depth steps rest
        return (item :: items, rest)
      | ']' :: rest => return ([item], rest)
      | _ => none

def members? (depth : Nat) : Nat → Members → List Char → Option (Members × List Char)
  | 0, _, _ => none
  | steps + 1, members, cs => do
    let (key, rest) ← key? steps cs
    let (value, rest) ← value? depth steps ((← expect? '=' rest).dropWhile isBlank)
    let members ← members.add key value .inline
    match rest.dropWhile isBlank with
    | ',' :: rest => members? depth steps members rest
    | '\x7d' :: rest => return (members, rest)
    | _ => none

end

-- The members of a document after the statements that are left; keys belong to the table that
-- `here` leads to.
def statements? : Nat → (here : List String) → Members → List Char → Option Members
  | 0, _, _, _ => none
  | steps + 1, here, root, cs => do
    match cs.dropWhile isBlank with
    | [] => return root
    | '\n' :: rest => statements? steps here root rest
    | '#' :: rest => statements? steps here root (← lineEnd? ('#' :: rest))
    | '[' :: '[' :: rest =>
      let (path, rest) ← key? steps rest
      let rest ← expect? ']' (← expect? ']' rest)
      statements? steps path (← root.openItem path) (← lineEnd? rest)
    | '[' :: rest =>
      let (path, rest) ← key? steps rest
      let rest ← expect? ']' rest
      statements? steps path (← root.openTable path) (← lineEnd? rest)
    | rest =>
      let (key, rest) ← key? steps rest
      let (value, rest) ← value? (nestingLimit - 1) steps ((← expect? '=' rest).dropWhile isBlank)
      let root ← root.update false (Members.add key value) here .headed
      statements? steps here root (← lineEnd? rest)

def parse? (s : String) : Option Toml := do
  let cs ← unifyBreaks? (match s.toList with
    | '\ufeff' :: rest => rest
    | cs => cs)
  return .table .headed (← statements? (2 * cs.length + 2) [] [] cs)

end AddonBinding.Toml
