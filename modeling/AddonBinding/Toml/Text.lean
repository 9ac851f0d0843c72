import AddonBinding.Decimal.Scan

namespace AddonBinding.Toml

-- Characters that stand for themselves in texts and comments: no control character but the tab.
def isPlain (c : Char) : Bool :=
  c == '\t' || (c ≥ ' ' && c != '\x7f')

def isBlank (c : Char) : Bool :=
  c == ' ' || c == '\t'

def codePoint? (width : Nat) (cs : List Char) : Option (Char × List Char) := do
  let digits ← (cs.take width).mapM (Numeral.digitValue? 16)
  let n := digits.foldl (fun n d => 16 * n + d) 0
  if h : n.isValidChar ∧ digits.length = width then some (Char.ofNatAux n h.1, cs.drop width)
  else none

def escape? : List Char → Option (Char × List Char)
  | 'b' :: rest => some ('\x08', rest)
  | 't' :: rest => some ('\t', rest)
  | 'n' :: rest => some ('\n', rest)
  | 'f' :: rest => some ('\x0c', rest)
  | 'r' :: rest => some ('\r', rest)
  | '"' :: rest => some ('"', rest)
  | '\\' :: rest => some ('\\', rest)
  | 'u' :: rest => codePoint? 4 rest
  | 'U' :: rest => codePoint? 8 rest
  | _ => none

def prepend (start : List Char) (text : List Char × List Char) : List Char × List Char :=
  (start ++ text.1, text.2)

-- A reader starts behind the opening quotes and gives the text with what follows the closing ones.
-- A bound on the number of steps comes first, and the length of the document is always enough.
def basicText? : Nat → List Char → Option (List Char × List Char)
  | 0, _ => none
  | _, [] => none
  | _, '"' :: rest => some ([], rest)
  | steps + 1, '\\' :: rest => do
    let (c, rest) ← escape? rest
    return prepend [c] (← basicText? steps rest)
  | steps + 1, c :: rest => do
    guard (isPlain c)
    return prepend [c] (← basicText? steps rest)

def literalText? (cs : List Char) : Option (List Char × List Char) := do
  let (chars, rest) := cs.span (· != '\'')
  guard (chars.all isPlain ∧ !rest.isEmpty)
  return (chars, rest.tail)

-- A text of many lines, between triple quotes. Up to two more quotes may stand before the closing
-- ones and belong to the text. Within double quotes there are escapes, and a backslash at the end
-- of a line takes away all blanks and line breaks that follow.
def multilineText? (quote : Char) : Nat → List Char → Option (List Char × List Char)
  | 0, _ => none
  | _, [] => none
  | steps + 1, c :: rest => do
    if c = quote then
      let (quotes, rest) := (c :: rest).span (· == quote)
      if quotes.length < 3 then return prepend quotes (← multilineText? quote steps rest)
      guard (quotes.length ≤ 5)
      return (quotes.drop 3, rest)
    else if c = '\\' ∧ quote = '"' then
      if (rest.dropWhile isBlank).head? = some '\n' then
        multilineText? quote steps (rest.dropWhile fun c => isBlank c || c == '\n')
      else
        let (c, rest) ← escape? rest
        return prepend [c] (← multilineText? quote steps rest)
    else
      guard (isPlain c ∨ c = '\n')
      return prepend [c] (← multilineText? quote steps rest)

def skipBreak : List Char → List Char
  | '\n' :: rest => rest
  | rest => rest

end AddonBinding.Toml
