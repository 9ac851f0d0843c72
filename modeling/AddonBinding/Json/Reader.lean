import AddonBinding.Json.Basic
import AddonBinding.Json.Text

namespace AddonBinding

namespace Numeral

-- The digits of a JSON number after its sign: no needless leading zero, and digits on both sides of
-- a point.
def ofUnsignedText? (negative : Bool) (cs : List Char) : Option Numeral := do
  let (whole, cs) := splitDigits cs
  guard (!whole.isEmpty ∧ (whole.length = 1 ∨ whole.head? ≠ some 0))
  let (fraction, rest) := splitFraction cs
  guard (cs.head? = some '.' → !fraction.isEmpty)
  let exponent ← if rest.isEmpty then some none else (exponent? rest).map some
  return { negative, whole := Decimal.ofDigits whole, fraction, exponent }

def ofJsonText? : List Char → Option Numeral
  | '-' :: rest => ofUnsignedText? true rest
  | rest => ofUnsignedText? false rest

end Numeral

namespace Json

inductive Token where
  | openArray
  | closeArray
  | openObject
  | closeObject
  | comma
  | colon
  | scalar (value : Json)

-- What the lexer is in the middle of, with the characters read so far, last one first. Containers
-- that are still open are on a stack of their own.
inductive Lexeme where
  | none
  | word (read : List Char)
  | number (read : List Char)
  | text (read : List Char) (escaped : Bool)

namespace Lexeme

def isNumberChar (c : Char) : Bool :=
  c.isDigit || c == '+' || c == '-' || c == '.' || c == 'e' || c == 'E'

def finish (tokens : List Token) : Lexeme → Option (List Token)
  | .none => some tokens
  | .word read => match String.ofList read.reverse with
    | "null" => some (.scalar .null :: tokens)
    | "true" => some (.scalar (.boolean true) :: tokens)
    | "false" => some (.scalar (.boolean false) :: tokens)
    | _ => Option.none
  | .number read => (Numeral.ofJsonText? read.reverse).map fun n => .scalar (.number n) :: tokens
  | .text .. => Option.none

def start (tokens : List Token) (c : Char) : Option (Lexeme × List Token) :=
  match c with
  | ' ' | '\n' | '\t' | '\r' => some (.none, tokens)
  | '[' => some (.none, .openArray :: tokens)
  | ']' => some (.none, .closeArray :: tokens)
  | '\x7b' => some (.none, .openObject :: tokens)
  | '\x7d' => some (.none, .closeObject :: tokens)
  | ',' => some (.none, .comma :: tokens)
  | ':' => some (.none, .colon :: tokens)
  | '"' => some (.text [] false, tokens)
  | c =>
    if c.isDigit || c == '-' then some (.number [c], tokens)
    else if c.isLower then some (.word [c], tokens)
    else Option.none

-- One character further; `tokens` holds the complete ones, last one first.
def step : Lexeme × List Token → Char → Option (Lexeme × List Token)
  | (.none, tokens), c => start tokens c
  | (.word read, tokens), c =>
    if c.isLower then some (.word (c :: read), tokens)
    else (Lexeme.word read).finish tokens >>= (start · c)
  | (.number read, tokens), c =>
    if isNumberChar c then some (.number (c :: read), tokens)
    else (Lexeme.number read).finish tokens >>= (start · c)
  | (.text read true, tokens), c => some (.text (c :: read) false, tokens)
  | (.text read false, tokens), c =>
    if c = '\\' then some (.text (c :: read) true, tokens)
    else if c = '"' then
      (unquote? read.reverse).map fun s => (.none, .scalar (.text s) :: tokens)
    else some (.text (c :: read) false, tokens)

end Lexeme

def tokens? (cs : List Char) : Option (List Token) := do
  let (lexeme, tokens) ← cs.foldlM Lexeme.step (.none, [])
  return (← lexeme.finish tokens).reverse

-- A container that is still open, with what it holds so far, last one first.
inductive Frame where
  | array (items : List Json)
  | object (members : List (Option String × Json)) (key : Option String)

inductive Progress where
  | value (stack : List Frame)
  | arrayStart (stack : List Frame)
  | objectStart (stack : List Frame)
  | member (members : List (Option String × Json)) (stack : List Frame)
  | named (members : List (Option String × Json)) (key : Option String) (stack : List Frame)
  | after (value : Json) (stack : List Frame)

namespace Progress

def startValue (stack : List Frame) : Token → Option Progress
  | .scalar v => some (.after v stack)
  | .openArray => some (.arrayStart stack)
  | .openObject => some (.objectStart stack)
  | _ => none

def startKey (members : List (Option String × Json)) (stack : List Frame) : Token → Option Progress
  | .scalar (.text key) => some (.named members key stack)
  | _ => none

def endValue (v : Json) : List Frame → Token → Option Progress
  | .array items :: stack, .comma => some (.value (.array (v :: items) :: stack))
  | .array items :: stack, .closeArray => some (.after (.array (v :: items).reverse) stack)
  | .object members key :: stack, .comma => some (.member ((key, v) :: members) stack)
  | .object members key :: stack, .closeObject =>
    some (.after (.object ((key, v) :: members).reverse) stack)
  | _, _ => none

def step : Progress → Token → Option Progress
  | .value stack, token => startValue stack token
  | .arrayStart stack, .closeArray => some (.after (.array []) stack)
  | .arrayStart stack, token => startValue (.array [] :: stack) token
  | .objectStart stack, .closeObject => some (.after (.object []) stack)
  | .objectStart stack, token => startKey [] stack token
  | .member members stack, token => startKey members stack token
  | .named members key stack, .colon => some (.value (.object members key :: stack))
  | .named .., _ => none
  | .after v stack, token => endValue v stack token

end Progress

def ofTokens? (tokens : List Token) : Option Json := do
  match ← tokens.foldlM Progress.step (.value []) with
  | .after v [] => some v
  | _ => none

def parse? (s : String) : Option Json :=
  tokens? s.toList >>= ofTokens?

end Json

end AddonBinding
