import AddonBinding.Decimal.Scan

namespace AddonBinding.Json

def simpleEscape? : Char → Option Char
  | '"' => some '"'
  | '\\' => some '\\'
  | '/' => some '/'
  | 'b' => some '\u0008'
  | 'f' => some '\u000c'
  | 'n' => some '\n'
  | 'r' => some '\r'
  | 't' => some '\t'
  | _ => none

-- The code units that the inside of a quoted text stands for; control characters have to be
-- escaped.
def units? : List Char → Option (List Nat)
  | [] => some []
  | '\\' :: 'u' :: a :: b :: c :: d :: rest => do
    let digits ← [a, b, c, d].mapM (Numeral.digitValue? 16)
    let units ← units? rest
    return digits.foldl (fun n digit => 16 * n + digit) 0 :: units
  | '\\' :: letter :: rest => do
    let c ← simpleEscape? letter
    let units ← units? rest
    return c.toNat :: units
  | c :: rest => do
    guard (c ≠ '\\' ∧ ' ' ≤ c)
    let units ← units? rest
    return c.toNat :: units

def isHighSurrogate (n : Nat) : Bool :=
  0xd800 ≤ n && n < 0xdc00

def isLowSurrogate (n : Nat) : Bool :=
  0xdc00 ≤ n && n < 0xe000

-- The characters of a list of code units, unless a surrogate stands alone.
def chars? : List Nat → Option (List Char)
  | [] => some []
  | high :: low :: rest =>
    if isHighSurrogate high && isLowSurrogate low then
      (Char.ofNat (0x10000 + (high - 0xd800) * 0x400 + (low - 0xdc00)) :: ·) <$> chars? rest
    else if isHighSurrogate high || isLowSurrogate high then none
    else (Char.ofNat high :: ·) <$> chars? (low :: rest)
  | unit :: rest =>
    if isHighSurrogate unit || isLowSurrogate unit then none
    else (Char.ofNat unit :: ·) <$> chars? rest

-- What the inside of a quoted text stands for; none where it is not well formed.
def unquote? (cs : List Char) : Option (Option String) :=
  (units? cs).map fun units => (chars? units).map String.ofList

def hexDigits (n : Nat) : List Char :=
  [n / 4096 % 16, n / 256 % 16, n / 16 % 16, n % 16].map Nat.digitChar

def escape (c : Char) : List Char :=
  match c with
  | '"' => ['\\', '"']
  | '\\' => ['\\', '\\']
  | '\u0008' => ['\\', 'b']
  | '\u000c' => ['\\', 'f']
  | '\n' => ['\\', 'n']
  | '\r' => ['\\', 'r']
  | '\t' => ['\\', 't']
  | c => if c < ' ' then ['\\', 'u'] ++ hexDigits c.toNat else [c]

def quoteChars (s : String) : List Char :=
  '"' :: s.toList.flatMap escape ++ ['"']

end AddonBinding.Json
