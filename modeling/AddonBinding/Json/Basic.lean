import AddonBinding.Decimal.Numeral

namespace AddonBinding

-- A JSON value. Numbers are kept as written. A text or key is none where a surrogate escape stands
-- alone: the document is well formed, but there is no such text.
inductive Json where
  | null
  | boolean (value : Bool)
  | number (value : Numeral)
  | text (value : Option String)
  | array (items : List Json)
  | object (members : List (Option String × Json))
deriving Inhabited

namespace Json

def ofText (s : String) : Json :=
  .text (some s)

def ofNat (n : Nat) : Json :=
  .number { negative := false, whole := n }

def ofInt (n : Int) : Json :=
  .number (.ofInt n)

def record (members : List (String × Option Json)) : Json :=
  .object (members.filterMap fun (key, value?) => value?.map (some key, ·))

-- Floating point numbers are positional from `10 ^ -5` up to, but not including, `10 ^ 16`.
def numberFormat : NumberFormat where
  tie := .even
  positional := some (-5, 15)
  places := 1
  plus := true
  signedZero := true
  nan := "null"
  infinity := "null"

-- A finite double as the shortest number that it is nearest to; other doubles have no JSON form but
-- `null`.
def ofDouble : Double → Json
  | .finite negative steps _ => .number (numberFormat.numeral negative steps)
  | _ => .null

def toText? : Json → Option String
  | .text s => s
  | _ => none

def toBoolean? : Json → Option Bool
  | .boolean b => some b
  | _ => none

-- A choice among names: the name itself, or an object with nothing but a null under the name.
def toChoice? : Json → Option String
  | .text s => s
  | .object [(name, .null)] => name
  | _ => none

def toList? : Json → Option (List Json)
  | .array items => some items
  | _ => none

-- A nonnegative integer of 64 bits; negative zero is not an integer.
def toUInt64? : Json → Option UInt64
  | .number n =>
    if n.isInteger ∧ !n.negative ∧ n.whole < pow2 64 then some (.ofNat n.whole) else none
  | _ => none

-- The only value under a key; `some none` where there is none, and none where there are several.
def unique? (key : String) (members : List (String × Json)) : Option (Option Json) :=
  match members.filter (·.1 == key) with
  | [] => some none
  | [(_, value)] => some (some value)
  | _ => none

-- The fields of a record that is written as an object, or as an array of its fields in order. A
-- field may be missing, none may be given twice, and only an object may hold more than the fields.
def fields? (keys : List String) : Json → Option (List (Option Json))
  | .object members => do
    let members ← members.mapM fun (key?, value) => key?.map (·, value)
    keys.mapM fun key => unique? key members
  | .array items =>
    if items.length ≤ keys.length then
      some ((items.map some) ++ List.replicate (keys.length - items.length) none)
    else none
  | _ => none

end Json

end AddonBinding
