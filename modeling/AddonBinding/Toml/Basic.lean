namespace AddonBinding

-- How a table has come to be, which decides what may still add to it.
inductive TableForm where
  | inline
  | implied
  | dotted
  | headed
deriving DecidableEq

-- Of numbers, and of dates and times, only the kind is kept.
inductive Toml where
  | text (value : String)
  | boolean (value : Bool)
  | number
  | moment
  | array (items : List Toml)
  | table (form : TableForm) (members : List (String × Toml))
  -- The tables that headers in double brackets opened, last one first.
  | tables (items : List (List (String × Toml)))
deriving Inhabited

namespace Toml

def toText? : Toml → Option String
  | .text s => some s
  | _ => none

def toBoolean? : Toml → Option Bool
  | .boolean b => some b
  | _ => none

def isTable : Toml → Bool
  | .table .. => true
  | _ => false

def isEmpty : Toml → Bool
  | .array items => items.isEmpty
  | .table _ members => members.isEmpty
  | _ => false

-- A choice among names: the name itself, or a table with nothing but an empty value under the name.
def toChoice? : Toml → Option String
  | .text s => some s
  | .table _ [(name, value)] => if value.isEmpty then some name else none
  | _ => none

abbrev Members :=
  List (String × Toml)

namespace Members

def put (key : String) (value : Toml) : Members → Members
  | [] => [(key, value)]
  | member :: rest => if member.1 = key then (key, value) :: rest else member :: put key value rest

-- The members after a change to the table that a path leads to. Tables that are not there yet are
-- made, `dotted` if the path is part of a key and implied if it is part of a header. Keys do not
-- lead into tables that have a header of their own, and nothing leads into values. A list of tables
-- stands for its last one.
def update (dotted : Bool) (change : TableForm → Members → Option Members) :
    List String → TableForm → Members → Option Members
  | [], form, members => change form members
  | key :: path, _, members => do
    match members.lookup key with
    | none =>
      let form := if dotted then .dotted else .implied
      return members.put key (.table form (← update dotted change path form []))
    | some (.table form inner) =>
      guard (form ≠ .inline ∧ (dotted → form ≠ .headed))
      return members.put key (.table form (← update dotted change path form inner))
    | some (.tables (last :: earlier)) =>
      return members.put key (.tables ((← update dotted change path .headed last) :: earlier))
    | _ => none

-- A new member under a key of one or more parts; a table that the other parts lead to has to be
-- made of such keys alone.
def add (key : List String) (value : Toml) (form : TableForm) (members : Members) :
    Option Members := do
  let name ← key.getLast?
  let path := key.dropLast
  members.update true (fun form inner => do
    guard ((inner.lookup name).isNone ∧ (!path.isEmpty → form = .dotted))
    return inner.put name value) path form

-- The members after a header, which no other header may have opened before.
def openTable (path : List String) (members : Members) : Option Members := do
  let name ← path.getLast?
  members.update false (fun _ inner =>
    match inner.lookup name with
    | none => some (inner.put name (.table .headed []))
    | some (.table .implied innermost) => some (inner.put name (.table .headed innermost))
    | _ => none) path.dropLast .headed

def openItem (path : List String) (members : Members) : Option Members := do
  let name ← path.getLast?
  members.update false (fun _ inner =>
    match inner.lookup name with
    | none => some (inner.put name (.tables [[]]))
    | some (.tables items) => some (inner.put name (.tables ([] :: items)))
    | _ => none) path.dropLast .headed

end Members

-- The fields of a record that is written as a table, or as an array of its fields in order. Any of
-- them may be missing, and there may be more. A moment is a record as well, but all it has is a
-- field of its own.
def fields? (keys : List String) : Toml → Option (List (Option Toml))
  | .table _ members => some (keys.map fun key => members.lookup key)
  | .array items => some (inOrder items)
  | .tables items => some (inOrder (items.reverse.map fun members => .table .headed members))
  | .moment => some (keys.map fun _ => none)
  | _ => none
where
  inOrder (items : List Toml) : List (Option Toml) :=
    (List.range keys.length).map fun i => items[i]?

def hasOnly (keys : List String) : Toml → Bool
  | .table _ members => members.all fun member => keys.contains member.1
  | .moment => false
  | _ => true

end Toml

end AddonBinding
