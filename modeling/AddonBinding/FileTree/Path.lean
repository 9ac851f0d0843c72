namespace AddonBinding

structure Path where
  absolute : Bool := false
  names : List String
  -- Whether a slash ends it, so that it can only be a directory.
  slash : Bool := false
deriving DecidableEq

namespace Path

-- The parts of a text between slashes; `read` is the reversed start of the first one.
def splitFrom (read : List Char) : List Char → List (List Char)
  | [] => [read.reverse]
  | c :: rest => if c = '/' then read.reverse :: splitFrom [] rest else splitFrom (c :: read) rest

-- Bytes in a path and in a name are fewer than these.
def lengthLimit : Nat :=
  4096

def nameLimit : Nat :=
  256

def ofText? (s : String) : Option Path :=
  let parts := splitFrom [] s.toList
  if s.isEmpty ∨ s.toList.contains '\x00' ∨ lengthLimit ≤ s.utf8ByteSize then none
  else some {
    absolute := parts.head? == some []
    names := (parts.filter (!·.isEmpty)).map String.ofList
    slash := parts.getLast? == some []
  }

-- The names without those that stay in a directory, unless one starts the path.
def components (p : Path) : List String :=
  let here := if p.absolute then [] else p.names.head?.toList.filter (· == ".")
  here ++ p.names.filter (· != ".")

def parents (p : Path) : List Path :=
  let components := p.components
  (List.range components.length).tail.reverse.map fun n =>
    { absolute := p.absolute, names := components.take n }

-- The path of a file in a directory, where no directory is the working directory.
def join (dir file : String) : String :=
  if dir.isEmpty then file
  else if dir.toList.getLast? = some '/' then dir ++ file
  else dir ++ "/" ++ file

end Path

end AddonBinding
