namespace AddonBinding.Text

def linesFrom (read : List Char) : List Char → List (List Char)
  | [] => if read.isEmpty then [] else [read.reverse]
  | c :: rest => if c = '\n' then read.reverse :: linesFrom [] rest else linesFrom (c :: read) rest

-- The lines of a text; a line break at the end starts no further line.
def lines (s : String) : List String :=
  (linesFrom [] s.toList).map String.ofList

end AddonBinding.Text
