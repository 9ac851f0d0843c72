import AddonBinding.Source.Statement

-- How the source language divides a line into tokens.

namespace AddonBinding.Source

inductive Mark where
  | openGroup
  | closeGroup
  | openIndex
  | closeIndex
  | openBlock
  | closeBlock
  | comma
  | semicolon
  | colon
  | question
  | dot
  | arrow
  | assign
  | addAssign
  | increment
  | star
  | bang
  | tilde
  | slash
  | operator (op : BinaryOperator)
  -- A mark that has no place in the generated source.
  | other
deriving DecidableEq

namespace Mark

def chars : Mark → List Char
  | .openGroup   => ['(']
  | .closeGroup  => [')']
  | .openIndex   => ['[']
  | .closeIndex  => [']']
  | .openBlock   => ['\x7b']
  | .closeBlock  => ['\x7d']
  | .comma       => [',']
  | .semicolon   => [';']
  | .colon       => [':']
  | .question    => ['?']
  | .dot         => ['.']
  | .arrow       => ['-', '>']
  | .assign      => ['=']
  | .addAssign   => ['+', '=']
  | .increment   => ['+', '+']
  | .star        => ['*']
  | .bang        => ['!']
  | .tilde       => ['~']
  | .slash       => ['/']
  | .operator op => op.render.toList
  | .other       => []

def all : List Mark :=
  [.openGroup, .closeGroup, .openIndex, .closeIndex, .openBlock, .closeBlock, .comma, .semicolon,
    .colon, .question, .dot, .arrow, .assign, .addAssign, .increment, .star, .bang, .tilde, .slash,
    .operator .add, .operator .subtract, .operator .less, .operator .greater, .operator .equal,
    .operator .both, .operator .either, .operator .bitAnd, .operator .bitOr, .operator .shiftLeft,
    .operator .shiftRight]

def ofChars (cs : List Char) : Mark :=
  (all.find? (·.chars = cs)).getD .other

-- Marks of more than one character, used or not.
def longer : List String :=
  ["->", "->*", "++", "--", "<<", ">>", "<=", ">=", "<=>", "==", "!=", "&&", "||", "+=", "-=", "*=",
    "/=", "%=", "&=", "|=", "^=", "<<=", ">>=", "::", "##", ".*", "..."]

-- Marks are as long as they can be.
def next (m : Mark) (c : Char) : Option Mark :=
  if longer.any (·.toList = m.chars ++ [c]) then some (ofChars (m.chars ++ [c])) else none

end Mark

inductive Token where
  | number (cs : List Char)
  | name (cs : List Char)
  -- What stands between the quotes of a string literal.
  | text (cs : List Char)
  | mark (m : Mark)
  -- A string literal that is not complete, and one that is in the middle of an escape.
  | opened (cs : List Char)
  | escaped (cs : List Char)
  -- A comment or a directive.
  | remark
deriving DecidableEq

namespace Token

def isWordChar (c : Char) : Bool :=
  c.isAlphanum || c = '_'

-- What qualifies a name and what its template is applied to belong to the name.
def isNameChar (c : Char) : Bool :=
  isWordChar c || c = ':' || c = '<' || c = '>'

def isExponentMark (c : Option Char) : Bool :=
  c = some 'e' || c = some 'E'

-- The token with one more character, if that goes on with it. A number goes on with letters, points
-- and signs behind an exponent mark, whether it is one or not.
def next : Token → Char → Option Token
  | .number cs, c  =>
    if isWordChar c || c = '.' || (c = '+' || c = '-') && isExponentMark cs.getLast? then
      some (.number (cs ++ [c]))
    else none
  | .name cs, c    =>
    if isNameChar c || c = ' ' && cs.count '>' < cs.count '<' then some (.name (cs ++ [c]))
    else none
  | .text _, _     => none
  | .mark m, c     => if m = .slash ∧ c = '/' then some .remark else (m.next c).map .mark
  | .opened cs, c  =>
    if c = '"' then some (.text cs)
    else if c = '\\' then some (.escaped (cs ++ [c]))
    else some (.opened (cs ++ [c]))
  | .escaped cs, c => some (.opened (cs ++ [c]))
  | .remark, _     => some .remark

def start (c : Char) : Option Token :=
  if c = ' ' then none
  else if c.isDigit then some (.number [c])
  else if isWordChar c then some (.name [c])
  else if c = '"' then some (.opened [])
  else if c = '#' then some .remark
  else some (.mark (.ofChars [c]))

-- The tokens of a text, of which the first one may have begun before it.
def scan : Option Token → List Char → List Token
  | current, []       => current.toList
  | none, c :: rest   => scan (start c) rest
  | some t, c :: rest =>
    match t.next c with
    | some t' => scan (some t') rest
    | none    => t :: scan (start c) rest

end Token

-- The tokens of a line, without what is no code.
def lineTokens (l : String) : List Token :=
  (Token.scan none l.toList).filter (· ≠ .remark)

namespace Mark

variable {m : Mark} {c : Char}

def isFirst (c : Char) : Bool :=
  longer.any (·.toList.head? = some c)

def isLast (c : Char) : Bool :=
  longer.any (·.toList.getLast? = some c)

theorem next_eq_none_of_first (hm : m.chars.head? = some c)
    (h : isFirst c = false) (d : Char) : m.next d = none := by
  refine if_neg fun hl => ?_
  obtain ⟨s, hs, he⟩ := List.any_eq_true.mp hl
  have hh : s.toList.head? = some c := by
    rw [of_decide_eq_true he, List.head?_append, hm]
    rfl
  exact absurd (List.any_eq_true.mpr ⟨s, hs, decide_eq_true hh⟩) (Bool.eq_false_iff.mp h)

theorem next_eq_none_of_last (h : isLast c = false) : m.next c = none := by
  refine if_neg fun hm => ?_
  obtain ⟨s, hs, he⟩ := List.any_eq_true.mp hm
  have hl : s.toList.getLast? = some c := by simp [of_decide_eq_true he]
  exact absurd (List.any_eq_true.mpr ⟨s, hs, decide_eq_true hl⟩) (Bool.eq_false_iff.mp h)

end Mark

namespace Token

variable {t : Token} {cs n : List Char} {c : Char} {m : Mark}

-- The token does not go on with a text.
def Stops (t : Token) (cs : List Char) : Prop :=
  ∀ c ∈ cs.head?, t.next c = none

-- The token that a text is, if it is a single one.
def single? : List Char → Option Token
  | []      => none
  | c :: cs => start c >>= (cs.foldlM next ·)

theorem scan_foldlM {first : Token} (h : cs.foldlM next first = some t) (rest : List Char) :
    scan (some first) (cs ++ rest) = scan (some t) rest := by
  induction cs generalizing first
  case nil => cases h; rfl
  case cons c cs hi =>
    obtain ⟨u, hu, h⟩ := Option.bind_eq_some_iff.mp h
    rw [List.cons_append, scan, hu]
    exact hi h

theorem scan_single (h : single? n = some t) (hs : t.Stops cs) :
    scan none (n ++ cs) = t :: scan none cs := by
  cases n
  case nil => contradiction
  case cons c n =>
    obtain ⟨first, hf, h⟩ := Option.bind_eq_some_iff.mp h
    rw [List.cons_append, scan, hf, scan_foldlM h]
    cases cs
    case nil       => rfl
    case cons d cs => rw [scan, scan, hs d rfl]

theorem scan_remark (cs : List Char) : scan (some .remark) cs = [.remark] := by
  induction cs
  case nil          => rfl
  case cons c cs hi => exact hi

@[simp]
theorem scan_nil : scan none [] = [] :=
  rfl

@[simp]
theorem scan_blank (cs : List Char) : scan none (' ' :: cs) = scan none cs :=
  rfl

@[simp]
theorem scan_blanks (k : Nat) (cs : List Char) :
    scan none (List.replicate k ' ' ++ cs) = scan none cs := by
  induction k
  case zero      => rfl
  case succ k hi => exact hi

section Marks

theorem single?_mark (h : m ∈ Mark.all) : single? m.chars = some (.mark m) := by
  have ha : ∀ m ∈ Mark.all, single? m.chars = some (.mark m) := by decide +kernel
  exact ha m h

-- No mark goes on with a text.
def Apart (cs : List Char) : Prop :=
  ∀ c ∈ cs.head?, Mark.isLast c = false

theorem stops_mark (hm : m ≠ .slash) (h : ∀ c ∈ cs.head?, m.next c = none) :
    (mark m).Stops cs := by
  intro c hc
  rw [next, if_neg fun hs => hm hs.left, h c hc]
  rfl

theorem scan_mark (h : m ∈ Mark.all) (hm : m ≠ .slash) (ha : Apart cs) :
    scan none (m.chars ++ cs) = .mark m :: scan none cs :=
  scan_single (single?_mark h) <| stops_mark hm fun c hc => Mark.next_eq_none_of_last (ha c hc)

-- A mark that does not go on with anything.
theorem scan_solo (h : m ∈ Mark.all) (hm : m.chars.head? = some c) (hc : Mark.isFirst c = false)
    (cs : List Char) : scan none (m.chars ++ cs) = .mark m :: scan none cs := by
  refine scan_single (single?_mark h) (stops_mark ?_ fun _ _ => Mark.next_eq_none_of_first hm hc _)
  rintro rfl
  cases hm
  contradiction

@[simp]
theorem scan_openGroup (cs : List Char) : scan none ('(' :: cs) = .mark .openGroup :: scan none cs :=
  scan_solo (m := .openGroup) (by decide) rfl rfl cs

@[simp]
theorem scan_closeGroup (cs : List Char) :
    scan none (')' :: cs) = .mark .closeGroup :: scan none cs :=
  scan_solo (m := .closeGroup) (by decide) rfl rfl cs

@[simp]
theorem scan_openIndex (cs : List Char) : scan none ('[' :: cs) = .mark .openIndex :: scan none cs :=
  scan_solo (m := .openIndex) (by decide) rfl rfl cs

@[simp]
theorem scan_closeIndex (cs : List Char) :
    scan none (']' :: cs) = .mark .closeIndex :: scan none cs :=
  scan_solo (m := .closeIndex) (by decide) rfl rfl cs

@[simp]
theorem scan_openBlock (cs : List Char) :
    scan none ('\x7b' :: cs) = .mark .openBlock :: scan none cs :=
  scan_solo (m := .openBlock) (by decide) rfl rfl cs

@[simp]
theorem scan_closeBlock (cs : List Char) :
    scan none ('\x7d' :: cs) = .mark .closeBlock :: scan none cs :=
  scan_solo (m := .closeBlock) (by decide) rfl rfl cs

@[simp]
theorem scan_comma (cs : List Char) : scan none (',' :: cs) = .mark .comma :: scan none cs :=
  scan_solo (m := .comma) (by decide) rfl rfl cs

@[simp]
theorem scan_semicolon (cs : List Char) : scan none (';' :: cs) = .mark .semicolon :: scan none cs :=
  scan_solo (m := .semicolon) (by decide) rfl rfl cs

@[simp]
theorem scan_question (cs : List Char) : scan none ('?' :: cs) = .mark .question :: scan none cs :=
  scan_solo (m := .question) (by decide) rfl rfl cs

@[simp]
theorem scan_tilde (cs : List Char) : scan none ('~' :: cs) = .mark .tilde :: scan none cs :=
  scan_solo (m := .tilde) (by decide) rfl rfl cs

theorem apart_cons : Apart (c :: cs) ↔ Mark.isLast c = false := by
  simp [Apart]

end Marks

section Words

-- A text that is a name, and one that a blank after it ends.
def isName (n : List Char) : Bool :=
  n.head?.any isWordChar && single? n = some (.name n) && n.count '<' ≤ n.count '>'

theorem scan_name (h : isName n) (hc : ∀ c ∈ cs.head?, isNameChar c = false) :
    scan none (n ++ cs) = .name n :: scan none cs := by
  simp only [isName, Bool.and_eq_true, decide_eq_true_eq] at h
  refine scan_single h.1.2 fun c hm => ?_
  rw [next, hc c hm, decide_eq_false (Nat.not_lt.mpr h.2), Bool.and_false]
  rfl

-- A text that is a name of the simple kind, without blanks.
theorem isName_of_isNameChar (hh : ∀ c ∈ n.head?, isWordChar c ∧ c.isDigit = false) (hn : n ≠ [])
    (h : ∀ c ∈ n, isNameChar c) (hb : n.count '<' ≤ n.count '>') : isName n := by
  have hf (ts cs : List Char) (h : ∀ c ∈ cs, isNameChar c) :
      cs.foldlM next (.name ts) = some (.name (ts ++ cs)) := by
    induction cs generalizing ts
    case nil => simp
    case cons c cs hi =>
      obtain ⟨hc, h⟩ := List.forall_mem_cons.mp h
      simp [next, hc, hi _ h]
  obtain ⟨c, n, rfl⟩ := List.exists_cons_of_ne_nil hn
  obtain ⟨hw, hd⟩ := hh c rfl
  have hs : start c = some (.name [c]) := by
    have hs : c ≠ ' ' := by rintro rfl; contradiction
    rw [start, if_neg hs, if_neg (Bool.eq_false_iff.mp hd), if_pos hw]
  have hf : single? (c :: n) = some (.name (c :: n)) := by
    rw [single?, hs]
    exact hf [c] n fun d hd => h d (List.mem_cons_of_mem _ hd)
  simp [isName, hw, hf, hb]

-- A character that ends every number.
def endsNumber (c : Char) : Bool :=
  !(isWordChar c || c = '.' || c = '+' || c = '-')

theorem scan_number (h : single? n = some (.number n)) (hc : ∀ c ∈ cs.head?, endsNumber c) :
    scan none (n ++ cs) = .number n :: scan none cs := by
  refine scan_single h fun c hm => ?_
  have := hc c hm
  simp only [endsNumber, Bool.not_eq_true', Bool.or_eq_false_iff] at this
  simp [next, this]

end Words

end Token

end AddonBinding.Source
