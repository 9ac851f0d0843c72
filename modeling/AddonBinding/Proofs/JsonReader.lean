import AddonBinding.Json.Writer
import AddonBinding.Proofs.JsonText
import AddonBinding.Proofs.NumeralText
import Mathlib.Data.List.Forall2

namespace AddonBinding.Json

namespace Lexeme

variable {cs rest read : List Char} {tokens ts : List Token} {c : Char}

-- The tokens of a text, last one first, from the middle of a lexeme on.
def read? (state : Lexeme × List Token) (cs : List Char) : Option (List Token) := do
  let state ← cs.foldlM step state
  state.1.finish state.2

theorem read?_cons (state : Lexeme × List Token) (c : Char) (cs : List Char) :
    read? state (c :: cs) = step state c >>= (read? · cs) :=
  Option.bind_assoc ..

theorem read?_of_step {state next : Lexeme × List Token} (h : step state c = some next) :
    read? state (c :: cs) = read? next cs := by
  rw [read?_cons, h]
  rfl

theorem read?_of_start {next : Lexeme × List Token} (h : start tokens c = some next) :
    read? (.none, tokens) (c :: cs) = read? next cs :=
  read?_of_step h

-- Nothing that could still be part of a word or of a number.
def Ends (rest : List Char) : Prop :=
  ∀ c ∈ rest.head?, c.isLower = false ∧ isNumberChar c = false

theorem ends_nil : Ends [] := by
  simp [Ends]

theorem ends_cons (hl : c.isLower = false) (hn : isNumberChar c = false) : Ends (c :: rest) := by
  simp [Ends, hl, hn]

section Scalars

theorem read?_of_finish {lexeme : Lexeme} (hf : lexeme.finish tokens = some ts)
    (hs : ∀ c, c.isLower = false → isNumberChar c = false →
      step (lexeme, tokens) c = lexeme.finish tokens >>= (start · c)) (he : Ends rest) :
    read? (lexeme, tokens) rest = read? (.none, ts) rest := by
  cases rest
  case nil => exact hf
  case cons c rest =>
    have ⟨hl, hn⟩ := he c rfl
    rw [read?_cons, read?_cons, hs c hl hn, hf]
    rfl

theorem read?_word (hf : (word read).finish tokens = some ts) (he : Ends rest) :
    read? (word read, tokens) rest = read? (.none, ts) rest :=
  read?_of_finish hf (fun c hl _ => by simp [step, hl]) he

theorem read?_number (hf : (number read).finish tokens = some ts) (he : Ends rest) :
    read? (number read, tokens) rest = read? (.none, ts) rest :=
  read?_of_finish hf (fun c _ hn => by simp [step, hn]) he

theorem read?_numberChars (h : ∀ c ∈ cs, isNumberChar c) :
    read? (number read, tokens) (cs ++ rest) = read? (number (cs.reverse ++ read), tokens) rest := by
  induction cs generalizing read
  case nil => rfl
  case cons c cs hi =>
    have ⟨hc, hcs⟩ := List.forall_mem_cons.mp h
    have hs : step (number read, tokens) c = some (number (c :: read), tokens) := if_pos hc
    rw [List.cons_append, read?_of_step hs, hi hcs, List.reverse_cons, List.append_assoc]
    rfl

theorem start_of_isDigit (h : c.isDigit) : start tokens c = some (number [c], tokens) := by
  unfold start
  split <;> first | exact absurd h (by decide) | skip
  rw [h, Bool.true_or, if_pos rfl]

theorem exists_chars (plus : Bool) (n : Numeral) :
    ∃ c cs, n.chars plus = c :: cs ∧ ∀ tokens, start tokens c = some (number [c], tokens) := by
  have ⟨c, cs, hn, hc⟩ := Numeral.exists_natChars n.whole
  rw [Numeral.chars, hn]
  cases n.negative
  case true  => exact ⟨_, _, rfl, fun _ => rfl⟩
  case false => exact ⟨_, _, rfl, fun _ => start_of_isDigit hc⟩

theorem read?_chars {n : Numeral} (plus : Bool) (h : n.Written) (he : Ends rest) :
    read? (.none, tokens) (n.chars plus ++ rest) =
      read? (.none, .scalar (.number n) :: tokens) rest := by
  have hn := Numeral.ofJsonText?_chars plus h
  have hc := Numeral.isNumberChar_chars plus h
  have ⟨c, cs, hcs, hs⟩ := exists_chars plus n
  rw [hcs] at hn hc ⊢
  rw [List.cons_append, read?_of_start (hs tokens),
    read?_numberChars (List.forall_mem_cons.mp hc).2]
  refine read?_number ?_ he
  rw [finish, List.reverse_append, List.reverse_reverse]
  exact congrArg _ hn

theorem read?_plainChars (h : ∀ c ∈ cs, c ≠ '\\' ∧ c ≠ '"') :
    read? (text read false, tokens) (cs ++ rest) =
      read? (text (cs.reverse ++ read) false, tokens) rest := by
  induction cs generalizing read
  case nil => rfl
  case cons c cs hi =>
    have ⟨⟨hb, hq⟩, hcs⟩ := List.forall_mem_cons.mp h
    have hs : step (text read false, tokens) c = some (text (c :: read) false, tokens) := by
      simp [step, hb, hq]
    rw [List.cons_append, read?_of_step hs, hi hcs, List.reverse_cons, List.append_assoc]
    rfl

theorem hexDigits_plain (n : Nat) : ∀ c ∈ hexDigits n, c ≠ '\\' ∧ c ≠ '"' := by
  have hd (d : Nat) (h : d < 16) : d.digitChar ≠ '\\' ∧ d.digitChar ≠ '"' := by
    interval_cases d <;> decide
  have hm (k : Nat) := hd (k % 16) (Nat.mod_lt _ (by decide))
  simp [hexDigits, hm]

theorem read?_escaped (h : Escaped c cs) :
    read? (text read false, tokens) (cs ++ rest) =
      read? (text (cs.reverse ++ read) false, tokens) rest := by
  cases h
  case letter => rfl
  case code =>
    have hs : read? (text read false, tokens) ('\\' :: 'u' :: (hexDigits c.toNat ++ rest)) =
        read? (text ('u' :: '\\' :: read) false, tokens) (hexDigits c.toNat ++ rest) := rfl
    rw [List.cons_append, List.cons_append, hs, read?_plainChars (hexDigits_plain _)]
    simp
  case plain hb hq _ => exact read?_plainChars <| List.forall_mem_singleton.mpr ⟨hb, hq⟩

theorem read?_escapes (cs : List Char) :
    read? (text read false, tokens) (cs.flatMap escape ++ rest) =
      read? (text ((cs.flatMap escape).reverse ++ read) false, tokens) rest := by
  induction cs generalizing read
  case nil => rfl
  case cons c cs hi =>
    rw [List.flatMap_cons, List.append_assoc, read?_escaped (escaped_escape c), hi,
      List.reverse_append, List.append_assoc]

theorem read?_textChars (s : String) :
    read? (.none, tokens) (textChars (some s) ++ rest) =
      read? (.none, .scalar (.text (some s)) :: tokens) rest := by
  have hq : start tokens '"' = some (text [] false, tokens) := rfl
  have hs : step (text (s.toList.flatMap escape).reverse false, tokens) '"' =
      some (.none, .scalar (.text (some s)) :: tokens) := by
    simp [step, unquote?_escapes]
  rw [textChars, Option.getD_some, quoteChars, List.append_assoc, List.cons_append,
    read?_of_start hq, read?_escapes, List.append_nil, List.cons_append, read?_of_step hs]
  rfl

end Scalars

end Lexeme

open Lexeme (Ends ends_nil ends_cons read? read?_of_start read?_word read?_chars read?_textChars)

-- The characters of whole tokens, whatever follows that is no part of the last one.
def Lexes (cs : List Char) (ts : List Token) : Prop :=
  ∀ tokens rest, Ends rest →
    read? (.none, tokens) (cs ++ rest) = read? (.none, ts.reverse ++ tokens) rest

-- Characters that are passed over between tokens.
def Blank (cs : List Char) : Prop :=
  ∀ c ∈ cs, c = ' ' ∨ c = '\n'

section Blanks

variable {b rest : List Char} {tokens : List Token}

theorem blank_nil : Blank [] :=
  List.forall_mem_nil _

theorem Blank.read?_append (h : Blank b) :
    read? (.none, tokens) (b ++ rest) = read? (.none, tokens) rest := by
  induction b
  case nil => rfl
  case cons c b hi =>
    have ⟨hc, hb⟩ := List.forall_mem_cons.mp h
    rw [← hi hb]
    rcases hc with rfl | rfl <;> rfl

theorem Blank.ends_append (h : Blank b) (he : Ends rest) : Ends (b ++ rest) := by
  cases b
  case nil => exact he
  case cons c b =>
    rcases (List.forall_mem_cons.mp h).1 with rfl | rfl <;> exact ends_cons rfl rfl

end Blanks

-- The characters of a value: where a value has to follow, reading them is reading the value.
def Spells (cs : List Char) (j : Json) : Prop :=
  ∃ ts, Lexes cs ts ∧ ∀ stack rest,
    (ts ++ rest).foldlM Progress.step (.value stack) = rest.foldlM Progress.step (.after j stack)

theorem spells_scalar {cs : List Char} {j : Json} (h : Lexes cs [.scalar j]) : Spells cs j :=
  ⟨_, h, fun _ _ => rfl⟩

theorem spells_null : Spells "null".toList .null :=
  spells_scalar fun _ _ he => read?_word rfl he

theorem spells_boolean (b : Bool) :
    Spells (if b then "true".toList else "false".toList) (.boolean b) := by
  cases b <;> exact spells_scalar fun _ _ he => read?_word rfl he

theorem spells_number {n : Numeral} (h : n.Written) : Spells (n.chars true) (.number n) :=
  spells_scalar fun _ _ he => read?_chars true h he

theorem spells_text (s : String) : Spells (textChars (some s)) (.text (some s)) :=
  spells_scalar fun _ _ _ => read?_textChars s

-- How the reader goes through a container: `start` after it was opened, `item` where an item has to
-- follow, and `past` after one. What was read before is last one first.
structure Container (α : Type) where
  opening : Char
  closing : Char
  opened  : Token
  closed  : Token
  start   : List Frame → Progress
  item    : List α → List Frame → Progress
  past    : List α → α → List Frame → Progress
  whole   : List α → Json
  start_opening     : ∀ tokens, Lexeme.start tokens opening = some (.none, opened :: tokens)
  start_closing     : ∀ tokens, Lexeme.start tokens closing = some (.none, closed :: tokens)
  ends_closing      : ∀ rest, Ends (closing :: rest)
  startValue_opened : ∀ stack, Progress.startValue stack opened = some (start stack)
  step_start        : ∀ stack t, t ≠ closed → (start stack).step t = (item [] stack).step t
  step_start_closed : ∀ stack, (start stack).step closed = some (.after (whole []) stack)
  step_item_closed  : ∀ items stack, (item items stack).step closed = none
  step_past_comma   : ∀ items x stack,
    (past items x stack).step .comma = some (item (x :: items) stack)
  step_past_closed  : ∀ items x stack,
    (past items x stack).step closed = some (.after (whole (x :: items).reverse) stack)

def arrays : Container Json where
  opening := '['
  closing := ']'
  opened  := .openArray
  closed  := .closeArray
  start   := .arrayStart
  item items stack := .value (.array items :: stack)
  past items j stack := .after j (.array items :: stack)
  whole   := .array
  start_opening _ := rfl
  start_closing _ := rfl
  ends_closing _ := ends_cons rfl rfl
  startValue_opened _ := rfl
  step_start _ t ht := by cases t <;> first | rfl | exact absurd rfl ht
  step_start_closed _ := rfl
  step_item_closed _ _ := rfl
  step_past_comma _ _ _ := rfl
  step_past_closed _ _ _ := rfl

def objects : Container (Option String × Json) where
  opening := '\x7b'
  closing := '\x7d'
  opened  := .openObject
  closed  := .closeObject
  start   := .objectStart
  item members stack := .member members stack
  past members m stack := .after m.2 (.object members m.1 :: stack)
  whole   := .object
  start_opening _ := rfl
  start_closing _ := rfl
  ends_closing _ := ends_cons rfl rfl
  startValue_opened _ := rfl
  step_start _ t ht := by cases t <;> first | rfl | exact absurd rfl ht
  step_start_closed _ := rfl
  step_item_closed _ _ := rfl
  step_past_comma _ _ _ := rfl
  step_past_closed _ _ _ := rfl

namespace Container

variable {α : Type} (k : Container α) {b b' : List Char} {css : List (List Char)} {xs : List α}

-- The characters of an item in a container.
def Holds (cs : List Char) (x : α) : Prop :=
  ∃ ts, Lexes cs ts ∧ ∀ items stack rest,
    (ts ++ rest).foldlM Progress.step (k.item items stack) =
      rest.foldlM Progress.step (k.past items x stack)

-- One item after the other, up to the closing bracket.
theorem exists_items (hb : Blank b) (h : List.Forall₂ k.Holds css xs) (hn : xs ≠ []) :
    ∃ ts, Lexes (separated (',' :: b) css) ts ∧ ∀ items stack rest,
      (ts ++ k.closed :: rest).foldlM Progress.step (k.item items stack) =
        rest.foldlM Progress.step (.after (k.whole (items.reverse ++ xs)) stack) := by
  induction h
  case nil => exact absurd rfl hn
  case cons cs x css xs hx hxs hi =>
    have ⟨ts, hl, hs⟩ := hx
    cases hxs
    case nil =>
      refine ⟨ts, hl, fun items stack rest => ?_⟩
      rw [hs, List.foldlM_cons, k.step_past_closed, List.reverse_cons]
      rfl
    case cons cs' x' css xs hx' hxs =>
      have ⟨ts', hl', hs'⟩ := hi (List.cons_ne_nil _ _)
      refine ⟨ts ++ .comma :: ts', fun tokens rest he => ?_, fun items stack rest => ?_⟩
      · have hc {tokens rest} :
            read? (.none, tokens) (',' :: rest) = read? (.none, .comma :: tokens) rest := rfl
        simp only [separated, List.append_assoc, List.cons_append]
        rw [hl _ _ (ends_cons rfl rfl), hc, hb.read?_append, hl' _ _ he]
        simp
      · rw [List.append_assoc, hs, List.cons_append, List.foldlM_cons, k.step_past_comma]
        refine (hs' ..).trans ?_
        rw [List.reverse_cons, List.append_assoc]
        rfl

-- A token that an item starts with is none that closes the container.
theorem foldlM_start {ts : List Token} {stack : List Frame}
    (h : (ts.foldlM Progress.step (k.item [] stack)).isSome) (hn : ts ≠ []) (rest : List Token) :
    (ts ++ rest).foldlM Progress.step (k.start stack) =
      (ts ++ rest).foldlM Progress.step (k.item [] stack) := by
  cases ts
  case nil => exact absurd rfl hn
  case cons t ts =>
    have ht : t ≠ k.closed := by
      rintro rfl
      rw [List.foldlM_cons, k.step_item_closed] at h
      contradiction
    rw [List.cons_append, List.foldlM_cons, List.foldlM_cons, k.step_start _ _ ht]

theorem exists_contents (hb : Blank b) (h : List.Forall₂ k.Holds css xs) :
    ∃ ts, Lexes (separated (',' :: b) css) ts ∧ ∀ stack rest,
      (ts ++ k.closed :: rest).foldlM Progress.step (k.start stack) =
        rest.foldlM Progress.step (.after (k.whole xs) stack) := by
  by_cases hn : xs = []
  case pos =>
    subst hn
    cases h
    refine ⟨[], fun _ _ _ => rfl, fun stack rest => ?_⟩
    rw [List.nil_append, List.foldlM_cons, k.step_start_closed]
    rfl
  case neg =>
    have ⟨ts, hl, hs⟩ := k.exists_items hb h hn
    refine ⟨ts, hl, fun stack rest => ?_⟩
    have hi : ((ts ++ [k.closed]).foldlM Progress.step (k.item [] stack)).isSome := by
      rw [hs]
      rfl
    have ha := k.foldlM_start hi (by simp) rest
    rw [List.append_assoc] at ha
    exact ha.trans <| hs [] stack rest

theorem spells (hb : Blank b) (hb' : Blank b') (h : List.Forall₂ k.Holds css xs) :
    Spells (k.opening :: b ++ separated (',' :: b) css ++ b' ++ [k.closing]) (k.whole xs) := by
  have ⟨ts, hl, hs⟩ := k.exists_contents hb h
  refine ⟨k.opened :: ts ++ [k.closed], fun tokens rest he => ?_, fun stack rest => ?_⟩
  · simp only [List.append_assoc, List.cons_append, List.nil_append]
    rw [read?_of_start (k.start_opening tokens), hb.read?_append,
      hl _ _ (hb'.ends_append (k.ends_closing rest)), hb'.read?_append,
      read?_of_start (k.start_closing _)]
    simp
  · rw [List.append_assoc, List.cons_append, List.foldlM_cons]
    change Progress.startValue stack k.opened >>= _ = _
    rw [k.startValue_opened]
    exact hs stack rest

end Container

theorem arrays_holds {cs : List Char} {j : Json} (h : Spells cs j) : arrays.Holds cs j :=
  have ⟨ts, hl, hs⟩ := h
  ⟨ts, hl, fun items stack => hs (.array items :: stack)⟩

theorem objects_holds {b cs : List Char} {j : Json} (hb : Blank b) (key : String)
    (h : Spells cs j) : objects.Holds (textChars (some key) ++ ':' :: b ++ cs) (some key, j) := by
  have ⟨ts, hl, hs⟩ := h
  refine ⟨.scalar (.text (some key)) :: .colon :: ts, fun tokens rest he => ?_,
    fun members stack => hs (.object members (some key) :: stack)⟩
  have hc {tokens rest} :
      read? (.none, tokens) (':' :: rest) = read? (.none, .colon :: tokens) rest := rfl
  simp only [List.append_assoc, List.cons_append]
  rw [read?_textChars, hc, hb.read?_append, hl _ _ he]
  simp

theorem tokens?_eq (cs : List Char) : tokens? cs = (read? (.none, []) cs).map List.reverse := by
  simp [tokens?, read?, Option.map_eq_bind, Option.bind_assoc]

theorem parse?_of_spells {s : String} {j : Json} (h : Spells s.toList j) : parse? s = some j := by
  have ⟨ts, hl, hs⟩ := h
  have hl := hl [] [] ends_nil
  have hs := hs [] []
  rw [List.append_nil] at hl hs
  have ht : tokens? s.toList = some ts := by
    rw [tokens?_eq, hl, List.append_nil]
    exact congrArg some ts.reverse_reverse
  have ho : ofTokens? ts = some j := by
    rw [ofTokens?, hs]
    rfl
  rw [parse?, ht]
  exact ho

-- A value as a reader gives it: its texts exist, and its numbers are made of digits.
inductive Written : Json → Prop
  | null : Written .null
  | boolean (b : Bool) : Written (.boolean b)
  | number {n : Numeral} : n.Written → Written (.number n)
  | text (s : String) : Written (.text (some s))
  | array {items : List Json} : (∀ j ∈ items, Written j) → Written (.array items)
  | object {members : List (Option String × Json)} :
    (∀ m ∈ members, m.1.isSome) → (∀ m ∈ members, Written m.2) → Written (.object members)

theorem forall₂_map_left {α β : Type} {r : β → α → Prop} {f : α → β} {xs : List α}
    (h : ∀ x ∈ xs, r (f x) x) : List.Forall₂ r (xs.map f) xs :=
  List.forall₂_map_left_iff.mpr <| List.forall₂_same.mpr h

section Layouts

variable {b b' b'' : List Char} {f : Json → List Char}

theorem spells_array {items : List Json} (hb : Blank b) (hb' : Blank b')
    (h : ∀ j ∈ items, Spells (f j) j) :
    Spells ('[' :: b ++ separated (',' :: b) (items.map f) ++ b' ++ [']']) (.array items) :=
  arrays.spells hb hb' <| forall₂_map_left fun j hj => arrays_holds (h j hj)

theorem spells_object {members : List (Option String × Json)} (hb : Blank b) (hb' : Blank b')
    (hb'' : Blank b'') (hk : ∀ m ∈ members, m.1.isSome) (h : ∀ m ∈ members, Spells (f m.2) m.2) :
    Spells ('\x7b' :: b ++ separated (',' :: b)
      (members.map fun m => textChars m.1 ++ ':' :: b'' ++ f m.2) ++ b' ++ ['\x7d'])
      (.object members) := by
  refine objects.spells hb hb' <| forall₂_map_left fun m hm => ?_
  have ⟨key, hk⟩ := Option.isSome_iff_exists.mp (hk m hm)
  have hm := objects_holds hb'' key (h m hm)
  rw [← hk] at hm
  exact hm

theorem compactItems_eq (items : List Json) : compactItems items = items.map compactChars := by
  induction items
  case nil             => rfl
  case cons j items hi => rw [compactItems, hi, List.map_cons]

theorem compactMembers_eq (members : List (Option String × Json)) :
    compactMembers members = members.map fun m => textChars m.1 ++ ':' :: compactChars m.2 := by
  induction members
  case nil               => rfl
  case cons m members hi => rw [compactMembers, hi, List.map_cons]

theorem Written.spells_compactChars {j : Json} (h : j.Written) : Spells j.compactChars j := by
  induction h <;> simp only [compactChars]
  case null      => exact spells_null
  case boolean b => exact spells_boolean b
  case number h  => exact spells_number h
  case text s    => exact spells_text s
  case array items _ hi =>
    have hs := spells_array blank_nil blank_nil hi
    rw [List.append_nil, ← compactItems_eq] at hs
    exact hs
  case object members hk _ hi =>
    have hs := spells_object blank_nil blank_nil blank_nil hk hi
    simp only [List.append_assoc, List.cons_append, List.nil_append] at hs
    rw [← compactMembers_eq] at hs
    exact hs

theorem parse?_compact {j : Json} (h : j.Written) : parse? j.compact = some j :=
  parse?_of_spells <| String.toList_ofList.symm ▸ h.spells_compactChars

theorem blank_newline (level : Nat) : Blank (newline level) := by
  intro c hc
  rcases List.mem_cons.mp hc with hc | hc
  · exact .inr hc
  · exact .inl (List.eq_of_mem_replicate hc)

theorem prettyItems_eq (level : Nat) (items : List Json) :
    prettyItems level items = items.map (prettyChars level) := by
  induction items
  case nil             => rfl
  case cons j items hi => rw [prettyItems, hi, List.map_cons]

theorem prettyMembers_eq (level : Nat) (members : List (Option String × Json)) :
    prettyMembers level members =
      members.map fun m => textChars m.1 ++ ':' :: [' '] ++ prettyChars level m.2 := by
  induction members
  case nil               => rfl
  case cons m members hi =>
    rw [prettyMembers, hi, List.map_cons, List.append_assoc]
    rfl

-- Brackets with nothing between them are closed at once.
theorem spells_indented {level : Nat} {opening closing : Char} {items : List (List Char)} {j : Json}
    (h : ∀ b b', Blank b → Blank b' →
      Spells (opening :: b ++ separated (',' :: b) items ++ b' ++ [closing]) j) :
    Spells (indented level opening closing items) j := by
  unfold indented
  split
  case isTrue he =>
    have hs := h [] [] blank_nil blank_nil
    rw [List.isEmpty_iff.mp he] at hs
    exact hs
  case isFalse => exact h _ _ (blank_newline _) (blank_newline _)

-- Every level is indented further, so the induction goes through all of them at once.
theorem Written.spells_prettyChars {j : Json} (h : j.Written) (level : Nat) :
    Spells (j.prettyChars level) j := by
  induction h generalizing level <;> simp only [prettyChars]
  case null      => exact spells_null
  case boolean b => exact spells_boolean b
  case number h  => exact spells_number h
  case text s    => exact spells_text s
  case array items _ hi =>
    rw [prettyItems_eq]
    exact spells_indented fun b b' hb hb' => spells_array hb hb' fun j hj => hi j hj (level + 1)
  case object members hk _ hi =>
    rw [prettyMembers_eq]
    have hc : Blank [' '] := List.forall_mem_singleton.mpr (.inl rfl)
    exact spells_indented fun b b' hb hb' =>
      spells_object hb hb' hc hk fun m hm => hi m hm (level + 1)

theorem Spells.append_blank {cs : List Char} {j : Json} (h : Spells cs j) (hb : Blank b) :
    Spells (cs ++ b) j := by
  have ⟨ts, hl, hs⟩ := h
  refine ⟨ts, fun tokens rest he => ?_, hs⟩
  rw [List.append_assoc, hl _ _ (hb.ends_append he), hb.read?_append]

end Layouts

end AddonBinding.Json
