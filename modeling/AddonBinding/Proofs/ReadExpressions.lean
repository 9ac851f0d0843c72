import AddonBinding.Proofs.NumberTokens

-- Expressions that are grouped as the levels of their operators ask for are read back from their
-- texts.

namespace AddonBinding.Source

open Token

theorem foldlM_append_of_eq {σ α : Type} {f : σ → α → Option σ} {p q : σ} {ts us : List α}
    (h : ts.foldlM f p = some q) : (ts ++ us).foldlM f p = us.foldlM f q := by
  rw [List.foldlM_append, h]
  rfl

section Texts

theorem foldlM_byteChars (cs : List Char) (b : UInt8) :
    (byteChars b).foldlM next (.opened cs) = some (.opened (cs ++ byteChars b)) := by
  have hd {d : Nat} (h : d < 8) : d.digitChar ≠ '"' ∧ d.digitChar ≠ '\\' := by
    have : ∀ d < 8, Nat.digitChar d ≠ '"' ∧ Nat.digitChar d ≠ '\\' := by decide
    exact this d h
  rcases StringLiteral.byteChars_cases b with ⟨c, h, -⟩ | ⟨c, h, hq, hb, -⟩ | h <;> rw [h]
  · simp [next]
  · simp [next, hq, hb]
  · have h₂ := hd (Nat.mod_lt (b.toNat / 8) (by decide : 0 < 8))
    have h₃ := hd (Nat.mod_lt b.toNat (by decide : 0 < 8))
    simp [next, h₂, h₃]

theorem foldlM_flatMap_byteChars (cs : List Char) (bytes : List UInt8) :
    (bytes.flatMap byteChars).foldlM next (.opened cs) =
      some (.opened (cs ++ bytes.flatMap byteChars)) := by
  induction bytes generalizing cs
  case nil => simp
  case cons b bytes hi =>
    rw [List.flatMap_cons, List.foldlM_append, foldlM_byteChars, ← List.append_assoc]
    exact hi _

theorem scan_stringLiteral (s : String) (cs : List Char) :
    scan none ((stringLiteral s).toList ++ cs) =
      .text ((utf8 s).flatMap byteChars) :: scan none cs := by
  refine scan_single ?_ fun _ _ => rfl
  have hs : (stringLiteral s).toList = '"' :: ((utf8 s).flatMap byteChars ++ ['"']) := by
    simp [stringLiteral, utf8]
  have hf := foldlM_flatMap_byteChars [] (utf8 s)
  rw [hs]
  show List.foldlM next (.opened []) ((utf8 s).flatMap byteChars ++ ['"']) = _
  rw [List.foldlM_append, hf]
  rfl

theorem fromUTF8?_utf8 (s : String) : String.fromUTF8? ⟨(utf8 s).toArray⟩ = some s := by
  have hb : (⟨(utf8 s).toArray⟩ : ByteArray) = s.toByteArray := by
    rw [utf8_eq_data, Array.toArray_toList]
  rw [hb]
  exact dif_pos s.isValidUTF8

theorem ofText?_flatMap_byteChars (s : String) :
    Expr.ofText? ((utf8 s).flatMap byteChars) = some (.text s) := by
  rw [Expr.ofText?, StringLiteral.scan_flatMap_byteChars]
  simp [fromUTF8?_utf8]

end Texts

namespace Expr

def level : Expr → Nat
  | .binary op _ _                                               => op.level
  | .conditional ..                                              => 1
  | .dereference _ | .addressOf _ | .not _ | .negate _ | .new _  => 10
  | _                                                            => 11

-- What can be called, indexed and asked for a member.
def isObject : Expr → Bool
  | .name _ | .call .. | .dot .. | .arrow .. | .index .. | .cast .. | .parens _ => true
  | _                                                                          => false

def beginsWord : Expr → Bool
  | .name _ | .boolean _ | .integer .. | .hex .. | .decimal .. | .cast .. => true
  | .call e _ | .dot e _ | .arrow e _ | .index e _                        => e.beginsWord
  | _                                                                     => false

def castName (t : TypeName) : List Char :=
  ("static_cast<" ++ t.render ++ ">").toList

mutual

def isReadable : Expr → Bool
  | .name n            => isName n.toList && Word.ofChars n.toList = .name n
  | .boolean _         => true
  | .integer ..        => true
  | .hex width n       => (hexDigits width n).length = width
  | .decimal n _       => n.fraction.all (· < 10) && !n.negative && !n.isInteger
  | .text _            => true
  | .call f args       => f.isReadable && f.isObject && allReadable args
  | .dot e m           => e.isReadable && e.isObject && isName m.toList
  | .arrow e m         => e.isReadable && e.isObject && isName m.toList
  | .index e i         => e.isReadable && e.isObject && i.isReadable
  | .negate e          => e.isReadable && e.level = 11 && e.beginsWord
  | .dereference e     => e.isReadable && e.level = 11 && e.beginsWord
  | .addressOf e       => e.isReadable && e.level = 11 && e.beginsWord
  | .not e             => e.isReadable && e.level = 11 && e.beginsWord
  | .binary op a b     => a.isReadable && b.isReadable && op.level ≤ a.level && op.level < b.level
  | .conditional c a b => c.isReadable && a.isReadable && b.isReadable && 1 < c.level && 1 < b.level
  | .cast t e          => isName (castName t) && Word.ofChars (castName t) = .cast t && e.isReadable
  | .parens e          => e.isReadable
  | .new c             => isName c.toList && Word.ofChars c.toList = .name c

def allReadable : List Expr → Bool
  | []        => true
  | e :: rest => e.isReadable && allReadable rest

end

theorem allReadable_iff {es : List Expr} : allReadable es ↔ ∀ e ∈ es, e.isReadable := by
  induction es
  case nil     => simp [allReadable]
  case cons hi => simp [allReadable, hi]

mutual

def tokens : Expr → List Token
  | .name n             => [.name n.toList]
  | .boolean b          => [.name (if b then "true" else "false").toList]
  | .integer n suffix   => [.number (Numeral.natChars n ++ suffix.render.toList)]
  | .hex width n        => [.number ('0' :: 'x' :: hexDigits width n)]
  | .decimal n single   => [.number (n.chars false ++ if single then ['f'] else [])]
  | .text s             => [.text ((utf8 s).flatMap byteChars)]
  | .call f args        => f.tokens ++ .mark .openGroup :: (argTokens args ++ [.mark .closeGroup])
  | .dot e m            => e.tokens ++ [.mark .dot, .name m.toList]
  | .arrow e m          => e.tokens ++ [.mark .arrow, .name m.toList]
  | .index e i          => e.tokens ++ .mark .openIndex :: (i.tokens ++ [.mark .closeIndex])
  | .negate e           => .mark (.operator .subtract) :: e.tokens
  | .dereference e      => .mark .star :: e.tokens
  | .addressOf e        => .mark (.operator .bitAnd) :: e.tokens
  | .not e              => .mark .bang :: e.tokens
  | .binary op a b      => a.tokens ++ .mark (.operator op) :: b.tokens
  | .conditional c a b  => c.tokens ++ .mark .question :: (a.tokens ++ .mark .colon :: b.tokens)
  | .cast t e           => .name (castName t) :: .mark .openGroup :: (e.tokens ++ [.mark .closeGroup])
  | .parens e           => .mark .openGroup :: (e.tokens ++ [.mark .closeGroup])
  | .new c              => [.name "new".toList, .name c.toList, .mark .openGroup, .mark .closeGroup]

def argTokens : List Expr → List Token
  | []        => []
  | e :: rest => e.tokens ++ moreTokens rest

-- Arguments that are not the first.
def moreTokens : List Expr → List Token
  | []        => []
  | e :: rest => .mark .comma :: (e.tokens ++ moreTokens rest)

end

section Layout

-- A character that ends every name and every number.
def isEnd (c : Char) : Bool :=
  [' ', '(', ')', '[', ']', ',', ';'].contains c

-- The characters that may follow an expression. A point or a sign would go on with a number.
def stopsAt (e : Expr) (c : Char) : Bool :=
  isEnd c || e.isObject && (c = '.' || c = '-')

theorem ends_of_isEnd {c : Char} (h : isEnd c) : isNameChar c = false ∧ endsNumber c := by
  have he : [' ', '(', ')', '[', ']', ',', ';'].all fun c => !isNameChar c && endsNumber c := by
    decide
  simpa using List.all_eq_true.mp he c (List.contains_iff_mem.mp h)

theorem not_isNameChar_of_stopsAt {e : Expr} {c : Char} (h : e.stopsAt c) :
    isNameChar c = false := by
  simp only [stopsAt, Bool.or_eq_true, Bool.and_eq_true, decide_eq_true_eq] at h
  rcases h with h | ⟨-, rfl | rfl⟩
  · exact (ends_of_isEnd h).left
  · decide
  · decide

theorem endsNumber_of_stopsAt {e : Expr} {c : Char} (he : e.isObject = false) (h : e.stopsAt c) :
    endsNumber c := by
  simp only [stopsAt, he, Bool.false_and, Bool.or_false] at h
  exact (ends_of_isEnd h).right

theorem stopsAt_of_isEnd {c : Char} (h : isEnd c) (e : Expr) : e.stopsAt c := by
  simp [stopsAt, h]

theorem stopsAt_of_stopsAt {e f : Expr} {c : Char} (he : e.isObject = false) (h : e.stopsAt c) :
    f.stopsAt c := by
  simp only [stopsAt, he, Bool.false_and, Bool.or_false] at h
  simp [stopsAt, h]

theorem not_isLast {c : Char} (h : isWordChar c) : Mark.isLast c = false := by
  have hl : Mark.longer.all fun s => s.toList.getLast?.all fun d => !isWordChar d := by decide
  refine Bool.eq_false_iff.mpr fun hc => ?_
  obtain ⟨s, hs, hd⟩ := List.any_eq_true.mp hc
  have hl := List.all_eq_true.mp hl s hs
  rw [of_decide_eq_true hd] at hl
  simp [h] at hl

theorem apart_of_head {n : List Char} (h : n.head?.any isWordChar) (cs : List Char) :
    Apart (n ++ cs) := by
  cases n
  case nil  => contradiction
  case cons => exact apart_cons.mpr (not_isLast h)

theorem any_head?_append {n : List Char} (h : n.head?.any isWordChar) (cs : List Char) :
    (n ++ cs).head?.any isWordChar := by
  cases n
  case nil  => contradiction
  case cons => exact h

theorem head?_natChars_append (n : Nat) (cs : List Char) :
    (Numeral.natChars n ++ cs).head?.any isWordChar := by
  obtain ⟨c, ds, hn, hc⟩ := Numeral.exists_natChars n
  simp [hn, isWordChar_of_isDigit hc]

theorem head?_render : (e : Expr) → e.isReadable → e.beginsWord →
    e.render.toList.head?.any isWordChar
  | .name n, h, _ => by
    simp only [isReadable, isName, Bool.and_eq_true] at h
    exact h.1.1.1
  | .boolean b, _, _ => by cases b <;> decide
  | .integer n suffix, _, _ => by
    simpa [render, Numeral.natChars] using head?_natChars_append n suffix.render.toList
  | .hex .., _, _ => by simp [render, isWordChar]
  | .decimal n single, h, _ => by
    simp only [isReadable, Bool.and_eq_true, Bool.not_eq_true'] at h
    rw [render, String.toList_append, String.toList_ofList, Numeral.chars_eq, h.1.2,
      if_neg Bool.false_ne_true, List.nil_append, List.append_assoc]
    exact head?_natChars_append n.whole _
  | .cast .., _, _ => by simp [render, isWordChar]
  | .call e _, h, hb | .dot e _, h, hb | .arrow e _, h, hb | .index e _, h, hb => by
    simp only [isReadable, Bool.and_eq_true] at h
    simp only [render, String.toList_append, List.append_assoc]
    exact any_head?_append (head?_render e h.1.1 hb) _

theorem toList_intercalate (a : String) (l : List String) :
    (", ".intercalate (a :: l)).toList = a.toList ++ l.flatMap fun s => ',' :: ' ' :: s.toList := by
  induction l generalizing a
  case nil => simp
  case cons b l hi => simp [hi]

section Marks

variable {m : Mark} (h : m ∈ Mark.all) (hm : m ≠ .slash)
include h hm

theorem scan_unary {e : Expr} {cs : List Char} (hr : e.isReadable) (hb : e.beginsWord)
    (he : scan none (e.render.toList ++ cs) = e.tokens ++ scan none cs) :
    scan none (m.chars ++ (e.render.toList ++ cs)) = .mark m :: (e.tokens ++ scan none cs) := by
  rw [scan_mark h hm (apart_of_head (head?_render e hr hb) cs), he]

theorem scan_member {e : Expr} {n : String} {cs : List Char} (hn : isName n.toList)
    (hc : ∀ c ∈ cs.head?, e.stopsAt c) :
    scan none (m.chars ++ (n.toList ++ cs)) = .mark m :: .name n.toList :: scan none cs := by
  have hh : n.toList.head?.any isWordChar := by
    simp only [isName, Bool.and_eq_true] at hn
    exact hn.1.1
  rw [scan_mark h hm (apart_of_head hh cs),
    scan_name hn fun c hm => not_isNameChar_of_stopsAt (hc c hm)]

end Marks

theorem scan_operator (op : BinaryOperator) {cs : List Char} (h : Apart cs) :
    scan none (op.render.toList ++ cs) = .mark (.operator op) :: scan none cs :=
  scan_mark (m := .operator op) (by cases op <;> decide) (by simp) h

theorem scan_colon (cs : List Char) :
    scan none (':' :: ' ' :: cs) = .mark .colon :: scan none cs :=
  scan_mark (m := .colon) (by decide) (by decide) (apart_cons.mpr rfl)

mutual

theorem scan_render (cs : List Char) : (e : Expr) → e.isReadable → (∀ c ∈ cs.head?, e.stopsAt c) →
    scan none (e.render.toList ++ cs) = e.tokens ++ scan none cs
  | .name n, h, hc => by
    simp only [isReadable, Bool.and_eq_true] at h
    exact scan_name h.1 fun c hm => not_isNameChar_of_stopsAt (hc c hm)
  | .boolean b, _, hc => by
    cases b <;> exact scan_name (by decide) fun c hm => not_isNameChar_of_stopsAt (hc c hm)
  | .integer n suffix, _, hc => by
    have hr : (Expr.integer n suffix).render.toList =
        Numeral.natChars n ++ suffix.render.toList := by
      simp [render, Numeral.natChars]
    rw [hr]
    exact scan_number (single?_integer n suffix) fun c hm => endsNumber_of_stopsAt rfl (hc c hm)
  | .hex width n, _, hc => by
    have hr : (Expr.hex width n).render.toList = '0' :: 'x' :: hexDigits width n := by
      simp [render]
    rw [hr]
    exact scan_number (single?_hex width n) fun c hm => endsNumber_of_stopsAt rfl (hc c hm)
  | .decimal n single, h, hc => by
    simp only [isReadable, Bool.and_eq_true, List.all_eq_true, decide_eq_true_eq,
      Bool.not_eq_true'] at h
    have hr : (Expr.decimal n single).render.toList =
        n.chars false ++ if single then ['f'] else [] := by
      cases single <;> simp [render]
    rw [hr]
    exact scan_number (single?_decimal single h.1.1 h.1.2) fun c hm =>
      endsNumber_of_stopsAt rfl (hc c hm)
  | .text s, _, _ => scan_stringLiteral s cs
  | .call f args, h, _ => by
    simp only [isReadable, Bool.and_eq_true] at h
    have hf := scan_render ('(' :: ((", ".intercalate (renderArgs args)).toList ++ ')' :: cs)) f
      h.1.1 (by simp [stopsAt, isEnd])
    rw [scan_openGroup, scan_args (')' :: cs) (by simp [isEnd]) args h.2, scan_closeGroup] at hf
    simpa [render, tokens] using hf
  | .dot e m, h, hc => by
    simp only [isReadable, Bool.and_eq_true] at h
    have he := scan_render ('.' :: (m.toList ++ cs)) e h.1.1 (by simp [stopsAt, h.1.2])
    have hm := scan_member (m := .dot) (by decide) (by decide) h.2 hc
    simpa [render, tokens] using he.trans (congrArg (e.tokens ++ ·) hm)
  | .arrow e m, h, hc => by
    simp only [isReadable, Bool.and_eq_true] at h
    have he := scan_render ('-' :: '>' :: (m.toList ++ cs)) e h.1.1 (by simp [stopsAt, h.1.2])
    have hm := scan_member (m := .arrow) (by decide) (by decide) h.2 hc
    simpa [render, tokens] using he.trans (congrArg (e.tokens ++ ·) hm)
  | .index e i, h, _ => by
    simp only [isReadable, Bool.and_eq_true] at h
    have he := scan_render ('[' :: (i.render.toList ++ ']' :: cs)) e h.1.1 (by simp [stopsAt, isEnd])
    have hi := scan_render (']' :: cs) i h.2 (by simp [stopsAt, isEnd])
    rw [scan_openIndex, hi, scan_closeIndex] at he
    simpa [render, tokens] using he
  | .negate e, h, hc => by
    simp only [isReadable, Bool.and_eq_true] at h
    have he := scan_render cs e h.1.1 fun c hm => stopsAt_of_stopsAt rfl (hc c hm)
    simpa [render, tokens, Mark.chars, BinaryOperator.render] using
      scan_unary (m := .operator .subtract) (by decide) (by decide) h.1.1 h.2 he
  | .dereference e, h, hc => by
    simp only [isReadable, Bool.and_eq_true] at h
    have he := scan_render cs e h.1.1 fun c hm => stopsAt_of_stopsAt rfl (hc c hm)
    simpa [render, tokens, Mark.chars] using
      scan_unary (m := .star) (by decide) (by decide) h.1.1 h.2 he
  | .addressOf e, h, hc => by
    simp only [isReadable, Bool.and_eq_true] at h
    have he := scan_render cs e h.1.1 fun c hm => stopsAt_of_stopsAt rfl (hc c hm)
    simpa [render, tokens, Mark.chars, BinaryOperator.render] using
      scan_unary (m := .operator .bitAnd) (by decide) (by decide) h.1.1 h.2 he
  | .not e, h, hc => by
    simp only [isReadable, Bool.and_eq_true] at h
    have he := scan_render cs e h.1.1 fun c hm => stopsAt_of_stopsAt rfl (hc c hm)
    simpa [render, tokens, Mark.chars] using
      scan_unary (m := .bang) (by decide) (by decide) h.1.1 h.2 he
  | .binary op a b, h, hc => by
    simp only [isReadable, Bool.and_eq_true] at h
    have hb := scan_render cs b h.1.1.2 fun c hm => stopsAt_of_stopsAt rfl (hc c hm)
    have ha := scan_render (' ' :: (op.render.toList ++ ' ' :: (b.render.toList ++ cs))) a
      h.1.1.1 (by simp [stopsAt, isEnd])
    rw [scan_blank, scan_operator op (apart_cons.mpr rfl), scan_blank, hb] at ha
    simpa [render, tokens] using ha
  | .conditional c a b, h, hc => by
    simp only [isReadable, Bool.and_eq_true] at h
    have hb := scan_render cs b h.1.1.2 fun c hm => stopsAt_of_stopsAt rfl (hc c hm)
    have ha := scan_render (' ' :: ':' :: ' ' :: (b.render.toList ++ cs)) a h.1.1.1.2
      (by simp [stopsAt, isEnd])
    have hd := scan_render (' ' :: '?' :: ' ' :: (a.render.toList ++
      ' ' :: ':' :: ' ' :: (b.render.toList ++ cs))) c h.1.1.1.1 (by simp [stopsAt, isEnd])
    rw [scan_blank, scan_colon, hb] at ha
    rw [scan_blank, scan_question, scan_blank, ha] at hd
    simpa [render, tokens] using hd
  | .cast t e, h, _ => by
    simp only [isReadable, Bool.and_eq_true] at h
    have he := scan_render (')' :: cs) e h.2 (by simp [stopsAt, isEnd])
    have hn : scan none (castName t ++ '(' :: (e.render.toList ++ ')' :: cs)) = _ :=
      scan_name h.1.1 (by simp; decide)
    rw [scan_openGroup, he, scan_closeGroup] at hn
    simpa [render, tokens, castName] using hn
  | .parens e, h, _ => by
    have he := scan_render (')' :: cs) e h (by simp [stopsAt, isEnd])
    rw [scan_closeGroup] at he
    simp [render, tokens, he]
  | .new c, h, _ => by
    simp only [isReadable, Bool.and_eq_true] at h
    have hc : scan none (c.toList ++ '(' :: ')' :: cs) = _ := scan_name h.1 (by simp; decide)
    have hn : scan none ("new".toList ++ ' ' :: (c.toList ++ '(' :: ')' :: cs)) = _ :=
      scan_name (by decide) (by simp; decide)
    rw [scan_blank, hc, scan_openGroup, scan_closeGroup] at hn
    simpa [render, tokens] using hn

theorem scan_args (cs : List Char) (hc : ∀ c ∈ cs.head?, isEnd c) : (args : List Expr) →
    allReadable args →
    scan none ((", ".intercalate (renderArgs args)).toList ++ cs) = argTokens args ++ scan none cs
  | [], _ => rfl
  | e :: rest, h => by
    have ⟨he, hr⟩ := Bool.and_eq_true_iff.mp h
    rw [renderArgs, toList_intercalate, List.append_assoc, argTokens, List.append_assoc]
    rw [scan_render _ e he ?_, scan_more cs hc rest hr]
    cases rest
    case nil  => exact fun c hm => stopsAt_of_isEnd (hc c hm) e
    case cons => simp [renderArgs, stopsAt, isEnd]

theorem scan_more (cs : List Char) (hc : ∀ c ∈ cs.head?, isEnd c) : (args : List Expr) →
    allReadable args →
    scan none ((renderArgs args).flatMap (fun s => ',' :: ' ' :: s.toList) ++ cs) =
      moreTokens args ++ scan none cs
  | [], _ => rfl
  | e :: rest, h => by
    have ⟨he, hr⟩ := Bool.and_eq_true_iff.mp h
    rw [renderArgs, List.flatMap_cons, List.append_assoc, moreTokens]
    simp only [List.cons_append, scan_comma, scan_blank]
    rw [scan_render _ e he ?_, scan_more cs hc rest hr, List.append_assoc]
    cases rest
    case nil  => exact fun c hm => stopsAt_of_isEnd (hc c hm) e
    case cons => simp [renderArgs, stopsAt, isEnd]

end

end Layout

section Grammar

open Parsing

def Pending.level : Pending → Nat
  | .unary _ | .new           => 10
  | .binary op _              => op.level
  | .branch ..                => 1
  | .castType _ | .member _   => 11
  | _                         => 0

-- Nothing that waits takes an operand away from an operator of a level.
def Loose (l : Nat) (ps : List Pending) : Prop :=
  ∀ p ∈ ps.head?, p.level < l

theorem Loose.mono {k l : Nat} {ps : List Pending} (h : Loose k ps) (hl : k ≤ l) : Loose l ps :=
  fun p hp => (h p hp).trans_le hl

theorem settle_of_loose {l : Nat} {ps : List Pending} (h : Loose l ps) (hl : l ≤ 10) (e : Expr) :
    settle l ps e = (ps, e) := by
  cases ps
  case nil => rfl
  case cons p ps =>
    have hp : p.level < l := h p rfl
    cases p <;> simp only [Pending.level] at hp
    case unary | new => omega
    case binary      => rw [settle, if_neg (Nat.not_le.mpr hp)]
    case branch      => rw [settle, if_neg (Nat.not_le.mpr hp)]
    all_goals rfl

theorem atName_of_loose {ps : List Pending} (h : Loose 11 ps) (cs : List Char) :
    atName ps cs = ofWord ps (.ofChars cs) := by
  match ps with
  | []              => rfl
  | .member make :: ps =>
    have : (Pending.member make).level < 11 := h _ rfl
    contradiction
  | .unary _ :: _ | .new :: _ | .binary .. :: _ | .condition _ :: _ | .branch .. :: _ => rfl
  | .group :: _ | .args .. :: _ | .index _ :: _ | .castType _ :: _ | .cast _ :: _     => rfl

theorem atOpening_of_loose {ps : List Pending} (h : Loose 11 ps) :
    atOpening ps = ⟨.group :: ps, none⟩ := by
  match ps with
  | []                 => rfl
  | .castType t :: ps  =>
    have : (Pending.castType t).level < 11 := h _ rfl
    contradiction
  | .unary _ :: _ | .new :: _ | .binary .. :: _ | .condition _ :: _ | .branch .. :: _ => rfl
  | .group :: _ | .args .. :: _ | .index _ :: _ | .member _ :: _ | .cast _ :: _       => rfl

-- What the tokens of an expression leave: the expression as the operand, or what becomes it once the
-- operand is settled.
structure Leaves (ps : List Pending) (e : Expr) (r : Option Parsing) : Prop where
  settled : ∃ qs x, r = some ⟨qs, some x⟩ ∧ ∀ l ≤ e.level, l ≤ 10 → settle l qs x = settle l ps e
  operand : e.level = 11 → r = some ⟨ps, some e⟩

section Leaves

variable {ps : List Pending} {e : Expr} {r : Option Parsing} {l : Nat}

theorem Leaves.of_operand (h : r = some ⟨ps, some e⟩) : Leaves ps e r :=
  ⟨⟨ps, e, h, fun _ _ _ => rfl⟩, fun _ => h⟩

theorem Leaves.of_settled {q : List Pending} {x : Expr} (h : r = some ⟨q, some x⟩)
    (hl : e.level < 11) (hs : ∀ l ≤ e.level, settle l q x = settle l ps e) : Leaves ps e r :=
  ⟨⟨q, x, h, fun l h _ => hs l h⟩, fun h => absurd h hl.ne⟩

theorem Leaves.exists_settle (h : Leaves ps e r) (hl : l ≤ e.level) (h₁ : l ≤ 10)
    (hp : Loose l ps) : ∃ qs x, r = some ⟨qs, some x⟩ ∧ settle l qs x = (ps, e) := by
  obtain ⟨qs, x, hr, hs⟩ := h.settled
  exact ⟨qs, x, hr, (hs l hl h₁).trans (settle_of_loose hp h₁ e)⟩

theorem level_bounds (op : BinaryOperator) : 1 ≤ op.level ∧ op.level ≤ 9 := by
  cases op <;> decide

theorem one_le_level (e : Expr) : 1 ≤ e.level := by
  unfold level
  split
  case h_1 op _ _ => exact (level_bounds op).left
  all_goals decide

theorem level_of_isObject (h : e.isObject) : e.level = 11 := by
  cases e <;> first | rfl | contradiction

-- Nothing takes the operand away from what closes around it.
theorem loose_cons_zero {p : Pending} (hp : p.level = 0) (hl : 1 ≤ l) : Loose l (p :: ps) := by
  rintro q hq
  cases hq
  omega

end Leaves

mutual

theorem reads : (e : Expr) → e.isReadable → ∀ ps, Loose e.level ps →
    Leaves ps e (e.tokens.foldlM step ⟨ps, none⟩)
  | .name n, h, ps, hp => by
    simp only [isReadable, Bool.and_eq_true, decide_eq_true_eq] at h
    refine .of_operand ?_
    simp [tokens, step, beforeOperand, atName_of_loose hp, h.2, ofWord]
  | .boolean b, _, ps, hp => by
    refine .of_operand ?_
    have hw : Word.ofChars (if b then "true" else "false").toList = .boolean b := by
      cases b <;> decide
    simp [tokens, step, beforeOperand, atName_of_loose hp, hw, ofWord]
  | .integer n suffix, _, ps, _ => .of_operand <| by
    simp [tokens, step, beforeOperand, ofNumber?_integer]
  | .hex width n, h, ps, _ => .of_operand <| by
    simp only [isReadable, decide_eq_true_eq] at h
    simp [tokens, step, beforeOperand, ofNumber?_hex, h]
  | .decimal n single, h, ps, _ => .of_operand <| by
    simp only [isReadable, Bool.and_eq_true, List.all_eq_true, decide_eq_true_eq,
      Bool.not_eq_true'] at h
    simp [tokens, step, beforeOperand, ofNumber?_decimal single h.1.1 h.1.2 h.2]
  | .text s, _, ps, _ => .of_operand <| by
    simp [tokens, step, beforeOperand, ofText?_flatMap_byteChars]
  | .call f args, h, ps, hp => .of_operand <| by
    simp only [isReadable, Bool.and_eq_true] at h
    have hl := level_of_isObject h.1.2
    have hf := (reads f h.1.1 ps (hl ▸ hp)).operand hl
    rw [tokens, foldlM_append_of_eq hf]
    exact readsArgs args h.2 f ps
  | .dot e m, h, ps, hp => .of_operand <| by
    simp only [isReadable, Bool.and_eq_true] at h
    have hl := level_of_isObject h.1.2
    have he := (reads e h.1.1 ps (hl ▸ hp)).operand hl
    rw [tokens, foldlM_append_of_eq he]
    simp [step, afterOperand, beforeOperand, atName]
  | .arrow e m, h, ps, hp => .of_operand <| by
    simp only [isReadable, Bool.and_eq_true] at h
    have hl := level_of_isObject h.1.2
    have he := (reads e h.1.1 ps (hl ▸ hp)).operand hl
    rw [tokens, foldlM_append_of_eq he]
    simp [step, afterOperand, beforeOperand, atName]
  | .index e i, h, ps, hp => .of_operand <| by
    simp only [isReadable, Bool.and_eq_true] at h
    have hl := level_of_isObject h.1.2
    have he := (reads e h.1.1 ps (hl ▸ hp)).operand hl
    have hi := reads i h.2 (.index e :: ps) (loose_cons_zero rfl i.one_le_level)
    obtain ⟨qs, x, hr, hs⟩ := hi.exists_settle i.one_le_level (by decide)
      (loose_cons_zero rfl (Nat.le_refl 1))
    rw [tokens, foldlM_append_of_eq he, List.foldlM_cons]
    show List.foldlM step ⟨.index e :: ps, none⟩ (i.tokens ++ [.mark .closeIndex]) = _
    rw [foldlM_append_of_eq hr]
    simp [step, afterOperand, hs]
  | .negate e, h, ps, _ | .dereference e, h, ps, _ | .addressOf e, h, ps, _ | .not e, h, ps, _ => by
    simp only [isReadable, Bool.and_eq_true, decide_eq_true_eq] at h
    have hl : e.level = 11 := h.1.2
    refine .of_settled ((reads e h.1.1 (.unary _ :: ps) ?_).operand hl) (Nat.lt_succ_self 10)
      fun _ _ => rfl
    rintro q hq
    cases hq
    rw [hl]
    exact Nat.lt_succ_self 10
  | .binary op a b, h, ps, hp => by
    simp only [isReadable, Bool.and_eq_true, decide_eq_true_eq] at h
    have h₉ := (level_bounds op).right
    have ha := reads a h.1.1.1 ps (hp.mono h.1.2)
    obtain ⟨qs, x, hr, hs⟩ := ha.exists_settle h.1.2 (by omega) hp
    have hb := reads b h.1.1.2 (.binary op a :: ps) (by rintro q hq; cases hq; exact h.2)
    obtain ⟨qs', x', hr', hs'⟩ := hb.settled
    refine .of_settled (q := qs') (x := x') ?_ (by show op.level < 11; omega) fun l hl => ?_
    · rw [tokens, foldlM_append_of_eq hr, List.foldlM_cons]
      simp only [step, afterOperand, hs]
      exact hr'
    · have hl : l ≤ op.level := hl
      rw [hs' l (hl.trans h.2.le) (by omega), settle, if_pos hl]
  | .conditional c a b, h, ps, hp => by
    simp only [isReadable, Bool.and_eq_true, decide_eq_true_eq] at h
    have hc := reads c h.1.1.1.1 ps (hp.mono h.1.2.le)
    obtain ⟨qs, x, hr, hs⟩ := hc.exists_settle h.1.2 (by decide) (hp.mono (Nat.le_succ 1))
    have ha := reads a h.1.1.1.2 (.condition c :: ps) (loose_cons_zero rfl a.one_le_level)
    obtain ⟨qs', x', hr', hs'⟩ := ha.exists_settle a.one_le_level (by decide)
      (loose_cons_zero rfl (Nat.le_refl 1))
    have hb := reads b h.1.1.2 (.branch c a :: ps) (by rintro q hq; cases hq; exact h.2)
    obtain ⟨qs'', x'', hr'', hs''⟩ := hb.settled
    refine .of_settled (q := qs'') (x := x'') ?_ (by decide : 1 < 11) fun l hl => ?_
    · rw [tokens, foldlM_append_of_eq hr, List.foldlM_cons]
      simp only [step, afterOperand, hs]
      show List.foldlM step ⟨.condition c :: ps, none⟩ (a.tokens ++ .mark .colon :: b.tokens) = _
      rw [foldlM_append_of_eq hr', List.foldlM_cons]
      simp only [step, afterOperand, hs']
      exact hr''
    · have hl : l ≤ 1 := hl
      rw [hs'' l (hl.trans h.2.le) (by omega), settle, if_pos hl]
  | .cast t e, h, ps, hp => .of_operand <| by
    simp only [isReadable, Bool.and_eq_true, decide_eq_true_eq] at h
    have he := reads e h.2 (.cast t :: ps) (loose_cons_zero rfl e.one_le_level)
    obtain ⟨qs, x, hr, hs⟩ := he.exists_settle e.one_le_level (by decide)
      (loose_cons_zero rfl (Nat.le_refl 1))
    have hw : step ⟨ps, none⟩ (.name (castName t)) = some ⟨.castType t :: ps, none⟩ := by
      simp [step, beforeOperand, atName_of_loose hp, h.1.2, ofWord]
    rw [tokens, List.foldlM_cons, hw]
    show List.foldlM step ⟨.cast t :: ps, none⟩ (e.tokens ++ [.mark .closeGroup]) = _
    rw [foldlM_append_of_eq hr]
    simp [step, afterOperand, hs, close]
  | .parens e, h, ps, hp => .of_operand <| by
    have he := reads e h (.group :: ps) (loose_cons_zero rfl e.one_le_level)
    obtain ⟨qs, x, hr, hs⟩ := he.exists_settle e.one_le_level (by decide)
      (loose_cons_zero rfl (Nat.le_refl 1))
    have ho : step ⟨ps, none⟩ (.mark .openGroup) = some ⟨.group :: ps, none⟩ := by
      simp [step, beforeOperand, atOpening_of_loose hp]
    rw [tokens, List.foldlM_cons, ho]
    show List.foldlM step ⟨.group :: ps, none⟩ (e.tokens ++ [.mark .closeGroup]) = _
    rw [foldlM_append_of_eq hr]
    simp [step, afterOperand, hs, close]
  | .new c, h, ps, hp => by
    simp only [isReadable, Bool.and_eq_true, decide_eq_true_eq] at h
    have hn : step ⟨ps, none⟩ (.name "new".toList) = some ⟨.new :: ps, none⟩ := by
      have hw : Word.ofChars "new".toList = .new := by decide
      rw [step, beforeOperand, atName_of_loose (hp.mono (Nat.le_succ 10)), hw, ofWord]
    have hc : step ⟨.new :: ps, none⟩ (.name c.toList) = some ⟨.new :: ps, some (.name c)⟩ := by
      simp [step, beforeOperand, atName, h.2, ofWord]
    have hr : (Expr.new c).tokens.foldlM step ⟨ps, none⟩ =
        some ⟨.new :: ps, some (.call (.name c) [])⟩ := by
      simp only [tokens, List.foldlM_cons, hn, hc, Option.bind_eq_bind, Option.bind_some]
      rfl
    exact .of_settled hr (Nat.lt_succ_self 10) fun _ _ => rfl

theorem readsArgs : (args : List Expr) → allReadable args → ∀ f ps,
    (argTokens args ++ [Token.mark .closeGroup]).foldlM step ⟨.args f [] :: ps, none⟩ =
      some ⟨ps, some (.call f args)⟩
  | [], _, _, _ => rfl
  | e :: rest, h, f, ps => by
    have ⟨he, hr⟩ := Bool.and_eq_true_iff.mp h
    have he := reads e he (.args f [] :: ps) (loose_cons_zero rfl e.one_le_level)
    obtain ⟨qs, x, hq, hs⟩ := he.exists_settle e.one_le_level (by decide)
      (loose_cons_zero rfl (Nat.le_refl 1))
    rw [argTokens, List.append_assoc, foldlM_append_of_eq hq]
    exact readsMore rest hr hs

theorem readsMore : (rest : List Expr) → allReadable rest → ∀ {f e done ps qs x},
    settle 1 qs x = (.args f done :: ps, e) →
    (moreTokens rest ++ [Token.mark .closeGroup]).foldlM step ⟨qs, some x⟩ =
      some ⟨ps, some (.call f (done ++ e :: rest))⟩
  | [], _, f, e, done, ps, qs, x, hs => by
    simp [moreTokens, step, afterOperand, hs, close]
  | e' :: rest, h, f, e, done, ps, qs, x, hs => by
    have ⟨he, hr⟩ := Bool.and_eq_true_iff.mp h
    have he := reads e' he (.args f (done ++ [e]) :: ps) (loose_cons_zero rfl e'.one_le_level)
    obtain ⟨qs', x', hq, hs'⟩ := he.exists_settle e'.one_le_level (by decide)
      (loose_cons_zero rfl (Nat.le_refl 1))
    have hm := readsMore rest hr hs'
    rw [List.append_assoc, List.singleton_append] at hm
    rw [moreTokens, List.cons_append, List.append_assoc, List.foldlM_cons]
    simp only [step, afterOperand, hs]
    exact (foldlM_append_of_eq hq).trans hm

end

-- The tokens that expressions are made of.
def isPart : Token → Bool
  | .number _ | .name _ | .text _ => true
  | .mark m                       =>
    [.openBlock, .closeBlock, .semicolon, .assign, .addAssign].all (m ≠ ·)
  | _                             => false

theorem isPart_mark (m : Mark) : isPart (.mark m) =
    [.openBlock, .closeBlock, .semicolon, .assign, .addAssign].all (m ≠ ·) :=
  rfl

mutual

theorem isPart_tokens : (e : Expr) → e.tokens.all isPart
  | .name _ | .boolean _ | .integer .. | .hex .. | .decimal .. | .text _ | .new _ => rfl
  | .negate e | .dereference e | .addressOf e | .not e => isPart_tokens e
  | .parens e | .dot e _ | .arrow e _ => by
    simp [tokens, isPart_tokens e, isPart]
  | .cast _ e => by simp [tokens, isPart_tokens e, isPart]
  | .call f args => by simp [tokens, isPart_mark, isPart_tokens f, isPart_argTokens args]
  | .index a b | .binary _ a b => by
    simp [tokens, isPart_mark, isPart_tokens a, isPart_tokens b]
  | .conditional c a b => by
    simp [tokens, isPart_mark, isPart_tokens c, isPart_tokens a, isPart_tokens b]

theorem isPart_argTokens : (args : List Expr) → (argTokens args).all isPart
  | []        => rfl
  | e :: rest => by simp [argTokens, isPart_tokens e, isPart_moreTokens rest]

theorem isPart_moreTokens : (args : List Expr) → (moreTokens args).all isPart
  | []        => rfl
  | e :: rest => by simp [moreTokens, isPart_mark, isPart_tokens e, isPart_moreTokens rest]

end

theorem ofTokens?_tokens {e : Expr} (h : e.isReadable) : ofTokens? e.tokens = some e := by
  obtain ⟨qs, x, hr, hs⟩ := (reads e h [] nofun).exists_settle e.one_le_level (by decide) nofun
  rw [ofTokens?, hr]
  simp [finish, hs]

theorem not_mem_tokens {t : Token} (ht : isPart t = false) (e : Expr) : t ∉ e.tokens :=
  fun h => Bool.eq_false_iff.mp ht (List.all_eq_true.mp (isPart_tokens e) t h)

end Grammar

-- What is written for an expression is read as that expression and as no other one.
theorem read?_render {e : Expr} (h : e.isReadable) : read? e.render = some e := by
  have hs := scan_render [] e h nofun
  rw [List.append_nil, scan, Option.toList_none, List.append_nil] at hs
  have hf : e.tokens.filter (· ≠ .remark) = e.tokens := by
    refine List.filter_eq_self.mpr fun t ht => decide_eq_true ?_
    rintro rfl
    exact not_mem_tokens rfl e ht
  rw [read?, lineTokens, hs, hf, ofTokens?_tokens h]

section Literals

theorem isReadable_withSign {e : Expr} (h : e.isReadable) (hl : e.level = 11) (hb : e.beginsWord)
    (negative : Bool) : (e.withSign negative).isReadable := by
  cases negative
  case false => exact h
  case true  => simp [withSign, isReadable, h, hl, hb]

theorem isReadable_decimal {n : Numeral} (hw : n.Written) (hn : n.negative = false)
    (hi : n.isInteger = false) (single : Bool) : (Expr.decimal n single).isReadable := by
  have hw : n.fraction.all (· < 10) := List.all_eq_true.mpr fun d hd => decide_eq_true (hw d hd)
  simp [isReadable, hw, hn, hi]

theorem isReadable_whole (n : Int) : (whole n).isReadable :=
  isReadable_withSign (isReadable_decimal (by simp [Numeral.Written]) rfl rfl false) rfl rfl _

theorem isReadable_ofDouble (t : FloatType) (x : Double) : (ofDouble t x).isReadable := by
  have hl : ∀ single unrestricted, ∀ name ∈ ["quiet_NaN", "infinity"],
      (numericLimit (.storage (.float ⟨single, unrestricted⟩)) name).isReadable := by
    decide +kernel
  match x with
  | .nan           => exact hl _ _ _ (by decide)
  | .infinite a    => exact isReadable_withSign (hl _ _ _ (by decide)) rfl rfl a
  | .finite a m hf =>
    have hd := NumberFormat.toDouble_numeral (f := .explicit) rfl false hf
    have hn : (NumberFormat.explicit.numeral false m).negative = false :=
      Decimal.negative_of_toDouble hd
    exact isReadable_withSign (isReadable_decimal (NumberFormat.written_numeral _ false m) hn
      (NumberFormat.isInteger_numeral Nat.one_pos false m) t.single) rfl rfl a

theorem isReadable_ofInteger (wide : Bool) (n : Int64) : (ofInteger wide n).isReadable := by
  unfold ofInteger
  split
  case isTrue  => decide
  case isFalse => exact isReadable_withSign rfl rfl rfl _

theorem isReadable_ofNative (t : ScalarType) (v : NativeValue) : (ofNative t v).isReadable := by
  cases v
  case text | boolean | unsigned => rfl
  case integer n                 => exact isReadable_ofInteger _ n
  case float x                   => simp only [ofNative]; split <;> exact isReadable_ofDouble _ x

end Literals

end Expr

end AddonBinding.Source
