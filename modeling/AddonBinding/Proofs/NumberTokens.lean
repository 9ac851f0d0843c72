import AddonBinding.Proofs.NumberLayout
import AddonBinding.Proofs.OneLine
import AddonBinding.Proofs.SourceReader

-- The numbers of the generated source are single tokens, and those are read as the numbers.

namespace AddonBinding.Source

namespace Token

variable {cs ds ts : List Char} {c : Char}

-- All of a text goes on with a number.
def Absorbs (ts cs : List Char) : Prop :=
  cs.foldlM next (.number ts) = some (.number (ts ++ cs))

theorem Absorbs.nil (ts : List Char) : Absorbs ts [] := by
  simp [Absorbs]

theorem Absorbs.append (h : Absorbs ts cs) (h' : Absorbs (ts ++ cs) ds) : Absorbs ts (cs ++ ds) := by
  rw [Absorbs, List.foldlM_append, h, ← List.append_assoc]
  exact h'

theorem Absorbs.cons (hc : next (.number ts) c = some (.number (ts ++ [c])))
    (h : Absorbs (ts ++ [c]) cs) : Absorbs ts (c :: cs) := by
  have hc : Absorbs ts [c] := by
    rw [Absorbs, List.foldlM_cons, hc]
    rfl
  exact hc.append h

theorem next_number (hc : isWordChar c) : next (.number ts) c = some (.number (ts ++ [c])) := by
  simp [next, hc]

theorem Absorbs.of_isWordChar (ts : List Char) (h : ∀ c ∈ cs, isWordChar c) : Absorbs ts cs := by
  induction cs generalizing ts
  case nil => exact .nil ts
  case cons c cs hi =>
    obtain ⟨hc, h⟩ := List.forall_mem_cons.mp h
    exact .cons (next_number hc) (hi _ h)

theorem isWordChar_of_isDigit (h : c.isDigit) : isWordChar c := by
  simp [isWordChar, Char.isAlphanum, h]

theorem Absorbs.of_isDigit (ts : List Char) (h : ∀ c ∈ cs, c.isDigit) : Absorbs ts cs :=
  .of_isWordChar ts fun c hc => isWordChar_of_isDigit (h c hc)

theorem absorbs_exponentChars (ts : List Char) (e : ℤ) :
    Absorbs ts (Numeral.exponentChars false e) := by
  have hd (ts : List Char) : Absorbs ts (Numeral.natChars e.natAbs) :=
    .of_isDigit ts fun _ => Numeral.isDigit_natChars
  refine .cons (next_number (by decide)) (.append ?_ (hd _))
  split
  case isTrue  => exact .cons (by simp [next, isExponentMark]) (.nil _)
  case isFalse => exact .nil _

theorem single?_of_absorbs (hc : c.isDigit) (h : Absorbs [c] cs) :
    single? (c :: cs) = some (.number (c :: cs)) := by
  have hs : c ≠ ' ' := by rintro rfl; contradiction
  rw [single?, start, if_neg hs, if_pos hc]
  exact h

theorem single?_natChars_append (n : Nat) (h : Absorbs (Numeral.natChars n) cs) :
    single? (Numeral.natChars n ++ cs) = some (.number (Numeral.natChars n ++ cs)) := by
  obtain ⟨c, ds, hn, hc⟩ := Numeral.exists_natChars n
  have hd : Absorbs [c] ds := by
    refine .of_isDigit _ fun d hd => Numeral.isDigit_natChars (n := n) ?_
    exact hn ▸ List.mem_cons_of_mem _ hd
  rw [hn] at h ⊢
  exact single?_of_absorbs hc (hd.append h)

end Token

open Token

section Integers

theorem Suffix.ofChars?_render (s : Suffix) : ofChars? s.render.toList = some s := by
  rcases s with ⟨_ | _, _ | _⟩ <;> rfl

-- A suffix goes on with a number, but not with its digits.
theorem Suffix.mem_render (s : Suffix) {c : Char} (h : c ∈ s.render.toList) :
    isWordChar c ∧ c.isDigit = false ∧ c ≠ 'x' := by
  have hs : s.render.toList.all fun c => isWordChar c && (!c.isDigit && c ≠ 'x') := by
    rcases s with ⟨_ | _, _ | _⟩ <;> decide
  simpa using List.all_eq_true.mp hs c h

theorem single?_integer (n : Nat) (s : Suffix) :
    single? (Numeral.natChars n ++ s.render.toList) =
      some (.number (Numeral.natChars n ++ s.render.toList)) :=
  single?_natChars_append n (.of_isWordChar _ fun _ hc => (s.mem_render hc).left)

-- A number is hexadecimal only with a letter that other numbers do not have.
theorem take_ne_of_not_mem {cs : List Char} (h : 'x' ∉ cs) : cs.take 2 ≠ ['0', 'x'] := by
  intro ht
  have hx : 'x' ∈ cs.take 2 := by simp [ht]
  exact h (List.mem_of_mem_take hx)

theorem Expr.ofNumber?_integer (n : Nat) (s : Suffix) :
    ofNumber? (Numeral.natChars n ++ s.render.toList) = some (.integer n s) := by
  have hx : 'x' ∉ Numeral.natChars n ++ s.render.toList := by
    intro h
    rcases List.mem_append.mp h with h | h
    · exact absurd (Numeral.isDigit_natChars h) (by decide)
    · exact (s.mem_render h).right.right rfl
  have hw := Numeral.splitDigits_append (fun _ => Numeral.isDigit_natChars (n := n))
    fun c hc => (s.mem_render (List.mem_of_mem_head? hc)).right.left
  simp only [ofNumber?, if_neg (take_ne_of_not_mem hx), hw, s.ofChars?_render,
    if_pos (Numeral.natChars_leading n), Numeral.ofDigits_natChars]

end Integers

section Hexadecimals

theorem digitValue?_toUpper {d : Nat} (h : d < 16) :
    Numeral.digitValue? 16 d.digitChar.toUpper = some d := by
  have : ∀ d < 16, Numeral.digitValue? 16 (Nat.digitChar d).toUpper = some d := by decide
  exact this d h

theorem isWordChar_toUpper {d : Nat} (h : d < 16) : isWordChar d.digitChar.toUpper := by
  have : ∀ d < 16, isWordChar (Nat.digitChar d).toUpper := by decide
  exact this d h

def hexStep (n : Nat) (c : Char) : Option Nat :=
  (Numeral.digitValue? 16 c).map (16 * n + ·)

theorem foldlM_toDigits (n : Nat) :
    ((Nat.toDigits 16 n).map Char.toUpper).foldlM hexStep 0 = some n := by
  induction n using Nat.strongRecOn
  case ind n hi =>
    by_cases hn : n < 16
    case pos => simp [Nat.toDigits_of_lt_base hn, hexStep, digitValue?_toUpper hn]
    case neg =>
      have hd := digitValue?_toUpper (Nat.mod_lt n (by decide : 0 < 16))
      rw [Nat.toDigits_of_base_le (by decide) (by omega), List.map_append, List.foldlM_append,
        hi (n / 16) (by omega)]
      simp [hexStep, hd, Nat.div_add_mod]

theorem foldlM_replicate (k : Nat) : (List.replicate k '0').foldlM hexStep 0 = some 0 := by
  induction k
  case zero      => rfl
  case succ k hi => exact hi

theorem isWordChar_hexDigits {width n : Nat} {c : Char} (h : c ∈ hexDigits width n) :
    isWordChar c := by
  rcases List.mem_append.mp h with h | h
  · rw [List.eq_of_mem_replicate h]
    decide
  · obtain ⟨d, hd, rfl⟩ := List.mem_map.mp h
    rcases Text.exists_digitChar hd with hd | ⟨k, rfl⟩
    · contradiction
    · exact isWordChar_toUpper (Nat.mod_lt k (by decide))

theorem ofHexDigits?_hexDigits (width n : Nat) : Expr.ofHexDigits? (hexDigits width n) = some n := by
  have hn : (hexDigits width n).isEmpty = false := by
    simp [hexDigits]
  have hf : (hexDigits width n).foldlM hexStep 0 = some n := by
    rw [hexDigits, List.foldlM_append, foldlM_replicate]
    exact foldlM_toDigits n
  rw [Expr.ofHexDigits?, hn]
  exact hf

theorem single?_hex (width n : Nat) :
    single? ('0' :: 'x' :: hexDigits width n) = some (.number ('0' :: 'x' :: hexDigits width n)) :=
  single?_of_absorbs rfl <| .cons (next_number (by decide)) <|
    .of_isWordChar _ fun _ => isWordChar_hexDigits

theorem Expr.ofNumber?_hex (width n : Nat) :
    ofNumber? ('0' :: 'x' :: hexDigits width n) = some (.hex (hexDigits width n).length n) := by
  simp [ofNumber?, ofHexDigits?_hexDigits]

end Hexadecimals

section Decimals

variable {n : Numeral} (single : Bool)

theorem single?_decimal (hw : n.Written) (hn : n.negative = false) :
    single? (n.chars false ++ if single then ['f'] else []) =
      some (.number (n.chars false ++ if single then ['f'] else [])) := by
  have hf (ts : List Char) : Absorbs ts n.fractionChars := by
    unfold Numeral.fractionChars
    split
    case isTrue  => exact .nil ts
    case isFalse =>
      exact .cons (by simp [next]) (.of_isDigit _ (Numeral.isDigit_digitChars hw))
  have he (ts : List Char) : Absorbs ts (n.suffixChars false) := by
    unfold Numeral.suffixChars
    cases n.exponent
    case none   => exact .nil ts
    case some e => exact absorbs_exponentChars ts e
  have hs (ts : List Char) : Absorbs ts (if single then ['f'] else []) := by
    refine .of_isWordChar ts ?_
    cases single
    case false => simp
    case true  => exact List.forall_mem_singleton.mpr rfl
  rw [Numeral.chars_eq, hn, if_neg Bool.false_ne_true, List.nil_append, List.append_assoc]
  exact single?_natChars_append n.whole (((hf _).append (he _)).append (hs _))

-- A point or an exponent follows the digits of a number that is not an integer.
theorem exists_tail (h : n.isInteger = false) :
    ∃ c rest, n.fractionChars ++ n.suffixChars false = c :: rest ∧ (c = '.' ∨ c = 'e') := by
  cases hf : n.fraction
  case cons d ds => exact ⟨'.', _, by rw [Numeral.fractionChars, hf]; rfl, .inl rfl⟩
  case nil =>
    cases he : n.exponent
    case none   => simp [Numeral.isInteger, hf, he] at h
    case some e =>
      exact ⟨'e', _, by rw [Numeral.fractionChars, Numeral.suffixChars, hf, he]; rfl, .inr rfl⟩

theorem Suffix.ofChars?_eq_none {c : Char} (h : c = '.' ∨ c = 'e') (cs : List Char) :
    ofChars? (c :: cs) = none := by
  have ht : ∀ p ∈ table, p.1.toList.head? ≠ some c := by
    rcases h with rfl | rfl <;> decide
  rw [ofChars?, List.lookup_eq_none_iff]
  intro p hp
  rw [bne_iff_ne]
  intro he
  exact ht p hp (by rw [← he, String.toList_ofList, List.head?_cons])

theorem Expr.ofNumber?_decimal (hw : n.Written) (hn : n.negative = false)
    (hi : n.isInteger = false) :
    ofNumber? (n.chars false ++ if single then ['f'] else []) = some (.decimal n single) := by
  obtain ⟨c, rest, ht, hc⟩ := exists_tail hi
  have hchars : n.chars false = Numeral.natChars n.whole ++ c :: rest := by
    rw [Numeral.chars_eq, hn, ← ht]
    rfl
  have hmem := Numeral.isNumberChar_chars false hw
  have hx (fs : List Char) (h : 'x' ∉ fs) : (n.chars false ++ fs).take 2 ≠ ['0', 'x'] := by
    refine take_ne_of_not_mem fun hm => ?_
    rcases List.mem_append.mp hm with hm | hm
    · exact absurd (hmem _ hm) (by decide)
    · exact h hm
  have hsplit (fs : List Char) : Numeral.splitDigits (n.chars false ++ fs) =
      ((Numeral.natChars n.whole).map Numeral.digitValue, c :: (rest ++ fs)) := by
    rw [hchars, List.append_assoc]
    refine Numeral.splitDigits_append (fun _ => Numeral.isDigit_natChars) fun d hd => ?_
    cases hd
    rcases hc with rfl | rfl <;> rfl
  have hany : (n.chars false).any (fun c => c = '.' || c = 'e' || c = 'E') := by
    rw [hchars, List.any_append, List.any_cons]
    rcases hc with rfl | rfl <;> simp
  have hread := Numeral.ofDecimalText?_chars false hw
  cases single
  case true =>
    have hx := hx ['f'] (by decide)
    have hsplit := hsplit ['f']
    simp [ofNumber?, hx, hsplit, Suffix.ofChars?_eq_none hc, hany, hread]
  case false =>
    have hlast {d : Char} (hd : Json.Lexeme.isNumberChar d = false) :
        (n.chars false).getLast? ≠ some d := by
      intro hl
      exact absurd (hmem d (List.mem_of_mem_getLast? hl)) (Bool.eq_false_iff.mp hd)
    have hx := hx [] (by decide)
    have hsplit := hsplit []
    rw [List.append_nil] at hx hsplit
    simp [ofNumber?, hx, hsplit, Suffix.ofChars?_eq_none hc, hany, hread,
      hlast (by decide : Json.Lexeme.isNumberChar 'f' = false),
      hlast (by decide : Json.Lexeme.isNumberChar 'F' = false)]

end Decimals

end AddonBinding.Source
