import AddonBinding.Json.Text
import Mathlib.Tactic.IntervalCases

namespace AddonBinding.Json

-- How a character may stand between quotes: after a backslash by a letter or by its code, or as it
-- is.
inductive Escaped (c : Char) : List Char → Prop
  | letter {l : Char} : simpleEscape? l = some c → l ≠ 'u' → Escaped c ['\\', l]
  | code              : c.toNat < 0x10000 → Escaped c ('\\' :: 'u' :: hexDigits c.toNat)
  | plain             : c ≠ '\\' → c ≠ '"' → ' ' ≤ c → Escaped c [c]

theorem escaped_escape (c : Char) : Escaped c (escape c) := by
  unfold escape
  split
  case h_8 hq hb _ _ _ _ _ =>
    split
    case isTrue h  => exact .code <| Nat.lt_trans h (by decide)
    case isFalse h => exact .plain hb hq <| Char.not_lt.mp h
  all_goals exact .letter rfl (by decide)

theorem digitValue?_digitChar {d : Nat} (h : d < 16) :
    Numeral.digitValue? 16 d.digitChar = some d := by
  interval_cases d <;> rfl

theorem mapM_hexDigits (n : Nat) :
    (hexDigits n).mapM (Numeral.digitValue? 16) =
      some [n / 4096 % 16, n / 256 % 16, n / 16 % 16, n % 16] := by
  have h (k : Nat) := digitValue?_digitChar <| Nat.mod_lt k (by decide : 16 > 0)
  simp only [hexDigits, List.map_cons, List.map_nil, List.mapM_cons, List.mapM_nil, h]
  rfl

theorem units?_of_escaped {c : Char} {cs : List Char} (h : Escaped c cs) (rest : List Char) :
    units? (cs ++ rest) = (units? rest).map (c.toNat :: ·) := by
  cases h
  case letter l he hl =>
    rw [List.cons_append, List.cons_append, List.nil_append, units?, he]
    · cases units? rest <;> rfl
    · exact fun _ _ _ _ _ h => absurd h hl
  case code hc =>
    have hd : 16 * (16 * (16 * (16 * 0 + c.toNat / 4096 % 16) + c.toNat / 256 % 16) +
        c.toNat / 16 % 16) + c.toNat % 16 = c.toNat := by omega
    have hm := mapM_hexDigits c.toNat
    simp only [hexDigits, List.map_cons, List.map_nil] at hm ⊢
    simp only [List.cons_append, List.nil_append, units?, hm, Option.bind_eq_bind, Option.bind_some,
      List.foldl_cons, List.foldl_nil, hd]
    cases units? rest <;> rfl
  case plain hb hq hc =>
    rw [List.cons_append, List.nil_append, units?]
    · simp only [guard, if_pos (show c ≠ '\\' ∧ ' ' ≤ c from ⟨hb, hc⟩)]
      cases units? rest <;> rfl
    · rintro a b c d rest rfl
      exact absurd rfl hb
    · rintro l rest rfl
      exact absurd rfl hb

theorem units?_escapes (cs : List Char) : units? (cs.flatMap escape) = some (cs.map Char.toNat) := by
  induction cs
  case nil => rfl
  case cons c cs hi =>
    rw [List.flatMap_cons, units?_of_escaped (escaped_escape c), hi]
    rfl

-- A character is never a surrogate.
theorem not_isSurrogate (c : Char) :
    isHighSurrogate c.toNat = false ∧ isLowSurrogate c.toNat = false := by
  have hv : c.toNat < 0xd800 ∨ 0xdfff < c.toNat ∧ c.toNat < 0x110000 := c.valid
  simp [isHighSurrogate, isLowSurrogate]
  omega

theorem chars?_cons (c : Char) (units : List Nat) :
    chars? (c.toNat :: units) = (c :: ·) <$> chars? units := by
  have ⟨hh, hl⟩ := not_isSurrogate c
  cases units <;> simp [chars?, hh, hl, Char.ofNat_toNat]

theorem chars?_map_toNat (cs : List Char) : chars? (cs.map Char.toNat) = some cs := by
  induction cs
  case nil => rfl
  case cons c cs hi =>
    rw [List.map_cons, chars?_cons, hi]
    rfl

theorem unquote?_escapes (s : String) : unquote? (s.toList.flatMap escape) = some (some s) := by
  rw [unquote?, units?_escapes, Option.map_some, chars?_map_toNat, Option.map_some,
    String.ofList_toList]

end AddonBinding.Json
