import AddonBinding.Json.Reader
import AddonBinding.Proofs.Double
import AddonBinding.Proofs.ShortestDecimal
import Mathlib.Data.List.TakeWhile

namespace AddonBinding

namespace Numeral

-- Digits are below ten; a number as written has no others.
def Written (n : Numeral) : Prop :=
  ∀ d ∈ n.fraction, d < 10

section Digits

variable {ds rest : List Char} {digits : List Nat} {n : Nat}

theorem splitDigits_append (hd : ∀ c ∈ ds, c.isDigit) (hr : ∀ c ∈ rest.head?, c.isDigit = false) :
    splitDigits (ds ++ rest) = (ds.map digitValue, rest) := by
  rw [splitDigits, List.takeWhile_append_of_pos hd, List.dropWhile_append_of_pos hd]
  cases rest
  case nil      => simp
  case cons c _ => simp [hr c rfl]

theorem isDigit_natChars {c : Char} (h : c ∈ natChars n) : c.isDigit :=
  Nat.isDigit_of_mem_toDigits (by decide) (by decide) h

theorem ofDigits_natChars (n : Nat) : Decimal.ofDigits ((natChars n).map digitValue) = n := by
  have h := Nat.ofDigitChars_toDigits (b := 10) (n := n) (by decide) (by decide)
  rw [Nat.ofDigitChars_eq_foldl] at h
  rw [Decimal.ofDigits, List.foldl_map]
  exact h

theorem digitValue_digitChar (h : n < 10) : digitValue n.digitChar = n :=
  Nat.toNat_digitChar_sub_48_of_lt_ten h

theorem map_digitValue_digitChar (h : ∀ d ∈ digits, d < 10) :
    (digits.map Nat.digitChar).map digitValue = digits := by
  rw [List.map_map]
  exact (List.map_congr_left fun d hd => digitValue_digitChar (h d hd)).trans <| List.map_id' _

theorem isDigit_digitChars (h : ∀ d ∈ digits, d < 10) : ∀ c ∈ digits.map Nat.digitChar, c.isDigit := by
  refine List.forall_mem_map.mpr fun d hd => ?_
  rw [Nat.isDigit_digitChar]
  exact decide_eq_true (h d hd)

-- The first digit is zero for zero only.
theorem head?_natChars (hn : 0 < n) : ((natChars n).map digitValue).head? ≠ some 0 := by
  induction n using Nat.strongRecOn
  case ind n hi =>
    unfold natChars at hi ⊢
    by_cases hl : n < 10
    case pos =>
      rw [Nat.toDigits_of_lt_base hl, List.map_singleton, List.head?_singleton,
        digitValue_digitChar hl]
      exact fun h => hn.ne' (Option.some.inj h)
    case neg =>
      have hi := hi (n / 10) (by omega) (by omega)
      rw [Nat.toDigits_of_base_le (by decide) (by omega), List.map_append, List.head?_append]
      cases hc : (Nat.toDigits 10 (n / 10)).map digitValue
      case nil  => exact absurd (List.map_eq_nil_iff.mp hc) Nat.toDigits_ne_nil
      case cons => simpa [hc] using hi

theorem natChars_leading (n : Nat) :
    ((natChars n).map digitValue).length = 1 ∨ ((natChars n).map digitValue).head? ≠ some 0 := by
  cases n
  case zero   => exact .inl rfl
  case succ n => exact .inr <| head?_natChars n.succ_pos

end Digits

section Text

variable {plus : Bool} {n : Numeral}

theorem exists_natChars (n : Nat) : ∃ c cs, natChars n = c :: cs ∧ c.isDigit := by
  have ⟨c, cs, h⟩ := List.exists_cons_of_ne_nil (Nat.toDigits_ne_nil (n := n) (b := 10))
  exact ⟨c, cs, h, isDigit_natChars (h ▸ List.mem_cons_self)⟩

theorem splitSign_of_isDigit {c : Char} (hc : c.isDigit) (cs : List Char) :
    splitSign (c :: cs) = (false, c :: cs) := by
  unfold splitSign
  split
  case h_1 h => cases h; contradiction
  case h_2 h => cases h; contradiction
  case h_3   => rfl

theorem exponent?_exponentChars (plus : Bool) (e : Int) :
    exponent? (exponentChars plus e) = some e := by
  have hs : splitSign ((if e < 0 then ['-'] else if plus then ['+'] else []) ++ natChars e.natAbs) =
      (decide (e < 0), natChars e.natAbs) := by
    by_cases he : e < 0
    case pos => simp [he, splitSign]
    case neg =>
      have ⟨c, cs, hn, hc⟩ := exists_natChars e.natAbs
      cases plus
      case true  => simp [he, splitSign]
      case false => simp [he, hn, splitSign_of_isDigit hc]
  have hd : splitDigits (natChars e.natAbs) = ((natChars e.natAbs).map digitValue, []) := by
    simpa using @splitDigits_append (natChars e.natAbs) [] (fun c => isDigit_natChars) (by simp)
  have ⟨c, cs, hn, _⟩ := exists_natChars e.natAbs
  have hv := ofDigits_natChars e.natAbs
  simp only [exponentChars, exponent?, hs, hd]
  rw [hv, Double.signed_natAbs]
  simp [hn]

-- What follows the whole digits of a written number.
def fractionChars (n : Numeral) : List Char :=
  if n.fraction.isEmpty then [] else '.' :: n.fraction.map Nat.digitChar

def suffixChars (plus : Bool) (n : Numeral) : List Char :=
  n.exponent.elim [] (exponentChars plus)

theorem chars_eq (plus : Bool) (n : Numeral) :
    n.chars plus = (if n.negative then ['-'] else []) ++
      (natChars n.whole ++ (n.fractionChars ++ n.suffixChars plus)) := by
  simp [chars, fractionChars, suffixChars]

theorem head?_suffixChars : ∀ c ∈ (n.suffixChars plus).head?, c = 'e' := by
  cases he : n.exponent <;> simp [suffixChars, exponentChars, he]

theorem head?_fractionChars :
    ∀ c ∈ (n.fractionChars ++ n.suffixChars plus).head?, c = '.' ∧ n.fraction ≠ [] ∨ c = 'e' := by
  intro c hc
  cases hf : n.fraction
  case nil =>
    rw [fractionChars, hf] at hc
    exact .inr <| head?_suffixChars c hc
  case cons d ds =>
    rw [fractionChars, hf] at hc
    exact .inl ⟨(Option.some.inj hc).symm, by simp⟩

theorem splitFraction_eq (h : n.Written) :
    splitFraction (n.fractionChars ++ n.suffixChars plus) = (n.fraction, n.suffixChars plus) := by
  have hs : ∀ c ∈ (n.suffixChars plus).head?, c = 'e' := head?_suffixChars
  unfold fractionChars
  cases hf : n.fraction
  case nil =>
    cases hc : n.suffixChars plus
    case nil => rfl
    case cons c cs =>
      rw [hc] at hs
      cases hs c rfl
      rfl
  case cons d ds =>
    have hd := splitDigits_append (isDigit_digitChars h) fun c hc => hs c hc ▸ rfl
    rw [map_digitValue_digitChar h, hf] at hd
    exact hd

theorem exponent?_suffixChars (plus : Bool) (n : Numeral) :
    (if (n.suffixChars plus).isEmpty then some none
      else (exponent? (n.suffixChars plus)).map some) = some n.exponent := by
  cases he : n.exponent
  case none   => simp [suffixChars, he]
  case some e =>
    have hx := exponent?_exponentChars plus e
    simp only [suffixChars, he, Option.elim_some, hx, Option.map_some]
    rfl

theorem ofUnsignedText?_chars (plus : Bool) (h : n.Written) :
    ofUnsignedText? n.negative (natChars n.whole ++ (n.fractionChars ++ n.suffixChars plus)) =
      some n := by
  have hh : ∀ c ∈ (n.fractionChars ++ n.suffixChars plus).head?,
      c = '.' ∧ n.fraction ≠ [] ∨ c = 'e' := head?_fractionChars
  have hd : splitDigits (natChars n.whole ++ (n.fractionChars ++ n.suffixChars plus)) =
      ((natChars n.whole).map digitValue, n.fractionChars ++ n.suffixChars plus) := by
    refine splitDigits_append (fun c => isDigit_natChars) fun c hc => ?_
    rcases hh c hc with ⟨rfl, _⟩ | rfl <;> rfl
  have he : (natChars n.whole).map digitValue ≠ [] := by simp [natChars, Nat.toDigits_ne_nil]
  have hp : (n.fractionChars ++ n.suffixChars plus).head? = some '.' → n.fraction ≠ [] := by
    intro hc
    rcases hh _ hc with ⟨_, hf⟩ | hc
    · exact hf
    · exact absurd hc (by decide)
  have hw : (!((natChars n.whole).map digitValue).isEmpty) = true ∧
      (((natChars n.whole).map digitValue).length = 1 ∨
        ((natChars n.whole).map digitValue).head? ≠ some 0) :=
    ⟨by simpa using he, natChars_leading n.whole⟩
  have hf : (n.fractionChars ++ n.suffixChars plus).head? = some '.' →
      (!n.fraction.isEmpty) = true := by
    simpa using hp
  have hx := exponent?_suffixChars plus n
  simp only [ofUnsignedText?, hd, splitFraction_eq h, guard, if_pos hw, if_pos hf,
    ofDigits_natChars]
  split at hx
  case isTrue hs =>
    rw [if_pos hs]
    exact congrArg (fun e => some { n with exponent := e }) (Option.some.inj hx)
  case isFalse hs =>
    rw [if_neg hs, hx]
    rfl

-- A number that is written is read as the number that it is.
theorem ofJsonText?_chars (plus : Bool) (h : n.Written) : ofJsonText? (n.chars plus) = some n := by
  have hu := ofUnsignedText?_chars plus h
  rw [chars_eq]
  cases hn : n.negative
  case true =>
    rw [hn] at hu
    exact hu
  case false =>
    have ⟨c, cs, hc, hd⟩ := exists_natChars n.whole
    rw [hn, hc] at hu
    rw [hc]
    simp only [Bool.false_eq_true, ↓reduceIte, List.nil_append, List.cons_append]
    unfold ofJsonText?
    split
    case h_1 h => cases h; contradiction
    case h_2   => exact hu

-- The characters of a number are read as one lexeme.
theorem isNumberChar_chars (plus : Bool) (h : n.Written) :
    ∀ c ∈ n.chars plus, Json.Lexeme.isNumberChar c := by
  have hd {c : Char} (hc : c.isDigit) : Json.Lexeme.isNumberChar c := by
    simp [Json.Lexeme.isNumberChar, hc]
  have hw {k : Nat} {c : Char} (hc : c ∈ natChars k) := hd (isDigit_natChars hc)
  intro c hc
  simp only [chars, List.mem_append] at hc
  rcases hc with ((hc | hc) | hc) | hc
  · split at hc
    · cases List.mem_singleton.mp hc
      rfl
    · cases hc
  · exact hw hc
  · split at hc
    · cases hc
    · rcases List.mem_cons.mp hc with rfl | hc
      · rfl
      · exact hd (isDigit_digitChars h c hc)
  · cases he : n.exponent <;> simp only [he, Option.elim_none, Option.elim_some] at hc
    case none => cases hc
    case some e =>
      rcases List.mem_cons.mp hc with rfl | hc
      · rfl
      · rcases List.mem_append.mp hc with hc | hc
        · split at hc
          · cases List.mem_singleton.mp hc
            rfl
          · split at hc
            · cases List.mem_singleton.mp hc
              rfl
            · cases hc
        · exact hw hc

end Text

section Values

theorem foldl_digits (ds : List Nat) (n : Nat) :
    ds.foldl (fun n d => 10 * n + d) n = n * pow10 ds.length + Decimal.ofDigits ds := by
  unfold Decimal.ofDigits
  induction ds generalizing n
  case nil => simp
  case cons d ds hi =>
    have hp : pow10 (ds.length + 1) = pow10 ds.length * 10 := pow10_add ds.length 1
    rw [List.foldl_cons, List.foldl_cons, hi, hi (10 * 0 + d), List.length_cons, hp]
    ring

theorem length_lowDigits (n width : Nat) : (lowDigits n width).length = width := by
  induction width
  case zero          => rfl
  case succ width hi => rw [lowDigits, List.length_cons, hi]

theorem lowDigits_lt (n width : Nat) : ∀ d ∈ lowDigits n width, d < 10 := by
  induction width
  case zero          => exact List.forall_mem_nil _
  case succ width hi => exact List.forall_mem_cons.mpr ⟨Nat.mod_lt _ (by decide), hi⟩

theorem ofDigits_lowDigits (n width : Nat) :
    Decimal.ofDigits (lowDigits n width) = n % pow10 width := by
  induction width
  case zero => exact (Nat.mod_one n).symm
  case succ width hi =>
    have hp : pow10 (width + 1) = pow10 width * 10 := pow10_add width 1
    rw [lowDigits, Decimal.ofDigits, List.foldl_cons, foldl_digits, length_lowDigits, hi, hp,
      Nat.mod_mul]
    ring

-- The digits before and after the point are the digits of one number.
theorem whole_add_fraction (n width : Nat) :
    n / pow10 width * pow10 width + Decimal.ofDigits (lowDigits n width) = n := by
  rw [ofDigits_lowDigits, Nat.div_add_mod']

theorem toDecimal_scientific (d : Decimal) : (scientific d).toDecimal = d := by
  simp only [scientific, toDecimal, length_lowDigits, whole_add_fraction, Option.getD_some,
    Int.add_sub_cancel]

-- Zeros may be added at the end.
theorem toDecimal_positional (places : Nat) (d : Decimal) :
    ∃ k : Nat, (positional places d).toDecimal =
      ⟨d.negative, d.digits * pow10 k, d.exponent - k⟩ := by
  simp only [positional, toDecimal, length_lowDigits, whole_add_fraction, Option.getD_none]
  generalize hb : max places (-d.exponent).toNat = behind
  have he : (0 : Int) - behind = d.exponent - ((behind + d.exponent).toNat : Nat) := by omega
  exact ⟨_, by rw [he]⟩

theorem toDouble_positional (places : Nat) (d : Decimal) :
    (positional places d).toDouble = d.toDouble := by
  obtain ⟨k, h⟩ := toDecimal_positional places d
  rw [toDouble, h]
  exact Decimal.toDouble_shift ..

end Values

end Numeral

namespace NumberFormat

variable {f : NumberFormat}

-- A double is written positionally or with an exponent.
theorem numeral_cases (f : NumberFormat) (a : Bool) (steps : Nat) :
    (steps = 0 ∧ f.numeral a steps = .positional f.places ⟨a && f.signedZero, 0, 0⟩) ∨
      f.numeral a steps = .positional f.places (Decimal.shortest f.tie a steps) ∨
      f.numeral a steps = .scientific (Decimal.shortest f.tie a steps) := by
  simp only [numeral]
  split
  case isTrue h => exact .inl ⟨h, rfl⟩
  case isFalse =>
    split
    · exact .inr <| .inl rfl
    · split
      · exact .inr <| .inl rfl
      · exact .inr <| .inr rfl

theorem written_numeral (f : NumberFormat) (a : Bool) (steps : Nat) :
    (f.numeral a steps).Written := by
  rcases f.numeral_cases a steps with ⟨_, h⟩ | h | h <;> rw [h] <;> exact Numeral.lowDigits_lt _ _

-- Whatever the format, a finite double is written as a number that is nearest to it. Only zero may
-- lose its sign.
theorem toDouble_numeral_of_pos (f : NumberFormat) (a : Bool) {steps : Nat} (hf : Double.Fits steps)
    (hs : 0 < steps) : (f.numeral a steps).toDouble = .finite a steps hf := by
  have hd := Decimal.toDouble_shortest f.tie a hf
  rcases f.numeral_cases a steps with ⟨h₀, _⟩ | h | h
  · exact absurd h₀ hs.ne'
  · rw [h, Numeral.toDouble_positional, hd]
  · rw [h, Numeral.toDouble, Numeral.toDecimal_scientific, hd]

theorem toDouble_numeral_zero (f : NumberFormat) (a : Bool) :
    (f.numeral a 0).toDouble = .finite (a && f.signedZero) 0 .zero := by
  rw [numeral, if_pos rfl, Numeral.toDouble_positional]
  exact Decimal.toDouble_shortest f.tie _ .zero

theorem toDouble_numeral (hz : f.signedZero) (a : Bool) {steps : Nat} (hf : Double.Fits steps) :
    (f.numeral a steps).toDouble = .finite a steps hf := by
  rcases steps.eq_zero_or_pos with rfl | hs
  · rw [toDouble_numeral_zero, hz, Bool.and_true]
  · exact f.toDouble_numeral_of_pos a hf hs

-- A point or an exponent is always written where the format asks for a place after the point.
theorem isInteger_numeral (hp : 0 < f.places) (a : Bool) (steps : Nat) :
    (f.numeral a steps).isInteger = false := by
  have hd (d : Decimal) : (Numeral.positional f.places d).isInteger = false := by
    have hl : (Numeral.positional f.places d).fraction.length ≠ 0 := by
      simp only [Numeral.positional, Numeral.length_lowDigits]
      omega
    simp [Numeral.isInteger, List.length_eq_zero_iff.not.mp hl]
  rcases f.numeral_cases a steps with ⟨_, h⟩ | h | h <;> rw [h]
  · exact hd _
  · exact hd _
  · simp [Numeral.isInteger, Numeral.scientific]

end NumberFormat

end AddonBinding
