import AddonBinding.Proofs.RelaxedPolicy
import AddonBinding.Proofs.ShortestDigits

-- How the host writes numbers, and that it reads them back.

namespace AddonBinding

namespace NumberText

-- Digits before a point. Only zero starts with a zero.
inductive WholePart : List Char → Prop
  | zero : WholePart ['0']
  | digits {ds n} (h : Digits 10 ds n) (h₀ : ds.head? ≠ some '0') : WholePart ds

-- A point and the digits after it, of which the last one is no zero, or nothing at all.
inductive FractionPart : List Char → Prop
  | none : FractionPart []
  | digits {fs n} (h : Digits 10 fs n) (h₀ : fs.getLast? ≠ some '0') : FractionPart ('.' :: fs)

-- A decimal without digits that could be left out. One with an exponent has a single digit before
-- the point, and neither that digit nor the exponent is zero.
inductive Compact : List Char → Prop
  | positional {sign ws fs} (hs : sign = [] ∨ sign = ['-']) (hw : WholePart ws)
      (hf : FractionPart fs) : Compact (sign ++ (ws ++ fs))
  | scientific {sign c fs mark es} (hs : sign = [] ∨ sign = ['-']) (hw : WholePart [c])
      (h₀ : c ≠ '0') (hf : FractionPart fs) (hm : mark = '+' ∨ mark = '-') (he : WholePart es)
      (he₀ : es ≠ ['0']) : Compact (sign ++ ([c] ++ (fs ++ 'e' :: mark :: es)))

end NumberText

namespace Numeral

open NumberText

variable {n : Numeral} {plus : Bool}

theorem digits_natChars (n : Nat) : Digits 10 (natChars n) n :=
  digits_ten_iff.mpr ⟨Nat.toDigits_ne_nil, fun _ => isDigit_natChars, (ofDigits_natChars n).symm⟩

theorem exponent_exponentChars (plus : Bool) (e : ℤ) : Exponent (exponentChars plus e) e := by
  have hs : Sign (if e < 0 then ['-'] else if plus then ['+'] else []) (e < 0) := by
    by_cases he : e < 0
    case pos => simpa [he] using Sign.minus
    case neg =>
      cases plus
      case false => simpa [he] using Sign.none
      case true  => simpa [he] using Sign.plus
  have h := Exponent.some (.inl rfl) hs (digits_natChars e.natAbs)
  rwa [Double.signed_natAbs] at h

theorem tail_fractionChars (h : n.Written) :
    Tail n.fractionChars (n.fraction.map Nat.digitChar) := by
  unfold fractionChars
  split
  case isTrue h₀ =>
    rw [List.isEmpty_iff.mp h₀]
    exact .none
  case isFalse => exact .point (isDigit_digitChars h)

theorem ofDecimalText?_chars (plus : Bool) (h : n.Written) :
    ofDecimalText? (n.chars plus) = some n := by
  have hs : Sign (if n.negative then ['-'] else []) n.negative := by
    cases n.negative
    case false => exact .none
    case true  => exact .minus
  have hd {es : List Char} {e : ℤ} (he : Exponent es e) :=
    ofDecimalText?_append hs (fun _ => isDigit_natChars (n := n.whole)) (tail_fractionChars h)
      (.inl Nat.toDigits_ne_nil) he
  simp only [ofDigits_natChars, map_digitValue_digitChar h] at hd
  rw [chars_eq, ← List.append_assoc (natChars n.whole)]
  unfold suffixChars
  cases he : n.exponent
  case none   => rw [Option.elim_none, hd .none, if_pos rfl, ← he]
  case some e =>
    have hc : exponentChars plus e ≠ [] := nofun
    rw [Option.elim_some, hd (exponent_exponentChars plus e), if_neg hc, ← he]

-- A numeral is written as a decimal of its value.
theorem decimalLiteral_chars (plus : Bool) (h : n.Written) :
    DecimalLiteral (n.chars plus) n.negative n.toDecimal.magnitude :=
  decimalLiteral_iff.mpr ⟨n, ofDecimalText?_chars plus h, rfl, rfl⟩

theorem magnitude_positional (places : Nat) (d : Decimal) :
    (positional places d).toDecimal.magnitude = d.magnitude := by
  obtain ⟨k, h⟩ := toDecimal_positional places d
  have hk : (10 : ℚ) ^ k ≠ 0 := by positivity
  rw [h, Decimal.magnitude, Decimal.magnitude, zpow_sub₀ (by norm_num), zpow_natCast, Nat.cast_mul,
    cast_pow10]
  field_simp

-- Only an exponent has the letter.
theorem mem_chars_iff (plus : Bool) (h : n.Written) : 'e' ∈ n.chars plus ↔ n.exponent ≠ none := by
  have hd {cs : List Char} (hc : ∀ c ∈ cs, c.isDigit) : 'e' ∉ cs := fun he => by
    simpa using hc 'e' he
  have hs : 'e' ∉ if n.negative then ['-'] else [] := by
    cases n.negative <;> simp
  have hf : 'e' ∉ n.fractionChars := by
    cases hn : n.fraction
    case nil => simp [fractionChars, hn]
    case cons =>
      have := hd (isDigit_digitChars h)
      simpa [fractionChars, hn] using this
  have hw : 'e' ∉ natChars n.whole := hd fun _ => isDigit_natChars
  simp only [chars_eq, List.mem_append, hs, hw, hf, false_or]
  cases he : n.exponent <;> simp [suffixChars, exponentChars, he]

theorem wholePart_natChars (n : Nat) : WholePart (natChars n) := by
  by_cases hn : n = 0
  case pos =>
    rw [hn]
    exact .zero
  case neg =>
    refine .digits (digits_natChars n) fun h => head?_natChars (Nat.pos_of_ne_zero hn) ?_
    rw [List.head?_map, h]
    rfl

theorem getLast?_lowDigits (n width : Nat) :
    (lowDigits n (width + 1)).getLast? = some (n % 10) := by
  induction width
  case zero => simp [lowDigits]
  case succ width ih =>
    rw [lowDigits, List.getLast?_cons, ih]
    rfl

-- Digits after the point that end with the last digit of a number.
theorem fractionPart_lowDigits {m width : Nat} (hf : n.fraction = lowDigits m width)
    (h : width = 0 ∨ m % 10 ≠ 0) : FractionPart n.fractionChars := by
  cases width
  case zero =>
    rw [fractionChars, hf]
    exact .none
  case succ width =>
    have hm : m % 10 ≠ 0 := h.resolve_left (by simp)
    have hlast : ((n.fraction).map Nat.digitChar).getLast? = some (m % 10).digitChar := by
      rw [hf, List.getLast?_map, getLast?_lowDigits]
      rfl
    have hne : n.fraction ≠ [] := by
      rw [hf, lowDigits]
      simp
    have hd : ∀ d ∈ n.fraction, d < 10 := hf ▸ lowDigits_lt m _
    rw [fractionChars, if_neg (by simpa using hne)]
    refine .digits (digits_ten_iff.mpr ⟨by simpa using hne, isDigit_digitChars hd, rfl⟩) ?_
    rw [hlast]
    intro h₀
    have hv := digitValue_digitChar (Nat.mod_lt m (by decide : 0 < 10))
    rw [Option.some.inj h₀] at hv
    exact hm hv.symm

theorem natChars_ne_zero {k : Nat} (hk : k ≠ 0) : natChars k ≠ ['0'] := by
  intro h
  have hv := ofDigits_natChars k
  rw [h] at hv
  exact hk hv.symm

theorem sign_negative (n : Numeral) :
    (if n.negative then ['-'] else []) = [] ∨ (if n.negative then ['-'] else []) = ['-'] := by
  cases n.negative
  case false => exact .inl rfl
  case true  => exact .inr rfl

variable {d : Decimal}

theorem compact_positional (h : d.digits % 10 ≠ 0) : Compact ((positional 0 d).chars plus) := by
  have hs : (positional 0 d).suffixChars plus = [] := rfl
  rw [chars_eq, hs, List.append_nil]
  refine .positional (sign_negative _) (wholePart_natChars _) (fractionPart_lowDigits rfl ?_)
  by_cases he : 0 ≤ d.exponent
  case pos => exact .inl (by omega)
  case neg =>
    have hk : ((max 0 (-d.exponent).toNat : Nat) + d.exponent).toNat = 0 := by omega
    refine .inr ?_
    rw [hk]
    simpa using h

theorem whole_scientific (h : 0 < d.digits) :
    0 < (scientific d).whole ∧ (scientific d).whole < 10 := by
  have hw : (scientific d).whole = d.digits / pow10 (d.width - 1) := rfl
  rw [hw, Nat.div_lt_iff_lt_mul (pow10_pos _)]
  refine ⟨Nat.div_pos (Decimal.le_digits h) (pow10_pos _), ?_⟩
  calc d.digits < pow10 d.width := d.digits_lt
    _ = pow10 (1 + (d.width - 1)) := by rw [Nat.add_sub_cancel' d.width_pos]
    _ = 10 * pow10 (d.width - 1) := pow10_add ..

-- The exponent is the power of ten of the leading digit, and it always has a sign.
theorem suffixChars_scientific (d : Decimal) :
    (scientific d).suffixChars true =
      'e' :: (if NumberFormat.leading d < 0 then '-' else '+') ::
        natChars (NumberFormat.leading d).natAbs := by
  have he : (scientific d).exponent = some (NumberFormat.leading d) := by
    have hw : 0 < (natChars d.digits).length := d.width_pos
    rw [scientific, NumberFormat.leading, Option.some.injEq]
    omega
  simp only [suffixChars, he, Option.elim_some, exponentChars]
  split <;> rfl

theorem compact_scientific (h : d.digits % 10 ≠ 0) (hl : NumberFormat.leading d ≠ 0) :
    Compact ((scientific d).chars true) := by
  have hd : 0 < d.digits := Nat.pos_of_ne_zero fun h₀ => h (by simp [h₀])
  obtain ⟨hlo, hhi⟩ := whole_scientific hd
  have hpart := wholePart_natChars (scientific d).whole
  have hne := natChars_ne_zero hlo.ne'
  have hwhole : natChars (scientific d).whole = [(scientific d).whole.digitChar] :=
    Nat.toDigits_of_lt_base hhi
  rw [hwhole] at hpart hne
  rw [chars_eq, hwhole, suffixChars_scientific]
  refine .scientific (sign_negative _) hpart (by simpa using hne)
    (fractionPart_lowDigits rfl (.inr h)) ?_ (wholePart_natChars _) (natChars_ne_zero (by omega))
  split
  · exact .inr rfl
  · exact .inl rfl

end Numeral

namespace HostValue

open NumberText Double Decimal NumberFormat

variable {a : Bool} {steps : Nat} {cs : List Char} {q : ℚ} {x : Double}

theorem isHostBlank_of_isDecimalChar {c : Char} (h : isDecimalChar c) :
    Text.isHostBlank c = false := by
  have hb : Text.hostBlanks.all (!isDecimalChar ·) := by decide
  by_contra hc
  have hm : c ∈ Text.hostBlanks := by simpa [Text.isHostBlank] using hc
  simpa [h] using List.all_eq_true.mp hb c hm

theorem numberOfText?_decimal (h : DecimalLiteral cs a q) (hx : Rounds a q x) :
    numberOfText? (String.ofList cs) = some x := by
  obtain ⟨y, hy, hr⟩ := h.decimalNumber?
  obtain ⟨c, hc, -⟩ := h.exists_isDigit
  have ht := Text.trimmed_self fun c hc => isHostBlank_of_isDecimalChar (h.isDecimalChar c hc)
  rw [numberOfText?, String.toList_ofList, ← ht.eq_trim,
    trimmedNumber?_decimal h.isDecimalChar (List.ne_nil_of_mem hc), hy, hr.unique hx]

theorem isBlank_of_decimal (h : DecimalLiteral cs a q) : isBlank (String.ofList cs) = false := by
  obtain ⟨c, hc, hd⟩ := h.exists_isDigit
  have hb := isHostBlank_of_isDecimalChar (isDecimalChar_of_isDigit hd)
  rw [isBlank, String.toList_ofList, List.all_eq_false]
  exact ⟨c, hc, by simp [hb]⟩

-- A text for a number: it shows a decimal of the fewest digits that are read as that number, with
-- an exponent only if its size asks for one, and nothing that could be left out.
structure ShortestText (x : Double) (d : Decimal) (cs : List Char) : Prop where
  reads    : d.toDouble = x
  shortest : ∀ d' : Decimal, d'.toDouble = x → d.width ≤ d'.width
  literal  : DecimalLiteral cs d.negative d.magnitude
  plain    : 'e' ∉ cs ↔ (10 : ℚ) ^ (-6 : ℤ) ≤ d.magnitude ∧ d.magnitude < (10 : ℚ) ^ (21 : ℤ)
  compact  : Compact cs

-- Where numbers are written positionally.
theorem positional_iff {d : Decimal} (h : 0 < d.digits) :
    -6 ≤ leading d ∧ leading d ≤ 20 ↔
      (10 : ℚ) ^ (-6 : ℤ) ≤ d.magnitude ∧ d.magnitude < (10 : ℚ) ^ (21 : ℤ) := by
  rw [← not_le, ← le_leading_iff h, ← le_leading_iff h]
  omega

theorem numeral_cases_of_pos (a : Bool) (hs : 0 < steps) :
    let d := Decimal.shortest .up a steps
    (-6 ≤ leading d ∧ leading d ≤ 20) ∧ numberFormat.numeral a steps = .positional 0 d ∨
      ¬(-6 ≤ leading d ∧ leading d ≤ 20) ∧ numberFormat.numeral a steps = .scientific d := by
  intro d
  have hn : numberFormat.numeral a steps =
      if -6 ≤ leading d ∧ leading d ≤ 20 then .positional 0 d else .scientific d := by
    rw [numeral, if_neg hs.ne']
    rfl
  rw [hn]
  by_cases h : -6 ≤ leading d ∧ leading d ≤ 20
  case pos => exact .inl ⟨h, if_pos h⟩
  case neg => exact .inr ⟨h, if_neg h⟩

theorem shortestText_numeral (a : Bool) (hf : Fits steps) (hs : 0 < steps) :
    ShortestText (.finite a steps hf) (Decimal.shortest .up a steps)
      ((numberFormat.numeral a steps).chars true) := by
  have hr := toDouble_shortest .up a hf
  have hten := digits_mod_ten_ne_zero .up a hf hs
  have hiff := positional_iff (digits_pos_of_toDouble hs hr)
  have hw := written_numeral numberFormat a steps
  have hlit := Numeral.decimalLiteral_chars true hw
  have he := Numeral.mem_chars_iff true hw
  rcases numeral_cases_of_pos a hs with ⟨h, hn⟩ | ⟨h, hn⟩ <;> rw [hn] at hlit he ⊢
  case inl =>
    rw [Numeral.magnitude_positional] at hlit
    exact ⟨hr, fun d' => width_le_of_toDouble hs, hlit,
      iff_of_true (fun hc => he.mp hc rfl) (hiff.mp h), Numeral.compact_positional hten⟩
  case inr =>
    rw [Numeral.toDecimal_scientific] at hlit
    exact ⟨hr, fun d' => width_le_of_toDouble hs, hlit,
      iff_of_false (fun hc => hc (he.mpr nofun)) (h ∘ hiff.mpr),
      Numeral.compact_scientific hten (by omega)⟩

theorem toDouble_numeral_eq (a : Bool) (hf : Fits steps) :
    (numberFormat.numeral a steps).toDouble = if steps = 0 then .zero else .finite a steps hf := by
  rcases steps.eq_zero_or_pos with rfl | hs
  · have hz : (a && numberFormat.signedZero) = false := Bool.and_false a
    rw [toDouble_numeral_zero, hz, if_pos rfl]
    rfl
  · rw [if_neg hs.ne', toDouble_numeral_of_pos numberFormat a hf hs]

theorem numberOfText?_toText (hx : x.isNaN = false) :
    numberOfText? (number x).toText = some (if x.isZero then .zero else x) ∧
      isBlank (number x).toText = false := by
  cases x
  case nan => contradiction
  case infinite a => cases a <;> exact ⟨by decide, by decide⟩
  case finite a steps hf =>
    have hlit := Numeral.decimalLiteral_chars true (written_numeral numberFormat a steps)
    have hr := rounds_toDouble (numberFormat.numeral a steps).toDecimal
    have hd : (numberFormat.numeral a steps).toDecimal.toDouble = _ := toDouble_numeral_eq a hf
    rw [hd] at hr
    refine ⟨(numberOfText?_decimal hlit hr).trans ?_, isBlank_of_decimal hlit⟩
    simp [isZero]

theorem toNumber_toText {p : CoercionPolicy} (hp : p.numericStrings) (hx : x.isNaN = false)
    (hz : x.isZero → x.isNegative = false) :
    (text (number x).toText).toNumber p = (number x).toNumber p := by
  obtain ⟨hread, hblank⟩ := numberOfText?_toText hx
  refine toNumber_text_eq_ok_iff.mpr ⟨hp, by simp [hblank], ?_⟩
  rw [hread]
  cases x <;> simp_all [isZero, isNegative, zero]

-- Every number is read back from its text, and negative zero as zero. Where texts count as numbers,
-- the text of a number has the same native value as the number.
theorem number_text_reads_back (x : Double) (hx : x.isNaN = false) :
    numberOfText? (number x).toText = some (if x.isZero then .zero else x) ∧
    (∀ a steps fits, x = .finite a steps fits → 0 < steps →
      ShortestText x (Decimal.shortest .up a steps) (number x).toText.toList) ∧
    ∀ p : CoercionPolicy, p.numericStrings → (x.isZero → x.isNegative = false) →
      (∀ t : IntegerType, (ScalarType.integer t).decode p (text (number x).toText) =
        (ScalarType.integer t).decode p (number x)) ∧
      ∀ t : FloatType, (ScalarType.float t).decode p (text (number x).toText) =
        (ScalarType.float t).decode p (number x) := by
  refine ⟨(numberOfText?_toText hx).left, ?_, fun p hp hz => ?_⟩
  · rintro a steps hf rfl hs
    have ht : (number (.finite a steps hf)).toText.toList =
        (numberFormat.numeral a steps).chars true := String.toList_ofList
    rw [ht]
    exact shortestText_numeral a hf hs
  · have hn := toNumber_toText hp hx hz
    exact ⟨fun t => by rw [ScalarType.decode, ScalarType.decode, hn],
      fun t => by rw [ScalarType.decode, ScalarType.decode, hn]⟩

-- One digit is enough for the least double.
theorem number_text_reads_back_least :
    ∃ fits, (number (.finite false 1 fits)).toText = "5e-324" ∧
      numberOfText? "5e-324" = some (.finite false 1 fits) ∧
      ShortestText (.finite false 1 fits) ⟨false, 5, -324⟩ "5e-324".toList ∧
      ∀ t, (ScalarType.float t).decode { numericStrings := true } (text "5e-324") =
        (ScalarType.float t).decode { numericStrings := true } (number (.finite false 1 fits)) := by
  have fits : Fits 1 := by decide +kernel
  have hd : Decimal.shortest .up false 1 = ⟨false, 5, -324⟩ := by decide +kernel
  have ht : String.ofList ((numberFormat.numeral false 1).chars true) = "5e-324" := by
    decide +kernel
  have ht : (number (.finite false 1 fits)).toText = "5e-324" := ht
  obtain ⟨hr, hs, hp⟩ := number_text_reads_back (.finite false 1 fits) rfl
  have hs := hs _ _ _ rfl Nat.one_pos
  obtain ⟨-, hp⟩ := hp { numericStrings := true } rfl nofun
  rw [ht] at hr hs hp
  rw [hd] at hs
  exact ⟨fits, ht, hr, hs, hp⟩

end HostValue

end AddonBinding
