import AddonBinding.Proofs.NearestDouble
import AddonBinding.Proofs.NumeralText
import AddonBinding.Proofs.TextNumber
import Mathlib.Data.List.DropRight

-- The texts that denote numbers to the host, and the numbers that they denote.

namespace AddonBinding

-- A text without the characters of a class at its ends.
structure Text.Trimmed (p : Char → Bool) (cs rest : List Char) : Prop where
  parts : ∃ before after, cs = before ++ (rest ++ after) ∧ (∀ c ∈ before, p c) ∧ ∀ c ∈ after, p c
  first : ∀ c ∈ rest.head?, p c = false
  last  : ∀ c ∈ rest.getLast?, p c = false

-- The number without its sign.
def Decimal.magnitude (d : Decimal) : ℚ :=
  d.digits * (10 : ℚ) ^ d.exponent

namespace NumberText

inductive Sign : List Char → Bool → Prop
  | none  : Sign [] false
  | plus  : Sign ['+'] false
  | minus : Sign ['-'] true

-- A digit and its value in a base of at most 16. Letters may be large or small.
def Digit (base : Nat) (c : Char) (d : Nat) : Prop :=
  d < base ∧ ("0123456789abcdef".toList[d]? = some c ∨ "0123456789ABCDEF".toList[d]? = some c)

instance (base : Nat) (c : Char) (d : Nat) : Decidable (Digit base c d) :=
  inferInstanceAs (Decidable (_ ∧ _))

inductive Digits (base : Nat) : List Char → Nat → Prop
  | one  {c d} (h : Digit base c d) : Digits base [c] d
  | snoc {cs c n d} (h : Digits base cs n) (hc : Digit base c d) :
      Digits base (cs ++ [c]) (base * n + d)

inductive Mantissa : List Char → ℚ → Prop
  | whole {ds n} (h : Digits 10 ds n) : Mantissa ds n
  | point {ds n} (h : Digits 10 ds n) : Mantissa (ds ++ ['.']) n
  | both  {ds fs n m} (h : Digits 10 ds n) (hf : Digits 10 fs m) :
      Mantissa (ds ++ '.' :: fs) (n + m / (10 : ℚ) ^ fs.length)
  | fraction {fs m} (hf : Digits 10 fs m) : Mantissa ('.' :: fs) (m / (10 : ℚ) ^ fs.length)

inductive Exponent : List Char → ℤ → Prop
  | none : Exponent [] 0
  | some {mark sign ds a n} (hm : mark = 'e' ∨ mark = 'E') (hs : Sign sign a)
      (hd : Digits 10 ds n) : Exponent (mark :: (sign ++ ds)) (Double.signed a n)

-- A decimal with its sign and its value without the sign, which a negative zero would not show.
inductive DecimalLiteral : List Char → Bool → ℚ → Prop
  | mk {sign ms es a q e} (hs : Sign sign a) (hm : Mantissa ms q) (he : Exponent es e) :
      DecimalLiteral (sign ++ (ms ++ es)) a (q * (10 : ℚ) ^ e)

-- The letters after a leading zero and their bases.
def marks : List (Char × Nat) :=
  [('x', 16), ('X', 16), ('o', 8), ('O', 8), ('b', 2), ('B', 2)]

inductive NumericLiteral : List Char → Prop
  | empty : NumericLiteral []
  | infinity {sign a} (hs : Sign sign a) : NumericLiteral (sign ++ "Infinity".toList)
  | radix {mark base ds n} (hm : (mark, base) ∈ marks) (hd : Digits base ds n) :
      NumericLiteral ('0' :: mark :: ds)
  | decimal {cs a q} (h : DecimalLiteral cs a q) : NumericLiteral cs

section Digits

open Numeral

variable {base n d : Nat} {c : Char} {cs ds : List Char} {values : List Nat}

theorem digitValue?_eq_some_iff (hb : base ≤ 16) :
    digitValue? base c = some d ↔ d < base ∧ digitValue? 16 c = some d := by
  simp only [digitValue?, Option.filter_eq_some_iff, decide_eq_true_eq]
  constructor
  case mp  => exact fun ⟨h, hd⟩ => ⟨hd, h, hd.trans_le hb⟩
  case mpr => exact fun ⟨hd, h, _⟩ => ⟨h, hd⟩

-- Digits stand in rows of consecutive characters, of which `a` is the first.
theorem getElem?_of_row (table : List Char) {a b m : Nat}
    (h : ∀ k < m, table[b + k]? = some (Char.ofNat (a + k))) (hl : a ≤ c.toNat)
    (hu : c.toNat < a + m) : table[b + (c.toNat - a)]? = some c := by
  rw [h _ (by omega), Nat.add_sub_cancel' hl, Char.ofNat_toNat]

theorem digit_iff (hb : base ≤ 16) : Digit base c d ↔ digitValue? base c = some d := by
  rw [digitValue?_eq_some_iff hb]
  refine and_congr_right fun hd => ⟨fun h => ?_, fun h => ?_⟩
  · have hd : d < 16 := hd.trans_le hb
    have hl : ∀ d < 16, "0123456789abcdef".toList[d]?.bind (digitValue? 16) = some d := by decide
    have hu : ∀ d < 16, "0123456789ABCDEF".toList[d]?.bind (digitValue? 16) = some d := by decide
    rcases h with h | h
    · exact (congrArg (·.bind (digitValue? 16)) h).symm.trans (hl d hd)
    · exact (congrArg (·.bind (digitValue? 16)) h).symm.trans (hu d hd)
  · have hr := (Option.filter_eq_some_iff.mp h).left
    split_ifs at hr with h₁ h₂ h₃ <;> cases hr
    · have hu : c.toNat ≤ 57 := h₁.right
      have := getElem?_of_row "0123456789abcdef".toList (a := 48) (b := 0) (m := 10) (by decide)
        h₁.left (by omega)
      exact .inl <| by simpa using this
    · have hu : c.toNat ≤ 102 := h₂.right
      have := getElem?_of_row "0123456789abcdef".toList (a := 97) (b := 10) (m := 6) (by decide)
        h₂.left (by omega)
      exact .inl <| by simpa [Nat.add_comm] using this
    · have hu : c.toNat ≤ 70 := h₃.right
      have := getElem?_of_row "0123456789ABCDEF".toList (a := 65) (b := 10) (m := 6) (by decide)
        h₃.left (by omega)
      exact .inr <| by simpa [Nat.add_comm] using this

theorem digit_ten_iff : Digit 10 c d ↔ c.isDigit ∧ digitValue c = d := by
  rw [digit_iff (by decide)]
  have hc : c.isDigit ↔ '0' ≤ c ∧ c ≤ '9' := by
    simp only [Char.isDigit, Bool.and_eq_true, decide_eq_true_eq]
    rfl
  rw [hc, digitValue?, Option.filter_eq_some_iff, decide_eq_true_eq]
  by_cases h : '0' ≤ c ∧ c ≤ '9'
  case pos =>
    have hl : digitValue c < 10 := by
      have hu : c.toNat ≤ 57 := h.right
      show c.toNat - 48 < 10
      omega
    rw [if_pos h, Option.some.injEq]
    exact ⟨fun hd => ⟨h, hd.left⟩, fun hd => ⟨hd.right, hd.right ▸ hl⟩⟩
  case neg =>
    rw [if_neg h]
    refine iff_of_false (fun ⟨hd, hl⟩ => ?_) (fun hd => h hd.left)
    split_ifs at hd <;> cases hd
    all_goals omega

theorem Digits.append (h : Digits base cs n) (hd : List.Forall₂ (Digit base) ds values) :
    Digits base (cs ++ ds) (values.foldl (fun n d => base * n + d) n) := by
  induction hd generalizing cs n
  case nil => rwa [List.append_nil]
  case cons hc _ ih =>
    rw [List.append_cons]
    exact ih <| h.snoc hc

theorem digits_iff :
    Digits base cs n ↔ cs ≠ [] ∧ ∃ values, List.Forall₂ (Digit base) cs values ∧
      n = values.foldl (fun n d => base * n + d) 0 where
  mp h := by
    induction h
    case one d h => exact ⟨by simp, [d], .cons h .nil, by simp⟩
    case snoc d _ hc ih =>
      obtain ⟨_, values, hv, rfl⟩ := ih
      exact ⟨by simp, values ++ [d], List.rel_append hv (.cons hc .nil), by simp⟩
  mpr := by
    rintro ⟨hne, values, hv, rfl⟩
    cases hv
    case nil => contradiction
    case cons d hc hv => simpa using (Digits.one hc).append hv

theorem digits_ten_iff :
    Digits 10 cs n ↔
      cs ≠ [] ∧ (∀ c ∈ cs, c.isDigit) ∧ n = Decimal.ofDigits (cs.map digitValue) := by
  have hv (values) : List.Forall₂ (Digit 10) cs values ↔
      (∀ c ∈ cs, c.isDigit) ∧ cs.map digitValue = values := by
    have hd : Digit 10 = fun c d => c.isDigit ∧ digitValue c = d :=
      funext₂ fun c d => propext digit_ten_iff
    rw [hd, List.forall₂_and_left, ← List.forall₂_map_left_iff, List.forall₂_eq_eq_eq]
  simp only [digits_iff, hv, Decimal.ofDigits]
  simp

end Digits

-- What follows the digits before a point: nothing, or the point and digits.
inductive Tail : List Char → List Char → Prop
  | none : Tail [] []
  | point {fs} (h : ∀ c ∈ fs, c.isDigit) : Tail ('.' :: fs) fs

section Parts

open Numeral

variable {sign cs ds fs ms es tail rest : List Char} {a : Bool} {q : ℚ} {e : ℤ}

theorem exists_sign (cs : List Char) :
    ∃ sign, Sign sign (splitSign cs).1 ∧ cs = sign ++ (splitSign cs).2 := by
  unfold splitSign
  split
  case h_1 => exact ⟨_, .minus, rfl⟩
  case h_2 => exact ⟨_, .plus, rfl⟩
  case h_3 => exact ⟨_, .none, rfl⟩

theorem splitSign_of_head (h : ∀ c ∈ rest.head?, c ≠ '-' ∧ c ≠ '+') :
    splitSign rest = (false, rest) := by
  unfold splitSign
  split
  case h_1 => exact absurd rfl (h '-' rfl).left
  case h_2 => exact absurd rfl (h '+' rfl).right
  case h_3 => rfl

theorem Sign.splitSign_append (hs : Sign sign a) (h : ∀ c ∈ rest.head?, c ≠ '-' ∧ c ≠ '+') :
    splitSign (sign ++ rest) = (a, rest) := by
  cases hs
  case none  => exact splitSign_of_head h
  case plus  => rfl
  case minus => rfl

theorem exists_digits (cs : List Char) :
    ∃ ds, (∀ c ∈ ds, c.isDigit) ∧ (splitDigits cs).1 = ds.map digitValue ∧
      cs = ds ++ (splitDigits cs).2 :=
  ⟨cs.takeWhile Char.isDigit, fun _ => List.mem_takeWhile_imp, rfl,
    (List.takeWhile_append_dropWhile ..).symm⟩

theorem exists_tail (cs : List Char) :
    ∃ tail fs, Tail tail fs ∧ (splitFraction cs).1 = fs.map digitValue ∧
      cs = tail ++ (splitFraction cs).2 := by
  unfold splitFraction
  split
  case h_1 rest =>
    obtain ⟨fs, hf, hv, hc⟩ := exists_digits rest
    exact ⟨_, fs, .point hf, hv, congrArg ('.' :: ·) hc⟩
  case h_2 => exact ⟨_, _, .none, rfl, rfl⟩

theorem Tail.splitFraction_append (ht : Tail tail fs)
    (h : ∀ c ∈ rest.head?, c = 'e' ∨ c = 'E') :
    splitFraction (tail ++ rest) = (fs.map digitValue, rest) := by
  cases ht
  case point hf =>
    refine splitDigits_append hf fun c hc => ?_
    rcases h c hc with rfl | rfl <;> rfl
  case none =>
    rw [List.nil_append]
    unfold splitFraction
    split
    case h_1 => exact absurd (h '.' rfl) (by decide)
    case h_2 => rfl

-- All ways to write digits and a point are digits, and then a point with digits or nothing.
theorem mantissa_iff : Mantissa ms q ↔ ∃ ds tail fs, ms = ds ++ tail ∧ Tail tail fs ∧
    (∀ c ∈ ds, c.isDigit) ∧ (ds ≠ [] ∨ fs ≠ []) ∧
    q = Decimal.ofDigits (ds.map digitValue) +
      Decimal.ofDigits (fs.map digitValue) / (10 : ℚ) ^ fs.length where
  mp h := by
    cases h
    case whole n h =>
      obtain ⟨hn, hd, rfl⟩ := digits_ten_iff.mp h
      exact ⟨ms, [], [], by simp, .none, hd, .inl hn, by simp [Decimal.ofDigits]⟩
    case point ds n h =>
      obtain ⟨hn, hd, rfl⟩ := digits_ten_iff.mp h
      exact ⟨ds, ['.'], [], rfl, .point (by simp), hd, .inl hn, by simp [Decimal.ofDigits]⟩
    case both ds fs n m h hf =>
      obtain ⟨hn, hd, rfl⟩ := digits_ten_iff.mp h
      obtain ⟨_, hf', rfl⟩ := digits_ten_iff.mp hf
      exact ⟨ds, _, fs, rfl, .point hf', hd, .inl hn, rfl⟩
    case fraction fs m hf =>
      obtain ⟨hn, hf', rfl⟩ := digits_ten_iff.mp hf
      exact ⟨[], _, fs, rfl, .point hf', by simp, .inr hn, by simp [Decimal.ofDigits]⟩
  mpr := by
    rintro ⟨ds, tail, fs, rfl, ht, hd, hn, rfl⟩
    by_cases hds : ds = []
    case pos =>
      subst hds
      have hn : fs ≠ [] := hn.resolve_left (by simp)
      cases ht
      case none => exact absurd rfl hn
      case point hf =>
        simpa [Decimal.ofDigits] using Mantissa.fraction (digits_ten_iff.mpr ⟨hn, hf, rfl⟩)
    case neg =>
      have hw := digits_ten_iff.mpr ⟨hds, hd, rfl⟩
      cases ht
      case none => simpa [Decimal.ofDigits] using Mantissa.whole hw
      case point hf =>
        by_cases hfs : fs = []
        case pos =>
          subst hfs
          simpa [Decimal.ofDigits] using Mantissa.point hw
        case neg => exact .both hw (digits_ten_iff.mpr ⟨hfs, hf, rfl⟩)

theorem exponent?_eq_some_iff : exponent? es = some e ↔ Exponent es e ∧ es ≠ [] where
  mp h := by
    cases es
    case nil => contradiction
    case cons mark rest =>
      obtain ⟨sign, hs, hr⟩ := exists_sign rest
      obtain ⟨ds, hd, hv, hr'⟩ := exists_digits (splitSign rest).2
      simp only [exponent?, hv] at h
      split at h
      case isFalse => contradiction
      case isTrue hc =>
        obtain ⟨hm, hn, he⟩ := hc
        have hn : ds ≠ [] := by simpa using hn
        rw [List.isEmpty_iff.mp he, List.append_nil] at hr'
        rw [hr'] at hr
        rw [hr, ← Option.some.inj h]
        exact ⟨.some hm hs (digits_ten_iff.mpr ⟨hn, hd, rfl⟩), by simp⟩
  mpr := by
    rintro ⟨h, hne⟩
    cases h
    case none => contradiction
    case some mark sign ds a n hm hs h =>
      obtain ⟨hn, hd, rfl⟩ := digits_ten_iff.mp h
      have hh : ∀ c ∈ ds.head?, c ≠ '-' ∧ c ≠ '+' := by
        intro c hc
        have := hd c (List.mem_of_mem_head? hc)
        constructor <;> rintro rfl <;> contradiction
      have hsplit : splitDigits ds = (ds.map digitValue, []) := by
        simpa using @splitDigits_append ds [] hd (by simp)
      simp only [exponent?, hs.splitSign_append hh, hsplit]
      rw [if_pos ⟨hm, by simpa using hn, rfl⟩]

theorem Exponent.head?_eq (h : Exponent es e) : ∀ c ∈ es.head?, c = 'e' ∨ c = 'E' := by
  cases h
  case none => simp
  case some mark _ _ _ _ hm _ _ => simpa using hm

theorem Tail.head?_append (ht : Tail tail fs) (he : Exponent es e) :
    ∀ c ∈ (tail ++ es).head?, c = '.' ∨ c = 'e' ∨ c = 'E' := by
  cases ht
  case none  => exact fun c hc => .inr <| he.head?_eq c hc
  case point => simp

-- The numeral of the digits that stand before and after the point.
theorem ofDecimalText?_append (hs : Sign sign a) (hd : ∀ c ∈ ds, c.isDigit) (ht : Tail tail fs)
    (hn : ds ≠ [] ∨ fs ≠ []) (he : Exponent es e) :
    ofDecimalText? (sign ++ (ds ++ tail ++ es)) = some ⟨a, Decimal.ofDigits (ds.map digitValue),
      fs.map digitValue, if es = [] then none else some e⟩ := by
  have hh := ht.head?_append he
  have hsign : splitSign (sign ++ (ds ++ tail ++ es)) = (a, ds ++ (tail ++ es)) := by
    rw [List.append_assoc]
    refine hs.splitSign_append fun c hc => ?_
    cases ds
    case nil =>
      rcases hh c hc with rfl | rfl | rfl <;> decide
    case cons =>
      have := hd c (List.mem_of_mem_head? (by simpa using hc))
      constructor <;> rintro rfl <;> contradiction
  have hdigits : splitDigits (ds ++ (tail ++ es)) = (ds.map digitValue, tail ++ es) := by
    refine splitDigits_append hd fun c hc => ?_
    rcases hh c hc with rfl | rfl | rfl <;> rfl
  have hne : ¬((ds.map digitValue).isEmpty ∧ (fs.map digitValue).isEmpty) := by
    simpa [-not_and, not_and_or] using hn
  simp only [ofDecimalText?, hsign, hdigits, ht.splitFraction_append he.head?_eq, if_neg hne]
  by_cases hes : es = []
  case pos => simp [hes]
  case neg =>
    have hx := exponent?_eq_some_iff.mpr ⟨he, hes⟩
    simp [hes, hx]

theorem exists_parts {cs : List Char} {n : Numeral} (h : ofDecimalText? cs = some n) :
    ∃ sign ds tail fs es e?, Sign sign n.negative ∧ (∀ c ∈ ds, c.isDigit) ∧ Tail tail fs ∧
      (ds ≠ [] ∨ fs ≠ []) ∧ Exponent es (e?.getD 0) ∧ cs = sign ++ (ds ++ tail ++ es) ∧
      n = ⟨n.negative, Decimal.ofDigits (ds.map digitValue), fs.map digitValue, e?⟩ := by
  obtain ⟨sign, hs, hcs⟩ := exists_sign cs
  obtain ⟨ds, hd, hdv, hds⟩ := exists_digits (splitSign cs).2
  obtain ⟨tail, fs, ht, hfv, hfs⟩ := exists_tail (splitDigits (splitSign cs).2).2
  simp only [ofDecimalText?, hdv, hfv] at h
  split at h
  case isTrue => contradiction
  case isFalse hn =>
    have hn : ds ≠ [] ∨ fs ≠ [] := by simpa [-not_and, not_and_or] using hn
    have hcs : cs = sign ++ (ds ++ tail ++
        (splitFraction (splitDigits (splitSign cs).2).2).2) := by
      rw [List.append_assoc, ← hfs, ← hds, ← hcs]
    split at h
    case isTrue he =>
      have he := List.isEmpty_iff.mp he
      cases h
      exact ⟨sign, ds, tail, fs, [], none, hs, hd, ht, hn, .none, he ▸ hcs, rfl⟩
    case isFalse he =>
      obtain ⟨e, hx, hn'⟩ := Option.map_eq_some_iff.mp h
      cases hn'
      exact ⟨sign, ds, tail, fs, _, some e, hs, hd, ht, hn, (exponent?_eq_some_iff.mp hx).left,
        hcs, rfl⟩

end Parts

end NumberText

theorem cast_pow10 (n : Nat) : (pow10 n : ℚ) = (10 : ℚ) ^ n :=
  Nat.cast_pow 10 n

namespace Decimal

theorem zpow_eq_scale (e : ℤ) : (10 : ℚ) ^ e = scaleUp e / scaleDown e := by
  rw [scaleUp, scaleDown, cast_pow10, cast_pow10]
  rcases le_total 0 e with h | h
  case inl =>
    obtain ⟨k, rfl⟩ := Int.eq_ofNat_of_zero_le h
    simp
  case inr =>
    obtain ⟨k, rfl⟩ := Int.exists_eq_neg_ofNat h
    simp

-- The double of a decimal is the nearest one.
theorem rounds_toDouble (d : Decimal) : Double.Rounds d.negative d.magnitude d.toDouble := by
  rw [toDouble_eq_nearest]
  refine Double.rounds_nearest _ (scaleDown_pos _) ?_
  rw [magnitude, zpow_eq_scale]
  push_cast
  ring

end Decimal

theorem Numeral.magnitude_toDecimal (n : Numeral) :
    n.toDecimal.magnitude =
      (n.whole + Decimal.ofDigits n.fraction / (10 : ℚ) ^ n.fraction.length) *
        (10 : ℚ) ^ n.exponent.getD 0 := by
  have ht : (10 : ℚ) ^ n.fraction.length ≠ 0 := by positivity
  rw [Decimal.magnitude, toDecimal, zpow_sub₀ (by norm_num), zpow_natCast, Nat.cast_add,
    Nat.cast_mul, cast_pow10]
  field_simp

namespace NumberText

variable {cs : List Char} {a : Bool} {q : ℚ}

-- The reader of decimals accepts what the grammar does, and finds the number that it gives.
theorem decimalLiteral_iff :
    DecimalLiteral cs a q ↔
      ∃ n, Numeral.ofDecimalText? cs = some n ∧ n.negative = a ∧ n.toDecimal.magnitude = q where
  mp h := by
    obtain @⟨sign, ms, es, a, q, e, hs, hm, he⟩ := h
    obtain ⟨ds, tail, fs, rfl, ht, hd, hn, rfl⟩ := mantissa_iff.mp hm
    have he₀ : (if es = [] then none else some e).getD 0 = e := by
      split
      case isTrue h  => subst h; cases he; rfl
      case isFalse   => rfl
    refine ⟨_, ofDecimalText?_append hs hd ht hn he, rfl, ?_⟩
    simp only [Numeral.magnitude_toDecimal, he₀, List.length_map]
  mpr := by
    rintro ⟨n, h, rfl, rfl⟩
    obtain ⟨sign, ds, tail, fs, es, e?, hs, hd, ht, hn, he, rfl, hv⟩ := exists_parts h
    have hq := n.magnitude_toDecimal
    rw [hv] at hq
    rw [hv, hq]
    rw [hv] at hs
    refine .mk hs (mantissa_iff.mpr ⟨ds, tail, fs, rfl, ht, hd, hn, ?_⟩) he
    simp

theorem isDecimalChar_of_isDigit {c : Char} (h : c.isDigit) : HostValue.isDecimalChar c := by
  simp [HostValue.isDecimalChar, h]

theorem Sign.isDecimalChar {sign : List Char} (h : Sign sign a) :
    ∀ c ∈ sign, HostValue.isDecimalChar c := by
  cases h <;> simp [HostValue.isDecimalChar]

theorem Exponent.isDecimalChar {es : List Char} {e : ℤ} (h : Exponent es e) :
    ∀ c ∈ es, HostValue.isDecimalChar c := by
  cases h
  case none => exact List.forall_mem_nil _
  case some mark sign ds _ _ hm hs hd =>
    refine List.forall_mem_cons.mpr ⟨?_, List.forall_mem_append.mpr ⟨hs.isDecimalChar, ?_⟩⟩
    · rcases hm with rfl | rfl <;> decide
    · exact fun c hc => isDecimalChar_of_isDigit ((digits_ten_iff.mp hd).right.left c hc)

namespace DecimalLiteral

theorem isDecimalChar (h : DecimalLiteral cs a q) : ∀ c ∈ cs, HostValue.isDecimalChar c := by
  obtain @⟨sign, ms, es, a, q, e, hs, hm, he⟩ := h
  obtain ⟨ds, tail, fs, rfl, ht, hd, -, rfl⟩ := mantissa_iff.mp hm
  have ht : ∀ c ∈ tail, HostValue.isDecimalChar c := by
    cases ht
    case none     => exact List.forall_mem_nil _
    case point hf =>
      exact List.forall_mem_cons.mpr ⟨by decide, fun c hc => isDecimalChar_of_isDigit (hf c hc)⟩
  simp only [List.forall_mem_append]
  exact ⟨hs.isDecimalChar, ⟨fun c hc => isDecimalChar_of_isDigit (hd c hc), ht⟩, he.isDecimalChar⟩

theorem exists_isDigit (h : DecimalLiteral cs a q) : ∃ c ∈ cs, c.isDigit := by
  obtain @⟨sign, ms, es, a, q, e, hs, hm, he⟩ := h
  obtain ⟨ds, tail, fs, rfl, ht, hd, hn, rfl⟩ := mantissa_iff.mp hm
  rcases hn with hn | hn
  case inl =>
    obtain ⟨c, hc⟩ := List.exists_mem_of_ne_nil ds hn
    exact ⟨c, by simp [hc], hd c hc⟩
  case inr =>
    obtain ⟨c, hc⟩ := List.exists_mem_of_ne_nil fs hn
    cases ht
    case none     => contradiction
    case point hf => exact ⟨c, by simp [hc], hf c hc⟩

-- The characters that are looked for before reading do not keep any decimal out.
theorem decimalNumber? (h : DecimalLiteral cs a q) :
    ∃ x, HostValue.decimalNumber? cs = some x ∧ Double.Rounds a q x := by
  have hc : cs.all HostValue.isDecimalChar && cs.any Char.isDigit := by
    rw [Bool.and_eq_true]
    exact ⟨List.all_eq_true.mpr h.isDecimalChar, List.any_eq_true.mpr h.exists_isDigit⟩
  obtain ⟨n, hn, rfl, rfl⟩ := decimalLiteral_iff.mp h
  refine ⟨n.toDouble, ?_, n.toDecimal.rounds_toDouble⟩
  rw [HostValue.decimalNumber?, if_pos hc, Double.ofText?, hn]
  rfl

end DecimalLiteral

end NumberText

namespace Text

variable {p : Char → Bool} {cs rest : List Char}

theorem eq_false_of_head?_dropWhile {c : Char} (h : c ∈ (cs.dropWhile p).head?) : p c = false := by
  have hn := List.head?_dropWhile_not p cs
  rwa [Option.mem_def.mp h] at hn

theorem trimmed_trim (p : Char → Bool) (cs : List Char) : Trimmed p cs (trim p cs) where
  parts := by
    refine ⟨cs.takeWhile p, (cs.dropWhile p).rtakeWhile p, ?_, fun c => List.mem_takeWhile_imp,
      fun c => List.mem_rtakeWhile_imp⟩
    exact (List.takeWhile_append_dropWhile ..).symm.trans <|
      congrArg _ (List.rdropWhile_append_rtakeWhile ..).symm
  first c hc := by
    have hp : trim p cs ++ (cs.dropWhile p).rtakeWhile p = cs.dropWhile p :=
      List.rdropWhile_append_rtakeWhile
    refine @eq_false_of_head?_dropWhile p cs c ?_
    rw [← hp, List.head?_append, Option.mem_def.mp hc]
    rfl
  last c hc := by
    rw [trim, List.getLast?_reverse] at hc
    exact eq_false_of_head?_dropWhile hc

theorem trimmed_self (h : ∀ c ∈ cs, p c = false) : Trimmed p cs cs where
  parts     := ⟨[], [], by simp, by simp, by simp⟩
  first c hc := h c (List.mem_of_mem_head? hc)
  last c hc  := h c (List.mem_of_getLast? hc)

theorem dropWhile_of_head? (h : ∀ c ∈ cs.head?, p c = false) : cs.dropWhile p = cs := by
  cases cs
  case nil      => rfl
  case cons c _ => rw [List.dropWhile_cons_of_neg (by simpa using h c rfl)]

theorem Trimmed.eq_trim (h : Trimmed p cs rest) : rest = trim p cs := by
  obtain ⟨before, after, rfl, hb, ha⟩ := h.parts
  have hr : (rest.reverse).dropWhile p = rest.reverse := by
    refine dropWhile_of_head? fun c hc => h.last c ?_
    rwa [List.head?_reverse] at hc
  rw [trim, List.dropWhile_append_of_pos hb]
  by_cases hn : rest = []
  case pos =>
    rw [hn, List.nil_append, List.dropWhile_eq_nil_iff.mpr ha]
    rfl
  case neg =>
    have hd : (rest ++ after).dropWhile p = rest ++ after := by
      refine dropWhile_of_head? fun c hc => h.first c ?_
      rwa [List.head?_append_of_ne_nil _ hn] at hc
    rw [hd, List.reverse_append, List.dropWhile_append_of_pos (by simpa using ha), hr,
      List.reverse_reverse]

theorem trim_eq_nil_iff : trim p cs = [] ↔ ∀ c ∈ cs, p c where
  mp h := by
    obtain ⟨before, after, hc, hb, ha⟩ := (trimmed_trim p cs).parts
    rw [h, List.nil_append] at hc
    rw [hc]
    exact List.forall_mem_append.mpr ⟨hb, ha⟩
  mpr h := by
    rw [trim, List.dropWhile_eq_nil_iff.mpr h]
    rfl

end Text

namespace HostValue

open NumberText Double

variable {s : String} {cs ds sign : List Char} {a : Bool} {q : ℚ} {base : Nat} {mark : Char}
variable {x : Double}

theorem base?_eq_some_iff : base? mark = some base ↔ (mark, base) ∈ marks := by
  unfold base? marks
  split <;> simp_all [eq_comm]

-- A fold that stops where a step has no value goes through exactly if every element has one.
theorem foldlM_map_eq_some_iff {α β γ : Type} {f : α → Option β} {g : γ → β → γ} {l : List α}
    {y z : γ} :
    l.foldlM (fun y c => (f c).map (g y)) y = some z ↔
      ∃ values, List.Forall₂ (fun c d => f c = some d) l values ∧ values.foldl g y = z := by
  induction l generalizing y
  case nil => simp
  case cons c l ih =>
    rw [List.foldlM_cons, Option.bind_eq_bind, Option.bind_map, Option.bind_eq_some_iff]
    simp only [Function.comp_apply, ih, List.forall₂_cons_left_iff]
    constructor
    · rintro ⟨d, hd, values, hv, rfl⟩
      exact ⟨d :: values, ⟨d, values, hd, hv, rfl⟩, rfl⟩
    · rintro ⟨_, ⟨d, values, hd, hv, rfl⟩, rfl⟩
      exact ⟨d, hd, values, hv, rfl⟩

theorem radixNumber?_eq_some_iff (hb : base ≤ 16) :
    radixNumber? base ds = some x ↔ ds ≠ [] ∧ ∃ values, List.Forall₂ (Digit base) ds values ∧
      values.foldl (radixStep base) .zero = x := by
  have hd : Digit base = fun c d => Numeral.digitValue? base c = some d :=
    funext₂ fun c d => propext (digit_iff hb)
  rw [radixNumber?, hd, ← foldlM_map_eq_some_iff]
  cases ds
  case nil  => simp
  case cons => exact ⟨fun h => ⟨by simp, h⟩, And.right⟩

theorem exists_radixNumber?_iff (hb : base ≤ 16) :
    (∃ x, radixNumber? base ds = some x) ↔ ∃ n, Digits base ds n := by
  simp [radixNumber?_eq_some_iff hb, digits_iff]

theorem trimmedNumber?_infinity (hs : Sign sign a) :
    trimmedNumber? (sign ++ "Infinity".toList) = some (.infinite a) := by
  unfold trimmedNumber?
  cases hs
  case none  => rw [if_neg (by simp), if_pos (by simp)]
  case plus  => rw [if_neg (by simp), if_pos (by simp)]
  case minus => rw [if_neg (by simp), if_neg (by simp), if_pos (by simp)]

theorem trimmedNumber?_radix (hm : (mark, base) ∈ marks) :
    trimmedNumber? ('0' :: mark :: ds) = radixNumber? base ds := by
  unfold trimmedNumber?
  rw [if_neg (by simp), if_neg (by simp), if_neg (by simp)]
  simp only [base?_eq_some_iff.mpr hm]

theorem trimmedNumber?_decimal (h : ∀ c ∈ cs, isDecimalChar c) (hn : cs ≠ []) :
    trimmedNumber? cs = decimalNumber? cs := by
  have hi : ¬isDecimalChar 'I' := by decide
  have hb : ∀ m ∈ marks, ¬isDecimalChar m.1 := by decide
  unfold trimmedNumber?
  rw [if_neg hn, if_neg, if_neg]
  · split
    case h_1 _ mark ds =>
      cases hm : base? mark
      case none      => rfl
      case some base => exact absurd (h mark (by simp)) (hb _ (base?_eq_some_iff.mp hm))
    case h_2 => rfl
  · rintro rfl
    exact hi (h 'I' (by decide))
  · rintro (rfl | rfl) <;> exact hi (h 'I' (by decide))

theorem exists_trimmedNumber?_iff : (∃ x, trimmedNumber? cs = some x) ↔ NumericLiteral cs where
  mp := by
    rintro ⟨x, h⟩
    have hd (h : decimalNumber? cs = some x) : NumericLiteral cs := by
      obtain ⟨n, hn, -⟩ := decimalNumber?_eq_some h
      exact .decimal <| decimalLiteral_iff.mpr ⟨n, hn, rfl, rfl⟩
    unfold trimmedNumber? at h
    split_ifs at h with h₁ h₂ h₃
    case pos => exact h₁ ▸ .empty
    case pos => exact h₂.elim (· ▸ .infinity .none) (· ▸ .infinity .plus)
    case pos => exact h₃ ▸ .infinity .minus
    case neg =>
      split at h
      case h_1 _ mark ds =>
        cases hm : base? mark
        all_goals rw [hm] at h
        case none      => exact hd h
        case some base =>
          have hb := (base?_bounds hm).right
          obtain ⟨n, hn⟩ := (exists_radixNumber?_iff hb).mp ⟨x, h⟩
          exact .radix (base?_eq_some_iff.mp hm) hn
      case h_2 => exact hd h
  mpr h := by
    cases h
    case empty       => exact ⟨_, rfl⟩
    case infinity hs => exact ⟨_, trimmedNumber?_infinity hs⟩
    case radix hm hd =>
      rw [trimmedNumber?_radix hm]
      exact (exists_radixNumber?_iff (base?_bounds (base?_eq_some_iff.mpr hm)).right).mpr ⟨_, hd⟩
    case decimal h =>
      obtain ⟨x, hx, _⟩ := h.decimalNumber?
      obtain ⟨c, hc, _⟩ := h.exists_isDigit
      exact ⟨x, (trimmedNumber?_decimal h.isDecimalChar (List.ne_nil_of_mem hc)).trans hx⟩

-- Without the blanks around it, a text that is read as a number is one that the grammar allows, and
-- every such text is read. A decimal is read as the nearest double, with its sign.
theorem reads_numeric_literals (s : String) :
    (∃ rest, Text.Trimmed Text.isHostBlank s.toList rest) ∧
    ∀ rest, Text.Trimmed Text.isHostBlank s.toList rest →
      ((∃ x, numberOfText? s = some x) ↔ NumericLiteral rest) ∧
      (rest = [] ↔ isBlank s) ∧
      (rest = [] → numberOfText? s = some .zero) ∧
      (∀ sign a, Sign sign a → rest = sign ++ "Infinity".toList →
        numberOfText? s = some (.infinite a)) ∧
      ∀ a q, DecimalLiteral rest a q → ∃ x, numberOfText? s = some x ∧ Rounds a q x := by
  refine ⟨⟨_, Text.trimmed_trim ..⟩, fun rest hr => ?_⟩
  have hn : numberOfText? s = trimmedNumber? rest := by rw [numberOfText?, hr.eq_trim]
  have hb : rest = [] ↔ isBlank s := by
    rw [hr.eq_trim, Text.trim_eq_nil_iff, isBlank, List.all_eq_true]
  refine ⟨?_, hb, fun h => numberOfText?_of_isBlank (hb.mp h), ?_, fun a q h => ?_⟩
  · rw [hn, exists_trimmedNumber?_iff]
  · rintro sign a hs rfl
    rw [hn, trimmedNumber?_infinity hs]
  · obtain ⟨c, hc, _⟩ := h.exists_isDigit
    rw [hn, trimmedNumber?_decimal h.isDecimalChar (List.ne_nil_of_mem hc)]
    exact h.decimalNumber?

theorem reads_numeric_literals_padded :
    Text.Trimmed Text.isHostBlank "\u00a0-.5e+3\n".toList ['-', '.', '5', 'e', '+', '3'] ∧
      numberOfText? "\u00a0-.5e+3\n" = some (.ofInt (-500)) := by
  have ht : Text.Trimmed Text.isHostBlank "\u00a0-.5e+3\n".toList
      ['-', '.', '5', 'e', '+', '3'] := by
    refine ⟨⟨['\u00a0'], ['\n'], rfl, ?_, ?_⟩, ?_, ?_⟩ <;> simp <;> decide
  have hm : Mantissa ['.', '5'] _ := .fraction (.one (d := 5) (by decide))
  have he : Exponent ['e', '+', '3'] _ := .some (.inl rfl) .plus (.one (d := 3) (by decide))
  obtain ⟨_, hread⟩ := reads_numeric_literals "\u00a0-.5e+3\n"
  obtain ⟨_, _, _, _, hdecimal⟩ := hread _ ht
  obtain ⟨x, hx, hr⟩ := hdecimal _ _ (.mk .minus hm he)
  have hq := rounds_ofInt (-500)
  norm_num [signed] at hr hq
  exact ⟨ht, hr.unique hq ▸ hx⟩

end HostValue

end AddonBinding
