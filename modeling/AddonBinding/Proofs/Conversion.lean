import AddonBinding.Coercion.Basic
import AddonBinding.Literal
import AddonBinding.Proofs.MathFunctions

namespace AddonBinding

namespace IntegerRange

variable {bits : Nat}

theorem toNat_span (h : bits < 64) : (span bits).toNat = pow2 bits := by
  have hb : bits % 2 ^ 64 % 64 = bits := by omega
  have hp : pow2 bits < 2 ^ 64 := Nat.pow_lt_pow_right (by decide) h
  rw [span, UInt64.toNat_shiftLeft, UInt64.toNat_ofNat', hb, UInt64.toNat_one, Nat.shiftLeft_eq,
    Nat.one_mul]
  exact Nat.mod_eq_of_lt hp

theorem toInt_half (h : bits < 64) : (half bits).toInt = pow2 (bits - 1) := by
  have hk : ∀ k < 63, ((1 : Int64) <<< Int64.ofNat k).toInt = pow2 k := by decide
  exact hk _ (by omega)

theorem toInt_neg_half (h : bits < 64) : (-half bits).toInt = -(pow2 (bits - 1) : Int) := by
  have hp : pow2 (bits - 1) ≤ 2 ^ 62 := Nat.pow_le_pow_right (by decide) (by omega)
  rw [Int64.toInt_neg, toInt_half h]
  apply Int.bmod_eq_of_le <;> omega

theorem inSigned_iff {w : Int64} :
    inSigned bits w ↔
      64 ≤ bits ∨ (-(pow2 (bits - 1) : Int) ≤ w.toInt ∧ w.toInt < pow2 (bits - 1)) := by
  simp only [inSigned, Bool.or_eq_true, Bool.and_eq_true, decide_eq_true_eq]
  refine or_congr_right' fun h => ?_
  rw [Int64.le_iff_toInt_le, Int64.lt_iff_toInt_lt, toInt_half (by omega),
    toInt_neg_half (by omega)]

theorem inUnsigned_iff {w : UInt64} : inUnsigned bits w ↔ 64 ≤ bits ∨ w.toNat < pow2 bits := by
  simp only [inUnsigned, Bool.or_eq_true, decide_eq_true_eq]
  refine or_congr_right' fun h => ?_
  rw [UInt64.lt_iff_toNat_lt, toNat_span (by omega)]

end IntegerRange

namespace IntegerType

variable {t : IntegerType} {policy : CoercionPolicy} {n : Int} {x : Double} {v : NativeValue}

-- The integers of a type, whatever part of them a policy lets numbers reach.
def Contains (t : IntegerType) (n : Int) : Prop :=
  if t.signed then -(pow2 (t.width.bits - 1) : Int) ≤ n ∧ n < pow2 (t.width.bits - 1)
  else 0 ≤ n ∧ n < pow2 t.width.bits

theorem contains_of_limits (h₁ : t.range.least ≤ n) (h₂ : n ≤ t.range.greatest) : t.Contains n := by
  obtain ⟨width, signed⟩ := t
  cases width <;> cases signed
  all_goals
    simp [range, IntegerRange.least, IntegerRange.greatest, IntegerRange.maxSafe, Width.bits] at h₁ h₂
    simp [Contains, Width.bits]
    omega

theorem contains_zero : t.Contains 0 := by
  obtain ⟨width, signed⟩ := t
  cases width <;> cases signed <;> simp [Contains, Width.bits]

theorem holds_integer_iff {w : Int64} :
    (ScalarType.integer t).holds (.integer w) ↔ t.signed ∧ t.Contains w.toInt := by
  obtain ⟨width, signed⟩ := t
  have := w.le_toInt
  have := w.toInt_lt
  cases signed <;> simp [ScalarType.holds, range, IntegerRange.containsSigned]
  case true =>
    rw [IntegerRange.inSigned_iff]
    cases width <;> simp [Contains, Width.bits]
    case w64 => omega

theorem holds_unsigned_iff {w : UInt64} :
    (ScalarType.integer t).holds (.unsigned w) ↔ t.signed = false ∧ t.Contains w.toNat := by
  obtain ⟨width, signed⟩ := t
  have := w.toNat_lt
  cases signed <;> simp [ScalarType.holds, range, IntegerRange.containsUnsigned]
  case false =>
    rw [IntegerRange.inUnsigned_iff]
    cases width <;> simp [Contains, Width.bits]
    case w64 => omega

theorem Contains.toInt_ofInt (h : t.Contains n) (hs : t.signed) : (Int64.ofInt n).toInt = n := by
  obtain ⟨width, signed⟩ := t
  cases hs
  apply Int64.toInt_ofInt_of_le
  all_goals cases width <;> simp [Contains, Width.bits] at h ⊢ <;> omega

theorem Contains.toNat_ofInt (h : t.Contains n) (hs : t.signed = false) :
    (UInt64.ofInt n).toNat = n := by
  obtain ⟨width, signed⟩ := t
  cases hs
  have hn : 0 ≤ n ∧ n < 2 ^ 64 := by
    cases width <;> simp [Contains, Width.bits] at h ⊢ <;> omega
  simp only [UInt64.ofInt, UInt64.toNat_ofNat']
  omega

theorem holds_exact (h : t.Contains n) : (ScalarType.integer t).holds (t.exact n) := by
  cases hs : t.signed <;> simp only [exact, hs, Bool.false_eq_true, if_true, if_false]
  case true =>
    apply holds_integer_iff.mpr ⟨hs, ?_⟩
    rwa [h.toInt_ofInt hs]
  case false =>
    apply holds_unsigned_iff.mpr ⟨hs, ?_⟩
    rwa [h.toNat_ofInt hs]

-- Each word type is as wide as the type that it narrows to, so its own bounds are the type's.
theorem holds_narrow (word : UInt64) : (ScalarType.integer t).holds (t.narrow word) := by
  obtain ⟨width, signed⟩ := t
  cases signed
  case false =>
    cases width <;> simp only [narrow, holds_unsigned_iff, true_and]
    case w8  => exact ⟨Int.natCast_nonneg _, mod_cast word.toUInt8.toNat_lt⟩
    case w16 => exact ⟨Int.natCast_nonneg _, mod_cast word.toUInt16.toNat_lt⟩
    case w32 => exact ⟨Int.natCast_nonneg _, mod_cast word.toUInt32.toNat_lt⟩
    case w64 => exact ⟨Int.natCast_nonneg _, mod_cast word.toNat_lt⟩
  case true =>
    cases width <;> simp only [narrow, holds_integer_iff, true_and]
    case w8  => exact Int8.toInt_toInt64 _ ▸ ⟨word.toUInt8.toInt8.le_toInt, word.toUInt8.toInt8.toInt_lt⟩
    case w16 => exact Int16.toInt_toInt64 _ ▸ ⟨word.toUInt16.toInt16.le_toInt, word.toUInt16.toInt16.toInt_lt⟩
    case w32 => exact Int32.toInt_toInt64 _ ▸ ⟨word.toUInt32.toInt32.le_toInt, word.toUInt32.toInt32.toInt_lt⟩
    case w64 => exact ⟨word.toInt64.le_toInt, word.toInt64.toInt_lt⟩

theorem holds_of_ofNaN {rule : NaNRule} (h : t.ofNaN rule = .ok v) :
    (ScalarType.integer t).holds v := by
  cases rule <;> simp only [ofNaN, Except.ok.injEq, reduceCtorEq] at h
  exact h ▸ holds_exact contains_zero

theorem holds_of_wrap {rule : NaNRule} (h : t.wrap rule x = .ok v) :
    (ScalarType.integer t).holds v := by
  unfold wrap at h
  split at h
  · exact holds_of_ofNaN h
  · injection h with h
    exact h ▸ holds_narrow _

theorem limits_ordered : t.range.least ≤ t.range.greatest := by
  obtain ⟨width, signed⟩ := t
  cases width <;> cases signed <;> decide

theorem natAbs_least_lt : t.range.least.natAbs < pow2 53 := by
  obtain ⟨width, signed⟩ := t
  cases width <;> cases signed <;> decide

theorem natAbs_greatest_lt : t.range.greatest.natAbs < pow2 53 := by
  obtain ⟨width, signed⟩ := t
  cases width <;> cases signed <;> decide

theorem ofIntegral_eq (hx : x.truncate? = some n) (h : t.Contains n) :
    t.ofIntegral x = t.exact n := by
  obtain ⟨width, signed⟩ := t
  cases signed
  case false =>
    have hn : 0 ≤ n ∧ n ≤ pow2 64 - 1 := by
      cases width <;> simp [Contains, Width.bits] at h ⊢ <;> omega
    exact congrArg (NativeValue.unsigned ∘ .ofInt) <| Double.saturate_eq hx hn.left hn.right
  case true =>
    have hn : -(pow2 63 : Int) ≤ n ∧ n ≤ pow2 63 - 1 := by
      cases width <;> simp [Contains, Width.bits] at h ⊢ <;> omega
    exact congrArg (NativeValue.integer ∘ .ofInt) <| Double.saturate_eq hx hn.left hn.right

-- What the conversions do with a number, as arithmetic on integers.
theorem wrap_of_truncate? (rule : NaNRule) (hx : x.truncate? = some n) :
    t.wrap rule x = .ok (t.narrow (.ofInt n)) := by
  rw [wrap, Double.isInfinite_of_truncate? hx, if_neg Bool.false_ne_true, Double.wrapToWord_eq hx]

theorem outside_eq (hx : x.truncate? = some n) :
    (x.trunc.lt t.range.lower || t.range.upper.lt x.trunc) =
      decide (n < t.range.least ∨ t.range.greatest < n) := by
  rw [Bool.eq_iff_iff, Bool.or_eq_true, decide_eq_true_iff, IntegerRange.lower, IntegerRange.upper,
    Double.trunc_lt_ofInt hx t.natAbs_least_lt, Double.ofInt_lt_trunc hx t.natAbs_greatest_lt]

theorem enforce_of_truncate? (hx : x.truncate? = some n) :
    t.enforce x = if n < t.range.least ∨ t.range.greatest < n then .error (.outOfRange x)
      else .ok (t.exact n) := by
  rw [enforce, Double.isInfinite_of_truncate? hx, if_neg Bool.false_ne_true, outside_eq hx]
  by_cases hn : n < t.range.least ∨ t.range.greatest < n
  case pos => rw [if_pos hn, if_pos (decide_eq_true hn)]
  case neg =>
    have hc : t.Contains n := contains_of_limits (by omega) (by omega)
    rw [if_neg hn, if_neg (decide_eq_true_iff.not.mpr hn),
      ofIntegral_eq ((Double.truncate?_trunc x).trans hx) hc]

theorem exists_clamp (hx : x.isNaN = false) :
    ∃ n, (x.clamp t.range.lower t.range.upper).round? = some n ∧ t.range.least ≤ n ∧
      n ≤ t.range.greatest ∧ t.clamp x = .ok (t.exact n) := by
  have ⟨n, hn, hl, hu⟩ :=
    Double.round?_clamp hx t.natAbs_least_lt t.natAbs_greatest_lt t.limits_ordered
  refine ⟨n, hn, hl, hu, ?_⟩
  have hr := (Double.truncate?_roundEven _).trans hn
  rw [clamp, IntegerRange.lower, IntegerRange.upper, ofIntegral_eq hr (contains_of_limits hl hu)]

theorem holds_of_clamp (hx : x.isNaN = false) (h : t.clamp x = .ok v) :
    (ScalarType.integer t).holds v := by
  have ⟨n, _, hl, hu, hn⟩ := t.exists_clamp hx
  rw [hn] at h
  exact Except.ok.inj h ▸ holds_exact (contains_of_limits hl hu)

theorem enforce_eq_ok_iff (hx : x.isNaN = false) :
    t.enforce x = .ok v ↔ ∃ n, x.truncate? = some n ∧ t.range.least ≤ n ∧ n ≤ t.range.greatest ∧
      v = t.exact n := by
  cases hn : x.truncate?
  case none =>
    have hi : x.isInfinite := by rw [Double.isInfinite_eq hx, hn]; rfl
    simp [enforce, hi]
  case some n =>
    rw [enforce_of_truncate? hn]
    split
    case isTrue h  => simp; omega
    case isFalse h =>
      rw [not_or, not_lt, not_lt] at h
      simp [h, eq_comm]

theorem holds_of_enforce (hx : x.isNaN = false) (h : t.enforce x = .ok v) :
    (ScalarType.integer t).holds v := by
  have ⟨n, _, hl, hu, hn⟩ := (enforce_eq_ok_iff hx).mp h
  exact hn ▸ holds_exact (contains_of_limits hl hu)

theorem holds_of_ofNumber (h : t.ofNumber policy x = .ok v) : (ScalarType.integer t).holds v := by
  unfold ofNumber at h
  split at h
  · exact holds_of_ofNaN h
  case _ hx =>
    split at h
    · exact holds_of_wrap h
    · exact holds_of_clamp (Bool.eq_false_iff.mpr hx) h
    · exact holds_of_enforce (Bool.eq_false_iff.mpr hx) h

end IntegerType

namespace FloatType

variable {t : FloatType} {x : Double} {v : NativeValue}

-- Rounding to single precision twice is rounding once, so a rounded number passes the type's own
-- test of precision.
theorem holds_round (h : t.unrestricted ∨ (t.round x).isFinite) : t.holds (t.round x) := by
  obtain ⟨single, unrestricted⟩ := t
  simp only [holds, Bool.and_eq_true, Bool.or_eq_true]
  refine ⟨h, ?_⟩
  cases single
  case false => exact .inl (.inl rfl)
  case true =>
    cases hx : (FloatType.round ⟨true, unrestricted⟩ x).isNaN
    case true => exact .inl (.inr rfl)
    case false =>
      right
      simp only [round, if_true] at hx ⊢
      rw [Double.toSingle_idem]
      exact Double.same_self hx

theorem holds_of_ofNumber (h : t.ofNumber x = .ok v) : (ScalarType.float t).holds v := by
  unfold ofNumber at h
  split at h
  · contradiction
  case _ hf =>
    injection h with h
    subst h
    apply holds_round
    cases hu : t.unrestricted <;> simp_all

end FloatType

namespace ScalarType

variable {t : ScalarType} {v : NativeValue}

theorem holds_zero (t : ScalarType) : t.holds t.zero := by
  cases t
  case integer t =>
    obtain ⟨width, signed⟩ := t
    cases width <;> cases signed <;> decide
  case float t =>
    obtain ⟨single, unrestricted⟩ := t
    cases single <;> cases unrestricted <;> decide +kernel
  all_goals rfl

theorem holds_of_ofLiteral? {literal : Literal} (h : t.ofLiteral? literal = some v) : t.holds v :=
  (Option.filter_eq_some_iff.mp h).right

-- Whatever a host value is converted to is a value of the type, under every policy.
theorem holds_of_decode {policy : CoercionPolicy} {w : HostValue} (h : t.decode policy w = .ok v) :
    t.holds v := by
  cases t <;> simp only [decode] at h
  case text | boolean => exact (Except.ok.inj h) ▸ rfl
  case integer t =>
    cases hn : w.toNumber policy <;> rw [hn] at h
    case error => contradiction
    case ok    => exact IntegerType.holds_of_ofNumber h
  case float t =>
    cases hn : w.toNumber policy <;> rw [hn] at h
    case error => contradiction
    case ok    => exact FloatType.holds_of_ofNumber h

end ScalarType

end AddonBinding
