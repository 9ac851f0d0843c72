import AddonBinding.Proofs.IntegerConversion

-- Which words are in a range of integers.

namespace AddonBinding.IntegerRange

variable {r : IntegerRange} {n : ℤ} {v : Int64} {u : UInt64}

-- The integers of a range, whether there are words for them or not.
def Contains (r : IntegerRange) (n : ℤ) : Prop :=
  if r.signed then -2 ^ (r.bits - 1) ≤ n ∧ n < 2 ^ (r.bits - 1) else 0 ≤ n ∧ n < 2 ^ r.bits

section Casts

theorem nonneg_iff : 0 ≤ v ↔ 0 ≤ v.toInt := by
  rw [Int64.le_iff_toInt_le, Int64.toInt_zero]

theorem toNat_toUInt64 (h : 0 ≤ v) : (v.toUInt64.toNat : ℤ) = v.toInt := by
  have h := nonneg_iff.mp h
  have hv : v.toInt = (v.toUInt64.toNat : ℤ).bmod (2 ^ 64) := BitVec.toInt_eq_toNat_bmod _
  have := v.toUInt64.toNat_lt
  rw [Int.bmod] at hv
  split at hv <;> omega

theorem toInt_toInt64 (h : u.toNat < 2 ^ 63) : u.toInt64.toInt = u.toNat := by
  have hu : u.toInt64.toInt = (u.toNat : ℤ).bmod (2 ^ 64) := BitVec.toInt_eq_toNat_bmod _
  rw [hu]
  exact Int.bmod_eq_of_le (by omega) (by omega)

end Casts

section Membership

-- No word is outside of a range that is as wide as words are.
theorem inSigned_iff_of_le (h : r.bits ≤ 64) :
    inSigned r.bits v ↔ -2 ^ (r.bits - 1) ≤ v.toInt ∧ v.toInt < 2 ^ (r.bits - 1) := by
  rw [inSigned_iff]
  refine ⟨fun hv => hv.elim (fun hw => ?_) fun hv => by exact_mod_cast hv,
    fun hv => .inr (by exact_mod_cast hv)⟩
  have hw : r.bits = 64 := by omega
  rw [hw]
  exact ⟨v.le_toInt, v.toInt_lt⟩

theorem inUnsigned_iff_of_le (h : r.bits ≤ 64) : inUnsigned r.bits u ↔ u.toNat < 2 ^ r.bits := by
  rw [inUnsigned_iff]
  refine ⟨fun hu => hu.elim (fun hw => ?_) id, .inr⟩
  have hw : r.bits = 64 := by omega
  rw [hw]
  exact u.toNat_lt

theorem containsSigned_iff (h : r.bits ≤ 64) : r.containsSigned v ↔ r.Contains v.toInt := by
  unfold containsSigned Contains
  cases r.signed <;> simp only [Bool.false_eq_true, if_true, if_false]
  case true  => exact inSigned_iff_of_le h
  case false =>
    rw [Bool.and_eq_true, decide_eq_true_iff, nonneg_iff]
    refine and_congr_right fun hv => ?_
    rw [inUnsigned_iff_of_le h, ← toNat_toUInt64 (nonneg_iff.mpr hv)]
    norm_cast

theorem containsUnsigned_iff (h : r.bits ≤ 64) : r.containsUnsigned u ↔ r.Contains u.toNat := by
  unfold containsUnsigned Contains
  cases r.signed <;> simp only [Bool.false_eq_true, if_true, if_false]
  case false =>
    rw [inUnsigned_iff_of_le h]
    norm_cast
    simp
  case true  =>
    have hp : (2 : ℤ) ^ (r.bits - 1) ≤ 2 ^ 63 := pow_le_pow_right₀ (by decide) (by omega)
    rw [Bool.and_eq_true, decide_eq_true_iff]
    constructor
    case mp =>
      intro ⟨hu, hv⟩
      rwa [inSigned_iff_of_le h, toInt_toInt64 hu] at hv
    case mpr =>
      intro hv
      have hu : u.toNat < 2 ^ 63 := by omega
      exact ⟨hu, (inSigned_iff_of_le h).mpr (by rwa [toInt_toInt64 hu])⟩

end Membership

section Bounds

theorem natAbs_least_le (h : r.bits ≤ 53) : r.least.natAbs < pow2 53 := by
  have hp : pow2 (r.bits - 1) ≤ pow2 52 := pow2_le_pow2 (by omega)
  have hl : pow2 52 < pow2 53 := by decide
  unfold least
  split
  · exact pow2_pos 53
  · rw [if_neg (by omega)]
    omega

theorem natAbs_greatest_le (h : r.bits ≤ 53) : r.greatest.natAbs < pow2 53 := by
  have hb : pow2 r.bits ≤ pow2 53 := pow2_le_pow2 h
  have hp : pow2 (r.bits - 1) ≤ pow2 53 := pow2_le_pow2 (by omega)
  have := pow2_pos r.bits
  have := pow2_pos (r.bits - 1)
  rw [greatest, if_neg (by omega)]
  split <;> omega

theorem contains_iff_limits (h : r.bits ≤ 53) : r.Contains n ↔ r.least ≤ n ∧ n ≤ r.greatest := by
  have hw : r.bits ≠ 64 := by omega
  have hp (k : Nat) : (pow2 k : ℤ) = 2 ^ k := Nat.cast_pow 2 k
  unfold Contains least greatest
  cases r.signed
  all_goals
    simp only [hw, hp, Bool.not_true, Bool.not_false, Bool.false_eq_true, if_true, if_false]
  all_goals omega

end Bounds

theorem two_mul_half (hl : 1 ≤ r.bits) (h : r.bits < 64) :
    2 * (half r.bits).toInt = 2 ^ r.bits := by
  obtain ⟨k, hk⟩ := Nat.exists_eq_add_of_le' hl
  rw [toInt_half h, hk, Nat.add_sub_cancel, pow_succ']
  norm_cast

-- Both functions decide the same interval of integers. Where they get to a shift, a negation or a
-- cast, its result is the integer that it stands for, and up to a width of 53 bits the bounds for
-- numbers are the ends of the interval.
theorem contains_exact (r : IntegerRange) (hl : 1 ≤ r.bits) (hu : r.bits ≤ 64) :
    (∀ v : Int64, r.containsSigned v ↔ r.Contains v.toInt) ∧
    (∀ u : UInt64, r.containsUnsigned u ↔ r.Contains u.toNat) ∧
    (∀ (v : Int64) (u : UInt64), v.toInt = u.toNat → r.containsSigned v = r.containsUnsigned u) ∧
    (r.bits < 64 → 2 * (half r.bits).toInt = 2 ^ r.bits ∧
      (-half r.bits).toInt = -(half r.bits).toInt ∧ (span r.bits).toNat = 2 ^ r.bits) ∧
    (∀ v : Int64, 0 ≤ v → (v.toUInt64.toNat : ℤ) = v.toInt) ∧
    (∀ u : UInt64, u.toNat < 2 ^ 63 → u.toInt64.toInt = u.toNat) ∧
    (r.bits ≤ 53 → ∃ lo hi : ℚ, r.lower.toRat? = some lo ∧ r.upper.toRat? = some hi ∧
      (∀ v : Int64, r.containsSigned v ↔ lo ≤ v.toInt ∧ v.toInt ≤ hi) ∧
      ∀ u : UInt64, r.containsUnsigned u ↔ lo ≤ u.toNat ∧ u.toNat ≤ hi) := by
  refine ⟨fun v => containsSigned_iff hu, fun u => containsUnsigned_iff hu, fun v u h => ?_,
    fun h => ⟨two_mul_half hl h, ?_, toNat_span h⟩, fun v => toNat_toUInt64,
    fun u => toInt_toInt64, fun h => ?_⟩
  · rw [Bool.eq_iff_iff, containsSigned_iff hu, containsUnsigned_iff hu, h]
  · rw [toInt_neg_half h, toInt_half h]
  · refine ⟨r.least, r.greatest, Double.toRat?_ofInt_of_lt (natAbs_least_le h),
      Double.toRat?_ofInt_of_lt (natAbs_greatest_le h), fun v => ?_, fun u => ?_⟩
    · rw [containsSigned_iff hu, contains_iff_limits h]
      norm_cast
    · rw [containsUnsigned_iff hu, contains_iff_limits h]
      norm_cast

-- The widest range of which both functions have to compute the ends.
theorem contains_exact_wide :
    let r : IntegerRange := ⟨63, true⟩
    r.containsSigned (-4611686018427387904) ∧ ¬r.containsSigned 4611686018427387904 ∧
      r.containsUnsigned 4611686018427387903 ∧ ¬r.containsUnsigned 18446744073709551615 ∧
      2 * (half 63).toInt = 2 ^ 63 := by
  intro r
  obtain ⟨hs, hu, -, he, -⟩ := contains_exact r (by decide) (by decide)
  rw [hs, hs, hu, hu]
  refine ⟨?_, ?_, ?_, ?_, (he (by decide)).left⟩ <;> simp [Contains, r]

end AddonBinding.IntegerRange
