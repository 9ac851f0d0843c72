import AddonBinding.Proofs.Conversion

namespace AddonBinding

namespace Double

variable {x : Double} {n lo hi : Int}

theorem isNaN_ofInt (n : Int) : (ofInt n).isNaN = false := by
  simp only [ofInt, nearest]
  split <;> rfl

theorem truncate?_ofInt (h : n.natAbs < pow2 53) : (ofInt n).truncate? = some n := by
  have ⟨_, h⟩ := ofInt_finite h
  rw [h, truncate?, Nat.mul_div_cancel _ one_pos, signed_natAbs]

theorem clamp_ofInt (hn : n.natAbs < pow2 53) (hlo : lo.natAbs < pow2 53)
    (hhi : hi.natAbs < pow2 53) (hl : lo ≤ n) (hu : n ≤ hi) :
    (ofInt n).clamp (ofInt lo) (ofInt hi) = ofInt n := by
  have ho : (0 : Int) ≤ one := Int.natCast_nonneg one
  have hs : signed (n < 0) (n.natAbs * one) = n * one := by rw [signed_mul, signed_natAbs]
  have ⟨_, hf⟩ := ofInt_finite hn
  have h₁ : ¬(ofInt n).lt (ofInt lo) := by
    rw [hf, lt_ofInt hlo, hs, not_lt]
    exact Int.mul_le_mul_of_nonneg_right hl ho
  have h₂ : ¬(ofInt hi).lt (ofInt n) := by
    rw [hf, ofInt_lt hhi, hs, not_lt]
    exact Int.mul_le_mul_of_nonneg_right hu ho
  rw [clamp, if_neg h₁, if_neg h₂]

-- Rounding keeps the sign, so that a number which it leaves equal is left as it is, zero included.
theorem toSingle_eq_of_same (h : x.toSingle.same x) : x.toSingle = x := by
  cases x
  case finite a m fits =>
    by_cases hr : roundBits 24 925 m 1 < singleLimit ∧ Fits (roundBits 24 925 m 1)
    all_goals simp only [toSingle, hr, and_self, dif_pos, dif_neg, not_false_eq_true] at h ⊢
    case pos =>
      have hm : roundBits 24 925 m 1 = m := by
        cases a <;> simp [same, signed] at h <;> exact h
      simp only [hm]
    case neg => simp [same] at h
  all_goals rfl

end Double

namespace NativeValue

def integer? : NativeValue → Option Int
  | .integer n  => some n.toInt
  | .unsigned n => some n.toNat
  | _           => none

end NativeValue

-- The value is not beyond the integers that are all doubles. Only a 64-bit type has values that
-- are.
def ScalarType.Safe : ScalarType → NativeValue → Prop
  | .integer t, v => t.width = .w64 → ∀ n ∈ v.integer?,
    -IntegerRange.maxSafe ≤ n ∧ n ≤ IntegerRange.maxSafe
  | _, _ => True

instance (t : ScalarType) (v : NativeValue) : Decidable (t.Safe v) :=
  match t with
  | .integer t => inferInstanceAs (Decidable (t.width = .w64 → ∀ n ∈ v.integer?,
    -IntegerRange.maxSafe ≤ n ∧ n ≤ IntegerRange.maxSafe))
  | .text _ | .float _ | .boolean => inferInstanceAs (Decidable True)

-- An integer modulo the number of values of so many bits, with a sign or without.
def reduce (signed : Bool) (bits : Nat) (n : Int) : Int :=
  if signed then n.bmod (pow2 bits) else n % pow2 bits

namespace IntegerType

variable {t : IntegerType} {n : Int} {v : NativeValue}

theorem contains_reduce (t : IntegerType) (n : Int) :
    t.Contains (reduce t.signed t.width.bits n) := by
  obtain ⟨width, signed⟩ := t
  have hp : (0 : Int) < pow2 width.bits := mod_cast pow2_pos width.bits
  cases signed
  case false => exact ⟨Int.emod_nonneg _ hp.ne', Int.emod_lt_of_pos _ hp⟩
  case true  =>
    cases width <;> simp [Contains, reduce, Width.bits, Int.bmod]
    all_goals omega

theorem Contains.reduce_eq (h : t.Contains n) : reduce t.signed t.width.bits n = n := by
  obtain ⟨width, signed⟩ := t
  cases signed <;> cases width
  all_goals
    simp [Contains, Width.bits] at h
    simp [reduce, Width.bits, Int.bmod]
    omega

-- A word is reduced first, and its low bits are what is left of it in the type's own width.
theorem narrow_ofInt (t : IntegerType) (n : Int) :
    t.narrow (.ofInt n) = t.exact (reduce t.signed t.width.bits n) := by
  have hc := t.contains_reduce n
  have hw : ((UInt64.ofInt n).toNat : Int) = n % 2 ^ 64 := by
    simp only [UInt64.ofInt, UInt64.toNat_ofNat']
    omega
  generalize UInt64.ofInt n = word at hw ⊢
  obtain ⟨width, signed⟩ := t
  cases signed
  case false =>
    cases width
    all_goals
      simp only [narrow, exact, Bool.false_eq_true, if_false, NativeValue.unsigned.injEq]
      rw [← UInt64.toNat_inj, ← Int.natCast_inj, hc.toNat_ofInt rfl]
      simp [reduce, Width.bits]
      omega
  case true =>
    have h₈ : word.toUInt8.toInt8.toInt = (word.toUInt8.toNat : Int).bmod (2 ^ 8) :=
      BitVec.toInt_eq_toNat_bmod _
    have h₁₆ : word.toUInt16.toInt16.toInt = (word.toUInt16.toNat : Int).bmod (2 ^ 16) :=
      BitVec.toInt_eq_toNat_bmod _
    have h₃₂ : word.toUInt32.toInt32.toInt = (word.toUInt32.toNat : Int).bmod (2 ^ 32) :=
      BitVec.toInt_eq_toNat_bmod _
    have h₆₄ : word.toInt64.toInt = (word.toNat : Int).bmod (2 ^ 64) :=
      BitVec.toInt_eq_toNat_bmod _
    cases width
    all_goals
      simp only [narrow, exact, if_true, NativeValue.integer.injEq]
      rw [← Int64.toInt_inj, hc.toInt_ofInt rfl]
      simp [h₈, h₁₆, h₃₂, h₆₄, hw]
      exact Int.emod_bmod ..

theorem eq_exact_of_holds (h : (ScalarType.integer t).holds v) :
    ∃ n, t.Contains n ∧ v.integer? = some n ∧ v.encode = .number (.ofInt n) ∧ v = t.exact n := by
  cases v
  case integer w =>
    obtain ⟨hs, hc⟩ := holds_integer_iff.mp h
    exact ⟨_, hc, rfl, rfl, by simp [exact, hs]⟩
  case unsigned w =>
    obtain ⟨hs, hc⟩ := holds_unsigned_iff.mp h
    have hw : UInt64.ofInt w.toNat = w := by
      rw [← UInt64.toNat_inj, ← Int.natCast_inj, hc.toNat_ofInt hs]
    exact ⟨_, hc, rfl, rfl, by simp [exact, hs, hw]⟩
  all_goals contradiction

-- A narrower type's limits are its own ends; those of a 64-bit type are the ends of the safe
-- integers.
theorem Contains.within (h : t.Contains n)
    (hs : t.width = .w64 → -IntegerRange.maxSafe ≤ n ∧ n ≤ IntegerRange.maxSafe) :
    t.range.least ≤ n ∧ n ≤ t.range.greatest := by
  obtain ⟨width, signed⟩ := t
  cases width <;> cases signed
  all_goals
    simp [Contains, Width.bits, IntegerRange.maxSafe] at h hs
    simp [range, IntegerRange.least, IntegerRange.greatest, IntegerRange.maxSafe, Width.bits]
    omega

theorem natAbs_lt_of_within (hl : t.range.least ≤ n) (hu : n ≤ t.range.greatest) :
    n.natAbs < pow2 53 := by
  have := t.natAbs_least_lt
  have := t.natAbs_greatest_lt
  omega

-- Every way to deal with a number leaves an integer between the limits as it is.
theorem ofNumber_ofInt (policy : CoercionPolicy) (hl : t.range.least ≤ n)
    (hu : n ≤ t.range.greatest) : t.ofNumber policy (.ofInt n) = .ok (t.exact n) := by
  have hn := natAbs_lt_of_within hl hu
  rw [ofNumber, Double.isNaN_ofInt, if_neg Bool.false_ne_true]
  cases policy.integerOverflow <;> simp only
  case wrap =>
    rw [wrap_of_truncate? _ (Double.truncate?_ofInt hn), narrow_ofInt,
      (contains_of_limits hl hu).reduce_eq]
  case clamp =>
    have ⟨k, hk, _, _, hr⟩ := t.exists_clamp (Double.isNaN_ofInt n)
    rw [IntegerRange.lower, IntegerRange.upper,
      Double.clamp_ofInt hn t.natAbs_least_lt t.natAbs_greatest_lt hl hu,
      Double.round?_ofInt hn] at hk
    rw [hr, Option.some.inj hk]
  case reject =>
    rw [enforce_of_truncate? (Double.truncate?_ofInt hn), if_neg (by omega)]

end IntegerType

namespace FloatType

variable {t : FloatType} {x : Double}

theorem round_eq_of_holds (h : t.holds x) : t.round x = x := by
  obtain ⟨single, unrestricted⟩ := t
  simp only [holds, Bool.and_eq_true, Bool.or_eq_true, Bool.not_eq_true'] at h
  cases single
  case false => rfl
  case true  =>
    rcases h.right with (h | h) | h
    · contradiction
    · cases x <;> simp [Double.isNaN] at h
      rfl
    · exact Double.toSingle_eq_of_same h

theorem ofNumber_of_holds (h : t.holds x) : t.ofNumber x = .ok (.float x) := by
  have hf : t.unrestricted ∨ x.isFinite := by
    simpa using (Bool.and_eq_true_iff.mp h).left
  rw [ofNumber, round_eq_of_holds h, if_neg]
  rcases hf with hf | hf <;> simp [hf]

end FloatType

namespace ScalarType

theorem decode_integer_number (t : IntegerType) (policy : CoercionPolicy) (x : Double) :
    (integer t).decode policy (.number x) = t.ofNumber policy x :=
  rfl

theorem decode_float_number (t : FloatType) (policy : CoercionPolicy) (x : Double) :
    (float t).decode policy (.number x) = t.ofNumber x :=
  rfl

theorem decode_encode {t : ScalarType} {v : NativeValue} (policy : CoercionPolicy) (h : t.holds v)
    (hs : t.Safe v) : t.decode policy v.encode = .ok v := by
  cases t
  case text    => cases v <;> first | contradiction | rfl
  case boolean => cases v <;> first | contradiction | rfl
  case integer t =>
    have ⟨n, hc, hn, he, hv⟩ := IntegerType.eq_exact_of_holds h
    have ⟨hl, hu⟩ := hc.within fun hw => hs hw n hn
    rw [he, hv, decode_integer_number, IntegerType.ofNumber_ofInt policy hl hu]
  case float t =>
    cases v
    case float x =>
      have h : t.holds x := h
      rw [NativeValue.encode, decode_float_number, FloatType.ofNumber_of_holds h]
    all_goals contradiction

end ScalarType

-- Reading a value and storing it again changes nothing, whatever the policy, so that no other value
-- reads the same. Doubles are equal as data: a zero keeps its sign, and there is one value that is
-- not a number.
theorem decode_encode_of_holds (t : ScalarType) (v : NativeValue) (h : t.holds v) (hs : t.Safe v) :
    (∀ policy, t.decode policy v.encode = .ok v) ∧
      ∀ w, t.holds w → t.Safe w → w.encode = v.encode → w = v := by
  refine ⟨fun policy => ScalarType.decode_encode policy h hs, fun w hw hws he => ?_⟩
  have hd := ScalarType.decode_encode {} hw hws
  rw [he, ScalarType.decode_encode {} h hs] at hd
  exact (Except.ok.inj hd).symm

theorem decode_encode_of_holds_ends :
    let wide : ScalarType := .integer ⟨.w64, true⟩
    let single : ScalarType := .float ⟨true, false⟩
    let policy : CoercionPolicy := { integerNaN := .reject, integerOverflow := .clamp }
    wide.decode policy (.number (.ofInt (-9007199254740991))) =
        .ok (.integer (-9007199254740991)) ∧
      single.decode policy (.number (.finite true 0 .zero)) =
        .ok (.float (.finite true 0 .zero)) := by
  intro wide single policy
  refine ⟨(decode_encode_of_holds wide (.integer (-9007199254740991)) ?_ ?_).left policy,
    (decode_encode_of_holds single (.float (.finite true 0 .zero)) ?_ trivial).left policy⟩
  · decide
  · decide
  · decide +kernel

end AddonBinding
