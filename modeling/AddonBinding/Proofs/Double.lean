import AddonBinding.Proofs.Rounding

namespace AddonBinding.Double

variable {x : Double} {n : Int}

theorem fits_mul_pow2 {m k : Nat} (hm : m < pow2 53) (hlt : m * pow2 k < limit) :
    Fits (m * pow2 k) := by
  refine ⟨hlt, Nat.mod_eq_zero_of_dvd ?_⟩
  have hlog : (m * pow2 k).log2 ≤ 52 + k := by
    apply log2_le_of_lt_pow2
    rw [show 52 + k + 1 = 53 + k by omega, pow2_add]
    exact Nat.mul_lt_mul_of_pos_right hm (pow2_pos k)
  exact Nat.dvd_mul_left_of_dvd (pow2_dvd_pow2 (by omega)) m

theorem natAbs_mul_one_lt_limit (h : n.natAbs < pow2 53) : n.natAbs * one < limit := by
  unfold one limit
  calc n.natAbs * pow2 1074 < pow2 53 * pow2 1074 := Nat.mul_lt_mul_of_pos_right h (pow2_pos 1074)
    _ = pow2 (53 + 1074) := (pow2_add 53 1074).symm
    _ ≤ pow2 2098 := pow2_le_pow2 (by decide)

-- Integers of at most 53 bits are doubles.
theorem ofInt_finite (h : n.natAbs < pow2 53) :
    ∃ fits, ofInt n = .finite (n < 0) (n.natAbs * one) fits := by
  have fits : Fits (n.natAbs * one) := by
    have hlt := natAbs_mul_one_lt_limit h
    unfold one at hlt ⊢
    exact fits_mul_pow2 h hlt
  have hr : roundBits 53 0 (n.natAbs * one) 1 = n.natAbs * one := by
    unfold one
    exact roundBits_self (by decide) h (Nat.zero_le _)
  exact ⟨fits, by simp only [ofInt, nearest, hr, fits, dif_pos]⟩

theorem ofInt_zero : ofInt 0 = zero := by
  have ⟨_, h⟩ := ofInt_finite (n := 0) (pow2_pos 53)
  simpa [zero] using h

theorem signed_natAbs : signed (n < 0) n.natAbs = n := by
  simp only [signed, decide_eq_true_eq]
  split <;> omega

theorem signed_mul {a : Bool} {m k : Nat} : signed a (m * k) = signed a m * k := by
  cases a <;> simp [signed]

theorem round?_ofInt (h : n.natAbs < pow2 53) : (ofInt n).round? = some n := by
  have ⟨_, h⟩ := ofInt_finite h
  rw [h, round?, roundDiv_mul_self one_pos, signed_natAbs]

-- The order on finite doubles is the order of their signed counts of steps.
theorem lt_ofInt {a : Bool} {m : Nat} {fits : Fits m} (h : n.natAbs < pow2 53) :
    (Double.finite a m fits).lt (ofInt n) ↔ signed a m < n * one := by
  have ⟨_, h⟩ := ofInt_finite h
  rw [h, lt, decide_eq_true_iff, signed_mul, signed_natAbs]

theorem ofInt_lt {a : Bool} {m : Nat} {fits : Fits m} (h : n.natAbs < pow2 53) :
    (ofInt n).lt (.finite a m fits) ↔ n * one < signed a m := by
  have ⟨_, h⟩ := ofInt_finite h
  rw [h, lt, decide_eq_true_iff, signed_mul, signed_natAbs]

theorem infinite_lt_ofInt {a : Bool} (h : n.natAbs < pow2 53) : (infinite a).lt (ofInt n) = a := by
  have ⟨_, h⟩ := ofInt_finite h
  rw [h, lt]

theorem ofInt_lt_infinite {a : Bool} (h : n.natAbs < pow2 53) : (ofInt n).lt (infinite a) = !a := by
  have ⟨_, h⟩ := ofInt_finite h
  rw [h, lt]

-- Limiting a number to an interval between integers and rounding it afterwards stays inside.
theorem round?_clamp {lo hi : Int} (hx : x.isNaN = false) (hlo : lo.natAbs < pow2 53)
    (hhi : hi.natAbs < pow2 53) (h : lo ≤ hi) :
    ∃ n, (x.clamp (ofInt lo) (ofInt hi)).round? = some n ∧ lo ≤ n ∧ n ≤ hi := by
  unfold clamp
  split
  · exact ⟨lo, round?_ofInt hlo, le_rfl, h⟩
  split
  · exact ⟨hi, round?_ofInt hhi, h, le_rfl⟩
  case _ hl hu =>
    cases x
    case nan => simp [isNaN] at hx
    case infinite a =>
      rw [infinite_lt_ofInt hlo] at hl
      rw [ofInt_lt_infinite hhi] at hu
      simp [hl] at hu
    case finite a m _ =>
      rw [lt_ofInt hlo, not_lt] at hl
      rw [ofInt_lt hhi, not_lt] at hu
      exact ⟨_, rfl, le_signed_roundDiv one_pos hl, signed_roundDiv_le one_pos hu⟩

theorem toSingle_idem : x.toSingle.toSingle = x.toSingle := by
  cases x
  case finite a m fits =>
    by_cases h : roundBits 24 925 m 1 < singleLimit ∧ Fits (roundBits 24 925 m 1)
    case pos =>
      have hr : roundBits 24 925 (roundBits 24 925 m 1) 1 = roundBits 24 925 m 1 :=
        roundBits_idem (by decide) (by decide)
      simp only [toSingle, h, and_self, dif_pos, hr]
    case neg => simp only [toSingle, h, dif_neg, not_false_eq_true]
  all_goals rfl

theorem same_self (h : x.isNaN = false) : x.same x := by
  cases x <;> simp_all [same, isNaN]

end AddonBinding.Double
