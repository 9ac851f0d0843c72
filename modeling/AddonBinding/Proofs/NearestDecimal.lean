import AddonBinding.Decimal.Shortest
import AddonBinding.Proofs.Rounding
import Mathlib.Tactic.Ring

namespace AddonBinding

theorem pow10_add (m n : Nat) : pow10 (m + n) = pow10 m * pow10 n :=
  Nat.pow_add 10 m n

theorem pow10_le_pow10 {m n : Nat} (h : m ≤ n) : pow10 m ≤ pow10 n :=
  Nat.pow_le_pow_right (by decide) h

theorem pow2_le_pow10 (n : Nat) : pow2 n ≤ pow10 n :=
  Nat.pow_le_pow_left (by decide) n

section Ratio

variable {precision lowest n d k : Nat}

theorem roundDiv_mul (hk : 0 < k) : roundDiv (n * k) (d * k) = roundDiv n d := by
  have hm : 2 * (n * k % (d * k)) = 2 * (n % d) * k := by rw [Nat.mul_mod_mul_right, Nat.mul_assoc]
  rw [roundDiv, roundDiv, hm, Nat.mul_div_mul_right _ _ hk]
  simp only [Nat.mul_lt_mul_right hk]

-- Only the ratio counts, not how it is written.
theorem roundBits_mul (hk : 0 < k) :
    roundBits precision lowest (n * k) (d * k) = roundBits precision lowest n d := by
  have hr (g : Nat) : roundDiv (n * k) (d * k * g) = roundDiv n (d * g) := by
    rw [Nat.mul_right_comm, roundDiv_mul hk]
  simp only [roundBits, Nat.mul_div_mul_right _ _ hk, hr]

theorem roundBits_congr {n' d' : Nat} (hd : 0 < d) (hd' : 0 < d') (h : n * d' = n' * d) :
    roundBits precision lowest n d = roundBits precision lowest n' d' := by
  rw [← roundBits_mul hd', h, Nat.mul_comm d d', roundBits_mul hd]

-- Rounding does not go below the leading bit.
theorem pow2_log2_le_roundBits (hp : 0 < precision) (hd : 0 < d) (hn : n / d ≠ 0) :
    pow2 (n / d).log2 ≤ roundBits precision 0 n d := by
  let drop := max 0 ((n / d).log2 + 1 - precision)
  have hl : drop ≤ (n / d).log2 := by omega
  have hs : pow2 (n / d).log2 = pow2 ((n / d).log2 - drop) * pow2 drop := by
    rw [← pow2_add, Nat.sub_add_cancel hl]
  have hle : pow2 (n / d).log2 * d ≤ n := Nat.le_div_iff_mul_le hd |>.mp <| Nat.log2_self_le hn
  have hr : pow2 ((n / d).log2 - drop) ≤ roundDiv n (d * pow2 drop) := by
    refine le_roundDiv (Nat.mul_pos hd (pow2_pos drop)) ?_
    rw [Nat.mul_comm d, ← Nat.mul_assoc, ← hs]
    exact hle
  rw [hs]
  exact Nat.mul_le_mul_right _ hr

theorem pow2_le_roundBits (hp : 0 < precision) (hd : 0 < d) (h : pow2 k * d ≤ n) :
    pow2 k ≤ roundBits precision 0 n d := by
  have hq : pow2 k ≤ n / d := Nat.le_div_iff_mul_le hd |>.mpr h
  have hn : n / d ≠ 0 := Nat.pos_iff_ne_zero.mp <| (pow2_pos k).trans_le hq
  have hk : k ≤ (n / d).log2 := Nat.le_log2 hn |>.mpr hq
  exact (pow2_le_pow2 hk).trans <| pow2_log2_le_roundBits hp hd hn

-- Less than half a step is rounded away.
theorem roundBits_eq_zero (h : 2 * n < d) : roundBits 53 0 n d = 0 := by
  have hq : n / d = 0 := Nat.div_eq_of_lt (by omega)
  have hm : n % d = n := Nat.mod_eq_of_lt (by omega)
  simp [roundBits, roundDiv, hq, hm, h, pow2]

end Ratio

namespace Double

variable {a : Bool} {n d : Nat}

theorem nearest_congr {n' d' : Nat} (hd : 0 < d) (hd' : 0 < d') (h : n * d' = n' * d) :
    nearest a n d = nearest a n' d' := by
  simp only [nearest, roundBits_congr hd hd' h]

theorem nearest_of_roundBits {steps : Nat} (h : roundBits 53 0 n d = steps) (hf : Fits steps) :
    nearest a n d = .finite a steps hf := by
  simp only [nearest, h, hf, dif_pos]

theorem nearest_of_limit_le (hd : 0 < d) (h : limit * d ≤ n) : nearest a n d = .infinite a := by
  have hl : limit ≤ roundBits 53 0 n d := by
    unfold limit at h ⊢
    exact pow2_le_roundBits (by decide) hd h
  have hf : ¬Fits (roundBits 53 0 n d) := fun hf => Nat.not_lt.mpr hl hf.left
  simp only [nearest, hf, dif_neg, not_false_eq_true]

theorem nearest_of_lt_half (h : 2 * n < d) : nearest a n d = .finite a 0 .zero :=
  nearest_of_roundBits (roundBits_eq_zero h) .zero

end Double

namespace Decimal

theorem scaleUp_pos (e : Int) : 0 < scaleUp e :=
  pow10_pos _

theorem scaleDown_pos (e : Int) : 0 < scaleDown e :=
  pow10_pos _

theorem scaleUp_of_nonpos {e : Int} (h : e ≤ 0) : scaleUp e = 1 := by
  rw [scaleUp, Int.toNat_of_nonpos h]

theorem scaleDown_of_nonneg {e : Int} (h : 0 ≤ e) : scaleDown e = 1 := by
  rw [scaleDown, Int.toNat_of_nonpos (by omega)]

theorem limit_le {e : Int} (h : 310 ≤ e) : Double.limit ≤ scaleUp e * Double.one := by
  have hl : Double.limit ≤ pow10 310 * Double.one := by decide +kernel
  exact hl.trans <| Nat.mul_le_mul_right _ <| pow10_le_pow10 (by omega)

-- A number of so many bits is below the power of ten with as many zeros.
theorem double_one_lt {digits : Nat} {e : Int} (h : e + digits.log2 + 1 ≤ -330) :
    2 * (digits * Double.one) < scaleDown e := by
  have h₁ : 2 * Double.one < pow10 330 := by decide +kernel
  have h₂ : digits < pow10 (digits.log2 + 1) := (lt_pow2_log2_succ digits).trans_le (pow2_le_pow10 _)
  calc 2 * (digits * Double.one) = digits * (2 * Double.one) := Nat.mul_left_comm ..
    _ < pow10 (digits.log2 + 1) * pow10 330 := Nat.mul_lt_mul'' h₂ h₁
    _ = pow10 (digits.log2 + 1 + 330) := (pow10_add ..).symm
    _ ≤ scaleDown e := pow10_le_pow10 (by omega)

-- The exponents that are decided by size alone are decided as any other would be.
theorem toDouble_eq_nearest (d : Decimal) :
    d.toDouble = Double.nearest d.negative (d.digits * scaleUp d.exponent * Double.one)
      (scaleDown d.exponent) := by
  have hz : Double.nearest d.negative 0 1 = .finite d.negative 0 .zero :=
    Double.nearest_of_lt_half (by decide)
  unfold toDouble
  split
  case isTrue h =>
    rw [hz, h, Nat.zero_mul, Nat.zero_mul, Double.nearest_of_lt_half (scaleDown_pos _)]
  case isFalse h₀ =>
    split
    case isTrue h =>
      rw [scaleDown_of_nonneg (by omega), Double.nearest_of_limit_le Nat.one_pos]
      rw [Nat.mul_one, Nat.mul_assoc]
      exact (limit_le h).trans <| Nat.le_mul_of_pos_left _ <| Nat.pos_of_ne_zero h₀
    case isFalse =>
      split
      case isTrue h =>
        rw [hz, scaleUp_of_nonpos (by omega), Nat.mul_one,
          Double.nearest_of_lt_half (double_one_lt h)]
      case isFalse =>
        split
        case isTrue h  => rw [scaleDown_of_nonneg h, scaleUp]
        case isFalse h => rw [scaleUp_of_nonpos (by omega), Nat.mul_one, scaleDown]

-- Zeros at the end of the digits change the exponent, but not the number.
theorem toDouble_shift (negative : Bool) (digits k : Nat) (e : Int) :
    toDouble ⟨negative, digits * pow10 k, e - k⟩ = toDouble ⟨negative, digits, e⟩ := by
  rw [toDouble_eq_nearest, toDouble_eq_nearest]
  refine Double.nearest_congr (scaleDown_pos _) (scaleDown_pos _) ?_
  have hp : pow10 k * scaleUp (e - k) * scaleDown e = scaleUp e * scaleDown (e - k) := by
    simp only [scaleUp, scaleDown, ← pow10_add]
    congr 1
    omega
  generalize Double.one = one
  calc digits * pow10 k * scaleUp (e - k) * one * scaleDown e
      = digits * one * (pow10 k * scaleUp (e - k) * scaleDown e) := by ring
    _ = digits * scaleUp e * one * scaleDown (e - k) := by rw [hp]; ring

end Decimal

end AddonBinding
