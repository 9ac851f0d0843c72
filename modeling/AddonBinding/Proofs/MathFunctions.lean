import AddonBinding.Double.Integral
import AddonBinding.Proofs.Double

namespace AddonBinding.Double

def larger (x y : Double) : Double :=
  if x.lt y then y else x

def smaller (x y : Double) : Double :=
  if y.lt x then y else x

section Exact

variable {a : Bool} {m k : Nat}

theorem Fits.exists_eq (h : Fits m) : ∃ n k, n < pow2 53 ∧ m = n * pow2 k := by
  refine ⟨m / pow2 (m.log2 - 52), m.log2 - 52, ?_, ?_⟩
  · rw [Nat.div_lt_iff_lt_mul (pow2_pos _), ← pow2_add]
    exact (lt_pow2_log2_succ m).trans_le <| pow2_le_pow2 (by omega)
  · rw [Nat.div_mul_cancel <| Nat.dvd_of_mod_eq_zero h.right]

theorem ofSteps_eq (h : Fits m) : ofSteps a m = .finite a m h := by
  have ⟨n, k, hn, hm⟩ := h.exists_eq
  have hr : roundBits 53 0 m 1 = m := by
    rw [hm, roundBits_self (by decide) hn (Nat.zero_le _)]
  simp only [ofSteps, nearest, hr, h, dif_pos]

-- A power of two divides a double, or it has more factors of two than the unit of the double.
theorem Fits.dvd_or_exists (h : Fits m) (k : Nat) :
    pow2 k ∣ m ∨ ∃ n j i, n < pow2 53 ∧ m = n * pow2 j ∧ pow2 k = pow2 i * pow2 j := by
  have ⟨n, j, hn, hm⟩ := h.exists_eq
  by_cases hk : k ≤ j
  case pos => exact .inl <| hm ▸ Nat.dvd_mul_left_of_dvd (pow2_dvd_pow2 hk) n
  case neg =>
    refine .inr ⟨n, j, k - j, hn, hm, ?_⟩
    rw [← pow2_add, Nat.sub_add_cancel (Nat.le_of_not_le hk)]

theorem Fits.div_mul (h : Fits m) (k : Nat) : Fits (m / pow2 k * pow2 k) := by
  rcases h.dvd_or_exists k with hd | ⟨n, j, i, hn, hm, hk⟩
  case inl => rwa [Nat.div_mul_cancel hd]
  case inr =>
    have hd : m / pow2 k = n / pow2 i := by
      rw [hm, hk, Nat.mul_div_mul_right _ _ (pow2_pos j)]
    refine fits_mul_pow2 ?_ <| (Nat.div_mul_le_self ..).trans_lt h.left
    exact hd ▸ (Nat.div_le_self ..).trans_lt hn

theorem Fits.mod (h : Fits m) (k : Nat) : Fits (m % pow2 k) := by
  rcases h.dvd_or_exists k with hd | ⟨n, j, i, hn, hm, hk⟩
  case inl => exact Nat.mod_eq_zero_of_dvd hd ▸ .zero
  case inr =>
    have hd : m % pow2 k = n % pow2 i * pow2 j := by
      rw [hm, hk, Nat.mul_mod_mul_right]
    have hl : m % pow2 k < limit := (Nat.mod_le ..).trans_lt h.left
    rw [hd] at hl ⊢
    exact fits_mul_pow2 ((Nat.mod_le ..).trans_lt hn) hl

-- From 53 bits on there is nothing to round off, and below that every whole number of the unit
-- fits.
theorem Fits.roundDiv_mul (h : Fits m) (hk : pow2 (53 + k) < limit) :
    Fits (roundDiv m (pow2 k) * pow2 k) := by
  by_cases hm : m < pow2 (53 + k)
  case pos =>
    have hr : roundDiv m (pow2 k) ≤ pow2 53 := by
      rw [pow2_add] at hm
      exact roundDiv_le (pow2_pos k) hm.le
    cases Nat.lt_or_eq_of_le hr
    case inl hr =>
      refine fits_mul_pow2 hr <| (Nat.mul_le_mul_right _ hr.le).trans_lt ?_
      rwa [← pow2_add]
    case inr hr =>
      rw [hr, ← pow2_add, ← Nat.one_mul (pow2 (53 + k))]
      exact fits_mul_pow2 (Nat.one_lt_two_pow (by decide)) (by rwa [Nat.one_mul])
  case neg =>
    have hl : ¬m.log2 < 53 + k :=
      fun hl => hm <| (lt_pow2_log2_succ m).trans_le <| pow2_le_pow2 hl
    have hd : pow2 k ∣ m :=
      (pow2_dvd_pow2 (by omega)).trans <| Nat.dvd_of_mod_eq_zero h.right
    have ⟨q, hq⟩ := hd
    rw [Nat.mul_comm] at hq
    rwa [hq, roundDiv_mul_self (pow2_pos k), ← hq]

theorem Fits.trunc (h : Fits m) : Fits (m / one * one) := by
  unfold one
  exact h.div_mul 1074

-- A remainder of whole numbers of steps is one of the numbers themselves.
theorem whole_mod (m k : Nat) : m / one * one % pow2 (k + 1074) = m / one % pow2 k * one := by
  unfold one
  rw [pow2_add, Nat.mul_mod_mul_right]

theorem Fits.whole_mod (h : Fits m) (k : Nat) : Fits (m / one % pow2 k * one) :=
  Double.whole_mod m k ▸ h.trunc.mod _

theorem pow2_lt_limit (h : k < 2098) : pow2 k < limit := by
  have hk : pow2 k < pow2 (k + 1) := Nat.pow_lt_pow_right Nat.one_lt_two (Nat.lt_succ_self k)
  unfold limit
  exact hk.trans_le (pow2_le_pow2 h)

theorem Fits.roundEven (h : Fits m) : Fits (roundDiv m one * one) := by
  unfold one
  exact h.roundDiv_mul <| pow2_lt_limit (by decide)

theorem truncate?_trunc (x : Double) : x.trunc.truncate? = x.truncate? := by
  cases x
  case finite a m fits =>
    rw [trunc, ofSteps_eq fits.trunc, truncate?, truncate?, Nat.mul_div_cancel _ one_pos]
  all_goals rfl

theorem truncate?_roundEven (x : Double) : x.roundEven.truncate? = x.round? := by
  cases x
  case finite a m fits =>
    rw [roundEven, ofSteps_eq fits.roundEven, truncate?, round?, Nat.mul_div_cancel _ one_pos]
  all_goals rfl

end Exact

section Limits

variable {x lo hi : Double} {n k : Int}

theorem smaller_larger (h : hi.lt lo = false) : (x.larger lo).smaller hi = x.clamp lo hi := by
  by_cases hx : x.lt lo <;> simp [larger, smaller, clamp, hx, h]

theorem ofInt_lt_ofInt (hn : n.natAbs < pow2 53) (hk : k.natAbs < pow2 53) :
    (ofInt n).lt (ofInt k) ↔ n < k := by
  have ho : (0 : Int) < one := Int.natCast_pos.mpr one_pos
  have ⟨_, hf⟩ := ofInt_finite hk
  rw [hf, ofInt_lt hn, signed_mul, signed_natAbs, Int.mul_lt_mul_right ho]

theorem trunc_lt_ofInt (hx : x.truncate? = some n) (hk : k.natAbs < pow2 53) :
    x.trunc.lt (ofInt k) ↔ n < k := by
  have ho : (0 : Int) < one := Int.natCast_pos.mpr one_pos
  cases x <;> cases hx
  case finite a m fits =>
    rw [trunc, ofSteps_eq fits.trunc, lt_ofInt hk, signed_mul, Int.mul_lt_mul_right ho]

theorem ofInt_lt_trunc (hx : x.truncate? = some n) (hk : k.natAbs < pow2 53) :
    (ofInt k).lt x.trunc ↔ k < n := by
  have ho : (0 : Int) < one := Int.natCast_pos.mpr one_pos
  cases x <;> cases hx
  case finite a m fits =>
    rw [trunc, ofSteps_eq fits.trunc, ofInt_lt hk, signed_mul, Int.mul_lt_mul_right ho]

theorem finite_lt_zero {a : Bool} {q : Nat} (fits : Fits (q * one)) :
    (finite a (q * one) fits).lt (ofInt 0) = (a && q ≠ 0) := by
  have ho : (0 : Int) < one := Int.natCast_pos.mpr one_pos
  rw [Bool.eq_iff_iff, lt_ofInt (by decide), signed_mul, Int.mul_lt_mul_right ho]
  cases a <;> simp [signed, Nat.pos_iff_ne_zero]

theorem pow2_mul_one (k : Nat) : pow2 k * one = pow2 (k + 1074) := by
  unfold one
  rw [pow2_add]

theorem ofInt_pow2 {k : Nat} (hk : k + 1074 < 2098) :
    ∃ fits, ofInt (pow2 k) = .finite false (pow2 k * one) fits := by
  have h₁ : 1 < pow2 53 := Nat.one_lt_two_pow (by decide)
  have hr : roundBits 53 0 (1 * pow2 (k + 1074)) 1 = 1 * pow2 (k + 1074) :=
    roundBits_self (by decide) h₁ (Nat.zero_le _)
  have hl : 1 * pow2 (k + 1074) < limit := by
    rw [Nat.one_mul]
    exact pow2_lt_limit hk
  have hf : Fits (1 * pow2 (k + 1074)) := fits_mul_pow2 h₁ hl
  rw [Nat.one_mul, ← pow2_mul_one] at hr hf
  have hs : decide ((pow2 k : Int) < 0) = false := decide_eq_false (Int.natCast_nonneg _).not_gt
  exact ⟨hf, by simp only [ofInt, nearest, Int.natAbs_natCast, hr, hf, dif_pos, hs]⟩

theorem fmod_trunc (a : Bool) {m k : Nat} (fits : Fits m) (hk : k + 1074 < 2098) :
    ∃ q fits', (trunc (.finite a m fits)).fmod (ofInt (pow2 k)) = .finite a (q * one) fits' ∧
      q = m / one % pow2 k := by
  have ⟨_, hp⟩ := ofInt_pow2 hk
  have hn : pow2 k * one ≠ 0 := (Nat.mul_pos (pow2_pos k) one_pos).ne'
  refine ⟨_, fits.whole_mod k, ?_, rfl⟩
  rw [trunc, ofSteps_eq fits.trunc, hp, fmod, if_neg hn, pow2_mul_one, whole_mod,
    ofSteps_eq (fits.whole_mod k)]

end Limits

section Words

variable {x : Double} {n lo hi : Int}

theorem isInfinite_eq (hx : x.isNaN = false) : x.isInfinite = x.truncate?.isNone := by
  cases x
  case nan => contradiction
  all_goals rfl

theorem isInfinite_of_truncate? (hx : x.truncate? = some n) : x.isInfinite = false := by
  cases x <;> cases hx
  rfl

theorem saturate_eq (hx : x.truncate? = some n) (hl : lo ≤ n) (hu : n ≤ hi) :
    x.saturate lo hi = n := by
  cases x <;> cases hx
  simp only [saturate, not_lt.mpr hl, not_lt.mpr hu, if_false]

theorem word_congr {n k : Int} (h : n % pow2 64 = k % pow2 64) :
    UInt64.ofInt n = UInt64.ofInt k :=
  congrArg (fun r : Int => UInt64.ofNat r.toNat) h

theorem signed_mod_emod (a : Bool) (k p : Nat) : signed a (k % p) % p = signed a k % p := by
  cases a <;> simp only [signed, Bool.false_eq_true, if_true, if_false, Int.natCast_mod]
  case false => rw [Int.emod_emod]
  case true  => simpa using Int.sub_emod_emod 0 k p

theorem whole_lt_zero {a : Bool} {q : Nat} (fits : Fits (q * one)) :
    (finite a (q * one) fits).lt zero = (a && q ≠ 0) := by
  rw [← ofInt_zero, finite_lt_zero]

-- The remainder has the sign of the dividend, so that the word of a negative number is found from
-- the magnitude of what is left, by counting down.
theorem wrapToWord_eq (hx : x.truncate? = some n) : x.wrapToWord = .ofInt n := by
  cases x <;> cases hx
  case finite a m fits =>
    have ⟨q, fits', hr, hq⟩ := fmod_trunc (k := 64) a fits (by decide)
    have hl : q < pow2 64 := hq ▸ Nat.mod_lt _ (pow2_pos 64)
    have hs : (finite false (q * one) fits').saturate 0 (pow2 64 - 1) = q := by
      refine saturate_eq ?_ (Int.natCast_nonneg q) (by omega)
      rw [truncate?, Nat.mul_div_cancel _ one_pos, signed, if_neg Bool.false_ne_true]
    have hw : (if a && q ≠ 0 then -UInt64.ofInt q else .ofInt q) = UInt64.ofInt (signed a q) := by
      cases a <;> by_cases h₀ : q = 0 <;> simp [signed, h₀, UInt64.ofInt_neg]
    have hm : signed a q % pow2 64 = signed a (m / one) % pow2 64 := hq ▸ signed_mod_emod ..
    rw [wrapToWord, hr]
    simp only [abs, toUInt64, hs, whole_lt_zero, hw, word_congr hm]

end Words

end AddonBinding.Double
