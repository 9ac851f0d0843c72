import AddonBinding.Double.Basic
import Mathlib.Algebra.Order.Ring.Int
import Mathlib.Tactic.Linarith

namespace AddonBinding

theorem pow2_add (m n : Nat) : pow2 (m + n) = pow2 m * pow2 n :=
  Nat.pow_add 2 m n

theorem pow2_le_pow2 {m n : Nat} (h : m ≤ n) : pow2 m ≤ pow2 n :=
  Nat.pow_le_pow_right (by decide) h

theorem pow2_dvd_pow2 {m n : Nat} (h : m ≤ n) : pow2 m ∣ pow2 n :=
  Nat.pow_dvd_pow 2 h

section RoundDiv

variable {n d k : Nat}

-- What is left of a division decides whether its quotient goes up, and the parity does where that
-- is a half.
theorem roundDiv_cases (n d : Nat) :
    roundDiv n d = n / d ∧ 2 * (n % d) ≤ d ∧ (2 * (n % d) = d → n / d % 2 = 0) ∨
      roundDiv n d = n / d + 1 ∧ d ≤ 2 * (n % d) ∧ (2 * (n % d) = d → n / d % 2 = 1) := by
  unfold roundDiv
  split <;> try split
  all_goals omega

theorem div_le_roundDiv : n / d ≤ roundDiv n d := by
  have := roundDiv_cases n d
  omega

theorem roundDiv_le_div_succ : roundDiv n d ≤ n / d + 1 := by
  have := roundDiv_cases n d
  omega

theorem roundDiv_mul_self (h : 0 < d) : roundDiv (k * d) d = k := by
  simp [roundDiv, Nat.mul_div_cancel _ h, h]

theorem roundDiv_le (hd : 0 < d) (h : n ≤ k * d) : roundDiv n d ≤ k := by
  cases Nat.lt_or_eq_of_le h
  case inl h =>
    have := Nat.div_lt_iff_lt_mul hd |>.mpr h
    have := roundDiv_le_div_succ (n := n) (d := d)
    omega
  case inr h => rw [h, roundDiv_mul_self hd]

theorem le_roundDiv (hd : 0 < d) (h : k * d ≤ n) : k ≤ roundDiv n d :=
  Nat.le_div_iff_mul_le hd |>.mpr h |>.trans div_le_roundDiv

end RoundDiv

namespace Double

-- The two bounds are one statement read from both ends of the number line, so the lower one comes
-- from the upper one by changing the sign.
variable {a : Bool} {m d : Nat} {k : Int}

theorem signed_not : signed (!a) m = -signed a m := by
  cases a <;> simp [signed]

theorem signed_roundDiv_le (hd : 0 < d) (h : signed a m ≤ k * d) : signed a (roundDiv m d) ≤ k := by
  cases a <;> simp only [signed, Bool.false_eq_true, if_true, if_false] at h ⊢
  case false =>
    have hk : 0 ≤ k := by
      by_contra hn
      have : k * d < 0 := Int.mul_neg_of_neg_of_pos (by omega) (by omega)
      omega
    obtain ⟨k, rfl⟩ := Int.eq_ofNat_of_zero_le hk
    exact mod_cast roundDiv_le hd (by exact_mod_cast h)
  case true =>
    by_cases hk : 0 ≤ k
    case pos => omega
    case neg =>
      obtain ⟨j, rfl⟩ : ∃ j : Nat, k = -j := ⟨k.natAbs, by omega⟩
      have h : j * d ≤ m := by
        have : (j : Int) * d ≤ m := by linarith
        exact_mod_cast this
      have := le_roundDiv hd h
      omega

theorem le_signed_roundDiv (hd : 0 < d) (h : k * d ≤ signed a m) : k ≤ signed a (roundDiv m d) := by
  have h := signed_roundDiv_le (a := !a) (m := m) (k := -k) hd (by rw [signed_not]; linarith)
  rw [signed_not] at h
  omega

end Double

section RoundBits

variable {precision lowest n d m k : Nat}

theorem lt_pow2_log2_succ (n : Nat) : n < pow2 (n.log2 + 1) :=
  Nat.lt_log2_self

theorem log2_le_of_lt_pow2 (h : n < pow2 (k + 1)) : n.log2 ≤ k := by
  by_cases hn : n = 0
  case pos => simp [hn]
  case neg => exact Nat.le_of_lt_succ <| Nat.log2_lt hn |>.mpr h

-- A number that needs at most `precision` bits is its own rounding.
theorem roundBits_self (hp : 0 < precision) (hm : m < pow2 precision) (hk : lowest ≤ k) :
    roundBits precision lowest (m * pow2 k) 1 = m * pow2 k := by
  have hlog : (m * pow2 k).log2 ≤ precision - 1 + k := by
    apply log2_le_of_lt_pow2
    rw [show precision - 1 + k + 1 = precision + k by omega, pow2_add]
    exact Nat.mul_lt_mul_of_pos_right hm (pow2_pos k)
  have hdrop : max lowest ((m * pow2 k).log2 + 1 - precision) ≤ k := by omega
  have ⟨q, hq⟩ := Nat.dvd_mul_left_of_dvd (pow2_dvd_pow2 hdrop) m
  simp only [roundBits, Nat.div_one, Nat.one_mul]
  generalize max lowest ((m * pow2 k).log2 + 1 - precision) = drop at hq ⊢
  rw [hq, Nat.mul_comm (pow2 drop) q, roundDiv_mul_self (pow2_pos drop)]

-- Rounding leaves at most `precision` bits. Where it carries into one more bit, all others are zero,
-- so the number moves up by one place.
theorem roundBits_bits (lowest n : Nat) (hp : 0 < precision) (hd : 0 < d) :
    ∃ m k, m < pow2 precision ∧ lowest ≤ k ∧ roundBits precision lowest n d = m * pow2 k := by
  let drop := max lowest ((n / d).log2 + 1 - precision)
  have hle : roundDiv n (d * pow2 drop) ≤ pow2 precision := by
    apply roundDiv_le (Nat.mul_pos hd (pow2_pos drop))
    have hlt : n / d < pow2 (precision + drop) :=
      lt_pow2_log2_succ (n / d) |>.trans_le <| pow2_le_pow2 (by omega)
    rw [Nat.div_lt_iff_lt_mul hd, pow2_add] at hlt
    calc n ≤ pow2 precision * pow2 drop * d := hlt.le
      _ = pow2 precision * (d * pow2 drop) := by rw [Nat.mul_assoc, Nat.mul_comm (pow2 drop)]
  cases Nat.lt_or_eq_of_le hle
  case inl h => exact ⟨_, drop, h, le_max_left .., rfl⟩
  case inr h =>
    obtain ⟨p, rfl⟩ : ∃ p, precision = p + 1 := ⟨precision - 1, by omega⟩
    refine ⟨pow2 p, drop + 1, ?_, (le_max_left ..).trans (Nat.le_succ _), ?_⟩
    · exact Nat.pow_lt_pow_right (by decide) (Nat.lt_succ_self p)
    · calc roundDiv n (d * pow2 drop) * pow2 drop = pow2 (p + 1) * pow2 drop := by rw [h]
        _ = pow2 p * pow2 (drop + 1) := by rw [← pow2_add, ← pow2_add]; congr 1; omega

theorem roundBits_idem (hp : 0 < precision) (hd : 0 < d) :
    roundBits precision lowest (roundBits precision lowest n d) 1 = roundBits precision lowest n d := by
  have ⟨m, k, hm, hk, h⟩ := roundBits_bits lowest n hp hd
  rw [h, roundBits_self hp hm hk]

end RoundBits

end AddonBinding
