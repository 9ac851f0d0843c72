import AddonBinding.Proofs.MathFunctions
import Mathlib.Data.Rat.Floor
import Mathlib.Tactic.Linarith
import Mathlib.Tactic.Positivity
import Mathlib.Tactic.Ring

namespace AddonBinding

-- The integral part of a number, without what is behind the point.
def towardZero (q : ℚ) : ℤ :=
  if q < 0 then ⌈q⌉ else ⌊q⌋

theorem towardZero_intCast (n : ℤ) : towardZero n = n := by
  simp [towardZero]

theorem towardZero_neg (q : ℚ) : towardZero (-q) = -towardZero q := by
  rcases lt_trichotomy q 0 with h | rfl | h
  · simp [towardZero, h, h.le, not_lt.mpr, Int.floor_neg]
  · simp [towardZero]
  · simp [towardZero, h, h.le, not_lt.mpr, Int.ceil_neg]

-- Above minus one no number has a negative integral part.
theorem towardZero_nonneg {q : ℚ} (h : -1 < q) : 0 ≤ towardZero q := by
  unfold towardZero
  split
  case isTrue =>
    have : -1 < ⌈q⌉ := Int.lt_ceil.mpr (by exact_mod_cast h)
    omega
  case isFalse hq => exact Int.floor_nonneg.mpr (not_lt.mp hq)

theorem towardZero_div (m d : Nat) : towardZero (m / d) = (m / d : Nat) := by
  have h : ¬(m / d : ℚ) < 0 := not_lt.mpr (by positivity)
  rw [towardZero, if_neg h, Rat.floor_natCast_div_natCast, Int.natCast_div]

-- No integer is nearer to the number, and where another one is as near this one is even.
structure NearestEven (q : ℚ) (n : ℤ) : Prop where
  nearest : ∀ k : ℤ, |q - n| ≤ |q - k|
  even    : ∀ k : ℤ, k ≠ n → |q - k| = |q - n| → Even n

namespace NearestEven

variable {p q : ℚ} {m n : ℤ}

theorem intCast (n : ℤ) : NearestEven n n where
  nearest k := by simp
  even k hk h := by
    have : (n : ℚ) - k = 0 := by simpa using h
    exact absurd (by exact_mod_cast (sub_eq_zero.mp this).symm) hk

theorem neg (h : NearestEven q n) : NearestEven (-q) (-n) := by
  have hd (k : ℤ) : |-q - k| = |q - ((-k : ℤ) : ℚ)| := by
    rw [← abs_neg]
    push_cast
    ring_nf
  have hn : |-q - ((-n : ℤ) : ℚ)| = |q - n| := by
    rw [hd, Int.neg_neg]
  refine ⟨fun k => ?_, fun k hk he => (h.even (-k) (by omega) ?_).neg⟩
  · rw [hn, hd]
    exact h.nearest _
  · rwa [hn, hd] at he

-- An integer is nearest within half a unit, and there are two only at a distance of just that.
theorem of_half (hd : |q - n| ≤ 1 / 2) (he : |q - n| = 1 / 2 → Even n) : NearestEven q n := by
  have hk (k : ℤ) (hk : k ≠ n) : 1 / 2 ≤ |q - k| := by
    have h₁ : (1 : ℚ) ≤ |(k : ℚ) - n| := by
      exact_mod_cast Int.one_le_abs (sub_ne_zero.mpr hk)
    have h₂ : |(k : ℚ) - n| ≤ |q - k| + |q - n| := by
      rw [abs_sub_comm q k]
      exact abs_sub_le ..
    linarith
  refine ⟨fun k => ?_, fun k hne h => he ?_⟩
  · by_cases h : k = n
    case pos => rw [h]
    case neg => exact hd.trans (hk k h)
  · exact le_antisymm hd (h ▸ hk k hne)

-- Two numbers that are rounded against their order would both lie in the middle of the two integers,
-- which are even, so that the middle is an integer itself.
theorem mono (h : NearestEven p m) (h' : NearestEven q n) (hpq : p ≤ q) : m ≤ n := by
  by_contra hc
  have hlt : (n : ℚ) < m := by exact_mod_cast not_le.mp hc
  have hp : (m + n : ℚ) / 2 ≤ p := by
    have := h.nearest n
    rw [← sq_le_sq] at this
    nlinarith
  have hq : q ≤ (m + n : ℚ) / 2 := by
    have := h'.nearest m
    rw [← sq_le_sq] at this
    nlinarith
  have hpm : p = (m + n : ℚ) / 2 := by linarith
  have hqm : q = (m + n : ℚ) / 2 := by linarith
  have he : |p - n| = |p - m| := by
    rw [hpm, ← abs_neg]
    ring_nf
  have ⟨i, hi⟩ := h.even n (by omega) he
  have ⟨j, hj⟩ := h'.even m (by omega) (by rw [hqm, ← hpm, he])
  have hz : p - ((i + j : ℤ) : ℚ) = 0 := by
    rw [hpm, hi, hj]
    push_cast
    ring
  have := h.nearest (i + j)
  rw [hz, abs_zero, abs_nonpos_iff] at this
  linarith

theorem unique (h : NearestEven q m) (h' : NearestEven q n) : m = n :=
  le_antisymm (h.mono h' le_rfl) (h'.mono h le_rfl)

-- The same for a quotient, with the distance in parts of the divisor.
theorem of_ratio {m d : Nat} (hd : 0 < d) (h : 2 * |(m : ℤ) - n * d| ≤ d)
    (he : 2 * |(m : ℤ) - n * d| = d → Even n) : NearestEven (m / d) n := by
  have hd : (0 : ℚ) < d := by exact_mod_cast hd
  have hq : 2 * |(m / d : ℚ) - n| * d = (2 * |(m : ℤ) - n * d| : ℤ) := by
    push_cast
    rw [← abs_of_pos hd, mul_assoc, ← abs_mul, abs_of_pos hd, sub_mul, div_mul_cancel₀ _ hd.ne']
  apply of_half
  case hd =>
    have : 2 * |(m / d : ℚ) - n| * d ≤ 1 * d := by
      rw [hq, one_mul]
      exact_mod_cast h
    linarith [le_of_mul_le_mul_right this hd]
  case he =>
    intro h
    apply he
    have : 2 * |(m / d : ℚ) - n| * d = d := by
      rw [h]
      ring
    rw [hq] at this
    exact_mod_cast this

theorem of_roundDiv (m : Nat) {d : Nat} (hd : 0 < d) :
    NearestEven (m / d) (roundDiv m d) := by
  have hm : (m : ℤ) = (m / d : Nat) * d + (m % d : Nat) := by
    exact_mod_cast (Nat.div_add_mod' m d).symm
  have hr := Nat.mod_lt m hd
  rcases roundDiv_cases m d with ⟨hk, hl, he⟩ | ⟨hk, hl, he⟩ <;> rw [hk]
  case inl =>
    have hs : |(m : ℤ) - (m / d : Nat) * d| = (m % d : Nat) := by
      rw [hm, add_sub_cancel_left, Nat.abs_cast]
    refine of_ratio hd (by omega) fun h => ?_
    exact Int.even_iff.mpr (by omega)
  case inr =>
    have hs : |(m : ℤ) - (m / d + 1 : Nat) * d| = d - (m % d : Nat) := by
      rw [hm, ← abs_neg, ← abs_of_nonneg (by omega : 0 ≤ (d : ℤ) - (m % d : Nat))]
      congr 1
      push_cast
      ring
    refine of_ratio hd (by omega) fun h => ?_
    exact Int.even_iff.mpr (by omega)

end NearestEven

namespace Double

variable {x y : Double} {p q : ℚ} {n : ℤ}

-- The number that a finite double stands for.
def toRat? : Double → Option ℚ
  | .finite a m _ => some (signed a m / one)
  | _             => none

theorem isNaN_of_toRat? (h : x.toRat? = some q) : x.isNaN = false := by
  cases x <;> cases h
  rfl

theorem one_pos_rat : (0 : ℚ) < one :=
  Nat.cast_pos.mpr one_pos

theorem truncate?_of_toRat? (h : x.toRat? = some q) : x.truncate? = some (towardZero q) := by
  cases x <;> cases h
  case finite a m _ =>
    cases a
    case false =>
      simp only [signed, Bool.false_eq_true, if_false, Int.cast_natCast]
      rw [towardZero_div]
      rfl
    case true =>
      simp only [signed, if_true, Int.cast_neg, Int.cast_natCast]
      rw [neg_div, towardZero_neg, towardZero_div]
      rfl

theorem exists_nearestEven (h : x.toRat? = some q) : ∃ n, x.round? = some n ∧ NearestEven q n := by
  cases x <;> cases h
  case finite a m _ =>
    refine ⟨_, rfl, ?_⟩
    have hr := NearestEven.of_roundDiv m one_pos
    cases a <;> simp only [signed, Bool.false_eq_true, if_true, if_false]
    case false =>
      rw [Int.cast_natCast]
      exact hr
    case true =>
      rw [Int.cast_neg, Int.cast_natCast, neg_div]
      exact hr.neg

theorem lt_iff (hx : x.toRat? = some p) (hy : y.toRat? = some q) : x.lt y ↔ p < q := by
  cases x <;> cases hx
  case finite a m _ =>
    cases y <;> cases hy
    case finite b n _ =>
      rw [lt, decide_eq_true_iff, div_lt_div_iff_of_pos_right one_pos_rat, Int.cast_lt]

theorem ofInt_of_fits (h : Fits (n.natAbs * one)) :
    ofInt n = .finite (n < 0) (n.natAbs * one) h :=
  ofSteps_eq h

theorem toRat?_ofInt (h : Fits (n.natAbs * one)) : (ofInt n).toRat? = some (n : ℚ) := by
  rw [ofInt_of_fits h, toRat?, signed_mul, signed_natAbs]
  push_cast
  rw [mul_div_cancel_right₀ _ one_pos_rat.ne']

theorem toRat?_ofInt_of_lt (h : n.natAbs < pow2 53) : (ofInt n).toRat? = some (n : ℚ) :=
  have ⟨fits, _⟩ := ofInt_finite h
  toRat?_ofInt fits

end Double

end AddonBinding
