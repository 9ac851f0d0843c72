import AddonBinding.Proofs.NearestDouble
import AddonBinding.Proofs.RoundTrip

-- Rounding to fewer bits than a double has, and where it leaves the finite numbers.

namespace AddonBinding

section RoundDiv

variable {n d k : Nat}

-- A rounded quotient is off by half a unit at most.
theorem roundDiv_error (n : Nat) (hd : 0 < d) :
    2 * (roundDiv n d * d) ≤ 2 * n + d ∧ 2 * n ≤ 2 * (roundDiv n d * d) + d := by
  have hn : n / d * d + n % d = n := Nat.div_add_mod' n d
  have hr : n % d < d := Nat.mod_lt n hd
  rcases roundDiv_cases n d with ⟨hk, hm, -⟩ | ⟨hk, hm, -⟩ <;> rw [hk]
  · omega
  · rw [Nat.add_mul, Nat.one_mul]
    omega

theorem roundDiv_lt (hd : 0 < d) (h : 2 * n + d < 2 * (k * d)) : roundDiv n d < k := by
  have := (roundDiv_error n hd).left
  exact Nat.lt_of_mul_lt_mul_right (a := d) (by omega)

-- An even number is reached from half a unit below it.
theorem le_roundDiv_of_even (hd : 0 < d) (hk : k % 2 = 0) (h : 2 * (k * d) ≤ 2 * n + d) :
    k ≤ roundDiv n d := by
  have hn : n / d * d + n % d = n := Nat.div_add_mod' n d
  have hr : n % d < d := Nat.mod_lt n hd
  have hle : k < n / d + 2 := by
    refine Nat.lt_of_mul_lt_mul_right (a := d) ?_
    rw [Nat.add_mul]
    omega
  rcases roundDiv_cases n d with ⟨hq, hl, ht⟩ | ⟨hq, -⟩ <;> rw [hq]
  · by_contra hc
    obtain rfl : k = n / d + 1 := by omega
    rw [Nat.add_mul, Nat.one_mul] at h
    omega
  · omega

end RoundDiv

section RoundBits

variable {precision p lowest n d m k j : Nat}

theorem roundBits_eq_mul (hb : max lowest ((n / d).log2 + 1 - precision) = j) :
    roundBits precision lowest n d = roundDiv n (d * pow2 j) * pow2 j := by
  rw [roundBits, hb]

-- What is rounded to a number of fewer bits is as near to it for fewer bits, so that it makes no
-- difference if only those are kept in the first place.
theorem roundBits_of_finer (hd : 0 < d) (hp : 0 < p) (hle : p ≤ precision) (hk : k < pow2 p)
    (hj : lowest ≤ j) (h : roundBits precision 0 n d = k * pow2 j) :
    roundBits p lowest n d = k * pow2 j := by
  have hfine : roundBits precision 0 n d = _ := roundBits_eq_mul rfl
  generalize hb : max lowest ((n / d).log2 + 1 - p) = drop
  generalize hb' : max 0 ((n / d).log2 + 1 - precision) = fine at hfine
  rcases (show fine ≤ drop by omega).lt_or_eq with hlt | rfl
  case inr => rw [roundBits_eq_mul hb, ← hfine, h]
  case inl =>
    have hdrop : drop ≤ j := by
      by_cases hn : n / d = 0
      case pos => simp [hn] at hb; omega
      case neg =>
        have hl : pow2 (n / d).log2 ≤ roundBits precision 0 n d :=
          pow2_log2_le_roundBits (by omega) hd hn
        rw [h] at hl
        have hl := hl.trans_lt (Nat.mul_lt_mul_of_pos_right hk (pow2_pos j))
        rw [← pow2_add] at hl
        have := (Nat.pow_lt_pow_iff_right (by decide)).mp hl
        omega
    have hm : k * pow2 j = k * pow2 (j - drop) * pow2 drop := by
      rw [Nat.mul_assoc, ← pow2_add, Nat.sub_add_cancel hdrop]
    have hg : pow2 fine < pow2 drop := Nat.pow_lt_pow_right (by decide) hlt
    have hg : d * pow2 fine < d * pow2 drop := Nat.mul_lt_mul_of_pos_left hg hd
    have he := roundDiv_error n (Nat.mul_pos hd (pow2_pos fine))
    have hr : roundDiv n (d * pow2 fine) * (d * pow2 fine) =
        k * pow2 (j - drop) * (d * pow2 drop) := by
      rw [Nat.mul_left_comm, ← hfine, h, hm, Nat.mul_left_comm]
    rw [hr] at he
    have hq : roundDiv n (d * pow2 drop) = k * pow2 (j - drop) :=
      roundDiv_eq (Nat.mul_pos hd (pow2_pos drop)) (by omega) (by omega) (by omega)
    rw [roundBits_eq_mul hb, hm, hq]

theorem pow2_add_mul (p i d : Nat) : pow2 (p + i) * d = pow2 p * (d * pow2 i) := by
  rw [pow2_add, Nat.mul_assoc, Nat.mul_comm (pow2 i)]

-- The greatest number of so many bits below a power of two is the last one before it that numbers
-- are rounded to, up to half a unit beyond it.
theorem roundBits_lt (hd : 0 < d) (hp : 0 < p) (hj : lowest ≤ j)
    (h : 2 * n + d * pow2 j < 2 * (pow2 p * (d * pow2 j))) :
    roundBits p lowest n d < pow2 (p + j) := by
  generalize hb : max lowest ((n / d).log2 + 1 - p) = drop
  have hu : 0 < d * pow2 drop := Nat.mul_pos hd (pow2_pos drop)
  have hn : n / d < pow2 (p + j) := by
    rw [Nat.div_lt_iff_lt_mul hd, pow2_add_mul]
    omega
  have hdrop : drop ≤ j := by
    rw [show p + j = p - 1 + j + 1 by omega] at hn
    have := log2_le_of_lt_pow2 hn
    omega
  rw [roundBits_eq_mul hb]
  rcases hdrop.lt_or_eq with hlt | rfl
  case inr =>
    rw [pow2_add]
    exact Nat.mul_lt_mul_of_pos_right (roundDiv_lt hu h) (pow2_pos drop)
  case inl =>
    -- The unit is smaller here, and all that fits below the power for it is small enough.
    have hr : roundDiv n (d * pow2 drop) ≤ pow2 p := by
      refine roundDiv_le hu ?_
      rw [← pow2_add_mul]
      refine (Nat.div_lt_iff_lt_mul hd).mp ((lt_pow2_log2_succ _).trans_le ?_) |>.le
      exact pow2_le_pow2 (by omega)
    calc roundDiv n (d * pow2 drop) * pow2 drop ≤ pow2 p * pow2 drop := Nat.mul_le_mul_right _ hr
      _ = pow2 (p + drop) := (pow2_add ..).symm
      _ < pow2 (p + j) := Nat.pow_lt_pow_right (by decide) (by omega)

-- From there on they go to the power or further.
theorem pow2_add_le_roundBits (hd : 0 < d) (hp : 0 < p) (hj : lowest ≤ j)
    (h : 2 * (pow2 p * (d * pow2 j)) ≤ 2 * n + d * pow2 j) :
    pow2 (p + j) ≤ roundBits p lowest n d := by
  generalize hb : max lowest ((n / d).log2 + 1 - p) = drop
  have hu : 0 < d * pow2 drop := Nat.mul_pos hd (pow2_pos drop)
  obtain ⟨c, rfl⟩ := Nat.exists_eq_add_of_le' hp
  have htwo : pow2 (c + 1) = 2 * pow2 c := Nat.pow_succ'
  have hn : pow2 (c + j) ≤ n / d := by
    rw [Nat.le_div_iff_mul_le hd, pow2_add_mul]
    have := Nat.mul_le_mul_right (d * pow2 j) (pow2_pos c)
    rw [htwo, Nat.mul_assoc] at h
    omega
  have hn₀ : n / d ≠ 0 := Nat.pos_iff_ne_zero.mp <| (pow2_pos _).trans_le hn
  have hlog : c + j ≤ (n / d).log2 := (Nat.le_log2 hn₀).mpr hn
  rw [roundBits_eq_mul hb]
  rcases (show j ≤ drop by omega).lt_or_eq with hlt | rfl
  case inr =>
    rw [pow2_add]
    refine Nat.mul_le_mul_right _ (le_roundDiv_of_even hu ?_ h)
    rw [htwo]
    exact Nat.mul_mod_right ..
  case inl =>
    have hr : pow2 c ≤ roundDiv n (d * pow2 drop) := by
      refine le_roundDiv hu ?_
      rw [← pow2_add_mul, show c + drop = (n / d).log2 by omega]
      exact Double.pow2_log2_mul_le hn₀
    calc pow2 (c + 1 + j) ≤ pow2 (c + drop) := pow2_le_pow2 (by omega)
      _ = pow2 c * pow2 drop := pow2_add ..
      _ ≤ roundDiv n (d * pow2 drop) * pow2 drop := Nat.mul_le_mul_right _ hr

theorem roundBits_lt_iff (hd : 0 < d) (hp : 0 < p) (hj : lowest ≤ j) :
    roundBits p lowest n d < pow2 (p + j) ↔ 2 * n + d * pow2 j < 2 * (pow2 p * (d * pow2 j)) := by
  refine ⟨fun h => ?_, roundBits_lt hd hp hj⟩
  by_contra hc
  exact (pow2_add_le_roundBits hd hp hj (Nat.le_of_not_lt hc)).not_gt h

end RoundBits

namespace Double

variable {a : Bool} {m n d : Nat} {x : Double} {q : ℚ}

-- The single precision number nearest to `n / d` steps.
def nearestSingle (negative : Bool) (n d : Nat) : Double :=
  let steps := roundBits 24 925 n d
  if fits : steps < singleLimit ∧ Fits steps then .finite negative steps fits.2
  else .infinite negative

theorem toSingle_eq_nearestSingle (hf : Fits m) : (finite a m hf).toSingle = nearestSingle a m 1 :=
  rfl

theorem roundBits_self_of_fits (hf : Fits m) : roundBits 53 0 m 1 = m := by
  obtain ⟨k, j, hk, rfl⟩ := hf.exists_eq
  exact roundBits_self (by decide) hk (Nat.zero_le j)

theorem roundBits_of_nearest {hf : Fits m} (h : nearest a n d = .finite a m hf) :
    roundBits 53 0 n d = m := by
  simp only [nearest] at h
  split at h <;> cases h
  rfl

theorem fits_of_lt_singleLimit (hd : 0 < d) (h : roundBits 24 925 n d < singleLimit) :
    Fits (roundBits 24 925 n d) := by
  obtain ⟨k, j, hk, -, he⟩ := roundBits_bits 925 n (by decide : 0 < 24) hd
  have hl : singleLimit < limit := by
    unfold singleLimit
    exact pow2_lt_limit (by decide)
  rw [he] at h ⊢
  exact fits_mul_pow2 (hk.trans (by decide)) (h.trans hl)

theorem isFinite_nearestSingle_iff (hd : 0 < d) :
    (nearestSingle a n d).isFinite ↔ roundBits 24 925 n d < singleLimit := by
  by_cases h : roundBits 24 925 n d < singleLimit
  case pos =>
    have hf := fits_of_lt_singleLimit hd h
    simp only [nearestSingle, h, hf, and_self, dif_pos, isFinite]
  case neg => simp only [nearestSingle, h, false_and, dif_neg, not_false_eq_true, isFinite,
    Bool.false_eq_true]

theorem roundBits_of_toSingle {hf : Fits m} (h : (finite a m hf).toSingle = .finite a m hf) :
    m < singleLimit ∧ roundBits 24 925 m 1 = m := by
  by_cases hr : roundBits 24 925 m 1 < singleLimit ∧ Fits (roundBits 24 925 m 1)
  case pos =>
    simp only [toSingle, hr, and_self, dif_pos, finite.injEq, true_and] at h
    exact ⟨h ▸ hr.left, h⟩
  case neg => simp only [toSingle, hr, dif_neg, not_false_eq_true, reduceCtorEq] at h

-- A ratio whose nearest double is a single precision number has that number as its nearest single
-- precision number too, whichever ratio it is.
theorem nearestSingle_of_nearest {hf : Fits m} (hd : 0 < d) (h : nearest a n d = .finite a m hf)
    (hs : (finite a m hf).toSingle = .finite a m hf) : nearestSingle a n d = .finite a m hf := by
  obtain ⟨hl, hm⟩ := roundBits_of_toSingle hs
  obtain ⟨k, j, hk, hj, he⟩ := roundBits_bits 925 m (by decide : 0 < 24) Nat.one_pos
  rw [hm] at he
  have hr := roundBits_of_nearest h
  rw [he] at hr
  have hr := roundBits_of_finer hd (by decide) (by decide) hk hj hr
  rw [← he] at hr
  simp only [nearestSingle, hr, hl, hf, and_self, dif_pos]

section Overflow

variable {p c e : Nat}

theorem cast_pow2 (n : Nat) : (pow2 n : ℚ) = 2 ^ n :=
  Nat.cast_pow 2 n

-- Half a unit above the greatest number of so many bits, as a number and in steps.
theorem div_pow2_lt_iff : (m / pow2 e : ℚ) < (2 ^ p - 1 / 2) * 2 ^ c ↔
    2 * m + pow2 (c + e) < 2 * (pow2 p * pow2 (c + e)) := by
  have he : (0 : ℚ) < 2 ^ e := by positivity
  have hc : ((2 * m + pow2 (c + e) : Nat) : ℚ) < (2 * (pow2 p * pow2 (c + e)) : Nat) ↔
      (2 * m + 2 ^ c * 2 ^ e : ℚ) < 2 * (2 ^ p * (2 ^ c * 2 ^ e)) := by
    push_cast
    rw [cast_pow2, cast_pow2, pow_add]
  rw [← Nat.cast_lt (α := ℚ), hc, cast_pow2, div_lt_iff₀ he]
  constructor <;> intro h <;> linarith

theorem abs_lt_iff_of_toRat? {hf : Fits m} (he : one = pow2 e)
    (h : (finite a m hf).toRat? = some q) :
    |q| < (2 ^ p - 1 / 2) * 2 ^ c ↔ 2 * m + pow2 (c + e) < 2 * (pow2 p * pow2 (c + e)) := by
  have h₀ : (0 : ℚ) ≤ m / pow2 e := div_nonneg m.cast_nonneg (pow2 e).cast_nonneg
  have ha : |q| = m / pow2 e := by
    rw [toRat?, Option.some.injEq, he] at h
    rw [← h]
    cases a <;> simp only [signed, Bool.false_eq_true, if_true, if_false]
    case false => rw [Int.cast_natCast, abs_of_nonneg h₀]
    case true  => rw [Int.cast_neg, Int.cast_natCast, neg_div, abs_neg, abs_of_nonneg h₀]
  rw [ha, div_pow2_lt_iff]

-- The exponent of the unit is not named, so that no later step evaluates a power of two.
theorem exists_exponent : ∃ e, 925 ≤ 104 + e ∧ one = pow2 e ∧ limit = pow2 (53 + (971 + e)) ∧
    singleLimit = pow2 (24 + (104 + e)) := by
  unfold one limit singleLimit
  exact ⟨1074, by decide, rfl, congrArg pow2 (by decide), congrArg pow2 (by decide)⟩

theorem abs_lt_of_toRat? (h : x.toRat? = some q) : |q| < (2 ^ 53 - 1 / 2) * 2 ^ 971 := by
  obtain ⟨e, -, he, hl, -⟩ := exists_exponent
  match x, h with
  | .finite _ m hf, h =>
    have hm := hf.left
    rw [← roundBits_self_of_fits hf, hl,
      roundBits_lt_iff Nat.one_pos (by decide) (Nat.zero_le _), Nat.one_mul] at hm
    exact (abs_lt_iff_of_toRat? he h).mpr hm

theorem isFinite_toSingle_iff (h : x.toRat? = some q) :
    x.toSingle.isFinite ↔ |q| < (2 ^ 24 - 1 / 2) * 2 ^ 104 := by
  obtain ⟨e, hb, he, -, hl⟩ := exists_exponent
  match x, h with
  | .finite _ m hf, h =>
    rw [toSingle_eq_nearestSingle, isFinite_nearestSingle_iff Nat.one_pos, hl,
      roundBits_lt_iff Nat.one_pos (by decide) hb, Nat.one_mul, abs_lt_iff_of_toRat? he h]

end Overflow

end Double

end AddonBinding
