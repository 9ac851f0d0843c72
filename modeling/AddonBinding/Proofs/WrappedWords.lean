import AddonBinding.Proofs.IntegerConversion

namespace AddonBinding

namespace Double

variable {a : Bool} {m k : Nat} {x : Double} {n : ℤ}

-- In the upper half below a power of two, what is missing to the power is a number of steps of the
-- same size, and no more of them than there are up to the middle.
theorem Fits.pow2_sub (h : Fits m) (hk : 52 ≤ k) (hl : pow2 k ≤ m) : Fits (pow2 (k + 1) - m) := by
  have hm : m ≠ 0 := Nat.pos_iff_ne_zero.mp <| (pow2_pos k).trans_le hl
  have hlog : k ≤ m.log2 := (Nat.le_log2 hm).mpr hl
  have hd : pow2 (k - 52) ∣ m :=
    (pow2_dvd_pow2 (by omega)).trans <| Nat.dvd_of_mod_eq_zero h.right
  have ⟨s, hs⟩ : pow2 (k - 52) ∣ pow2 (k + 1) - m := Nat.dvd_sub (pow2_dvd_pow2 (by omega)) hd
  have hle : pow2 (k + 1) - m ≤ pow2 k := by
    have : pow2 (k + 1) = pow2 k * 2 := pow2_add k 1
    omega
  have hs' : s ≤ pow2 52 := by
    refine Nat.le_of_mul_le_mul_left ?_ (pow2_pos (k - 52))
    rwa [← hs, ← pow2_add, Nat.sub_add_cancel hk]
  rw [hs, Nat.mul_comm]
  refine fits_mul_pow2 (hs'.trans_lt (by decide)) ?_
  rw [Nat.mul_comm, ← hs]
  exact (hle.trans hl).trans_lt h.left

theorem Fits.whole_sub (h : Fits (m * one)) (hl : pow2 k ≤ m) :
    Fits ((pow2 (k + 1) - m) * one) := by
  have hl : pow2 (k + 1074) ≤ m * one := by
    rw [← pow2_mul_one]
    exact Nat.mul_le_mul_right one hl
  rw [Nat.sub_mul, pow2_mul_one, Nat.add_right_comm]
  exact h.pow2_sub (by omega) hl

-- A word with a sign is the remainder, or what it lacks from the next multiple.
theorem natAbs_bmod (a : Bool) (k : Nat) :
    ((signed a k).bmod (pow2 64)).natAbs = k % pow2 64 ∨
      pow2 63 ≤ k % pow2 64 ∧
        ((signed a k).bmod (pow2 64)).natAbs = pow2 64 - k % pow2 64 := by
  rw [show pow2 64 = 18446744073709551616 from rfl, show pow2 63 = 9223372036854775808 from rfl]
  cases a
  all_goals
    simp only [signed, Int.bmod, Bool.false_eq_true, if_true, if_false]
    split <;> omega

-- A word that a double is wrapped to is a double again. Without a sign that takes a number that is
-- not negative, since for others the word counts down from the top.
theorem fits_reduce {sign : Bool} (hx : x.truncate? = some n) (hn : sign ∨ 0 ≤ n) :
    Fits ((reduce sign 64 n).natAbs * one) := by
  cases x <;> cases hx
  case finite a m fits =>
    have hr := fits.whole_mod 64
    cases sign
    case false =>
      have hn : 0 ≤ signed a (m / one) := by simpa using hn
      generalize m / one = k at hn hr ⊢
      have hs : signed a k = k := by
        cases a <;> simp only [signed, Bool.false_eq_true, if_true, if_false] at hn ⊢
        omega
      rw [hs]
      exact hr
    case true =>
      rcases natAbs_bmod a (m / one) with h | ⟨hl, h⟩
      all_goals simp only [reduce, if_true, h]
      case inl => exact hr
      case inr => exact hr.whole_sub hl

end Double

namespace IntegerType

variable {t : IntegerType} {policy : CoercionPolicy} {x : Double} {n : ℤ}

theorem ofNumber_of_not_finite (hp : policy.integerOverflow = .wrap) (hx : x.toRat? = none) :
    t.ofNumber policy x = t.ofNaN policy.integerNaN := by
  cases x
  case finite => contradiction
  all_goals simp [ofNumber, wrap, Double.isNaN, Double.isInfinite, hp]

theorem encode_exact (h : t.Contains n) : (t.exact n).encode = .number (.ofInt n) := by
  have ⟨k, _, hk, he, _⟩ := eq_exact_of_holds (holds_exact h)
  cases hk.symm.trans (integer?_exact h)
  exact he

end IntegerType

variable {signed : Bool} {policy : CoercionPolicy} {x : Double} {v : NativeValue}

-- What a 64-bit type has stored for a number under wrapping: zero where there is no integral part.
theorem exists_wrapped (hp : policy.integerOverflow = .wrap)
    (hx : signed ∨ ∀ q, x.toRat? = some q → -1 < q)
    (h : IntegerType.ofNumber ⟨.w64, signed⟩ policy x = .ok v) :
    ∃ n, IntegerType.Contains ⟨.w64, signed⟩ n ∧ Double.Fits (n.natAbs * Double.one) ∧
      v = IntegerType.exact ⟨.w64, signed⟩ n := by
  cases hq : x.toRat?
  case none =>
    rw [IntegerType.ofNumber_of_not_finite hp hq] at h
    cases hr : policy.integerNaN <;> rw [hr] at h
    case zero =>
      have hf : Double.Fits ((0 : ℤ).natAbs * Double.one) := by
        rw [Int.natAbs_zero, Nat.zero_mul]
        exact .zero
      exact ⟨0, IntegerType.contains_zero, hf, (Except.ok.inj h).symm⟩
    case reject => contradiction
  case some q =>
    have ht := Double.truncate?_of_toRat? hq
    have hn : signed ∨ 0 ≤ towardZero q := hx.imp_right fun hx => towardZero_nonneg (hx q hq)
    rw [IntegerType.ofNumber_of_wrap hp ht] at h
    exact ⟨_, IntegerType.contains_reduce .., Double.fits_reduce ht hn, (Except.ok.inj h).symm⟩

-- Values that wrapping has put into a 64-bit attribute are read exactly, also where not all integers
-- are doubles, and storing what was read changes nothing.
theorem wrapped_word_exact (signed : Bool) (policy : CoercionPolicy) (x : Double) (v : NativeValue)
    (hp : policy.integerOverflow = .wrap) (hx : signed ∨ ∀ q, x.toRat? = some q → -1 < q)
    (hd : (ScalarType.integer ⟨.w64, signed⟩).decode policy (.number x) = .ok v) :
    ∃ n y, v.integer? = some n ∧ v.encode = .number y ∧ y.toRat? = some (n : ℚ) ∧
      (ScalarType.integer ⟨.w64, signed⟩).decode policy v.encode = .ok v := by
  have ⟨n, hc, hf, hv⟩ := exists_wrapped hp hx hd
  have hr := Double.toRat?_ofInt hf
  have he := IntegerType.encode_exact hc
  refine ⟨n, .ofInt n, hv ▸ IntegerType.integer?_exact hc, hv ▸ he, hr, ?_⟩
  have ht := Double.truncate?_of_toRat? hr
  rw [towardZero_intCast] at ht
  rw [hv, he, ScalarType.decode_integer_number, IntegerType.ofNumber_of_wrap hp ht, hc.reduce_eq]

theorem wrapped_word_exact_top :
    let x := Double.ofInt 9223372036854777856
    let v : NativeValue := .integer (-9223372036854773760)
    let wide : ScalarType := .integer ⟨.w64, true⟩
    wide.decode {} (.number x) = .ok v ∧ wide.decode {} v.encode = .ok v := by
  intro x v wide
  have hd : wide.decode {} (.number x) = .ok v := by decide +kernel
  have ⟨_, _, _, _, _, h⟩ := wrapped_word_exact true {} x v rfl (.inl rfl) hd
  exact ⟨hd, h⟩

-- The word of minus one is not a double, and is read as the number after it.
example :
    let wide : ScalarType := .integer ⟨.w64, false⟩
    let v : NativeValue := .unsigned 18446744073709551615
    wide.decode {} (.number (.ofInt (-1))) = .ok v ∧ wide.decode {} v.encode = .ok (.unsigned 0) := by
  decide +kernel

end AddonBinding
