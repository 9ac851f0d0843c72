import AddonBinding.Proofs.NumberGrammar

-- No decimal with fewer digits reads back as the same double.

namespace AddonBinding

namespace Double

open Decimal (gap gap_pos gap_dvd)

variable {m k : Nat}

theorem isNearest_div_iff {n d : Nat} (hd : 0 < d) :
    IsNearest (n / d) m ↔ Candidate m ∧
      (∀ k, Candidate k → m < k →
        2 * n ≤ (m + k) * d ∧ (2 * n = (m + k) * d → m / gap m % 2 = 0)) ∧
      ∀ k, Candidate k → k < m →
        (m + k) * d ≤ 2 * n ∧ (2 * n = (m + k) * d → m / gap m % 2 = 0) := by
  have hd : (0 : ℚ) < d := by exact_mod_cast hd
  have hu (k : Nat) : 2 * (n / d : ℚ) ≤ m + k ↔ 2 * n ≤ (m + k) * d := by
    rw [← mul_div_assoc, div_le_iff₀ hd]
    exact_mod_cast Iff.rfl
  have hl (k : Nat) : (m + k : ℚ) ≤ 2 * (n / d) ↔ (m + k) * d ≤ 2 * n := by
    rw [← mul_div_assoc, le_div_iff₀ hd]
    exact_mod_cast Iff.rfl
  simp only [isNearest_iff, le_antisymm_iff, hu, hl]

theorem Fits.candidate_sub_gap (h : Fits m) : Candidate (m - gap m) := by
  obtain ⟨r, j, hm, hr, -, hg⟩ := h.exists_bits
  have he : m - gap m = (r - 1) * pow2 j := by rw [hg, hm, Nat.sub_mul, Nat.one_mul]
  rw [he]
  refine candidate_mul_pow2 (by omega) ?_
  rw [← he]
  exact (Nat.sub_le ..).trans h.left.le

-- Below a power of two the doubles are only half as far from each other.
theorem Fits.candidate_sub_half (h : Fits m) (hw : 52 < m.log2) (hp : m = pow2 m.log2) :
    ∃ g, gap m = 2 * g ∧ Candidate (m - g) := by
  refine ⟨pow2 (m.log2 - 53), ?_, ?_⟩
  · rw [gap, show m.log2 - 52 = 1 + (m.log2 - 53) by omega, pow2_add]
  · have he : m - pow2 (m.log2 - 53) = (pow2 53 - 1) * pow2 (m.log2 - 53) := by
      rw [Nat.sub_mul, ← pow2_add, Nat.add_sub_cancel' hw, ← hp, Nat.one_mul]
    rw [he]
    refine candidate_mul_pow2 (Nat.sub_le ..) ?_
    rw [← he]
    exact (Nat.sub_le ..).trans h.left.le

end Double

namespace Decimal

open Double (Candidate Fits IsNearest one)
open NumberFormat (leading)

variable {tie : Tie} {a : Bool} {steps n d m k : Nat} {e : ℤ}

-- The ends of a basin are the middles between the double and those beside it.
theorem Basin.exists_upper (hf : Fits steps) :
    ∃ k, Candidate k ∧ steps < k ∧ (Basin.of steps).upper = 2 * (steps + k) := by
  refine ⟨_, hf.candidate_add_gap, Nat.lt_add_of_pos_right (gap_pos steps), ?_⟩
  rw [upper_of]
  omega

theorem Basin.exists_lower (hf : Fits steps) (hs : 0 < steps) :
    ∃ k, Candidate k ∧ k < steps ∧ (Basin.of steps).lower = 2 * (steps + k) := by
  have hg := gap_pos steps
  have hle : gap steps ≤ steps := Nat.le_of_dvd hs (gap_dvd hf)
  rw [lower_of]
  split
  case isTrue h =>
    obtain ⟨g, he, hc⟩ := hf.candidate_sub_half h.left h.right
    exact ⟨_, hc, by omega, by omega⟩
  case isFalse => exact ⟨_, hf.candidate_sub_gap, by omega, by omega⟩

theorem Basin.holds_of_isNearest (hf : Fits steps) (hs : 0 < steps) (hd : 0 < d)
    (h : IsNearest (n / d) steps) : (Basin.of steps).holds (4 * n) d := by
  obtain ⟨-, hu, hl⟩ := (Double.isNearest_div_iff hd).mp h
  obtain ⟨k, hk, hlt, hlower⟩ := exists_lower hf hs
  obtain ⟨k', hk', hlt', hupper⟩ := exists_upper hf
  obtain ⟨hl, hle⟩ := hl k hk hlt
  obtain ⟨hu, hue⟩ := hu k' hk' hlt'
  rw [holds_iff, hlower, hupper, closed_of, beq_iff_eq, Nat.mul_assoc, Nat.mul_assoc]
  refine ⟨by omega, by omega, ?_⟩
  rintro (he | he)
  · exact hle (by omega)
  · exact hue (by omega)

theorem mul_zpow_mul_one (m : Nat) (e : ℤ) :
    (m * (10 : ℚ) ^ e * one : ℚ) = (m * (scaleUp e * one) : Nat) / scaleDown e := by
  rw [zpow_eq_scale]
  push_cast
  ring

theorem rounds_iff_isNearest (hf : Fits steps) (hs : 0 < steps) :
    rounds steps e m ↔ IsNearest (m * (10 : ℚ) ^ e * one) steps where
  mp h := by
    have hr := rounds_toDouble ⟨false, m, e⟩
    rw [toDouble_of_rounds hs hf h] at hr
    cases hr
    case finite hr => exact hr
  mpr h := by
    rw [mul_zpow_mul_one] at h
    exact Basin.holds_of_isNearest hf hs (scaleDown_pos e) h

theorem rounds_of_toDouble (hf : Fits steps) (hs : 0 < steps)
    (h : toDouble ⟨a, m, e⟩ = .finite a steps hf) : rounds steps e m := by
  have hr := rounds_toDouble ⟨a, m, e⟩
  rw [h] at hr
  cases hr
  case finite hr => exact (rounds_iff_isNearest hf hs).mpr hr

-- If any point of a grid is in the basin, then one beside the double is.
theorem exists_onGrid?_of_rounds (hf : Fits steps) (hs : 0 < steps) (h : rounds steps e m) :
    ∃ k, onGrid? tie steps e = some k := by
  rcases neighbour?_cases tie (rounds steps e) (steps * scaleDown e) (scaleUp e * one)
    with ⟨k, hk, _⟩ | ⟨_, hb, ha⟩
  case inl => exact ⟨k, hk⟩
  case inr =>
    have hp : 0 < scaleUp e * one := Nat.mul_pos (scaleUp_pos e) Double.one_pos
    have hd : (0 : ℚ) < scaleDown e := by exact_mod_cast scaleDown_pos e
    have hself := IsNearest.self (.inl hf)
    have hle {i j : Nat} (hij : i ≤ j) : (i * (10 : ℚ) ^ e * one : ℚ) ≤ j * (10 : ℚ) ^ e * one := by
      refine mul_le_mul_of_nonneg_right ?_ (Nat.cast_nonneg one)
      exact mul_le_mul_of_nonneg_right (by exact_mod_cast hij) (zpow_nonneg (by norm_num) e)
    rw [rounds_iff_isNearest hf hs] at h hb ha
    exfalso
    by_cases hm : m ≤ steps * scaleDown e / (scaleUp e * one)
    case pos =>
      refine hb <| h.between hself (hle hm) ?_
      rw [mul_zpow_mul_one, div_le_iff₀ hd]
      exact_mod_cast Nat.div_mul_le_self _ _
    case neg =>
      refine ha <| hself.between h ?_ (hle (not_le.mp hm))
      rw [mul_zpow_mul_one, le_div_iff₀ hd]
      exact_mod_cast (Nat.lt_mul_of_div_lt (Nat.lt_succ_self _) hp).le

-- A grid that is coarser than the coarsest one has no point but zero below the next power of two.
theorem coarse_enough (hs : 0 < steps) (h : steps < Double.limit) :
    pow2 (steps.log2 + 1) * scaleDown (coarsest steps + 1) ≤
      scaleUp (coarsest steps + 1) * one := by
  have hk : steps.log2 < 2098 := by
    unfold Double.limit at h
    exact log2_lt_of_lt_pow2 hs h
  unfold one
  rw [coarsest]
  generalize steps.log2 = k at hk
  generalize he : (k - 1073 : ℤ) * 30103 / 100000 + 1 + 1 = e
  by_cases hn : 0 ≤ e
  case pos =>
    rw [scaleDown_of_nonneg hn, Nat.mul_one]
    calc pow2 (k + 1) ≤ pow2 (k - 1073 + 1074) := pow2_le_pow2 (by omega)
      _ = pow2 (k - 1073) * pow2 1074 := pow2_add ..
      _ ≤ scaleUp e * pow2 1074 := Nat.mul_le_mul_right _ <| pow2_le_pow10_of_le (by omega)
  case neg =>
    rw [scaleUp_of_nonpos (by omega), Nat.one_mul]
    calc pow2 (k + 1) * scaleDown e ≤ pow2 (k + 1) * pow2 (1073 - k) :=
          Nat.mul_le_mul_left _ <| pow10_le_pow2_of_le (by omega)
      _ = pow2 (k + 1 + (1073 - k)) := (pow2_add ..).symm
      _ ≤ pow2 1074 := pow2_le_pow2 (by omega)

theorem le_coarsest_of_rounds (hf : Fits steps) (hs : 0 < steps) (hm : 0 < m)
    (h : rounds steps e m) : e ≤ coarsest steps := by
  by_contra hc
  have hd : (0 : ℚ) < scaleDown e := by exact_mod_cast scaleDown_pos e
  have hd' : (0 : ℚ) < scaleDown (coarsest steps + 1) := by exact_mod_cast scaleDown_pos _
  have hlt : (m * (10 : ℚ) ^ e * one : ℚ) < pow2 (steps.log2 + 1) := by
    have hn := (Basin.near_of_holds (scaleDown_pos e) h).lt_pow2 hf (scaleDown_pos e)
    rw [mul_zpow_mul_one, div_lt_iff₀ hd]
    exact_mod_cast (Nat.div_lt_iff_lt_mul (scaleDown_pos e)).mp hn
  have hle : (pow2 (steps.log2 + 1) : ℚ) ≤ (1 : Nat) * (10 : ℚ) ^ (coarsest steps + 1) * one := by
    rw [mul_zpow_mul_one, le_div_iff₀ hd', Nat.one_mul]
    exact_mod_cast coarse_enough hs hf.left
  have hmono : ((1 : Nat) * (10 : ℚ) ^ (coarsest steps + 1) : ℚ) ≤ m * (10 : ℚ) ^ e := by
    refine mul_le_mul (by exact_mod_cast hm) ?_ (zpow_nonneg (by norm_num) _) (Nat.cast_nonneg m)
    exact zpow_le_zpow_right₀ (by norm_num) (by omega)
  have := mul_le_mul_of_nonneg_right hmono (Nat.cast_nonneg one)
  linarith

section Shortest

variable {tie : Tie} {a : Bool} {steps : Nat} {d d' : Decimal}

theorem toDouble_congr (hn : d.negative = d'.negative) (hm : d.magnitude = d'.magnitude) :
    d.toDouble = d'.toDouble := by
  have h := d.rounds_toDouble
  rw [hn, hm] at h
  exact h.unique d'.rounds_toDouble

theorem negative_of_toDouble {hf : Fits steps} (h : d.toDouble = .finite a steps hf) :
    d.negative = a := by
  have hr := d.rounds_toDouble
  rw [h] at hr
  cases hr
  rfl

theorem digits_pos_of_toDouble {hf : Fits steps} (hs : 0 < steps)
    (h : d.toDouble = .finite a steps hf) : 0 < d.digits := by
  refine Nat.pos_of_ne_zero fun h₀ => hs.ne' ?_
  rw [toDouble, if_pos h₀, Double.nearest_of_lt_half (by decide)] at h
  exact (Double.finite.inj h).right.symm

-- No point of a coarser grid reads back as the double.
theorem exponent_le_of_toDouble {hf : Fits steps} (hs : 0 < steps)
    (h : d.toDouble = .finite a steps hf) : d.exponent ≤ (shortest tie a steps).exponent := by
  obtain ⟨m, e, hsearch, -, hnone⟩ := exists_search tie hs hf
  obtain rfl := negative_of_toDouble h
  have hr := rounds_of_toDouble hf hs h
  have hc := le_coarsest_of_rounds hf hs (digits_pos_of_toDouble hs h) hr
  simp only [shortest, hs.ne', if_false, hsearch]
  by_contra hlt
  obtain ⟨k, hk⟩ : ∃ k, onGrid? tie steps d.exponent = some k := exists_onGrid?_of_rounds hf hs hr
  rw [hnone _ (not_le.mp hlt) hc] at hk
  contradiction

theorem toDouble_between {d₁ d₂ : Decimal} {x : Double} (h₁ : d₁.toDouble = x)
    (h₂ : d₂.toDouble = x) (hn₁ : d₁.negative = d.negative) (hn₂ : d₂.negative = d.negative)
    (hl : d₁.magnitude ≤ d.magnitude) (hu : d.magnitude ≤ d₂.magnitude) : d.toDouble = x := by
  have hr₁ := d₁.rounds_toDouble
  have hr₂ := d₂.rounds_toDouble
  rw [h₁, hn₁] at hr₁
  rw [h₂, hn₂] at hr₂
  exact d.rounds_toDouble.unique <| hr₁.between hr₂ hl hu

-- How many digits a decimal has.
def width (d : Decimal) : Nat :=
  (Numeral.natChars d.digits).length

theorem width_pos (d : Decimal) : 0 < d.width :=
  Nat.length_toDigits_pos

theorem digits_lt (d : Decimal) : d.digits < pow10 d.width :=
  (Nat.length_toDigits_le_iff (by decide) d.width_pos).mp le_rfl

theorem le_digits (h : 0 < d.digits) : pow10 (d.width - 1) ≤ d.digits := by
  by_contra hlt
  have hw := d.width_pos
  by_cases h₁ : d.width = 1
  case pos =>
    rw [h₁] at hlt
    exact hlt h
  case neg =>
    have : d.width ≤ d.width - 1 :=
      (Nat.length_toDigits_le_iff (by decide) (by omega)).mpr (not_le.mp hlt)
    omega

-- The magnitude lies between the power of ten of the leading digit and the next one.
theorem magnitude_lt (d : Decimal) : d.magnitude < (10 : ℚ) ^ (leading d + 1) := by
  have he : leading d + 1 = d.width + d.exponent := by
    rw [leading, width]
    omega
  rw [he, zpow_add₀ (by norm_num), zpow_natCast, ← cast_pow10, magnitude]
  exact mul_lt_mul_of_pos_right (by exact_mod_cast d.digits_lt) (zpow_pos (by norm_num) _)

theorem le_magnitude (h : 0 < d.digits) : (10 : ℚ) ^ leading d ≤ d.magnitude := by
  have he : leading d = (d.width - 1 : Nat) + d.exponent := by
    have := d.width_pos
    rw [leading, ← width]
    omega
  rw [he, zpow_add₀ (by norm_num), zpow_natCast, ← cast_pow10, magnitude]
  exact mul_le_mul_of_nonneg_right (by exact_mod_cast le_digits h) (zpow_nonneg (by norm_num) _)

theorem le_leading_iff (h : 0 < d.digits) {k : ℤ} : k ≤ leading d ↔ (10 : ℚ) ^ k ≤ d.magnitude where
  mp hk  := (zpow_le_zpow_right₀ (by norm_num) hk).trans (le_magnitude h)
  mpr hk := by
    have hlt := (zpow_lt_zpow_iff_right₀ (by norm_num)).mp (hk.trans_lt d.magnitude_lt)
    omega

-- Neither does any decimal with fewer digits.
theorem width_le_of_toDouble {hf : Fits steps} (hs : 0 < steps)
    (h : d.toDouble = .finite a steps hf) : (shortest tie a steps).width ≤ d.width := by
  generalize hsh : shortest tie a steps = d₀
  have h₀ : d₀.toDouble = .finite a steps hf := hsh ▸ toDouble_shortest tie a hf
  have hmin {d : Decimal} (h : d.toDouble = .finite a steps hf) : d.exponent ≤ d₀.exponent :=
    hsh ▸ exponent_le_of_toDouble hs h
  by_contra hw
  have hlead : leading d + 1 ≤ leading d₀ := by
    have := hmin h
    rw [leading, leading, ← width, ← width]
    omega
  -- The power of ten of the leading digit would lie between the two decimals.
  have hp : toDouble ⟨a, 1, leading d₀⟩ = .finite a steps hf := by
    have hone : magnitude ⟨a, 1, leading d₀⟩ = (10 : ℚ) ^ leading d₀ := by simp [magnitude]
    refine toDouble_between h h₀ (negative_of_toDouble h) (negative_of_toDouble h₀) ?_ ?_
    · rw [hone]
      exact d.magnitude_lt.le.trans <| zpow_le_zpow_right₀ (by norm_num) hlead
    · rw [hone]
      exact le_magnitude (digits_pos_of_toDouble hs h₀)
  have hle : leading d₀ ≤ d₀.exponent := hmin hp
  have := d.width_pos
  rw [leading, ← width] at hle
  omega

theorem digits_mod_ten_ne_zero (tie : Tie) (a : Bool) (hf : Fits steps) (hs : 0 < steps) :
    (shortest tie a steps).digits % 10 ≠ 0 := by
  generalize hsh : shortest tie a steps = d₀
  have h₀ : d₀.toDouble = .finite a steps hf := hsh ▸ toDouble_shortest tie a hf
  intro hz
  have hdigits : d₀.digits = d₀.digits / 10 * 10 := by omega
  have hc : toDouble ⟨a, d₀.digits / 10, d₀.exponent + 1⟩ = .finite a steps hf := by
    rw [← h₀]
    refine toDouble_congr (negative_of_toDouble h₀).symm ?_
    have hq : (d₀.digits : ℚ) = (d₀.digits / 10 : Nat) * 10 := by exact_mod_cast hdigits
    rw [magnitude, magnitude, zpow_add_one₀ (by norm_num), hq]
    ring
  have hle : d₀.exponent + 1 ≤ d₀.exponent := hsh ▸ exponent_le_of_toDouble hs hc
  omega

end Shortest

end Decimal

end AddonBinding
