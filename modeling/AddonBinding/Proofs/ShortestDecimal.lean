import AddonBinding.Proofs.NearestDecimal

namespace AddonBinding

-- A number between two halves is rounded to what is between them, and a half to an even number.
theorem roundDiv_eq {n d q : Nat} (hd : 0 < d) (hl : 2 * (q * d) ≤ 2 * n + d)
    (hu : 2 * n ≤ 2 * (q * d) + d)
    (ht : 2 * (q * d) = 2 * n + d ∨ 2 * n = 2 * (q * d) + d → q % 2 = 0) : roundDiv n d = q := by
  have hn : n / d * d + n % d = n := Nat.div_add_mod' n d
  have hr : n % d < d := Nat.mod_lt n hd
  have h₁ : q < n / d + 2 := by
    refine Nat.lt_of_mul_lt_mul_right (a := d) ?_
    rw [Nat.add_mul]
    omega
  have h₂ : n / d < q + 1 := by
    refine Nat.lt_of_mul_lt_mul_right (a := d) ?_
    rw [Nat.add_mul]
    omega
  unfold roundDiv
  generalize n / d = k at *
  obtain rfl | rfl : q = k ∨ q = k + 1 := by omega
  · split
    · rfl
    · split <;> omega
  · rw [Nat.add_mul] at hl hu ht
    split
    · omega
    · split <;> omega

theorem add_le_of_dvd {a b g : Nat} (ha : g ∣ a) (hb : g ∣ b) (h : a < b) : a + g ≤ b := by
  obtain ⟨x, rfl⟩ := ha
  obtain ⟨y, rfl⟩ := hb
  have hx : x + 1 ≤ y := Nat.lt_of_mul_lt_mul_left h
  exact Nat.mul_succ g x ▸ Nat.mul_le_mul_left g hx

namespace Decimal

-- The distance from a double to the next one above it, in steps.
def gap (steps : Nat) : Nat :=
  pow2 (steps.log2 - 52)

theorem gap_pos (steps : Nat) : 0 < gap steps :=
  pow2_pos _

theorem gap_dvd {steps : Nat} (h : Double.Fits steps) : gap steps ∣ steps :=
  Nat.dvd_of_mod_eq_zero h.right

namespace Basin

variable {steps n d : Nat} {b : Basin}

theorem holds_iff : b.holds n d ↔ b.lower * d ≤ n ∧ n ≤ b.upper * d ∧
    (b.lower * d = n ∨ n = b.upper * d → b.closed) := by
  unfold holds
  cases b.closed <;> simp
  omega

theorem upper_of (steps : Nat) : (Basin.of steps).upper = 4 * steps + 2 * gap steps :=
  rfl

theorem lower_of (steps : Nat) : (Basin.of steps).lower =
    if 52 < steps.log2 ∧ steps = pow2 steps.log2 then 4 * steps - gap steps
    else 4 * steps - 2 * gap steps :=
  rfl

theorem closed_of (steps : Nat) : (Basin.of steps).closed = (steps / gap steps % 2 == 0) :=
  rfl

-- What the basin says about a number in it, in gaps.
structure Near (steps n d : Nat) : Prop where
  lower  : 4 * (steps * d) ≤ 4 * n + 2 * (gap steps * d)
  upper  : 4 * n ≤ 4 * (steps * d) + 2 * (gap steps * d)
  narrow : 52 < steps.log2 → steps = pow2 steps.log2 → 4 * (steps * d) ≤ 4 * n + gap steps * d
  even   : 4 * (steps * d) = 4 * n + 2 * (gap steps * d) ∨
    4 * n = 4 * (steps * d) + 2 * (gap steps * d) → steps / gap steps % 2 = 0

theorem near_of_holds (hd : 0 < d) (h : (Basin.of steps).holds (4 * n) d) : Near steps n d := by
  rw [holds_iff, lower_of, upper_of, closed_of, beq_iff_eq, Nat.add_mul, Nat.mul_assoc,
    Nat.mul_assoc] at h
  have hg : 0 < gap steps * d := Nat.mul_pos (gap_pos steps) hd
  have ⟨hl, hu, he⟩ := h
  clear h
  split at hl
  case isTrue h =>
    rw [if_pos h] at he
    rw [Nat.sub_mul, Nat.mul_assoc] at hl he
    refine ⟨by omega, hu, fun _ _ => by omega, fun h => he ?_⟩
    omega
  case isFalse h =>
    rw [if_neg h] at he
    rw [Nat.sub_mul, Nat.mul_assoc, Nat.mul_assoc] at hl he
    refine ⟨by omega, hu, fun h₁ h₂ => absurd ⟨h₁, h₂⟩ h, fun h => he ?_⟩
    omega

theorem roundBits_of_unit {unit q : Nat} (hd : 0 < d) (h : pow2 ((n / d).log2 + 1 - 53) = unit)
    (hl : 2 * (q * (d * unit)) ≤ 2 * n + d * unit) (hu : 2 * n ≤ 2 * (q * (d * unit)) + d * unit)
    (ht : 2 * (q * (d * unit)) = 2 * n + d * unit ∨ 2 * n = 2 * (q * (d * unit)) + d * unit →
      q % 2 = 0) : roundBits 53 0 n d = q * unit := by
  have hp : 0 < unit := h ▸ pow2_pos _
  rw [roundBits, Nat.zero_max, h, roundDiv_eq (Nat.mul_pos hd hp) hl hu ht]

namespace Near

theorem lt_pow2 (h : Near steps n d) (hf : Double.Fits steps) (hd : 0 < d) :
    n / d < pow2 (steps.log2 + 1) := by
  have hg : gap steps ∣ pow2 (steps.log2 + 1) := pow2_dvd_pow2 (by omega)
  have hn := Nat.mul_le_mul_right d <| add_le_of_dvd (gap_dvd hf) hg (lt_pow2_log2_succ steps)
  have hg : 0 < gap steps * d := Nat.mul_pos (gap_pos steps) hd
  have hu := h.upper
  rw [Nat.div_lt_iff_lt_mul hd]
  rw [Nat.add_mul] at hn
  omega

theorem eq_pow2 (h : Near steps n d) (hs : 0 < steps) (hf : Double.Fits steps)
    (hn : n < pow2 steps.log2 * d) : steps = pow2 steps.log2 := by
  have hle : pow2 steps.log2 ≤ steps := Nat.log2_self_le hs.ne'
  refine Nat.le_antisymm (Nat.le_of_not_lt fun hlt => ?_) hle
  have hg : gap steps ∣ pow2 steps.log2 := pow2_dvd_pow2 (Nat.sub_le ..)
  have ha := Nat.mul_le_mul_right d <| add_le_of_dvd hg (gap_dvd hf) hlt
  have hl := h.lower
  rw [Nat.add_mul] at ha
  omega

-- Where the number has as many bits as the double, those below the gap are dropped.
theorem roundBits_of_le (h : Near steps n d) (hf : Double.Fits steps) (hd : 0 < d)
    (hw : steps.log2 ≤ 52 ∨ pow2 steps.log2 * d ≤ n) : roundBits 53 0 n d = steps := by
  have hlog : (n / d).log2 + 1 - 53 = steps.log2 - 52 := by
    have hlt := log2_le_of_lt_pow2 (h.lt_pow2 hf hd)
    rcases hw with hw | hw
    · omega
    · have hle : pow2 steps.log2 ≤ n / d := Nat.le_div_iff_mul_le hd |>.mpr hw
      have hne : n / d ≠ 0 := Nat.pos_iff_ne_zero.mp <| (pow2_pos _).trans_le hle
      have := Nat.le_log2 hne |>.mpr hle
      omega
  have hq : steps / gap steps * gap steps = steps := Nat.div_mul_cancel (gap_dvd hf)
  have ⟨hl, hu, _, he⟩ := h
  have hp : steps * d = steps / gap steps * (d * gap steps) := by
    rw [Nat.mul_comm d, ← Nat.mul_assoc, hq]
  rw [hp, Nat.mul_comm (gap steps)] at hl hu he
  have hu' : pow2 ((n / d).log2 + 1 - 53) = gap steps := congrArg pow2 hlog
  rw [roundBits_of_unit hd hu' (by omega) (by omega) (fun ht => he (by omega)), hq]

-- Below a power of two the doubles are closer to each other, so one more bit is kept.
theorem roundBits_of_lt (h : Near steps n d) (hs : 0 < steps) (hf : Double.Fits steps) (hd : 0 < d)
    (hw : 52 < steps.log2) (hn : n < pow2 steps.log2 * d) : roundBits 53 0 n d = steps := by
  have he := h.eq_pow2 hs hf hn
  have hl := h.narrow hw he
  obtain ⟨k, hk⟩ : ∃ k, steps.log2 = 52 + 1 + k := ⟨steps.log2 - 53, by omega⟩
  have hg : gap steps * d = 2 * (d * pow2 k) := by
    rw [gap, hk, show 52 + 1 + k - 52 = 1 + k by omega, pow2_add, Nat.mul_assoc,
      Nat.mul_comm (pow2 k)]
  have hp : steps = pow2 53 * pow2 k := by rw [he, hk, pow2_add]
  have hd' : steps * d = pow2 53 * (d * pow2 k) := by
    rw [hp, Nat.mul_assoc, Nat.mul_comm d]
  have hh : steps * d = 2 * (pow2 (52 + k) * d) := by
    rw [he, hk, show 52 + 1 + k = 1 + (52 + k) by omega, pow2_add, Nat.mul_assoc]
  have hm : d * pow2 k ≤ steps * d := hd' ▸ Nat.le_mul_of_pos_left _ (pow2_pos 53)
  rw [← he] at hn
  rw [hg] at hl
  have hlog : (n / d).log2 + 1 - 53 = k := by
    have h₁ : pow2 (52 + k) ≤ n / d := Nat.le_div_iff_mul_le hd |>.mpr (by omega)
    have h₂ : n / d < pow2 (52 + k + 1) := by
      rw [Nat.div_lt_iff_lt_mul hd, show 52 + k + 1 = 52 + 1 + k by omega, ← hk, ← he]
      exact hn
    have h₃ := Nat.le_log2 (Nat.pos_iff_ne_zero.mp <| (pow2_pos _).trans_le h₁) |>.mpr h₁
    have h₄ := log2_le_of_lt_pow2 h₂
    omega
  have hr := roundBits_of_unit (q := pow2 53) hd (congrArg pow2 hlog) (by omega) (by omega)
    (fun _ => by decide)
  rw [hr, hp]

theorem roundBits_eq (h : Near steps n d) (hs : 0 < steps) (hf : Double.Fits steps) (hd : 0 < d) :
    roundBits 53 0 n d = steps := by
  by_cases hw : steps.log2 ≤ 52 ∨ pow2 steps.log2 * d ≤ n
  case pos => exact h.roundBits_of_le hf hd hw
  case neg =>
    have ⟨hw, hn⟩ := not_or.mp hw
    exact h.roundBits_of_lt hs hf hd (Nat.not_le.mp hw) (Nat.not_le.mp hn)

end Near

end Basin

section Grids

variable {tie : Tie} {steps m fuel j : Nat} {e : Int}

theorem neighbour?_cases (tie : Tie) (passes : Nat → Bool) (target point : Nat) :
    (∃ m, neighbour? tie passes target point = some m ∧ passes m) ∨
      neighbour? tie passes target point = none ∧ ¬passes (target / point) ∧
        ¬passes (target / point + 1) := by
  simp only [neighbour?]
  generalize target / point = below
  cases hb : passes below <;> cases ha : passes (below + 1)
  case false.false => exact .inr ⟨rfl, by simp, by simp⟩
  case true.false  => exact .inl ⟨_, rfl, hb⟩
  case false.true  => exact .inl ⟨_, rfl, ha⟩
  case true.true   =>
    left
    dsimp only
    split
    · exact ⟨_, rfl, hb⟩
    · split
      · exact ⟨_, rfl, ha⟩
      · cases tie
        case up   => exact ⟨_, rfl, ha⟩
        case even =>
          rcases Nat.mod_two_eq_zero_or_one below with h | h <;> rw [h]
          · exact ⟨_, rfl, hb⟩
          · exact ⟨_, rfl, ha⟩

theorem rounds_of_onGrid? (h : onGrid? tie steps e = some m) : rounds steps e m := by
  rcases neighbour?_cases tie (rounds steps e) (steps * scaleDown e) (scaleUp e * Double.one)
    with ⟨n, hn, hr⟩ | ⟨hn, _⟩
  · exact Option.some.inj (hn.symm.trans h) ▸ hr
  · exact absurd (hn.symm.trans h) (by simp)

-- On a grid of points that are no further apart than the basin is wide below the double, the next
-- point below the double is in the basin.
theorem exists_onGrid? (hs : 0 < steps) (hf : Double.Fits steps)
    (h : 4 * (scaleUp e * Double.one) ≤ gap steps * scaleDown e) :
    ∃ m, onGrid? tie steps e = some m := by
  rcases neighbour?_cases tie (rounds steps e) (steps * scaleDown e) (scaleUp e * Double.one)
    with ⟨m, hm, _⟩ | ⟨_, hn, _⟩
  · exact ⟨m, hm⟩
  · refine absurd ?_ hn
    rw [rounds, Basin.holds_iff, Basin.upper_of, Nat.add_mul, Nat.mul_assoc]
    have hp : 0 < scaleUp e * Double.one := Nat.mul_pos (scaleUp_pos e) Double.one_pos
    have hg : gap steps * scaleDown e ≤ steps * scaleDown e :=
      Nat.mul_le_mul_right _ <| Nat.le_of_dvd hs (gap_dvd hf)
    have hd : 0 < gap steps * scaleDown e := Nat.mul_pos (gap_pos steps) (scaleDown_pos e)
    have hl : (Basin.of steps).lower * scaleDown e ≤
        4 * (steps * scaleDown e) - gap steps * scaleDown e := by
      rw [← Nat.mul_assoc, ← Nat.sub_mul, Basin.lower_of]
      refine Nat.mul_le_mul_right _ ?_
      split <;> omega
    generalize scaleUp e * Double.one = point at *
    have h₁ := Nat.div_mul_le_self (steps * scaleDown e) point
    have h₂ := Nat.lt_div_mul_add hp (a := steps * scaleDown e)
    rw [Nat.mul_assoc]
    refine ⟨by omega, by omega, fun ht => ?_⟩
    omega

-- The search stops at the first grid that has a point in the basin.
theorem search_eq (hj : j < fuel) (h : ∃ m, onGrid? tie steps (e - j) = some m) :
    ∃ m e', search tie steps fuel e = (m, e') ∧ onGrid? tie steps e' = some m ∧
      ∀ i, e' < i → i ≤ e → onGrid? tie steps i = none := by
  induction fuel generalizing e j
  case zero => omega
  case succ fuel hi =>
    rw [search]
    cases he : onGrid? tie steps e
    case some m => exact ⟨m, e, rfl, he, fun i hl hu => by omega⟩
    case none =>
      cases j
      case zero =>
        rw [Int.natCast_zero, Int.sub_zero, he] at h
        simp at h
      case succ j =>
        rw [show e - (j + 1 : Nat) = e - 1 - (j : Int) by omega] at h
        obtain ⟨m, e', hs, hm, hn⟩ := hi (Nat.lt_of_succ_lt_succ hj) h
        refine ⟨m, e', hs, hm, fun i hl hu => ?_⟩
        rcases hu.lt_or_eq with hu | rfl
        · exact hn i hl (by omega)
        · exact he

-- Powers compare like the places that are known to compare.
theorem pow_le_pow_of_places {x y a b k : Nat} (ha : 0 < a) (hy : 0 < y) (hp : x ^ a ≤ y ^ b)
    (h : b * m ≤ a * k) : x ^ m ≤ y ^ k := by
  refine Nat.pow_le_pow_iff_left ha.ne' |>.mp ?_
  calc (x ^ m) ^ a = (x ^ a) ^ m := by rw [← Nat.pow_mul, ← Nat.pow_mul, Nat.mul_comm]
    _ ≤ (y ^ b) ^ m := Nat.pow_le_pow_left hp m
    _ = y ^ (b * m) := by rw [← Nat.pow_mul]
    _ ≤ y ^ (k * a) := Nat.pow_le_pow_right hy (by rwa [Nat.mul_comm k])
    _ = (y ^ k) ^ a := by rw [Nat.pow_mul]

-- 31 decimal places are less than 103 binary ones.
theorem pow10_le_pow2_of_le {k : Nat} (h : 103 * m ≤ 31 * k) : pow10 m ≤ pow2 k :=
  pow_le_pow_of_places (by decide) (by decide) (by decide : 10 ^ 31 ≤ 2 ^ 103) h

-- And 28 decimal places are more than 93 binary ones.
theorem pow2_le_pow10_of_le {k : Nat} (h : 28 * k ≤ 93 * m) : pow2 k ≤ pow10 m :=
  pow_le_pow_of_places (by decide) (by decide) (by decide : 2 ^ 93 ≤ 10 ^ 28) h

theorem log2_lt_of_lt_pow2 {k : Nat} (hm : 0 < m) (h : m < pow2 k) : m.log2 < k :=
  Nat.log2_lt hm.ne' |>.mpr h

-- Seventeen digits are enough for every double, whatever its leading bit is.
theorem fine_enough (hs : 0 < steps) (h : steps < Double.limit) :
    4 * (scaleUp (coarsest steps - 19) * Double.one) ≤
      gap steps * scaleDown (coarsest steps - 19) := by
  have hk : steps.log2 < 2098 := by
    unfold Double.limit at h
    exact log2_lt_of_lt_pow2 hs h
  have h₄ (n : Nat) : 4 * (n * Double.one) = n * pow2 1076 := by
    unfold Double.one
    rw [Nat.mul_left_comm, show 1076 = 2 + 1074 by decide, pow2_add 2 1074]
  rw [h₄, gap, coarsest]
  generalize steps.log2 = k at hk
  generalize he : (k - 1073 : Int) * 30103 / 100000 + 1 - 19 = e
  by_cases hn : 0 ≤ e
  case pos =>
    rw [scaleDown_of_nonneg hn, Nat.mul_one]
    calc scaleUp e * pow2 1076 ≤ pow2 (k - 1128) * pow2 1076 :=
          Nat.mul_le_mul_right _ <| pow10_le_pow2_of_le (by omega)
      _ = pow2 (k - 1128 + 1076) := (pow2_add ..).symm
      _ ≤ pow2 (k - 52) := pow2_le_pow2 (by omega)
  case neg =>
    rw [scaleUp_of_nonpos (by omega), Nat.one_mul]
    calc pow2 1076 ≤ pow2 (k - 52 + (1128 - max k 52)) := pow2_le_pow2 (by omega)
      _ = pow2 (k - 52) * pow2 (1128 - max k 52) := pow2_add ..
      _ ≤ pow2 (k - 52) * scaleDown e :=
          Nat.mul_le_mul_left _ <| pow2_le_pow10_of_le (by omega)

theorem exists_search (tie : Tie) (hs : 0 < steps) (hf : Double.Fits steps) :
    ∃ m e, search tie steps 20 (coarsest steps) = (m, e) ∧ onGrid? tie steps e = some m ∧
      ∀ i, e < i → i ≤ coarsest steps → onGrid? tie steps i = none := by
  have hg : ∃ m, onGrid? tie steps (coarsest steps - (19 : Nat)) = some m :=
    exists_onGrid? hs hf (fine_enough hs hf.left)
  exact search_eq (by decide : 19 < 20) hg

theorem toDouble_of_rounds (hs : 0 < steps) (hf : Double.Fits steps) (h : rounds steps e m)
    (a : Bool) : toDouble ⟨a, m, e⟩ = .finite a steps hf := by
  rw [toDouble_eq_nearest, Nat.mul_assoc]
  have hd := scaleDown_pos e
  exact Double.nearest_of_roundBits ((Basin.near_of_holds hd h).roundBits_eq hs hf hd) hf

end Grids

-- The shortest decimal reads back as the double that it was made for.
theorem toDouble_shortest (tie : Tie) (a : Bool) {steps : Nat} (hf : Double.Fits steps) :
    (shortest tie a steps).toDouble = .finite a steps hf := by
  unfold shortest
  split
  case isTrue h =>
    subst h
    exact (toDouble_eq_nearest _).trans <| Double.nearest_of_lt_half (by simp [scaleDown_pos])
  case isFalse h =>
    have hs := Nat.pos_of_ne_zero h
    obtain ⟨m, e, he, hm, _⟩ := exists_search tie hs hf
    rw [he]
    exact toDouble_of_rounds hs hf (rounds_of_onGrid? hm) a

end Decimal

end AddonBinding
