import AddonBinding.Proofs.ExactValue
import AddonBinding.Proofs.ShortestDecimal

-- What it is for a double to be the nearest one to a number, without regard to how it is found.

namespace AddonBinding

section Middle

variable {q m k : ℚ}

theorem abs_sub_le_abs_sub_iff_of_lt (h : m < k) : |q - m| ≤ |q - k| ↔ 2 * q ≤ m + k := by
  rw [← sq_le_sq]
  constructor <;> intro hq <;> nlinarith

theorem abs_sub_le_abs_sub_iff_of_gt (h : k < m) : |q - m| ≤ |q - k| ↔ m + k ≤ 2 * q := by
  rw [← sq_le_sq]
  constructor <;> intro hq <;> nlinarith

theorem abs_sub_eq_abs_sub_iff (h : k ≠ m) : |q - k| = |q - m| ↔ 2 * q = m + k := by
  rw [abs_eq_abs]
  constructor
  · rintro (hq | hq)
    · exact absurd (by linarith) h
    · linarith
  · exact fun hq => .inr (by linarith)

end Middle

namespace Double

open Decimal (gap gap_pos)

-- The magnitudes that rounding chooses from: those of finite doubles, and the next power of two
-- after them, which stands for infinity.
def Candidate (m : Nat) : Prop :=
  Fits m ∨ m = limit

-- No candidate is nearer to a number of steps, and where another one is as near the bits of this
-- one make up an even number.
structure IsNearest (q : ℚ) (m : Nat) : Prop where
  candidate : Candidate m
  nearest   : ∀ k, Candidate k → |q - m| ≤ |q - k|
  even      : ∀ k, Candidate k → k ≠ m → |q - k| = |q - m| → m / gap m % 2 = 0

-- The double of a sign that a number of some magnitude is rounded to.
inductive Rounds (a : Bool) (q : ℚ) : Double → Prop
  | finite {m : Nat} (fits : Fits m) (h : IsNearest (q * one) m) : Rounds a q (.finite a m fits)
  | infinite (h : IsNearest (q * one) limit) : Rounds a q (.infinite a)

theorem ne_zero_of_lt_log2 {n k : Nat} (h : k < n.log2) : n ≠ 0 := by
  rintro rfl
  simp at h

section Candidates

variable {m n d k j r : Nat} {q : ℚ}

theorem Candidate.le_limit (h : Candidate m) : m ≤ limit :=
  h.elim (fun h => h.left.le) fun h => h.le

-- Which power of two the limit is does not matter here.
theorem exists_limit_eq : ∃ e, 52 ≤ e ∧ limit = pow2 e := by
  unfold limit
  exact ⟨_, by decide, rfl⟩

theorem candidate_mul_pow2 (hr : r ≤ pow2 53) (hl : r * pow2 j ≤ limit) :
    Candidate (r * pow2 j) := by
  rcases hl.lt_or_eq with hl | hl
  case inr => exact .inr hl
  case inl =>
    refine .inl ?_
    rcases hr.lt_or_eq with hr | rfl
    · exact fits_mul_pow2 hr hl
    · have hp : pow2 53 * pow2 j = pow2 52 * pow2 (j + 1) := by
        rw [← pow2_add, ← pow2_add, Nat.add_comm j, ← Nat.add_assoc]
      rw [hp] at hl ⊢
      exact fits_mul_pow2 (by decide) hl

-- From a power of two on, all candidates lie on the grid of its numbers of 53 bits.
theorem Candidate.pow2_dvd (h : Candidate m) (hk : pow2 k ≤ m) : pow2 (k - 52) ∣ m := by
  rcases h with h | h
  case inl =>
    have hm : m ≠ 0 := Nat.pos_iff_ne_zero.mp <| (pow2_pos k).trans_le hk
    have hl : k ≤ m.log2 := (Nat.le_log2 hm).mpr hk
    exact (pow2_dvd_pow2 (by omega)).trans <| Nat.dvd_of_mod_eq_zero h.right
  case inr =>
    obtain ⟨e, _, he⟩ := exists_limit_eq
    rw [h, he] at hk ⊢
    have hl : k ≤ e := (Nat.pow_le_pow_iff_right (by decide)).mp hk
    exact pow2_dvd_pow2 (by omega)

theorem gap_mul_pow2 (hr : r < pow2 53) (hj : j = 0 ∨ pow2 52 ≤ r) : gap (r * pow2 j) = pow2 j := by
  have hu : (r * pow2 j).log2 ≤ 52 + j := by
    refine log2_le_of_lt_pow2 ?_
    rw [show 52 + j + 1 = 53 + j by omega, pow2_add]
    exact Nat.mul_lt_mul_of_pos_right hr (pow2_pos j)
  unfold gap
  congr 1
  rcases hj with rfl | hj
  · omega
  · have hp : pow2 (52 + j) ≤ r * pow2 j := by
      rw [pow2_add]
      exact Nat.mul_le_mul_right _ hj
    have := (Nat.le_log2 <| Nat.pos_iff_ne_zero.mp <| (pow2_pos _).trans_le hp).mpr hp
    omega

-- A carry into one more bit leaves a power of two, so that the bits stay an even number.
theorem even_mul_pow2 (hr : r ≤ pow2 53) (hj : j = 0 ∨ pow2 52 ≤ r) (he : r % 2 = 0) :
    r * pow2 j / gap (r * pow2 j) % 2 = 0 := by
  rcases hr.lt_or_eq with hr | rfl
  · rw [gap_mul_pow2 hr hj, Nat.mul_div_cancel _ (pow2_pos j), he]
  · have hp : pow2 53 * pow2 j = pow2 52 * pow2 (j + 1) := by
      rw [← pow2_add, ← pow2_add, Nat.add_comm j, ← Nat.add_assoc]
    rw [hp, gap_mul_pow2 (by decide) (.inr le_rfl), Nat.mul_div_cancel _ (pow2_pos _)]
    rfl

-- The bits of a double and where they stand.
theorem Fits.exists_bits (h : Fits m) :
    ∃ r j, m = r * pow2 j ∧ r < pow2 53 ∧ (j = 0 ∨ pow2 52 ≤ r) ∧ gap m = pow2 j := by
  refine ⟨m / gap m, m.log2 - 52, (Nat.div_mul_cancel (Decimal.gap_dvd h)).symm, ?_, ?_, rfl⟩
  · rw [Nat.div_lt_iff_lt_mul (gap_pos m), gap, ← pow2_add]
    exact (lt_pow2_log2_succ m).trans_le <| pow2_le_pow2 (by omega)
  · by_cases hl : m.log2 ≤ 52
    case pos => exact .inl (by omega)
    case neg =>
      have hm := ne_zero_of_lt_log2 (not_le.mp hl)
      refine .inr <| Nat.le_div_iff_mul_le (gap_pos m) |>.mpr ?_
      rw [gap, ← pow2_add, show 52 + (m.log2 - 52) = m.log2 by omega]
      exact Nat.log2_self_le hm

-- The next candidate is a gap away.
theorem Fits.add_gap_le (h : Fits m) (hk : Candidate k) (hlt : m < k) : m + gap m ≤ k := by
  refine add_le_of_dvd (Decimal.gap_dvd h) ?_ hlt
  by_cases hm : m = 0
  case pos => simp [hm, gap]
  case neg => exact hk.pow2_dvd <| (Nat.log2_self_le hm).trans hlt.le

theorem Fits.candidate_add_gap (h : Fits m) : Candidate (m + gap m) := by
  obtain ⟨r, j, hm, hr, hj, hg⟩ := h.exists_bits
  have hl := h.add_gap_le (.inr rfl) h.left
  have he : m + gap m = (r + 1) * pow2 j := by rw [hg, hm, Nat.succ_mul]
  rw [he] at hl ⊢
  exact candidate_mul_pow2 hr hl

end Candidates

section Nearest

variable {m n d k : Nat} {q q₁ q₂ : ℚ}

-- A number does not lie beyond the middle between its nearest candidate and another one, and on
-- that middle only if the bits of the nearest one make up an even number.
theorem isNearest_iff :
    IsNearest q m ↔ Candidate m ∧
      (∀ k, Candidate k → m < k → 2 * q ≤ m + k ∧ (2 * q = m + k → m / gap m % 2 = 0)) ∧
      ∀ k, Candidate k → k < m → m + k ≤ 2 * q ∧ (2 * q = m + k → m / gap m % 2 = 0) where
  mp h := by
    have he {k : Nat} (hk : Candidate k) (hne : k ≠ m) (hq : 2 * q = m + k) : m / gap m % 2 = 0 :=
      h.even k hk hne <| (abs_sub_eq_abs_sub_iff (by exact_mod_cast hne)).mpr hq
    refine ⟨h.candidate, fun k hk hlt => ⟨?_, he hk hlt.ne'⟩, fun k hk hlt => ⟨?_, he hk hlt.ne⟩⟩
    · exact (abs_sub_le_abs_sub_iff_of_lt (by exact_mod_cast hlt)).mp (h.nearest k hk)
    · exact (abs_sub_le_abs_sub_iff_of_gt (by exact_mod_cast hlt)).mp (h.nearest k hk)
  mpr := by
    rintro ⟨hc, hu, hl⟩
    refine ⟨hc, fun k hk => ?_, fun k hk hne he => ?_⟩
    · rcases lt_trichotomy m k with hlt | rfl | hlt
      · exact (abs_sub_le_abs_sub_iff_of_lt (by exact_mod_cast hlt)).mpr (hu k hk hlt).left
      · exact le_rfl
      · exact (abs_sub_le_abs_sub_iff_of_gt (by exact_mod_cast hlt)).mpr (hl k hk hlt).left
    · have hq := (abs_sub_eq_abs_sub_iff (by exact_mod_cast hne)).mp he
      rcases Nat.lt_or_gt_of_ne hne with hlt | hlt
      · exact (hl k hk hlt).right hq
      · exact (hu k hk hlt).right hq

namespace IsNearest

-- Two candidates can be nearest only from both sides of the middle between them. Between two whose
-- bits make up even numbers there is a third one, which would be nearer.
theorem le (h : IsNearest q m) (h' : IsNearest q k) : k ≤ m := by
  by_contra hc
  have hlt : m < k := not_le.mp hc
  obtain ⟨-, hu, -⟩ := isNearest_iff.mp h
  obtain ⟨-, -, hl⟩ := isNearest_iff.mp h'
  obtain ⟨hq, hm⟩ := hu k h'.candidate hlt
  obtain ⟨hq', hk⟩ := hl m h.candidate hlt
  have he : m / gap m % 2 = 0 := hm (by linarith)
  have he' : k / gap k % 2 = 0 := hk (by linarith)
  have hf : Fits m := h.candidate.resolve_right fun hm =>
    absurd h'.candidate.le_limit (not_le.mpr (hm ▸ hlt))
  clear hm hk
  rcases (hf.add_gap_le h'.candidate hlt).lt_or_eq with hlt' | rfl
  case inl =>
    have hg : m < m + gap m := Nat.lt_add_of_pos_right (gap_pos m)
    have hn := (hu _ hf.candidate_add_gap hg).left
    have hk : ((m + gap m : Nat) : ℚ) < k := by exact_mod_cast hlt'
    linarith
  case inr =>
    obtain ⟨r, j, hm, hr, hj, hg⟩ := hf.exists_bits
    have hr' : r % 2 = 0 := by
      rwa [hg, hm, Nat.mul_div_cancel _ (pow2_pos j)] at he
    have hr'' : r + 1 < pow2 53 := by
      have : pow2 53 % 2 = 0 := by decide
      omega
    rw [hg, hm, ← Nat.succ_mul, gap_mul_pow2 hr'' (hj.imp_right fun h => h.trans (Nat.le_succ r)),
      Nat.mul_div_cancel _ (pow2_pos j)] at he'
    omega

theorem unique (h : IsNearest q m) (h' : IsNearest q k) : m = k :=
  le_antisymm (h'.le h) (h.le h')

-- Of the numbers beyond all doubles the limit is the nearest candidate.
theorem limit_of_le (h : (limit : ℚ) ≤ q) : IsNearest q limit where
  candidate := .inr rfl
  nearest k hk := by
    have hk : (k : ℚ) ≤ limit := by exact_mod_cast hk.le_limit
    rw [abs_of_nonneg (by linarith), abs_of_nonneg (by linarith)]
    linarith
  even _ _ _ _ := by
    obtain ⟨e, he, hl⟩ := exists_limit_eq
    rw [hl, ← Nat.add_sub_cancel' he, pow2_add]
    exact even_mul_pow2 (by decide) (.inr le_rfl) (by decide)

theorem self (h : Candidate m) : IsNearest m m where
  candidate := h
  nearest k _ := by simp
  even k _ hne he := by
    rw [sub_self, abs_zero, abs_eq_zero, sub_eq_zero] at he
    exact absurd (by exact_mod_cast he.symm) hne

-- Between two numbers with the same nearest candidate it is the nearest one throughout.
theorem between (h₁ : IsNearest q₁ m) (h₂ : IsNearest q₂ m) (hl : q₁ ≤ q) (hu : q ≤ q₂) :
    IsNearest q m := by
  obtain ⟨hc, -, hl₁⟩ := isNearest_iff.mp h₁
  obtain ⟨-, hu₂, -⟩ := isNearest_iff.mp h₂
  refine isNearest_iff.mpr ⟨hc, fun k hk hlt => ?_, fun k hk hlt => ?_⟩
  · obtain ⟨hq, he⟩ := hu₂ k hk hlt
    exact ⟨by linarith, fun h => he (by linarith)⟩
  · obtain ⟨hq, he⟩ := hl₁ k hk hlt
    exact ⟨by linarith, fun h => he (by linarith)⟩

end IsNearest

end Nearest

section Rounding

variable {n d k : Nat}

-- The place of the last bit that rounding keeps.
def unit (n d : Nat) : Nat :=
  pow2 ((n / d).log2 - 52)

theorem unit_pos : 0 < unit n d :=
  pow2_pos _

theorem roundBits_eq_mul_unit :
    roundBits 53 0 n d = roundDiv n (d * unit n d) * unit n d := by
  have h : max 0 ((n / d).log2 + 1 - 53) = (n / d).log2 - 52 := by omega
  rw [roundBits, h, unit]

theorem pow2_log2_mul_le (hn : n / d ≠ 0) : pow2 (n / d).log2 * d ≤ n :=
  (Nat.mul_le_mul_right d (Nat.log2_self_le hn)).trans (Nat.div_mul_le_self n d)

theorem roundDiv_unit_le (hd : 0 < d) : roundDiv n (d * unit n d) ≤ pow2 53 := by
  refine roundDiv_le (Nat.mul_pos hd unit_pos) ?_
  have hlt := (Nat.div_lt_iff_lt_mul hd).mp <| lt_pow2_log2_succ (n / d)
  calc n ≤ pow2 ((n / d).log2 + 1) * d := hlt.le
    _ ≤ pow2 53 * unit n d * d := by
      rw [unit, ← pow2_add]
      exact Nat.mul_le_mul_right d <| pow2_le_pow2 (by omega)
    _ = pow2 53 * (d * unit n d) := by rw [Nat.mul_assoc, Nat.mul_comm d]

theorem pow2_le_roundDiv_unit (hd : 0 < d) (h : 52 < (n / d).log2) :
    pow2 52 ≤ roundDiv n (d * unit n d) := by
  have hn := ne_zero_of_lt_log2 h
  refine le_roundDiv (Nat.mul_pos hd unit_pos) ?_
  calc pow2 52 * (d * unit n d) = pow2 52 * unit n d * d := by rw [Nat.mul_assoc, Nat.mul_comm d]
    _ = pow2 (n / d).log2 * d := by rw [unit, ← pow2_add, Nat.add_sub_cancel' h.le]
    _ ≤ n := pow2_log2_mul_le hn

theorem roundBits_le_limit (hd : 0 < d) (hl : n < limit * d) : roundBits 53 0 n d ≤ limit := by
  have hg : unit n d ∣ limit := by
    refine Candidate.pow2_dvd (.inr rfl) ?_
    by_cases hn : n / d = 0
    case pos =>
      rw [hn]
      exact limit_pos
    case neg =>
      exact (Nat.log2_self_le hn).trans (Nat.div_lt_iff_lt_mul hd |>.mpr hl).le
  obtain ⟨c, hc⟩ := hg
  rw [roundBits_eq_mul_unit, hc, Nat.mul_comm]
  refine Nat.mul_le_mul_left _ <| roundDiv_le (Nat.mul_pos hd unit_pos) ?_
  rw [hc] at hl
  calc n ≤ unit n d * c * d := hl.le
    _ = c * (d * unit n d) := by rw [Nat.mul_comm (unit n d), Nat.mul_assoc, Nat.mul_comm d]

theorem candidate_roundBits (hd : 0 < d) (hl : n < limit * d) : Candidate (roundBits 53 0 n d) := by
  have hle := roundBits_le_limit hd hl
  rw [roundBits_eq_mul_unit] at hle ⊢
  exact candidate_mul_pow2 (roundDiv_unit_le hd) hle

-- Below the leading bit the candidates are closer to each other, but all of them are further away
-- than the leading bit itself.
theorem Candidate.dvd_or_far (hk : Candidate k) :
    unit n d ∣ k ∨ unit n d ∣ pow2 (n / d).log2 ∧ k < pow2 (n / d).log2 ∧ n / d ≠ 0 := by
  by_cases hl : (n / d).log2 ≤ 52
  case pos => exact .inl (by simp [unit, hl])
  case neg =>
    by_cases hle : pow2 (n / d).log2 ≤ k
    case pos => exact .inl <| hk.pow2_dvd hle
    case neg =>
      exact .inr ⟨pow2_dvd_pow2 (Nat.sub_le ..), not_le.mp hle, ne_zero_of_lt_log2 (not_le.mp hl)⟩

theorem abs_sub_mul_unit (hd : 0 < d) (j : Nat) :
    |(n / d : ℚ) - (j * unit n d : Nat)| =
      |(n / (d * unit n d : Nat) : ℚ) - (j : ℤ)| * unit n d := by
  have hd : (0 : ℚ) < d := by exact_mod_cast hd
  have hg : (0 : ℚ) < unit n d := by exact_mod_cast unit_pos
  calc |(n / d : ℚ) - (j * unit n d : Nat)|
      = |((n / (d * unit n d : Nat) : ℚ) - (j : ℤ)) * unit n d| := by
        congr 1
        push_cast
        field_simp
    _ = |(n / (d * unit n d : Nat) : ℚ) - (j : ℤ)| * unit n d := by rw [abs_mul, abs_of_pos hg]

theorem abs_sub_roundBits_le (hd : 0 < d) (hk : unit n d ∣ k) :
    |(n / d : ℚ) - roundBits 53 0 n d| ≤ |(n / d : ℚ) - k| := by
  obtain ⟨j, rfl⟩ := hk
  have hr := NearestEven.of_roundDiv n (Nat.mul_pos hd (unit_pos (n := n) (d := d)))
  rw [roundBits_eq_mul_unit, Nat.mul_comm _ j, abs_sub_mul_unit hd, abs_sub_mul_unit hd]
  exact mul_le_mul_of_nonneg_right (hr.nearest j) (Nat.cast_nonneg _)

theorem abs_sub_roundBits_lt (hd : 0 < d) (hk : Candidate k) (h : ¬unit n d ∣ k) :
    |(n / d : ℚ) - roundBits 53 0 n d| < |(n / d : ℚ) - k| := by
  obtain ⟨hu, hlt, hn⟩ := hk.dvd_or_far.resolve_left h
  have hd' : (0 : ℚ) < d := by exact_mod_cast hd
  have hle : (pow2 (n / d).log2 : ℚ) ≤ n / d := by
    rw [le_div_iff₀ hd']
    exact_mod_cast pow2_log2_mul_le hn
  have hlt : (k : ℚ) < pow2 (n / d).log2 := by exact_mod_cast hlt
  calc |(n / d : ℚ) - roundBits 53 0 n d| ≤ |(n / d : ℚ) - pow2 (n / d).log2| :=
        abs_sub_roundBits_le hd hu
    _ = n / d - pow2 (n / d).log2 := abs_of_nonneg (by linarith)
    _ < n / d - k := by linarith
    _ = |(n / d : ℚ) - k| := (abs_of_nonneg (by linarith)).symm

theorem isNearest_roundBits (hd : 0 < d) (hl : n < limit * d) :
    IsNearest (n / d) (roundBits 53 0 n d) where
  candidate := candidate_roundBits hd hl
  nearest k hk := by
    by_cases hu : unit n d ∣ k
    case pos => exact abs_sub_roundBits_le hd hu
    case neg => exact (abs_sub_roundBits_lt hd hk hu).le
  even k hk hne he := by
    have hg : (unit n d : ℚ) ≠ 0 := by exact_mod_cast unit_pos.ne'
    by_cases hu : unit n d ∣ k
    case neg => exact absurd he (abs_sub_roundBits_lt hd hk hu).ne'
    case pos =>
      obtain ⟨j, rfl⟩ := hu
      rw [roundBits_eq_mul_unit, Nat.mul_comm _ j] at he hne
      rw [abs_sub_mul_unit hd, abs_sub_mul_unit hd, mul_left_inj' hg] at he
      have hr := NearestEven.of_roundDiv n (Nat.mul_pos hd (unit_pos (n := n) (d := d)))
      have hj : (j : ℤ) ≠ roundDiv n (d * unit n d) := by
        intro hj
        exact hne (by rw [Int.natCast_inj.mp hj])
      have hev := hr.even j hj he
      rw [roundBits_eq_mul_unit]
      refine even_mul_pow2 (roundDiv_unit_le hd) ?_ (by exact_mod_cast Int.even_iff.mp hev)
      by_cases h52 : (n / d).log2 ≤ 52
      case pos => exact .inl (by omega)
      case neg => exact .inr <| pow2_le_roundDiv_unit hd (not_le.mp h52)

end Rounding

variable {a : Bool} {q q₁ q₂ : ℚ} {x y : Double} {n d : Nat}

theorem Rounds.unique (h : Rounds a q x) (h' : Rounds a q y) : x = y := by
  cases h <;> cases h'
  case finite.finite m _ h k _ h' =>
    cases h.unique h'
    rfl
  case finite.infinite m fits h h'   => exact absurd (h.unique h') fits.left.ne
  case infinite.finite h m fits h'   => exact absurd (h'.unique h) fits.left.ne
  case infinite.infinite => rfl

theorem Rounds.between (h₁ : Rounds a q₁ x) (h₂ : Rounds a q₂ x) (hl : q₁ ≤ q) (hu : q ≤ q₂) :
    Rounds a q x := by
  have h₀ : (0 : ℚ) ≤ one := Nat.cast_nonneg one
  have hl := mul_le_mul_of_nonneg_right hl h₀
  have hu := mul_le_mul_of_nonneg_right hu h₀
  cases h₁
  case finite h₁ =>
    cases h₂
    case finite h₂ => exact .finite _ (h₁.between h₂ hl hu)
  case infinite h₁ =>
    cases h₂
    case infinite h₂ => exact .infinite (h₁.between h₂ hl hu)

theorem nearest_eq_infinite (hf : ¬Fits (roundBits 53 0 n d)) : nearest a n d = .infinite a := by
  simp only [nearest, hf, dif_neg, not_false_eq_true]

-- Rounding a ratio finds the nearest double.
theorem rounds_nearest (a : Bool) (hd : 0 < d) (hq : q * one = n / d) :
    Rounds a q (nearest a n d) := by
  by_cases hl : n < limit * d
  case pos =>
    have h := isNearest_roundBits hd hl
    rw [← hq] at h
    by_cases hf : Fits (roundBits 53 0 n d)
    case pos =>
      rw [nearest_of_roundBits rfl hf]
      exact .finite hf h
    case neg =>
      rw [nearest_eq_infinite hf]
      exact .infinite <| h.candidate.resolve_left hf ▸ h
  case neg =>
    have hl := not_lt.mp hl
    rw [nearest_of_limit_le hd hl]
    refine .infinite <| .limit_of_le ?_
    rw [hq, le_div_iff₀ (by exact_mod_cast hd)]
    exact_mod_cast hl

theorem rounds_ofInt (n : ℤ) : Rounds (n < 0) n.natAbs (ofInt n) := by
  refine rounds_nearest _ Nat.one_pos ?_
  rw [Nat.cast_one, div_one, Nat.cast_mul]

theorem rounds_iff (hd : 0 < d) (hq : q * one = n / d) : Rounds a q x ↔ x = nearest a n d where
  mp h  := h.unique <| rounds_nearest a hd hq
  mpr h := h ▸ rounds_nearest a hd hq

end Double

end AddonBinding
