import AddonBinding.Proofs.MathFunctions
import AddonBinding.Proofs.NumberGrammar

-- Integers that are written in base 16, 8 or 2 are accumulated in double precision, so that digits
-- which no longer fit are lost one by one, and not in one rounding at the end.

namespace AddonBinding

-- A remainder that is dropped before rounding is missed only by a half, which then goes to the even
-- neighbour below instead of the one above.
theorem roundDiv_mul_add_eq_iff {p t g b : Nat} (hg : g % 2 = 0) (h₀ : 0 < g) (ht : t < b) :
    roundDiv (p * b + t) (g * b) = roundDiv p g ↔ t = 0 ∨ ¬(2 * (p % g) = g ∧ p / g % 2 = 0) := by
  have hb : (p * b + t) / b = p := by
    rw [Nat.mul_comm, Nat.mul_add_div (by omega), Nat.div_eq_of_lt ht, Nat.add_zero]
  have hq : (p * b + t) / (g * b) = p / g := by
    rw [Nat.mul_comm g, ← Nat.div_div_eq_div_mul, hb]
  have hr : (p * b + t) % (g * b) = p % g * b + t := by
    rw [Nat.mul_comm g, Nat.mod_mul, hb, Nat.mul_comm p, Nat.mul_add_mod, Nat.mod_eq_of_lt ht,
      Nat.add_comm, Nat.mul_comm b]
  obtain ⟨h, rfl⟩ := Nat.dvd_of_mod_eq_zero hg
  rw [roundDiv, roundDiv, hq, hr, Nat.mul_assoc]
  generalize p % (2 * h) = u
  generalize p / (2 * h) = k
  clear hq hr hb
  -- The divisor is even, so that the number without the remainder is a half or misses it by one.
  rcases lt_trichotomy u h with hu | rfl | hu
  · have hm : u * b + b ≤ h * b := Nat.succ_mul u b ▸ Nat.mul_le_mul_right b hu
    rw [if_pos (by omega), if_pos (by omega)]
    omega
  · split_ifs <;> omega
  · have hm : h * b + b ≤ u * b := Nat.succ_mul h b ▸ Nat.mul_le_mul_right b hu
    split_ifs <;> omega

theorem log2_mul_pow2_add {n t k : Nat} (hn : n ≠ 0) (ht : t < pow2 k) :
    (n * pow2 k + t).log2 = n.log2 + k := by
  have hp := Nat.mul_pos (Nat.pos_of_ne_zero hn) (pow2_pos k)
  refine (Nat.log2_eq_iff (by omega)).mpr ⟨?_, ?_⟩
  · calc 2 ^ (n.log2 + k) = pow2 n.log2 * pow2 k := pow2_add ..
      _ ≤ n * pow2 k := Nat.mul_le_mul_right _ (Nat.log2_self_le hn)
      _ ≤ n * pow2 k + t := Nat.le_add_right ..
  · calc n * pow2 k + t < (n + 1) * pow2 k := by rw [Nat.succ_mul]; omega
      _ ≤ pow2 (n.log2 + 1) * pow2 k := Nat.mul_le_mul_right _ (lt_pow2_log2_succ n)
      _ = pow2 (n.log2 + k + 1) := by rw [← pow2_add, Nat.add_right_comm]

theorem log2_mul_pow2 {n k : Nat} (hn : n ≠ 0) : (n * pow2 k).log2 = n.log2 + k :=
  log2_mul_pow2_add hn (pow2_pos k)

namespace Double

open Decimal (gap gap_pos Basin.Near)

variable {n p s t d k j : Nat}

-- The middle between two numbers of 53 bits, of which the lower one is even.
def TiesDown (p : Nat) : Prop :=
  2 * (p % gap p) = gap p ∧ p / gap p % 2 = 0

instance : Decidable (TiesDown p) :=
  inferInstanceAs (Decidable (_ ∧ _))

theorem unit_mul_pow2_add (hp : p ≠ 0) (hw : 52 ≤ p.log2) (ht : t < pow2 j) :
    unit (p * pow2 j + t) 1 = gap p * pow2 j := by
  rw [unit, Nat.div_one, log2_mul_pow2_add hp ht, gap, ← pow2_add]
  congr 1
  omega

theorem roundBits_mul_pow2_add (hp : p ≠ 0) (hw : 52 ≤ p.log2) (ht : t < pow2 j) :
    roundBits 53 0 (p * pow2 j + t) 1 =
      roundDiv (p * pow2 j + t) (gap p * pow2 j) * (gap p * pow2 j) := by
  rw [roundBits_eq_mul_unit, unit_mul_pow2_add hp hw ht, Nat.one_mul]

theorem fits_roundBits_iff (hd : 0 < d) :
    Fits (roundBits 53 0 n d) ↔ roundBits 53 0 n d < limit where
  mp h  := h.left
  mpr h := by
    obtain ⟨m, k, hm, _, hr⟩ := roundBits_bits 0 n (by decide : 0 < 53) hd
    rw [hr] at h ⊢
    exact fits_mul_pow2 hm h

theorem ofInt_natCast (n : Nat) : ofInt n = nearest false (n * one) 1 := by
  have hn : decide ((n : ℤ) < 0) = false := decide_eq_false (Int.natCast_nonneg n).not_gt
  rw [ofInt, hn, Int.natAbs_natCast]

theorem rounds_natCast_iff {x : Double} : Rounds false n x ↔ x = ofInt n := by
  rw [ofInt_natCast]
  refine rounds_iff Nat.one_pos ?_
  rw [Nat.cast_one, div_one, Nat.cast_mul]

section Dropped

theorem roundBits_add_eq_iff (hw : 52 < p.log2) (ht : t < pow2 j) :
    roundBits 53 0 (p * pow2 j + t) 1 = roundBits 53 0 (p * pow2 j) 1 ↔ t = 0 ∨ ¬TiesDown p := by
  have hp := ne_zero_of_lt_log2 hw
  have hg : gap p % 2 = 0 := by
    rw [gap, show p.log2 - 52 = 1 + (p.log2 - 53) by omega, pow2_add]
    exact Nat.mul_mod_right ..
  have h₀ := roundBits_mul_pow2_add hp hw.le (pow2_pos j)
  rw [Nat.add_zero, roundDiv_mul (pow2_pos j)] at h₀
  rw [roundBits_mul_pow2_add hp hw.le ht, h₀,
    Nat.mul_left_inj (Nat.mul_pos (gap_pos p) (pow2_pos j)).ne']
  exact roundDiv_mul_add_eq_iff hg (gap_pos p) ht

theorem limit_le_mul_one_iff {k : Nat} (hk : k + 1074 = 2098) : limit ≤ n * one ↔ pow2 k ≤ n := by
  have hl : limit = pow2 k * one := by
    unfold limit
    rw [pow2_mul_one, hk]
  rw [hl, Nat.mul_le_mul_right_iff one_pos]

theorem nearest_inj {a : Bool} (hn : n < limit) (hs : s < limit) :
    nearest a n 1 = nearest a s 1 ↔ roundBits 53 0 n 1 = roundBits 53 0 s 1 where
  mpr h := by simp only [nearest, h]
  mp h := by
    have hc {m : Nat} (hm : m < limit) : Candidate (roundBits 53 0 m 1) :=
      candidate_roundBits Nat.one_pos (lt_of_lt_of_eq hm (Nat.mul_one limit).symm)
    simp only [nearest] at h
    split at h <;> split at h
    case isTrue.isTrue          => exact (finite.inj h).right
    case isTrue.isFalse         => cases h
    case isFalse.isTrue         => cases h
    case isFalse.isFalse hf hf' => rw [(hc hn).resolve_left hf, (hc hs).resolve_left hf']

-- Dropping the bits after a number of more than 53 bits is seen exactly if that number is rounded
-- down from a middle.
theorem nearest_add_eq_iff (hw : 52 < p.log2) (ht : t < pow2 j) :
    nearest false (p * pow2 j + t) 1 = nearest false (p * pow2 j) 1 ↔
      limit ≤ p * pow2 j + t ∨ t = 0 ∨ ¬TiesDown p := by
  have hp := ne_zero_of_lt_log2 hw
  have hm : 0 < p * pow2 j := Nat.mul_pos (Nat.pos_of_ne_zero hp) (pow2_pos j)
  by_cases hl : limit ≤ p * pow2 j + t
  case pos =>
    have hl' : limit ≤ p * pow2 j := by
      obtain ⟨e, _, he⟩ := exists_limit_eq
      rw [he] at hl ⊢
      refine (Nat.le_log2 hm.ne').mp ?_
      rw [log2_mul_pow2 hp, ← log2_mul_pow2_add hp ht]
      exact (Nat.le_log2 (Nat.add_pos_left hm t).ne').mpr hl
    have hi {m : Nat} (h : limit ≤ m) : nearest false m 1 = .infinite false :=
      nearest_of_limit_le Nat.one_pos (le_of_eq_of_le (Nat.mul_one limit) h)
    exact iff_of_true ((hi hl).trans (hi hl').symm) (.inl hl)
  case neg =>
    have hl := not_le.mp hl
    rw [nearest_inj hl (by omega), roundBits_add_eq_iff hw ht, or_iff_right (not_le.mpr hl)]

end Dropped

section Accumulation

theorem roundBits_mul_one_mul_pow2 :
    roundBits 53 0 (n * one * pow2 k) 1 = roundBits 53 0 (n * one) 1 * pow2 k := by
  by_cases hn : n = 0
  case pos => simp [hn, roundBits, roundDiv]
  case neg =>
    have hw : 52 ≤ (n * one).log2 := by
      unfold one
      rw [log2_mul_pow2 hn]
      omega
    have hm := (Nat.mul_pos (Nat.pos_of_ne_zero hn) one_pos).ne'
    have h₀ := roundBits_mul_pow2_add hm hw (pow2_pos k)
    have h₁ := roundBits_mul_pow2_add hm hw (pow2_pos 0)
    rw [Nat.add_zero, roundDiv_mul (pow2_pos _)] at h₀ h₁
    rw [Nat.mul_one] at h₁
    rw [h₀, h₁, Nat.mul_assoc, Nat.mul_one]

theorem mul_finite {m : Nat} (hs : Fits s) (hm : Fits m) :
    (finite false s hs).mul (finite false m hm) = nearest false (s * m) one :=
  rfl

theorem infinite_mul {m : Nat} (hm : Fits m) (h₀ : m ≠ 0) :
    (infinite false).mul (finite false m hm) = .infinite false := by
  rw [mul, if_neg h₀, bne_self_eq_false]

-- A power of two moves the bits.
theorem ofInt_mul_pow2 (n : Nat) (hk : k + 1074 < 2098) :
    (ofInt n).mul (ofInt (pow2 k)) = ofInt (n * pow2 k : Nat) := by
  obtain ⟨hf₂, hp⟩ := ofInt_pow2 hk
  have hr := roundBits_mul_one_mul_pow2 (n := n) (k := k)
  rw [hp, ofInt_natCast, ofInt_natCast, Nat.mul_right_comm]
  by_cases hf : Fits (roundBits 53 0 (n * one) 1)
  case pos =>
    have hd : roundBits 53 0 (n * one) 1 * (pow2 k * one) * 1 =
        roundBits 53 0 (n * one * pow2 k) 1 * one := by
      rw [hr, Nat.mul_one, Nat.mul_assoc]
    rw [nearest_of_roundBits rfl hf, mul_finite, nearest_congr one_pos Nat.one_pos hd]
    simp only [nearest, roundBits_idem (by decide : 0 < 53) Nat.one_pos]
  case neg =>
    have hl : limit ≤ roundBits 53 0 (n * one) 1 :=
      not_lt.mp <| hf ∘ (fits_roundBits_iff Nat.one_pos).mpr
    have hf' : ¬Fits (roundBits 53 0 (n * one * pow2 k) 1) := by
      rw [hr]
      have hle := Nat.le_mul_of_pos_right (roundBits 53 0 (n * one) 1) (pow2_pos k)
      exact fun h => absurd h.left <| not_lt.mpr <| hl.trans hle
    rw [nearest_eq_infinite hf, nearest_eq_infinite hf',
      infinite_mul hf₂ (Nat.mul_pos (pow2_pos k) one_pos).ne']

theorem add_finite {m : Nat} (hs : Fits s) (hm : Fits m) :
    (finite false s hs).add (finite false m hm) = nearest false (s + m) 1 := by
  have h : signed false s + signed false m = (s + m : Nat) := rfl
  have hn : ¬((s + m : Nat) : ℤ) < 0 := (Int.natCast_nonneg _).not_gt
  simp only [add, h, Int.natAbs_natCast, hn, decide_false, Bool.and_self, ite_self]

-- Less than half of the distance to the next double is lost.
theorem nearest_add_of_lt_gap {a : Bool} (h₀ : 0 < s) (hs : Fits s) (ht : 2 * t < gap s) :
    nearest a (s + t) 1 = .finite a s hs := by
  have hn : Basin.Near s (s + t) 1 := by constructor <;> omega
  exact nearest_of_roundBits (hn.roundBits_eq h₀ hs Nat.one_pos) hs

-- A digit is added to a number of at most 53 bits, and lost by any other.
def keepDigit (base n digit : Nat) : Nat :=
  if n < pow2 53 then base * n + digit else base * n

theorem ofInt_mul_pow2_add (hk : k ≤ 4) (hn : n < pow2 53) (hd : Fits (d * one)) :
    (ofInt (n * pow2 k : Nat)).add (.finite false (d * one) hd) = ofInt (n * pow2 k + d : Nat) := by
  have hl : n * pow2 (k + 1074) < limit := by
    calc n * pow2 (k + 1074) < pow2 53 * pow2 (k + 1074) :=
          Nat.mul_lt_mul_of_pos_right hn (pow2_pos _)
      _ = pow2 (53 + (k + 1074)) := (pow2_add ..).symm
      _ < limit := pow2_lt_limit (by omega)
  have hf : Fits (n * pow2 (k + 1074)) := fits_mul_pow2 hn hl
  have hx : ofInt (n * pow2 k : Nat) = .finite false _ hf := by
    rw [ofInt_natCast, Nat.mul_assoc, pow2_mul_one]
    exact nearest_of_roundBits (roundBits_self (by decide) hn (Nat.zero_le _)) hf
  rw [hx, add_finite, ofInt_natCast, ← pow2_mul_one, ← Nat.mul_assoc, ← Nat.add_mul]

theorem pow2_le_gap (h : pow2 (k + 52) ≤ s) : pow2 k ≤ gap s := by
  have := (Nat.le_log2 (Nat.pos_iff_ne_zero.mp <| (pow2_pos _).trans_le h)).mpr h
  exact pow2_le_pow2 (by omega)

theorem ofInt_mul_pow2_add_of_le (hn : pow2 53 ≤ n) (hd : d < pow2 k) (hf : Fits (d * one)) :
    (ofInt (n * pow2 k : Nat)).add (.finite false (d * one) hf) = ofInt (n * pow2 k : Nat) := by
  rw [ofInt_natCast]
  by_cases hs : Fits (roundBits 53 0 (n * pow2 k * one) 1)
  case neg =>
    rw [nearest_eq_infinite hs]
    rfl
  case pos =>
    have hle : pow2 (1 + (k + 1074) + 52) ≤ roundBits 53 0 (n * pow2 k * one) 1 := by
      have he (e : Nat) : 1 + e + 52 = 53 + e := by omega
      refine pow2_le_roundBits (by decide) Nat.one_pos ?_
      rw [Nat.mul_one, he, pow2_add 53, ← pow2_mul_one k, ← Nat.mul_assoc]
      exact Nat.mul_le_mul_right _ <| Nat.mul_le_mul_right _ hn
    have h₀ := (pow2_pos _).trans_le hle
    have hg : 2 * (d * one) < gap (roundBits 53 0 (n * pow2 k * one) 1) := by
      calc 2 * (d * one) < 2 * (pow2 k * one) :=
            Nat.mul_lt_mul_of_pos_left (Nat.mul_lt_mul_of_pos_right hd one_pos) Nat.two_pos
        _ = pow2 (1 + (k + 1074)) := by rw [pow2_mul_one, pow2_add 1]
        _ ≤ gap _ := pow2_le_gap hle
    rw [nearest_of_roundBits rfl hs, add_finite, nearest_add_of_lt_gap h₀ hs hg]

theorem radixStep_ofInt (hk : k ≤ 4) (hd : d < pow2 k) :
    HostValue.radixStep (pow2 k) (ofInt n) d = ofInt (keepDigit (pow2 k) n d : Nat) := by
  have hd' : (d : ℤ).natAbs < pow2 53 := hd.trans_le <| pow2_le_pow2 (by omega)
  have hs : decide ((d : ℤ) < 0) = false := decide_eq_false (Int.natCast_nonneg d).not_gt
  obtain ⟨hf, hx⟩ := ofInt_finite hd'
  rw [HostValue.radixStep, ofInt_mul_pow2 n (by omega), hx, hs, keepDigit, Nat.mul_comm (pow2 k)]
  split
  case isTrue hn  => exact ofInt_mul_pow2_add hk hn hf
  case isFalse hn => exact ofInt_mul_pow2_add_of_le (not_lt.mp hn) hd hf

theorem foldl_radixStep {values : List Nat} (hk : k ≤ 4) (hv : ∀ d ∈ values, d < pow2 k) :
    values.foldl (HostValue.radixStep (pow2 k)) (ofInt n) =
      ofInt (values.foldl (keepDigit (pow2 k)) n : Nat) := by
  induction values generalizing n
  case nil => rw [List.foldl_nil, List.foldl_nil]
  case cons d values ih =>
    obtain ⟨hd, hv⟩ := List.forall_mem_cons.mp hv
    rw [List.foldl_cons, List.foldl_cons, radixStep_ofInt hk hd, ih hv]

end Accumulation

end Double

namespace NumberText

open Double

variable {base n r k : Nat} {mark : Char} {ds : List Char}

-- The number of digits at the end that come too late: those before them make up a number of more
-- than 53 bits, and without the last one of those it was none yet.
structure Dropped (base n r : Nat) : Prop where
  short : n / base ^ (r + 1) < pow2 53
  long  : r = 0 ∨ pow2 53 ≤ n / base ^ r

theorem Dropped.le {r' : Nat} (hb : 0 < base) (h : Dropped base n r) (h' : Dropped base n r') :
    r' ≤ r := by
  by_contra hlt
  have hlt := not_le.mp hlt
  have hl : pow2 53 ≤ n / base ^ r' := h'.long.resolve_left (by omega)
  have hle : n / base ^ r' ≤ n / base ^ (r + 1) :=
    Nat.div_le_div_left (Nat.pow_le_pow_right hb hlt) (Nat.pow_pos hb)
  exact absurd h.short <| not_lt.mpr <| hl.trans hle

theorem Dropped.unique {r' : Nat} (hb : 0 < base) (h : Dropped base n r) (h' : Dropped base n r') :
    r = r' :=
  le_antisymm (h'.le hb h) (h.le hb h')

theorem Dropped.keepDigit {d : Nat} (hd : d < base) (h : Dropped base n r) :
    ∃ r', Dropped base (base * n + d) r' ∧
      Double.keepDigit base (n / base ^ r * base ^ r) d =
        (base * n + d) / base ^ r' * base ^ r' := by
  have hb : 0 < base := by omega
  have hn (j : Nat) : (base * n + d) / base ^ (j + 1) = n / base ^ j := by
    rw [Nat.pow_succ', ← Nat.div_div_eq_div_mul, Nat.mul_add_div hb, Nat.div_eq_of_lt hd,
      Nat.add_zero]
  unfold Double.keepDigit
  by_cases hl : pow2 53 ≤ n / base ^ r
  case pos =>
    have hle : pow2 53 ≤ n / base ^ r * base ^ r :=
      hl.trans <| Nat.le_mul_of_pos_right _ (Nat.pow_pos hb)
    refine ⟨r + 1, ⟨?_, .inr ?_⟩, ?_⟩
    · rw [hn]
      exact h.short
    · rwa [hn]
    · rw [if_neg (not_lt.mpr hle), hn, Nat.pow_succ', Nat.mul_left_comm]
  case neg =>
    obtain rfl := h.long.resolve_right hl
    rw [Nat.pow_zero, Nat.div_one] at hl
    refine ⟨0, ⟨?_, .inl rfl⟩, ?_⟩
    · rw [hn, Nat.pow_zero, Nat.div_one]
      exact not_le.mp hl
    · simp [not_le.mp hl]

theorem exists_dropped {values : List Nat} (hv : ∀ d ∈ values, d < base) :
    ∃ r, Dropped base (values.foldl (fun n d => base * n + d) 0) r ∧
      values.foldl (keepDigit base) 0 =
        values.foldl (fun n d => base * n + d) 0 / base ^ r * base ^ r := by
  induction values using List.reverseRecOn
  case nil => exact ⟨0, ⟨by simp, .inl rfl⟩, by simp⟩
  case append_singleton values d ih =>
    obtain ⟨hv, hd⟩ := List.forall_mem_append.mp hv
    obtain ⟨r, hr, hk⟩ := ih hv
    simp only [List.foldl_append, List.foldl_cons, List.foldl_nil, hk]
    exact hr.keepDigit (hd d (by simp))

theorem lt_of_forall₂_digit {values : List Nat} (h : List.Forall₂ (Digit base) ds values) :
    ∀ d ∈ values, d < base := by
  induction h
  case nil => exact List.forall_mem_nil _
  case cons hc _ ih => exact List.forall_mem_cons.mpr ⟨hc.left, ih⟩

theorem Digit.isHostBlank {c : Char} {d : Nat} (h : Digit base c d) :
    Text.isHostBlank c = false := by
  have hl : "0123456789abcdef".toList.all (!Text.isHostBlank ·) := by decide
  have hu : "0123456789ABCDEF".toList.all (!Text.isHostBlank ·) := by decide
  rcases h.right with h | h
  · simpa using List.all_eq_true.mp hl c (List.mem_of_getElem? h)
  · simpa using List.all_eq_true.mp hu c (List.mem_of_getElem? h)

theorem Digits.isHostBlank (h : Digits base ds n) : ∀ c ∈ ds, Text.isHostBlank c = false := by
  induction h
  case one h => simpa using h.isHostBlank
  case snoc hc ih => simpa [or_imp, forall_and] using ⟨ih, hc.isHostBlank⟩

theorem Dropped.ofInt_eq_iff (h : Dropped (pow2 k) n r) :
    ofInt (n / pow2 k ^ r * pow2 k ^ r : Nat) = ofInt n ↔
      pow2 1024 ≤ n ∨ n % pow2 k ^ r = 0 ∨ ¬TiesDown (n / pow2 k ^ r) := by
  rcases h.long with rfl | hl
  case inl =>
    rw [Nat.pow_zero, Nat.div_one, Nat.mul_one, Nat.mod_one]
    exact iff_of_true rfl <| .inr <| .inl rfl
  case inr =>
    have hb : pow2 k ^ r = pow2 (k * r) := (Nat.pow_mul ..).symm
    rw [hb] at hl ⊢
    have hw : 52 < (n / pow2 (k * r)).log2 :=
      (Nat.le_log2 (Nat.pos_iff_ne_zero.mp <| (pow2_pos 53).trans_le hl)).mpr hl
    have ht : n % pow2 (k * r) * one < pow2 (k * r + 1074) := by
      rw [← pow2_mul_one]
      exact Nat.mul_lt_mul_of_pos_right (Nat.mod_lt _ (pow2_pos _)) Double.one_pos
    have hn : n * one = n / pow2 (k * r) * pow2 (k * r + 1074) + n % pow2 (k * r) * one := by
      rw [← pow2_mul_one, ← Nat.mul_assoc, ← Nat.add_mul, Nat.div_add_mod']
    rw [ofInt_natCast, ofInt_natCast, Nat.mul_assoc, pow2_mul_one, eq_comm, hn,
      nearest_add_eq_iff hw ht, ← hn, limit_le_mul_one_iff (by decide : 1024 + 1074 = 2098),
      Nat.mul_eq_zero, or_iff_left Double.one_pos.ne']

theorem exists_pow2_of_mem_marks (h : (mark, base) ∈ marks) : ∃ k, base = pow2 k ∧ k ≤ 4 := by
  have hm : ∀ m ∈ marks, ∃ k < 5, m.2 = pow2 k := by decide
  obtain ⟨k, hk, hb⟩ := hm _ h
  exact ⟨k, hb, Nat.le_of_lt_succ hk⟩

end NumberText

namespace HostValue

open NumberText Double

variable {base n : Nat} {mark : Char} {ds : List Char}

theorem radixNumber?_of_digits (hm : (mark, base) ∈ marks) (hd : Digits base ds n) :
    ∃ r, Dropped base n r ∧
      radixNumber? base ds = some (ofInt (n / base ^ r * base ^ r : Nat)) := by
  obtain ⟨hne, values, hv, rfl⟩ := digits_iff.mp hd
  obtain ⟨k, rfl, hk⟩ := exists_pow2_of_mem_marks hm
  have hlt := lt_of_forall₂_digit hv
  obtain ⟨r, hr, hkept⟩ := exists_dropped hlt
  refine ⟨r, hr, ?_⟩
  rw [← hkept, ← foldl_radixStep hk hlt]
  refine (radixNumber?_eq_some_iff (pow2_le_pow2 hk)).mpr ⟨hne, values, hv, ?_⟩
  rw [Nat.cast_zero, ofInt_zero]

theorem numberOfText?_radix (hm : (mark, base) ∈ marks) (hd : Digits base ds n) :
    numberOfText? (String.ofList ('0' :: mark :: ds)) = radixNumber? base ds := by
  have h₀ : ∀ m ∈ marks, Text.isHostBlank m.1 = false := by decide
  have ht : Text.Trimmed Text.isHostBlank ('0' :: mark :: ds) ('0' :: mark :: ds) := by
    refine Text.trimmed_self ?_
    simp only [List.forall_mem_cons]
    exact ⟨by decide, h₀ _ hm, hd.isHostBlank⟩
  rw [numberOfText?, String.toList_ofList, ← ht.eq_trim, trimmedNumber?_radix hm]

-- A literal is read as if the digits that come too late were zeros. That is the nearest double
-- unless the digits before them are a middle which is rounded down and one of them is not a zero.
theorem reads_radix_literals (hm : (mark, base) ∈ marks) (hd : Digits base ds n) :
    (∃ r, Dropped base n r) ∧
    ∀ r, Dropped base n r →
      ∃ x, numberOfText? (String.ofList ('0' :: mark :: ds)) = some x ∧
        Rounds false (n / base ^ r * base ^ r : Nat) x ∧
        (Rounds false n x ↔ pow2 1024 ≤ n ∨ n % base ^ r = 0 ∨ ¬TiesDown (n / base ^ r)) := by
  obtain ⟨r, hr, hx⟩ := radixNumber?_of_digits hm hd
  refine ⟨⟨r, hr⟩, fun r' hr' => ?_⟩
  obtain ⟨k, rfl, -⟩ := exists_pow2_of_mem_marks hm
  obtain rfl := hr.unique (pow2_pos k) hr'
  refine ⟨_, (numberOfText?_radix hm hd).trans hx, rounds_natCast_iff.mpr rfl, ?_⟩
  rw [rounds_natCast_iff, hr.ofInt_eq_iff]

-- Between 2 ^ 53 + 2 and 2 ^ 53 + 4 the even number is the upper one.
theorem reads_radix_literals_odd :
    ∃ x, numberOfText? "0x200000000000031" = some x ∧ Rounds false (0x200000000000031 : Nat) x := by
  have hd : Digits 16 "200000000000031".toList 0x200000000000031 := by
    refine digits_iff.mpr ⟨by simp, [2, 0, 0, 0, 0, 0, 0, 0, 0, 0, 0, 0, 0, 3, 1], ?_, by simp⟩
    repeat refine .cons (by decide) ?_
    exact .nil
  have hr : Dropped 16 0x200000000000031 1 := ⟨by decide, .inr (by decide)⟩
  obtain ⟨_, hread⟩ := @reads_radix_literals 16 _ 'x' _ (by decide) hd
  obtain ⟨x, hx, -, hiff⟩ := hread 1 hr
  exact ⟨x, hx, hiff.mpr <| .inr <| .inr <| by decide⟩

-- Between 2 ^ 53 and 2 ^ 53 + 2 it is the lower one, and the last digit is missed.
theorem radix_literal_not_nearest :
    ∃ x, numberOfText? "0x200000000000011" = some x ∧
      ¬Rounds false (0x200000000000011 : Nat) x := by
  refine ⟨ofInt 0x200000000000000, by decide +kernel, ?_⟩
  rw [rounds_natCast_iff]
  decide +kernel

end HostValue

end AddonBinding
