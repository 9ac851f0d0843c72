import AddonBinding.Proofs.ExactValue
import AddonBinding.Proofs.RoundTrip
import Mathlib.Data.Int.ModEq

namespace AddonBinding

section Residue

variable {signed : Bool} {bits : Nat} {k n : ℤ}

theorem reduce_modEq (signed : Bool) (bits : Nat) (n : ℤ) :
    reduce signed bits n ≡ n [ZMOD pow2 bits] := by
  cases signed
  case false => exact Int.mod_modEq ..
  case true  => exact Int.bmod_emod ..

theorem reduce_congr (h : k ≡ n [ZMOD pow2 bits]) : reduce signed bits k = reduce signed bits n := by
  cases signed
  case false => exact h
  case true  =>
    simp only [reduce, if_true]
    rw [← Int.emod_bmod, h, Int.emod_bmod]

end Residue

namespace IntegerType

variable {t : IntegerType} {policy : CoercionPolicy} {answer : Except DecodeError NativeValue}
  {x y : Double} {q : ℚ} {k m n : ℤ}

-- A conversion succeeds with a value of the type, and that value is the integer.
def Yields (t : IntegerType) (answer : Except DecodeError NativeValue) (n : ℤ) : Prop :=
  ∃ v, answer = .ok v ∧ (ScalarType.integer t).holds v ∧ v.integer? = some n

theorem integer?_exact (h : t.Contains n) : (t.exact n).integer? = some n := by
  cases hs : t.signed <;> simp only [exact, hs, Bool.false_eq_true, if_true, if_false]
  case false => exact congrArg some (h.toNat_ofInt hs)
  case true  => exact congrArg some (h.toInt_ofInt hs)

theorem yields_iff : t.Yields answer n ↔ t.Contains n ∧ answer = .ok (t.exact n) where
  mp := by
    intro ⟨v, ha, hv, hn⟩
    have ⟨k, hc, hk, _, he⟩ := eq_exact_of_holds hv
    cases hn.symm.trans hk
    exact ⟨hc, ha.trans (congrArg Except.ok he)⟩
  mpr := fun ⟨hc, ha⟩ => ⟨_, ha, holds_exact hc, integer?_exact hc⟩

theorem Yields.unique (h : t.Yields answer m) (h' : t.Yields answer n) : m = n := by
  obtain ⟨v, ha, _, hm⟩ := h
  obtain ⟨w, ha', _, hn⟩ := h'
  cases ha.symm.trans ha'
  exact Option.some.inj (hm.symm.trans hn)

theorem ofNumber_of_wrap (hp : policy.integerOverflow = .wrap) (hx : x.truncate? = some n) :
    t.ofNumber policy x = .ok (t.exact (reduce t.signed t.width.bits n)) := by
  have hn : x.isNaN = false := by
    cases x <;> cases hx
    rfl
  rw [ofNumber, hn, if_neg Bool.false_ne_true, hp, ← narrow_ofInt]
  exact wrap_of_truncate? _ hx

theorem ofNumber_of_reject (hp : policy.integerOverflow = .reject) (hx : x.isNaN = false) :
    t.ofNumber policy x = t.enforce x := by
  rw [ofNumber, hx, if_neg Bool.false_ne_true, hp]

theorem ofNumber_of_clamp (hp : policy.integerOverflow = .clamp) (hx : x.isNaN = false) :
    t.ofNumber policy x = t.clamp x := by
  rw [ofNumber, hx, if_neg Bool.false_ne_true, hp]

section Wrap

-- Every residue class has one integer in the range of a type.
theorem contains_modEq_iff :
    t.Contains m ∧ m ≡ n [ZMOD pow2 t.width.bits] ↔ m = reduce t.signed t.width.bits n where
  mp := fun ⟨hc, hm⟩ => hc.reduce_eq.symm.trans (reduce_congr hm)
  mpr h := h ▸ ⟨t.contains_reduce n, reduce_modEq ..⟩

-- Wrapping truncates and reduces modulo the number of values of the type.
theorem wrap_yields_residue (t : IntegerType) (policy : CoercionPolicy) (x : Double) (q : ℚ)
    (hp : policy.integerOverflow = .wrap) (hx : x.toRat? = some q) :
    ∃ n, t.Yields (t.ofNumber policy x) n ∧
      ∀ m, t.Contains m ∧ m ≡ towardZero q [ZMOD pow2 t.width.bits] ↔ m = n := by
  refine ⟨reduce t.signed t.width.bits (towardZero q), ?_, fun m => contains_modEq_iff⟩
  have ht := Double.truncate?_of_toRat? hx
  exact yields_iff.mpr ⟨t.contains_reduce _, ofNumber_of_wrap hp ht⟩

theorem wrap_yields_residue_octet :
    let t : IntegerType := ⟨.w8, false⟩
    let x := (Double.ofInt (-11)).div (.ofInt 2)
    x.toRat? = some (-11 / 2) ∧ t.Yields (t.ofNumber {} x) 251 := by
  intro t x
  have hx : x.toRat? = some (-11 / 2) := by decide +kernel
  have ⟨n, hn, h⟩ := wrap_yields_residue t {} x (-11 / 2) rfl hx
  have hm : towardZero (-11 / 2) = -5 := by decide +kernel
  rw [hm] at h
  exact ⟨hx, (h 251).mp ⟨⟨by decide, by decide⟩, by decide⟩ ▸ hn⟩

end Wrap

section Clamp

theorem toRat?_lower (t : IntegerType) : t.range.lower.toRat? = some (t.range.least : ℚ) :=
  Double.toRat?_ofInt_of_lt t.natAbs_least_lt

theorem toRat?_upper (t : IntegerType) : t.range.upper.toRat? = some (t.range.greatest : ℚ) :=
  Double.toRat?_ofInt_of_lt t.natAbs_greatest_lt

-- The nearest integer, a half going to the even one, limited to what numbers can reach of a type.
inductive Limits (t : IntegerType) : Double → ℤ → Prop
  | finite {x : Double} {q : ℚ} {n : ℤ} (value : x.toRat? = some q) (nearest : NearestEven q n) :
    Limits t x (max t.range.least (min n t.range.greatest))
  | below : Limits t (.infinite true) t.range.least
  | above : Limits t (.infinite false) t.range.greatest

theorem Limits.eq_of_toRat? (h : t.Limits x n) (hx : x.toRat? = some q) (hk : NearestEven q k) :
    n = max t.range.least (min k t.range.greatest) := by
  cases h
  case finite p m hm hp =>
    cases hp.symm.trans hx
    rw [hm.unique hk]
  all_goals cases hx

theorem Limits.mono (h : t.Limits x m) (h' : t.Limits y n) (hxy : y.lt x = false) : m ≤ n := by
  have hl := t.limits_ordered
  cases h
  case finite p m hm hx =>
    cases h'
    case finite q n hn hy =>
      have hpq : p ≤ q := not_lt.mp <| mt (Double.lt_iff hy hx).mpr (Bool.eq_false_iff.mp hxy)
      have := hm.mono hn hpq
      omega
    case below =>
      cases x <;> cases hx
      contradiction
    case above => omega
  case below => cases h' <;> omega
  case above =>
    cases h'
    case finite q n hn hy =>
      cases y <;> cases hy
      contradiction
    case below => contradiction
    case above => rfl

theorem round?_lower (t : IntegerType) : t.range.lower.round? = some t.range.least :=
  Double.round?_ofInt t.natAbs_least_lt

theorem round?_upper (t : IntegerType) : t.range.upper.round? = some t.range.greatest :=
  Double.round?_ofInt t.natAbs_greatest_lt

theorem limits_infinite {a : Bool}
    (h : ((Double.infinite a).clamp t.range.lower t.range.upper).round? = some n) :
    t.Limits (.infinite a) n := by
  have hl : (Double.infinite a).lt t.range.lower = a := by
    rw [IntegerRange.lower, Double.infinite_lt_ofInt t.natAbs_least_lt]
  have hu : t.range.upper.lt (.infinite a) = !a := by
    rw [IntegerRange.upper, Double.ofInt_lt_infinite t.natAbs_greatest_lt]
  rw [Double.clamp, hl, hu] at h
  cases a <;> simp only [Bool.false_eq_true, Bool.not_false, if_true, if_false] at h
  case false =>
    cases t.round?_upper.symm.trans h
    exact .above
  case true =>
    cases t.round?_lower.symm.trans h
    exact .below

-- The number is limited first. Where that changes it, rounding would not have brought it back across
-- the bound, which is an integer.
theorem limits_finite (hx : x.toRat? = some q) (hl : t.range.least ≤ n)
    (hu : n ≤ t.range.greatest)
    (h : (x.clamp t.range.lower t.range.upper).round? = some n) : t.Limits x n := by
  have ho := t.limits_ordered
  have ⟨k, hk, hn⟩ := Double.exists_nearestEven hx
  suffices he : max t.range.least (min k t.range.greatest) = n from he ▸ .finite hx hn
  unfold Double.clamp at h
  split at h
  case isTrue hlt =>
    have hlt := (Double.lt_iff hx t.toRat?_lower).mp hlt
    have := hn.mono (.intCast _) hlt.le
    cases t.round?_lower.symm.trans h
    omega
  case isFalse =>
    split at h
    case isTrue hlt =>
      have hlt := (Double.lt_iff t.toRat?_upper hx).mp hlt
      have := NearestEven.mono (.intCast _) hn hlt.le
      cases t.round?_upper.symm.trans h
      omega
    case isFalse =>
      cases hk.symm.trans h
      omega

theorem exists_limits (t : IntegerType) (hp : policy.integerOverflow = .clamp)
    (hx : x.isNaN = false) : ∃ n, t.Yields (t.ofNumber policy x) n ∧ t.Limits x n := by
  have ⟨n, hn, hl, hu, hc⟩ := t.exists_clamp hx
  refine ⟨n, yields_iff.mpr ⟨contains_of_limits hl hu, (ofNumber_of_clamp hp hx).trans hc⟩, ?_⟩
  cases x
  case nan      => contradiction
  case infinite => exact limits_infinite hn
  case finite   => exact limits_finite rfl hl hu hn

-- Limiting and then rounding a number is the same as rounding and then limiting it, and keeps the
-- order of numbers.
theorem clamp_yields_nearest (t : IntegerType) (policy : CoercionPolicy) (x : Double)
    (hp : policy.integerOverflow = .clamp) (hx : x.isNaN = false) :
    t.range.lower.toRat? = some (t.range.least : ℚ) ∧
      t.range.upper.toRat? = some (t.range.greatest : ℚ) ∧
      ∃ n, t.Yields (t.ofNumber policy x) n ∧ t.Limits x n ∧
        ∀ y m, y.isNaN = false → x.lt y = false → t.Yields (t.ofNumber policy y) m → m ≤ n := by
  have ⟨n, hn, hl⟩ := t.exists_limits hp hx
  refine ⟨t.toRat?_lower, t.toRat?_upper, n, hn, hl, fun y m hy hxy hm => ?_⟩
  have ⟨k, hk, hk'⟩ := t.exists_limits hp hy
  exact hm.unique hk ▸ hk'.mono hl hxy

theorem clamp_yields_nearest_octet :
    let t : IntegerType := ⟨.w8, false⟩
    let policy : CoercionPolicy := { integerOverflow := .clamp }
    let x := (Double.ofInt 511).div (.ofInt 2)
    x.isNaN = false ∧ NearestEven (511 / 2) 256 ∧ t.Yields (t.ofNumber policy x) 255 := by
  intro t policy x
  have hx : x.toRat? = some (511 / 2) := by decide +kernel
  have hn : NearestEven (511 / 2) 256 := by
    refine .of_half ?_ fun _ => ⟨128, rfl⟩
    norm_num [abs_le]
  have ⟨_, _, n, h, hl, _⟩ := clamp_yields_nearest t policy x rfl (Double.isNaN_of_toRat? hx)
  have he : n = 255 := (hl.eq_of_toRat? hx hn).trans (by decide)
  exact ⟨Double.isNaN_of_toRat? hx, hn, he ▸ h⟩

end Clamp

end IntegerType

end AddonBinding
