import AddonBinding.Proofs.RadixRounding
import AddonBinding.Proofs.RangeMembership
import AddonBinding.Proofs.SinglePrecision

-- Which literals are defaults of a type, and that a default is what the type makes of the same value
-- when it is passed.

namespace AddonBinding

namespace Literal

def integer? : Literal → Option ℤ
  | .integer n  => some n.toInt
  | .unsigned n => some n.toNat
  | _           => none

-- The value of a finite number, before any rounding.
def toRat? : Literal → Option ℚ
  | .integer n  => some n.toInt
  | .unsigned n => some n.toNat
  | .float x    => x.toRat?
  | _           => none

-- The number that the host has for a literal, where integers are doubles too.
def number? : Literal → Option Double
  | .integer n  => some (.ofInt n.toInt)
  | .unsigned n => some (.ofInt n.toNat)
  | .float x    => some x
  | _           => none

-- The host value that stands for a literal where it is passed.
def toHost : Literal → HostValue
  | .boolean b  => .boolean b
  | .integer n  => .number (.ofInt n.toInt)
  | .unsigned n => .number (.ofInt n.toNat)
  | .float x    => .number x
  | .text s     => .text s

variable {l : Literal} {n : ℤ} {x : Double}

theorem toHost_of_integer? (h : l.integer? = some n) : l.toHost = .number (.ofInt n) := by
  cases l <;> cases h <;> rfl

theorem toHost_of_number? (h : l.number? = some x) : l.toHost = .number x := by
  cases l <;> simp only [number?, Option.some.injEq, reduceCtorEq] at h
  all_goals rw [toHost, h]

theorem isSome_number? {q : ℚ} (h : l.toRat? = some q) : l.number?.isSome := by
  cases l <;> first | contradiction | rfl

end Literal

-- Half a unit above the greatest number of the precision, where rounding to it begins to overflow.
def FloatType.overflow (t : FloatType) : ℚ :=
  if t.single then (2 ^ 24 - 1 / 2) * 2 ^ 104 else (2 ^ 53 - 1 / 2) * 2 ^ 971

inductive ScalarType.Admits : ScalarType → Literal → Prop
  | text {kind : TextKind} {s : String} : Admits (.text kind) (.text s)
  | boolean {b : Bool} : Admits .boolean (.boolean b)
  | integer {t : IntegerType} {l : Literal} {n : ℤ} (value : l.integer? = some n)
      (range : t.Contains n) : Admits (.integer t) l
  | finite {t : FloatType} {l : Literal} {q : ℚ} (value : l.toRat? = some q)
      (range : |q| < t.overflow) : Admits (.float t) l
  | unrestricted {t : FloatType} {l : Literal} (numeric : l.number?.isSome)
      (unrestricted : t.unrestricted) : Admits (.float t) l

namespace Double

variable {x : Double} {n : ℤ}

-- The integers of a word are far below the overflow of either precision, and rounding takes them no
-- further than to the next power of two.
theorem exists_toRat?_ofInt (h : n.natAbs < 2 ^ 64) :
    ∃ q, (ofInt n).toRat? = some q ∧ |q| < (2 ^ 24 - 1 / 2) * 2 ^ 104 := by
  obtain ⟨e, -, he, hl, -⟩ := exists_exponent
  have hp : 0 < pow2 e := pow2_pos e
  have hr : roundBits 53 0 (n.natAbs * one) 1 < pow2 (53 + (12 + e)) := by
    have hn : n.natAbs * pow2 e < 2 ^ 64 * pow2 e := Nat.mul_lt_mul_of_pos_right h hp
    have h₁ : pow2 53 * (pow2 12 * pow2 e) = 2 ^ 65 * pow2 e := (Nat.mul_assoc ..).symm
    have h₂ : pow2 12 * pow2 e = 4096 * pow2 e := rfl
    rw [roundBits_lt_iff Nat.one_pos (by decide) (Nat.zero_le _), he, Nat.one_mul, pow2_add 12, h₁, h₂]
    omega
  have hf : Fits (roundBits 53 0 (n.natAbs * one) 1) := by
    rw [fits_roundBits_iff Nat.one_pos, hl]
    exact hr.trans_le (Nat.pow_le_pow_right (by decide) (by omega))
  obtain ⟨q, hq⟩ : ∃ q, (finite (n < 0) _ hf).toRat? = some q := ⟨_, rfl⟩
  rw [ofInt, nearest, dif_pos hf]
  refine ⟨q, hq, (abs_lt_iff_of_toRat? he hq).mpr ?_⟩
  have h₁ : pow2 (53 + (12 + e)) = 2 ^ 65 * pow2 e := by rw [← Nat.add_assoc, pow2_add]; rfl
  have h₂ : pow2 (104 + e) = 2 ^ 104 * pow2 e := pow2_add 104 e
  have h₃ : pow2 24 * pow2 (104 + e) = 2 ^ 128 * pow2 e := by rw [h₂, ← Nat.mul_assoc]; rfl
  omega

theorem isFinite_of_toRat? {q : ℚ} (h : x.toRat? = some q) : x.isFinite := by
  cases x <;> first | contradiction | rfl

theorem exists_toRat?_of_isFinite (h : x.isFinite) : ∃ q, x.toRat? = some q := by
  cases x <;> first | contradiction | exact ⟨_, rfl⟩

end Double

namespace FloatType

variable {t : FloatType} {l : Literal} {x : Double} {n : ℤ} {q : ℚ} {v : NativeValue}

theorem holds_round_iff : t.holds (t.round x) ↔ t.unrestricted ∨ (t.round x).isFinite where
  mp h  := by simpa using (Bool.and_eq_true_iff.mp h).left
  mpr h := holds_round h

theorem isFinite_round_iff (h : x.toRat? = some q) : (t.round x).isFinite ↔ |q| < t.overflow := by
  unfold round overflow
  cases t.single <;> simp only [Bool.false_eq_true, if_true, if_false]
  case true  => exact Double.isFinite_toSingle_iff h
  case false => exact iff_of_true (Double.isFinite_of_toRat? h) (Double.abs_lt_of_toRat? h)

theorem isFinite_of_round (h : (t.round x).isFinite) : x.isFinite := by
  unfold round at h
  cases x
  case finite => rfl
  all_goals split at h <;> exact h

theorem represent_eq (t : FloatType) (l : Literal) :
    (ScalarType.float t).represent l = l.number?.map (.float <| t.round ·) := by
  cases l <;> rfl

theorem ofLiteral?_eq_some_iff :
    (ScalarType.float t).ofLiteral? l = some v ↔
      ∃ x, l.number? = some x ∧ (t.unrestricted ∨ (t.round x).isFinite) ∧
        v = .float (t.round x) := by
  simp only [ScalarType.ofLiteral?, Option.filter_eq_some_iff, represent_eq, Option.map_eq_some_iff,
    ← holds_round_iff]
  constructor
  · rintro ⟨⟨x, hx, rfl⟩, hv⟩
    exact ⟨x, hx, hv, rfl⟩
  · rintro ⟨x, hx, hv, rfl⟩
    exact ⟨⟨x, hx, rfl⟩, hv⟩

theorem single_overflow_le (t : FloatType) : (2 ^ 24 - 1 / 2) * 2 ^ 104 ≤ t.overflow := by
  have hp : (2 ^ 104 : ℚ) ≤ 2 ^ 971 := pow_le_pow_right₀ (by norm_num) (by norm_num)
  unfold overflow
  split
  case isTrue  => exact le_rfl
  case isFalse => exact mul_le_mul (by norm_num) hp (by positivity) (by norm_num)

theorem isFinite_round_ofInt (t : FloatType) (h : n.natAbs < 2 ^ 64) :
    (t.round (.ofInt n)).isFinite := by
  obtain ⟨q, hx, hq⟩ := Double.exists_toRat?_ofInt h
  exact (isFinite_round_iff hx).mpr (hq.trans_le t.single_overflow_le)

theorem abs_intCast_lt_overflow (t : FloatType) (h : n.natAbs < 2 ^ 64) :
    |(n : ℚ)| < t.overflow := by
  have hn : |(n : ℚ)| < 2 ^ 64 := by
    rw [← Int.cast_abs, Int.abs_eq_natAbs]
    exact_mod_cast h
  exact hn.trans (lt_of_lt_of_le (by norm_num) t.single_overflow_le)

-- An integer is below the overflow as it is and as a double; other numbers are doubles.
theorem isFinite_round_iff_of_number? (h : l.number? = some x) :
    (t.round x).isFinite ↔ ∃ q, l.toRat? = some q ∧ |q| < t.overflow := by
  cases l <;> simp only [Literal.number?, Option.some.injEq, reduceCtorEq] at h <;> rw [← h]
  case integer w =>
    have hw : w.toInt.natAbs < 2 ^ 64 := by
      have := w.le_toInt
      have := w.toInt_lt
      omega
    exact iff_of_true (t.isFinite_round_ofInt hw) ⟨_, rfl, t.abs_intCast_lt_overflow hw⟩
  case unsigned w =>
    have hw : (w.toNat : ℤ).natAbs < 2 ^ 64 := by
      have := w.toNat_lt
      omega
    exact iff_of_true (t.isFinite_round_ofInt hw) ⟨_, rfl, t.abs_intCast_lt_overflow hw⟩
  case float y =>
    constructor
    · intro hf
      obtain ⟨q, hq⟩ := Double.exists_toRat?_of_isFinite (isFinite_of_round hf)
      exact ⟨q, hq, (isFinite_round_iff hq).mp hf⟩
    · rintro ⟨q, hl, hq⟩
      exact (isFinite_round_iff hl).mpr hq

theorem admits_iff : (ScalarType.float t).Admits l ↔
    ∃ x, l.number? = some x ∧ (t.unrestricted ∨ (t.round x).isFinite) := by
  constructor
  · rintro (_ | _)
    case finite q hq hl =>
      obtain ⟨x, hx⟩ := Option.isSome_iff_exists.mp (Literal.isSome_number? hl)
      exact ⟨x, hx, .inr <| (isFinite_round_iff_of_number? hx).mpr ⟨q, hl, hq⟩⟩
    case unrestricted hu hl =>
      obtain ⟨x, hx⟩ := Option.isSome_iff_exists.mp hl
      exact ⟨x, hx, .inl hu⟩
  · rintro ⟨x, hx, hu | hf⟩
    · exact .unrestricted (Option.isSome_of_eq_some hx) hu
    · obtain ⟨q, hl, hq⟩ := (isFinite_round_iff_of_number? hx).mp hf
      exact .finite hl hq

theorem ofNumber_eq_ok (h : t.unrestricted ∨ (t.round x).isFinite) :
    t.ofNumber x = .ok (.float (t.round x)) := by
  rw [ofNumber, if_neg]
  rcases h with h | h
  · simp [h]
  · simp [h, isFinite_of_round h]

end FloatType

namespace IntegerType

variable {t : IntegerType} {l : Literal} {n : ℤ} {v : NativeValue}

theorem integer?_of_represent (h : (ScalarType.integer t).represent l = some v) :
    v.integer? = l.integer? := by
  cases l <;> simp only [ScalarType.represent, reduceCtorEq] at h
  case integer w =>
    split_ifs at h with hs hw <;> cases h
    · rfl
    · exact congrArg some (IntegerRange.toNat_toUInt64 hw)
  case unsigned w =>
    split_ifs at h with hs hw <;> cases h
    · rfl
    · exact congrArg some (IntegerRange.toInt_toInt64 hw)

theorem represent_of_contains (h : l.integer? = some n) (hc : t.Contains n) :
    (ScalarType.integer t).represent l = some (t.exact n) := by
  cases hs : t.signed
  case false =>
    have hn := hc.toNat_ofInt hs
    cases l <;> cases h <;> simp only [ScalarType.represent, exact, hs]
    case integer w =>
      have hw : 0 ≤ w := IntegerRange.nonneg_iff.mpr (by omega)
      have he : w.toUInt64 = .ofInt w.toInt := by
        rw [← UInt64.toNat_inj, ← Int.natCast_inj, hn, IntegerRange.toNat_toUInt64 hw]
      simp [hw, he]
    case unsigned w =>
      have he : UInt64.ofInt w.toNat = w := by rw [← UInt64.toNat_inj, ← Int.natCast_inj, hn]
      simp [he]
  case true =>
    have hn := hc.toInt_ofInt hs
    cases l <;> cases h <;> simp only [ScalarType.represent, exact, hs]
    case integer w => simp
    case unsigned w =>
      have hw : w.toNat < pow2 63 := by
        have : w.toNat < 2 ^ 63 := by
          have := (Int64.ofInt w.toNat).toInt_lt
          omega
        exact this
      have he : w.toInt64 = .ofInt w.toNat := by
        rw [← Int64.toInt_inj, hn, IntegerRange.toInt_toInt64 hw]
      simp [hw, he]

theorem ofLiteral?_eq_some_iff :
    (ScalarType.integer t).ofLiteral? l = some v ↔
      ∃ n, l.integer? = some n ∧ t.Contains n ∧ v = t.exact n := by
  rw [ScalarType.ofLiteral?, Option.filter_eq_some_iff]
  constructor
  · rintro ⟨hr, hv⟩
    obtain ⟨n, hc, hn, -, he⟩ := eq_exact_of_holds hv
    exact ⟨n, integer?_of_represent hr ▸ hn, hc, he⟩
  · rintro ⟨n, hn, hc, rfl⟩
    exact ⟨represent_of_contains hn hc, holds_exact hc⟩

theorem admits_iff : (ScalarType.integer t).Admits l ↔ ∃ n, l.integer? = some n ∧ t.Contains n where
  mp  := fun (.integer hn hc) => ⟨_, hn, hc⟩
  mpr := fun ⟨_, hn, hc⟩ => .integer hn hc

end IntegerType

namespace ScalarType

variable {t : ScalarType} {l : Literal} {v : NativeValue}

theorem exists_ofLiteral?_iff (t : ScalarType) (l : Literal) :
    (∃ v, t.ofLiteral? l = some v) ↔ t.Admits l := by
  cases t
  case text | boolean =>
    constructor
    · rintro ⟨v, h⟩
      cases l <;> first | contradiction | constructor
    · rintro (_ | _)
      exact ⟨_, rfl⟩
  case integer t =>
    simp only [IntegerType.ofLiteral?_eq_some_iff, IntegerType.admits_iff]
    exact ⟨fun ⟨_, n, hn, hc, _⟩ => ⟨n, hn, hc⟩, fun ⟨n, hn, hc⟩ => ⟨_, n, hn, hc, rfl⟩⟩
  case float t =>
    simp only [FloatType.ofLiteral?_eq_some_iff, FloatType.admits_iff]
    exact ⟨fun ⟨_, x, hx, hf, _⟩ => ⟨x, hx, hf⟩, fun ⟨x, hx, hf⟩ => ⟨_, x, hx, hf, rfl⟩⟩

theorem decode_toHost (policy : CoercionPolicy) (h : t.ofLiteral? l = some v) (hs : t.Safe v) :
    t.decode policy l.toHost = .ok v := by
  cases t
  case text | boolean =>
    cases l <;> cases h
    rfl
  case integer t =>
    obtain ⟨n, hn, hc, rfl⟩ := IntegerType.ofLiteral?_eq_some_iff.mp h
    obtain ⟨hl, hu⟩ := hc.within fun hw => hs hw n (IntegerType.integer?_exact hc)
    rw [Literal.toHost_of_integer? hn, decode_integer_number, IntegerType.ofNumber_ofInt policy hl hu]
  case float t =>
    obtain ⟨x, hx, hf, rfl⟩ := FloatType.ofLiteral?_eq_some_iff.mp h
    rw [Literal.toHost_of_number? hx, decode_float_number, FloatType.ofNumber_eq_ok hf]

end ScalarType

-- A literal is a default of a type where the type has its value or rounds it to one of its own, and
-- an integer stays what it is. Passing the literal gives the same, whatever the policy, up to where
-- the integers of 64 bits are no longer all doubles.
theorem ofLiteral?_exact (t : ScalarType) (l : Literal) :
    ((∃ v, t.ofLiteral? l = some v) ↔ t.Admits l) ∧
      ∀ v, t.ofLiteral? l = some v → t.holds v ∧
        (∀ s, t = .integer s → ∃ n, l.integer? = some n ∧ v.integer? = some n) ∧
        (t.Safe v → ∀ policy, t.decode policy l.toHost = .ok v) := by
  refine ⟨t.exists_ofLiteral?_iff l, fun v h => ⟨ScalarType.holds_of_ofLiteral? h, ?_,
    fun hs policy => ScalarType.decode_toHost policy h hs⟩⟩
  rintro s rfl
  obtain ⟨n, hn, hc, rfl⟩ := IntegerType.ofLiteral?_eq_some_iff.mp h
  exact ⟨n, hn, IntegerType.integer?_exact hc⟩

theorem ofLiteral?_exact_unsigned :
    let wide : ScalarType := .integer ⟨.w64, true⟩
    let single : ScalarType := .float ⟨true, false⟩
    let policy : CoercionPolicy := { integerNaN := .reject, integerOverflow := .reject }
    (wide.ofLiteral? (.unsigned 9007199254740991) = some (.integer 9007199254740991) ∧
        wide.decode policy (.number (.ofInt 9007199254740991)) = .ok (.integer 9007199254740991)) ∧
      single.ofLiteral? (.unsigned 16777217) = some (.float (.ofInt 16777216)) ∧
        single.decode policy (.number (.ofInt 16777217)) = .ok (.float (.ofInt 16777216)) := by
  intro wide single policy
  have hw : wide.ofLiteral? (.unsigned 9007199254740991) = some (.integer 9007199254740991) := by
    decide
  have hs : single.ofLiteral? (.unsigned 16777217) = some (.float (.ofInt 16777216)) := by
    decide +kernel
  exact ⟨⟨hw, ((ofLiteral?_exact ..).right _ hw).right.right (by decide) policy⟩, hs,
    ((ofLiteral?_exact ..).right _ hs).right.right trivial policy⟩

end AddonBinding
