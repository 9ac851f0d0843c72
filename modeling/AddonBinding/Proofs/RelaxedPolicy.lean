import AddonBinding.Proofs.IntegerConversion
import AddonBinding.Proofs.Results

namespace AddonBinding

inductive NaNRule.Relaxes : NaNRule → NaNRule → Prop
  | refl (rule : NaNRule) : Relaxes rule rule
  | zero                  : Relaxes .zero .reject

inductive OverflowRule.Relaxes : OverflowRule → OverflowRule → Prop
  | refl (rule : OverflowRule) : Relaxes rule rule
  | wrap                       : Relaxes .wrap .reject

-- The first policy lets pass whatever the second one does.
structure CoercionPolicy.Relaxes (q p : CoercionPolicy) : Prop where
  strings  : p.numericStrings → q.numericStrings
  blanks   : p.emptyStringAsZero → q.emptyStringAsZero
  nan      : q.integerNaN.Relaxes p.integerNaN
  overflow : q.integerOverflow.Relaxes p.integerOverflow

variable {p q : CoercionPolicy} {x : Double} {v : HostValue} {n : NativeValue}

namespace HostValue

theorem toNumber_text_eq_ok_iff {s : String} :
    (text s).toNumber p = .ok x ↔
      p.numericStrings ∧ (isBlank s → p.emptyStringAsZero) ∧ numberOfText? s = some x := by
  cases hs : p.numericStrings <;> cases hb : isBlank s <;> cases he : p.emptyStringAsZero
  all_goals cases hn : numberOfText? s <;> simp [toNumber, hs, hb, he, hn]

theorem toNumber_of_relaxes (h : q.Relaxes p) (hv : v.toNumber p = .ok x) :
    v.toNumber q = .ok x := by
  cases v
  case text s =>
    rw [toNumber_text_eq_ok_iff] at hv ⊢
    exact ⟨h.strings hv.left, h.blanks ∘ hv.right.left, hv.right.right⟩
  all_goals exact hv

end HostValue

namespace IntegerType

variable {t : IntegerType}

theorem ofNaN_of_relaxes {r r' : NaNRule} (h : r'.Relaxes r) (hn : t.ofNaN r = .ok n) :
    t.ofNaN r' = .ok n := by
  cases h
  case refl => exact hn
  case zero => contradiction

-- An integer between the bounds is its own residue.
theorem wrap_of_enforce (rule : NaNRule) (hx : x.isNaN = false) (h : t.enforce x = .ok n) :
    t.wrap rule x = .ok n := by
  have ⟨k, hk, hl, hu, hn⟩ := (enforce_eq_ok_iff hx).mp h
  rw [wrap_of_truncate? rule hk, narrow_ofInt, (contains_of_limits hl hu).reduce_eq, hn]

theorem wrap_of_relaxes {r r' : NaNRule} (h : r'.Relaxes r) (hn : t.wrap r x = .ok n) :
    t.wrap r' x = .ok n := by
  unfold wrap at hn ⊢
  split at hn
  case isTrue hi  => rw [if_pos hi, ofNaN_of_relaxes h hn]
  case isFalse hi => rw [if_neg hi, hn]

theorem ofNumber_of_relaxes (h : q.Relaxes p) (hn : t.ofNumber p x = .ok n) :
    t.ofNumber q x = .ok n := by
  unfold ofNumber at hn ⊢
  split at hn
  case isTrue hx  => rw [if_pos hx, ofNaN_of_relaxes h.nan hn]
  case isFalse hx =>
    rw [if_neg hx]
    have ho := h.overflow
    generalize p.integerOverflow = o, q.integerOverflow = o' at ho hn ⊢
    cases ho
    case refl =>
      cases o
      case wrap => exact wrap_of_relaxes h.nan hn
      all_goals exact hn
    case wrap => exact wrap_of_enforce _ (Bool.eq_false_iff.mpr hx) hn

section Reject

variable {r : ℚ}

theorem ofNumber_eq_ok_iff (hp : p.integerOverflow = .reject) (hx : x.toRat? = some r) :
    t.ofNumber p x = .ok n ↔
      (t.range.least ≤ towardZero r ∧ towardZero r ≤ t.range.greatest) ∧
        n = t.exact (towardZero r) := by
  have hn := Double.isNaN_of_toRat? hx
  rw [ofNumber_of_reject hp hn, enforce_eq_ok_iff hn, Double.truncate?_of_toRat? hx]
  simp [and_assoc]

-- An integer between the bounds is what it is rounded and limited to.
theorem ofNumber_of_integral {k : ℤ} (hq : q.integerOverflow = .clamp)
    (hx : x.toRat? = some (k : ℚ)) (hl : t.range.least ≤ k) (hu : k ≤ t.range.greatest) :
    t.ofNumber q x = .ok (t.exact k) := by
  have ⟨m, hm, hk⟩ := t.exists_limits hq (Double.isNaN_of_toRat? hx)
  have he : m = k := by
    rw [hk.eq_of_toRat? hx (.intCast k)]
    omega
  exact he ▸ (yields_iff.mp hm).right

end Reject

end IntegerType

namespace ScalarType

theorem decode_of_relaxes {t : ScalarType} (h : q.Relaxes p) (hd : t.decode p v = .ok n) :
    t.decode q v = .ok n := by
  cases t
  case integer t =>
    have ⟨x, hx, hn⟩ := bind_eq_ok_iff.mp hd
    exact bind_eq_ok_iff.mpr ⟨x, HostValue.toNumber_of_relaxes h hx, IntegerType.ofNumber_of_relaxes h hn⟩
  case float t =>
    have ⟨x, hx, hn⟩ := bind_eq_ok_iff.mp hd
    exact bind_eq_ok_iff.mpr ⟨x, HostValue.toNumber_of_relaxes h hx, hn⟩
  all_goals exact hd

end ScalarType

-- What a policy accepts, a more relaxed one accepts with the same result, though it may compute it in
-- another way. Numbers that are not refused as out of range are truncated, and those that are
-- integers are not changed by limiting them either.
theorem relaxed_decode_agrees :
    (∀ (t : ScalarType) (p q : CoercionPolicy) (v : HostValue) (n : NativeValue),
      q.Relaxes p → t.decode p v = .ok n → t.decode q v = .ok n) ∧
    ∀ (t : IntegerType) (p : CoercionPolicy) (x : Double) (r : ℚ),
      p.integerOverflow = .reject → x.toRat? = some r →
      t.range.lower.toRat? = some (t.range.least : ℚ) ∧
      t.range.upper.toRat? = some (t.range.greatest : ℚ) ∧
      ((∃ n, (ScalarType.integer t).decode p (.number x) = .ok n) ↔
        t.range.least ≤ towardZero r ∧ towardZero r ≤ t.range.greatest) ∧
      ∀ n, (ScalarType.integer t).decode p (.number x) = .ok n →
        n.integer? = some (towardZero r) ∧
        ∀ (k : ℤ) (q : CoercionPolicy), r = k → q.integerOverflow = .clamp →
          (ScalarType.integer t).decode q (.number x) = .ok n := by
  refine ⟨fun t p q v n => ScalarType.decode_of_relaxes, fun t p x r hp hx => ?_⟩
  simp only [ScalarType.decode_integer_number, IntegerType.ofNumber_eq_ok_iff hp hx]
  refine ⟨t.toRat?_lower, t.toRat?_upper, by simp, fun n ⟨⟨hl, hu⟩, hn⟩ => ⟨?_, ?_⟩⟩
  · rw [hn, IntegerType.integer?_exact (IntegerType.contains_of_limits hl hu)]
  · rintro k q rfl hq
    rw [towardZero_intCast] at hl hu hn
    rw [hn, IntegerType.ofNumber_of_integral hq hx hl hu]

theorem relaxed_decode_agrees_octet :
    let octet : ScalarType := .integer ⟨.w8, false⟩
    let relaxed : CoercionPolicy := { numericStrings := true }
    let clamping : CoercionPolicy := { integerOverflow := .clamp }
    let x := (Double.ofInt 511).div (.ofInt 2)
    octet.decode .strict (.number x) = .ok (.unsigned 255) ∧
      octet.decode relaxed (.number x) = .ok (.unsigned 255) ∧
      octet.decode .strict (.number (.ofInt 255)) = .ok (.unsigned 255) ∧
      octet.decode clamping (.number (.ofInt 255)) = .ok (.unsigned 255) := by
  intro octet relaxed clamping x
  have hd : octet.decode .strict (.number x) = .ok (.unsigned 255) := by decide +kernel
  have hd' : octet.decode .strict (.number (.ofInt 255)) = .ok (.unsigned 255) := by
    decide +kernel
  have hr : relaxed.Relaxes .strict := ⟨nofun, nofun, .zero, .wrap⟩
  have hx : (Double.ofInt 255).toRat? = some 255 := by decide +kernel
  have ⟨hrelaxed, hreject⟩ := relaxed_decode_agrees
  have ⟨_, _, _, hclamp⟩ := hreject ⟨.w8, false⟩ .strict (.ofInt 255) 255 rfl hx
  exact ⟨hd, hrelaxed octet _ _ _ _ hr hd, hd', (hclamp _ hd').right 255 clamping rfl rfl⟩

end AddonBinding
