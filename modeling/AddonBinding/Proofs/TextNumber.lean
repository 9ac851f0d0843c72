import AddonBinding.HostValue.Number
import AddonBinding.Proofs.RoundTrip
import Mathlib.Data.List.TakeWhile

namespace AddonBinding

namespace Double

variable {x y : Double}

theorem isNaN_nearest (a : Bool) (n d : Nat) : (nearest a n d).isNaN = false := by
  simp only [nearest]
  split <;> rfl

theorem isNegative_nearest (a : Bool) (n d : Nat) : (nearest a n d).isNegative = a := by
  simp only [nearest]
  split <;> rfl

-- Numbers from zero to infinity.
structure Magnitude (x : Double) : Prop where
  number   : x.isNaN = false
  positive : x.isNegative = false

theorem Magnitude.nearest (n d : Nat) : Magnitude (nearest false n d) :=
  ⟨isNaN_nearest .., isNegative_nearest ..⟩

theorem Magnitude.ofNat (n : Nat) : Magnitude (ofInt n) := by
  rw [ofInt, decide_eq_false (not_lt.mpr (Int.natCast_nonneg n))]
  exact .nearest ..

theorem Magnitude.add (hx : Magnitude x) (hy : Magnitude y) : Magnitude (x.add y) := by
  obtain ⟨hx, hx'⟩ := hx
  obtain ⟨hy, hy'⟩ := hy
  cases x <;> cases y <;> simp_all [isNaN, isNegative]
  case finite.finite a m _ b n _ =>
    have hs : decide ((signed false m + signed false n) < 0) = false :=
      decide_eq_false (not_lt.mpr (Int.natCast_nonneg (m + n)))
    simp only [Double.add, Bool.and_self, hs, ite_self]
    exact .nearest ..
  all_goals constructor <;> rfl

theorem Magnitude.mul_ofInt {n : Nat} (hx : Magnitude x) (hn : 0 < n) (hl : n < pow2 53) :
    Magnitude (x.mul (ofInt n)) := by
  obtain ⟨hx, hx'⟩ := hx
  have ⟨_, hf⟩ := ofInt_finite (n := n) hl
  have hz : n * one ≠ 0 := (Nat.mul_pos hn one_pos).ne'
  have hs : decide ((n : Int) < 0) = false := decide_eq_false (not_lt.mpr (Int.natCast_nonneg n))
  rw [hf]
  cases x <;> simp_all [isNaN, isNegative, Double.mul]
  case finite => exact .nearest ..
  case infinite => constructor <;> rfl

end Double

namespace HostValue

open Double

variable {s : String} {x : Double}

theorem base?_bounds {mark : Char} {base : Nat} (h : base? mark = some base) :
    0 < base ∧ base ≤ 16 := by
  unfold base? at h
  split at h <;> simp at h <;> omega

theorem magnitude_of_foldlM {step : Double → Char → Option Double}
    (hs : ∀ {y z c}, Magnitude y → step y c = some z → Magnitude z) {digits : List Char}
    {y : Double} (hy : Magnitude y) (h : digits.foldlM step y = some x) : Magnitude x := by
  induction digits generalizing y
  case nil          => exact Option.some.inj h ▸ hy
  case cons c cs ih =>
    rw [List.foldlM_cons, Option.bind_eq_bind, Option.bind_eq_some_iff] at h
    have ⟨z, hz, h⟩ := h
    exact ih (hs hy hz) h

-- Digits only add to what comes before them. A base of zero or an infinite digit could turn
-- infinity into not-a-number.
theorem magnitude_of_radixNumber? {base : Nat} (hb : 0 < base) (hl : base ≤ 16)
    {digits : List Char} (h : radixNumber? base digits = some x) : Magnitude x := by
  unfold radixNumber? at h
  split at h
  case isTrue  => contradiction
  case isFalse =>
    refine magnitude_of_foldlM (fun {y z c} hy hz => ?_) ⟨rfl, rfl⟩ h
    have hm : Magnitude (y.mul (ofInt base)) := hy.mul_ofInt hb (hl.trans_lt (by decide))
    cases hd : Numeral.digitValue? base c
    all_goals simp [hd] at hz
    case some digit =>
      rw [← hz]
      exact hm.add (.ofNat digit)

theorem mem_of_mem_splitSign {cs : List Char} {c : Char} (h : c ∈ (Numeral.splitSign cs).2) :
    c ∈ cs := by
  unfold Numeral.splitSign at h
  split at h
  case h_1 => exact .tail _ h
  case h_2 => exact .tail _ h
  case h_3 => exact h

theorem toLower_of_isDecimalChar {c : Char} (h : isDecimalChar c) : c.toLower ≠ 'n' := by
  rcases (Bool.or_eq_true _ _).mp h with hd | hs
  case inl =>
    have hu : c.val ≤ '9'.val := of_decide_eq_true ((Bool.and_eq_true _ _).mp hd).right
    have hl : ¬(c.val ≥ 'A'.val ∧ c.val ≤ 'Z'.val) :=
      fun h => absurd (UInt32.le_trans h.left hu) (by decide)
    have hc : c.toLower = c := dif_neg hl
    rw [hc]
    rintro rfl
    contradiction
  case inr =>
    have hl : "+-.eE".toList.all fun c => c.toLower ≠ 'n' := by decide
    exact of_decide_eq_true <| List.all_eq_true.mp hl c (List.contains_iff_mem.mp hs)

-- Every word has an n, which decimals do not have.
theorem ofWord?_of_decimal {cs : List Char} (h : ∀ c ∈ cs, isDecimalChar c) : ofWord? cs = none := by
  have hn (word : List Char) (hw : 'n' ∈ word) :
      (Numeral.splitSign cs).2.map Char.toLower ≠ word := by
    rintro rfl
    have ⟨c, hc, hl⟩ := List.mem_map.mp hw
    exact toLower_of_isDecimalChar (h c (mem_of_mem_splitSign hc)) hl
  simp only [ofWord?]
  rw [if_neg, if_neg]
  · exact hn _ (by decide)
  · exact not_or.mpr ⟨hn _ (by decide), hn _ (by decide)⟩

theorem decimalNumber?_eq_some {cs : List Char} (h : decimalNumber? cs = some x) :
    ∃ n, Numeral.ofDecimalText? cs = some n ∧ n.toDouble = x := by
  unfold decimalNumber? at h
  split at h
  case isTrue hc =>
    have hc := List.all_eq_true.mp ((Bool.and_eq_true _ _).mp hc).left
    rw [ofText?, ofWord?_of_decimal hc] at h
    exact Option.map_eq_some_iff.mp (by simpa using h)
  case isFalse => contradiction

theorem isNaN_of_decimalNumber? {cs : List Char} (h : decimalNumber? cs = some x) :
    x.isNaN = false := by
  have ⟨n, _, hn⟩ := decimalNumber?_eq_some h
  rw [← hn, Numeral.toDouble, Decimal.toDouble]
  repeat' split
  all_goals first | rw [isNaN_nearest] | rfl

theorem isNaN_of_trimmedNumber? {cs : List Char} (h : trimmedNumber? cs = some x) :
    x.isNaN = false := by
  unfold trimmedNumber? at h
  split at h
  · exact Option.some.inj h ▸ rfl
  split at h
  · exact Option.some.inj h ▸ rfl
  split at h
  · exact Option.some.inj h ▸ rfl
  split at h
  · split at h
    case _ base hb =>
      have ⟨hp, hl⟩ := base?_bounds hb
      exact (magnitude_of_radixNumber? hp hl h).number
    · exact isNaN_of_decimalNumber? h
  · exact isNaN_of_decimalNumber? h

theorem isNaN_of_numberOfText? (h : numberOfText? s = some x) : x.isNaN = false :=
  isNaN_of_trimmedNumber? h

theorem numberOfText?_of_isBlank (h : isBlank s) : numberOfText? s = some .zero := by
  have hd : s.toList.dropWhile Text.isHostBlank = [] :=
    List.dropWhile_eq_nil_iff.mpr <| List.all_eq_true.mp h
  rw [numberOfText?, Text.trim, hd]
  rfl

end HostValue

end AddonBinding
