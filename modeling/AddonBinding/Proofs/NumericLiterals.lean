import AddonBinding.Proofs.ReadExpressions
import AddonBinding.Proofs.SourceNumbers

-- The literals of numbers as expressions of the source language, and their values.

namespace AddonBinding

theorem Double.toSingle_negated (x : Double) : x.negated.toSingle = x.toSingle.negated := by
  match x with
  | .nan          => rfl
  | .infinite _   => rfl
  | .finite _ _ _ =>
    simp only [negated, toSingle]
    split <;> rfl

theorem Decimal.magnitude_shortest (tie : Tie) (a b : Bool) (steps : Nat) :
    (shortest tie a steps).magnitude = (shortest tie b steps).magnitude := by
  unfold shortest
  split <;> rfl

-- However it is laid out, a double is written in the digits of its shortest decimal.
theorem NumberFormat.magnitude_numeral (f : NumberFormat) (a : Bool) (steps : Nat) :
    (f.numeral a steps).toDecimal.magnitude = (Decimal.shortest f.tie a steps).magnitude := by
  rcases f.numeral_cases a steps with ⟨rfl, h⟩ | h | h <;> rw [h]
  · rw [Numeral.magnitude_positional, Decimal.shortest, if_pos rfl]
    rfl
  · exact Numeral.magnitude_positional ..
  · rw [Numeral.toDecimal_scientific]

namespace Source

namespace Arithmetic

namespace Term

variable {a : Term} {e : Expr}

-- A number with a sign before it.
def withSign (negative : Bool) (a : Term) : Term :=
  if negative then .negation a else a

theorem integers_withSign (negative : Bool) (a : Term) :
    (a.withSign negative).integers = a.integers := by
  cases negative <;> rfl

theorem decimals_withSign (negative : Bool) (a : Term) :
    (a.withSign negative).decimals = a.decimals := by
  cases negative <;> rfl

theorem ofExpr?_withSign (negative : Bool) (h : ofExpr? e = some a) :
    ofExpr? (e.withSign negative) = some (a.withSign negative) := by
  cases negative
  case false => exact h
  case true  => simp [Expr.withSign, withSign, ofExpr?, h]

end Term

section Integers

variable {t u : IntegerType} {s : Suffix} {n : ℤ}

theorem contains_neg (hs : t.signed) (h : t.Contains n) (h₀ : 0 ≤ n) : t.Contains (-n) := by
  simp only [IntegerType.Contains, hs, if_true] at h ⊢
  omega

theorem result?_of_contains (h : t.Contains n) : t.result? n = some n := by
  cases hs : t.signed <;> simp only [IntegerType.result?, hs, Bool.false_eq_true, if_true, if_false]
  case true  => exact if_pos h
  case false =>
    have hr := h.reduce_eq
    rw [hs] at hr
    rw [hr]

-- The type of 64 bits is always among those that an integer may have.
theorem exists_type {m : Nat} (h : m < if s.unsigned then 2 ^ 64 else 2 ^ 63) :
    ∃ t, (Term.integer m s).eval? = some (.integer t m) ∧ t.signed = !s.unsigned ∧ t.Contains m := by
  have hc : (IntegerType.mk .w64 (!s.unsigned)).Contains m := by
    cases hs : s.unsigned <;> simp [hs, IntegerType.Contains, Width.bits] at h ⊢ <;> omega
  have hm : IntegerType.mk .w64 (!s.unsigned) ∈ s.types := by
    unfold Suffix.types
    split <;> simp
  have ht : ∀ t ∈ s.types, t.signed = !s.unsigned := by
    unfold Suffix.types
    split <;> simp
  obtain ⟨t, hf⟩ : ∃ t, s.types.find? (·.Contains m) = some t :=
    Option.isSome_iff_exists.mp (List.find?_isSome.mpr ⟨_, hm, decide_eq_true hc⟩)
  have hd : t.Contains m := by simpa using List.find?_some hf
  refine ⟨t, ?_, ht t (List.mem_of_find?_eq_some hf), hd⟩
  rw [Term.eval?, hf, Option.map_some]

-- The integer of a sign and a number.
def Term.ofInt (s : Suffix) (n : ℤ) : Term :=
  (Term.integer n.natAbs s).withSign (n < 0)

theorem integers_ofInt (s : Suffix) (n : ℤ) : (Term.ofInt s n).integers = [(n.natAbs, s)] :=
  Term.integers_withSign ..

theorem eval?_ofInt (hs : s.unsigned = false) (h : n.natAbs < 2 ^ 63) :
    ∃ t, (Term.ofInt s n).eval? = some (.integer t n) := by
  obtain ⟨t, he, ht, hc⟩ := @exists_type s n.natAbs (by simpa [hs] using h)
  rw [hs] at ht
  refine ⟨t, ?_⟩
  by_cases hn : n < 0
  case pos =>
    have hc := contains_neg ht hc (Int.natCast_nonneg _)
    have hi : -(n.natAbs : ℤ) = n := by omega
    rw [Term.ofInt, decide_eq_true hn, Term.withSign, if_pos rfl, Term.eval?, he,
      Option.bind_eq_bind, Option.bind_some, Operand.negate?, result?_of_contains hc,
      Option.map_some, hi]
  case neg =>
    have hi : (n.natAbs : ℤ) = n := by omega
    rw [Term.ofInt, decide_eq_false hn, Term.withSign, if_neg Bool.false_ne_true, he, hi]

theorem convert_integer (t : IntegerType) (h : u.Contains n) :
    (Operand.integer t n).value.convert (.storage (.integer u)) =
      some (.integer (.word u.signed u.width.bits) n) := by
  simp [Operand.value, TypeName.storage, Value.convert, Value.toInteger, IntegerKind.convert,
    h.reduce_eq]

end Integers

-- The digits of an expression are the fewest that are read as a double, up to zeros at the end.
def Term.IsShortest (a : Term) (single : Bool) (x : Double) : Prop :=
  ∃ e d : Decimal, a.decimals = [(e, single)] ∧ e.magnitude = d.magnitude ∧ d.toDouble = x ∧
    ∀ d' : Decimal, d'.toDouble = x → d.width ≤ d'.width

-- What an expression says about a native value of a type: the value itself, once it is converted, in
-- integers that their suffixes have room for, or in the digits of a double.
structure Denotes (a : Term) (t : ScalarType) (v : NativeValue) : Prop where
  value    : ∃ w, a.eval? = some w ∧ w.value.convert (.storage t) = some (stored t v)
  integers : ∀ n s, (n, s) ∈ a.integers → n ≤ s.greatest
  decimals : ∀ f x, t = .float f → v = .float x → x.isFinite → a.IsShortest f.single x

section Literals

theorem Denotes.of_integer {a : Term} {t k : IntegerType} {v : NativeValue} {n : ℤ}
    (hv : stored (.integer t) v = .integer (.word t.signed t.width.bits) n) (hc : t.Contains n)
    (he : a.eval? = some (.integer k n)) (hi : ∀ n s, (n, s) ∈ a.integers → n ≤ s.greatest) :
    Denotes a (.integer t) v where
  value          := ⟨_, he, hv ▸ convert_integer k hc⟩
  integers       := hi
  decimals _ _ h := nomatch h

-- The least integer as a difference, since it has no literal.
def Term.least : Term :=
  .difference (.negation (.integer 9223372036854775807 ⟨false, true⟩)) (.integer 1 ⟨false, false⟩)

theorem eval?_least : Term.least.eval? = some (.integer ⟨.w64, true⟩ Int64.minValue.toInt) := by
  decide

theorem denotes_integer {t : IntegerType} {n : Int64}
    (h : (ScalarType.integer t).holds (.integer n)) :
    ∃ a, Term.ofExpr? (Expr.ofInteger (t.width == .w64) n) = some a ∧
      Denotes a (.integer t) (.integer n) := by
  obtain ⟨hs, hc⟩ := IntegerType.holds_integer_iff.mp h
  by_cases hm : n = Int64.minValue
  case pos =>
    subst hm
    refine ⟨.least, by rw [Expr.ofInteger, if_pos rfl]; rfl, .of_integer rfl hc eval?_least ?_⟩
    intro n s hn
    simp only [Term.least, Term.integers, List.singleton_append, List.mem_cons, Prod.mk.injEq,
      List.not_mem_nil, or_false] at hn
    rcases hn with ⟨rfl, rfl⟩ | ⟨rfl, rfl⟩ <;> decide
  case neg =>
    have hl := n.le_toInt
    have hu := n.toInt_lt
    have hi : n.toInt ≠ -2 ^ 63 := fun h => hm (Int64.toInt_inj.mp h)
    generalize (t.width == .w64) = wide
    have ht : Term.ofExpr? (Expr.ofInteger wide n) = some (.ofInt ⟨false, wide⟩ n.toInt) := by
      rw [Expr.ofInteger, if_neg hm]
      exact Term.ofExpr?_withSign _ rfl
    obtain ⟨k, he⟩ := @eval?_ofInt ⟨false, wide⟩ n.toInt rfl (by omega)
    refine ⟨_, ht, .of_integer rfl hc he ?_⟩
    rw [integers_ofInt]
    simp [Suffix.greatest]
    omega

theorem denotes_unsigned {t : IntegerType} {n : UInt64}
    (h : (ScalarType.integer t).holds (.unsigned n)) :
    Denotes (.integer n.toNat ⟨true, t.width == .w64⟩) (.integer t) (.unsigned n) := by
  obtain ⟨hs, hc⟩ := IntegerType.holds_unsigned_iff.mp h
  have hu := n.toNat_lt
  have hb : n.toNat ≤ Suffix.greatest ⟨true, t.width == .w64⟩ := by
    have hg : 2 ^ t.width.bits ≤ Suffix.greatest ⟨true, t.width == .w64⟩ + 1 := by
      cases t.width <;> decide
    have hr : n.toNat < 2 ^ t.width.bits := by
      simp only [IntegerType.Contains, hs, Bool.false_eq_true, if_false] at hc
      exact_mod_cast hc.right
    omega
  obtain ⟨k, he, _⟩ := @exists_type ⟨true, t.width == .w64⟩ n.toNat hu
  refine .of_integer rfl hc he fun m s hm => ?_
  cases List.mem_singleton.mp hm
  exact hb

variable {t : FloatType} {x : Double} {single : Bool} {m : Nat} {hf : Double.Fits m} {d : Decimal}

theorem Denotes.of_float {a : Term} (h : t.holds x) (he : a.eval? = some (.floating t.single x))
    (hi : a.integers = []) (hd : x.isFinite → a.IsShortest t.single x) :
    Denotes a (.float t) (.float x) where
  value := by
    have hr := FloatType.round_eq_of_holds h
    refine ⟨_, he, ?_⟩
    cases hs : t.single <;> simp only [FloatType.round, hs, if_true] at hr <;>
      simp [Operand.value, TypeName.storage, Value.convert, Value.toSingle, Value.toDouble, stored,
        hs, hr]
  integers := by simp [hi]
  decimals f y hf hy := by
    injection hf with hf
    injection hy with hy
    subst hf hy
    exact hd

-- Digits that are read as a double of single precision are read as that number in single precision.
theorem eval?_floating (hd : d.toDouble = .finite false m hf)
    (hs : single → (Double.finite false m hf).toSingle = .finite false m hf) :
    (Term.floating d single).eval? = some (.floating single (.finite false m hf)) := by
  cases single
  case false =>
    rw [Term.eval?, Operand.ofDecimal?, if_neg Bool.false_ne_true, hd]
    rfl
  case true =>
    have hr : d.toSingle = .finite false m hf := by
      have hn := Decimal.negative_of_toDouble hd
      rw [Decimal.toDouble_eq_nearest, hn] at hd
      rw [Decimal.toSingle, hn]
      exact Double.nearestSingle_of_nearest (Decimal.scaleDown_pos _) hd (hs rfl)
    rw [Term.eval?, Operand.ofDecimal?, if_pos rfl, hr]
    rfl

theorem eval?_floating_withSign {a : Bool} (hd : d.toDouble = .finite false m hf)
    (hs : single → (Double.finite a m hf).toSingle = .finite a m hf) :
    ((Term.floating d single).withSign a).eval? = some (.floating single (.finite a m hf)) := by
  cases a
  case false => exact eval?_floating hd hs
  case true  =>
    have hn (h : single) : (Double.finite false m hf).toSingle = .finite false m hf := by
      have hn := Double.toSingle_negated (.finite true m hf)
      rw [hs h] at hn
      exact hn
    rw [Term.withSign, if_pos rfl, Term.eval?, eval?_floating hd hn]
    rfl

theorem width_shortest_le {d' : Decimal} {a : Bool} (h : d'.toDouble = .finite a m hf) :
    (Decimal.shortest .up a m).width ≤ d'.width := by
  rcases m.eq_zero_or_pos with rfl | hm
  · have h₀ : (Decimal.shortest .up a 0).width = 1 := by
      simp [Decimal.shortest, Decimal.width, Numeral.natChars]
    exact h₀ ▸ d'.width_pos
  · exact Decimal.width_le_of_toDouble hm h

theorem denotes_finite {a : Bool} (h : t.holds (.finite a m hf)) :
    Denotes ((Term.floating (NumberFormat.explicit.numeral false m).toDecimal t.single).withSign a)
      (.float t) (.float (.finite a m hf)) := by
  have hd := NumberFormat.toDouble_numeral (f := .explicit) rfl false hf
  have hm := NumberFormat.magnitude_numeral .explicit false m
  have hs (hs : t.single) : (Double.finite a m hf).toSingle = .finite a m hf := by
    simpa [FloatType.round, hs] using FloatType.round_eq_of_holds h
  refine .of_float h (eval?_floating_withSign hd hs) (Term.integers_withSign ..) fun _ => ?_
  exact ⟨_, Decimal.shortest .up a m, Term.decimals_withSign ..,
    hm.trans (Decimal.magnitude_shortest ..), Decimal.toDouble_shortest .up a hf,
    fun d' => width_shortest_le⟩

-- The constants are written without digits.
def limitName (single : Bool) (name : String) : String :=
  "std::numeric_limits<" ++ (if single then "float" else "double") ++ ">::" ++ name

theorem ofExpr?_limit (t : FloatType) (name : String) :
    Term.ofExpr? (Expr.numericLimit (.storage (.float t)) name) =
      some (.constant (limitName t.single name)) := by
  obtain ⟨single, _⟩ := t
  cases single <;> rfl

theorem eval?_nan : ∀ single : Bool,
    (Term.constant (limitName single "quiet_NaN")).eval? = some (.floating single .nan) := by
  decide +kernel

theorem eval?_infinity : ∀ single negative : Bool,
    ((Term.constant (limitName single "infinity")).withSign negative).eval? =
      some (.floating single (.infinite negative)) := by
  decide +kernel

theorem denotes_float (h : t.holds x) :
    ∃ a, Term.ofExpr? (Expr.ofDouble t x) = some a ∧ Denotes a (.float t) (.float x) := by
  match x with
  | .nan           => exact ⟨_, ofExpr?_limit t _, .of_float h (eval?_nan _) rfl nofun⟩
  | .infinite a    =>
    exact ⟨_, Term.ofExpr?_withSign a (ofExpr?_limit t _),
      .of_float h (eval?_infinity _ _) (Term.integers_withSign ..) nofun⟩
  | .finite a m hf => exact ⟨_, Term.ofExpr?_withSign a rfl, denotes_finite h⟩

end Literals

end Arithmetic

open Arithmetic

-- The literal of a number is an expression of that number. For single precision this takes one
-- rounding, although the digits are those of a double.
theorem literal_denotes (t : ScalarType) (v : NativeValue) (hn : t.isNumeric) (h : t.holds v) :
    ∃ a, Term.ofText? (literal t v) = some a ∧ Denotes a t v := by
  rw [Term.ofText?, literal, Expr.read?_render (Expr.isReadable_ofNative t v)]
  cases t <;> cases v <;> try contradiction
  case integer.integer  => exact denotes_integer h
  case integer.unsigned => exact ⟨_, rfl, denotes_unsigned h⟩
  case float.float      => exact denotes_float h

theorem literal_denotes_extremes :
    literal (.integer ⟨.w64, true⟩) (.integer Int64.minValue) = "(-9223372036854775807LL - 1)" ∧
    (∃ a, Term.ofText? "(-9223372036854775807LL - 1)" = some a ∧
      Denotes a (.integer ⟨.w64, true⟩) (.integer Int64.minValue)) ∧
    -- A tenth in single precision.
    let x := (Double.nearest true Double.one 10).toSingle
    literal (.float ⟨true, false⟩) (.float x) = "-0.10000000149011612f" ∧
    ∃ a, Term.ofText? "-0.10000000149011612f" = some a ∧
      Denotes a (.float ⟨true, false⟩) (.float x) := by
  have hn : literal (.integer ⟨.w64, true⟩) (.integer Int64.minValue) =
      "(-9223372036854775807LL - 1)" := rfl
  have hx : literal (.float ⟨true, false⟩) (.float (Double.nearest true Double.one 10).toSingle) =
      "-0.10000000149011612f" := by
    decide +kernel
  refine ⟨hn, ?_, hx, ?_⟩
  · rw [← hn]
    exact literal_denotes _ _ rfl (by decide)
  · rw [← hx]
    exact literal_denotes _ _ rfl (by decide +kernel)

end Source

end AddonBinding
