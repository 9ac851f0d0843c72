import AddonBinding.Proofs.NumericHelpers

namespace AddonBinding

namespace Source

namespace Helper

open Program

variable {p : Program} {policy : CoercionPolicy} {v : HostValue} {c : Option Value}
  {rest : List Stmt}

section Decode

-- What a conversion answers, and what is stored after it: a failure leaves what was there.
def verdict (t : ScalarType) (c : Option Value) :
    Except DecodeError NativeValue → Value × List (Option Value)
  | .ok n    => (.bool true, [some (stored t n)])
  | .error _ => (.bool false, [c])

abbrev Decodes (p : Program) (body : List Stmt) (s : State) (t : ScalarType) (c : Option Value)
    (r : Except DecodeError NativeValue) : Prop :=
  p.Returns body s (verdict t c r).1 (verdict t c r).2

section Stored

variable {t : IntegerType} {n : Int} {x : Double}

theorem stored_exact (h : t.Contains n) :
    stored (.integer t) (t.exact n) = .integer (.word t.signed t.width.bits) n := by
  cases hs : t.signed
  case false => simp [stored, IntegerType.exact, hs, h.toNat_ofInt hs]
  case true  => simp [stored, IntegerType.exact, hs, h.toInt_ofInt hs]

theorem convert_integer (t : IntegerType) (k : IntegerKind) (n : Int) :
    Value.convert (.storage (.integer t)) (.integer k n) =
      some (stored (.integer t) (t.exact (reduce t.signed t.width.bits n))) := by
  rw [stored_exact (t.contains_reduce n)]
  rfl

theorem convert_number {single : Bool} (hx : x.truncate? = some n) (h : t.Contains n) :
    Value.convert (.storage (.integer t)) (.floating single x) =
      some (stored (.integer t) (t.exact n)) := by
  rw [stored_exact h]
  simp [TypeName.storage, Value.convert, Value.toInteger, IntegerKind.ofDouble, hx,
    IntegerKind.convert, h.reduce_eq]

-- A native value of a type is stored as it is.
theorem convert_stored {t : ScalarType} {n : NativeValue} (h : t.holds n) :
    Value.convert (.storage t) (stored t n) = some (stored t n) := by
  cases t
  case text    => cases n <;> first | contradiction | rfl
  case boolean => cases n <;> first | contradiction | rfl
  case integer t =>
    have ⟨m, hm, _, _, hn⟩ := IntegerType.eq_exact_of_holds h
    have hc := convert_integer t (.word t.signed t.width.bits) m
    rwa [hm.reduce_eq, ← stored_exact hm, ← hn] at hc
  case float t =>
    cases n
    case float x =>
      have hr : t.round x = x := FloatType.round_eq_of_holds h
      cases hs : t.single
      all_goals
        simp_all [stored, TypeName.storage, Value.convert, Value.toSingle, Value.toDouble,
          FloatType.round]
    all_goals contradiction

-- The literal of a native value becomes that value where it is stored.
theorem exists_eval_ofNative {t : ScalarType} {v : NativeValue} (h : t.holds v) (p : Program)
    (s : State) : ∃ w, p.eval (.ofNative t v) s = some (w, s) ∧
      w.convert (.storage t) = some (stored t v) := by
  cases t <;> cases v <;> try contradiction
  case text.text        => exact ⟨_, rfl, rfl⟩
  case boolean.boolean  => exact ⟨_, rfl, rfl⟩
  case integer.integer t n  =>
    have ⟨k, hk⟩ := exists_eval_ofInteger p s (t.width == .w64) n
    exact ⟨_, hk, convert_stored h⟩
  case integer.unsigned t n =>
    have ⟨k, hk, _⟩ := @exists_eval_integer p s n.toNat ⟨true, t.width == .w64⟩ n.toNat_lt
    exact ⟨_, hk, convert_stored h⟩
  case float.float      => exact ⟨_, eval_ofDouble h, convert_stored h⟩

theorem stored_inj {t : ScalarType} {m n : NativeValue} (hm : t.holds m) (hn : t.holds n)
    (h : stored t m = stored t n) : m = n := by
  cases t
  case integer t =>
    have ⟨k, hk, _, _, hm⟩ := IntegerType.eq_exact_of_holds hm
    have ⟨l, hl, _, _, hn⟩ := IntegerType.eq_exact_of_holds hn
    rw [hm, hn, stored_exact hk, stored_exact hl] at h
    injection h with _ h
    rw [hm, hn, h]
  case text =>
    cases m <;> cases n <;> first | contradiction | skip
    exact congrArg NativeValue.text <| utf8_injective <| Value.text.inj h
  all_goals
    cases m <;> cases n <;> first | contradiction | skip
    injection h
    subst_vars
    rfl

theorem decodes_succeed {t : ScalarType} {n : NativeValue} {e : Expr} (own : Cells)
    (ho : (frame (.storage t) v c own).locals.content "out" = some (.target "out")) (h : t.holds n)
    (he : p.eval e (frame (.storage t) v c own) = some (stored t n, frame (.storage t) v c own)) :
    Decodes p (succeed e) (frame (.storage t) v c own) t c (.ok n) :=
  returns_succeed own ho he (convert_stored h)

end Stored

section Number

variable {t : ScalarType} {f : Callee} {ofNumber : Double → Except DecodeError NativeValue}

def numberCells (c : Option Value) : Cells :=
  [("number", ⟨.double, c⟩)]

def numberFrame (t : ScalarType) (v : HostValue) (c : Option Value) (x : Double) : State :=
  frame (.storage t) v c (numberCells (some (.floating false x)))

theorem eval_toNumeric {r : Value} {c' : Option Value} (hf : p.Calls "ToNumeric" f)
    (h : f [.host v] [none] = some (r, [c'])) :
    p.eval (.callName "ToNumeric" [.name "value", .addressOf (.name "number")])
      (frame (.storage t) v c (numberCells none)) =
      some (r, frame (.storage t) v c (numberCells c')) :=
  hf.eval_address rfl rfl h rfl

theorem decodes_numericStart (hf : p.Calls "ToNumeric" f) (hn : NumericView policy f)
    (h : ∀ x, Decodes p rest (numberFrame t v c x) t c (ofNumber x)) :
    Decodes p (numericStart ++ rest) (frame (.storage t) v c []) t c
      (v.toNumber policy >>= ofNumber) := by
  have hd : p.execAll (numericStart ++ rest) (frame (.storage t) v c []) =
      p.execAll (.when (.not (.callName "ToNumeric" [.name "value", .addressOf (.name "number")]))
        fail :: rest) (frame (.storage t) v c (numberCells none)) := rfl
  have ⟨r, cs, hr, hx⟩ := hn v none
  generalize v.toNumber policy = n at hx
  cases hx
  case error e c' =>
    exact .of_eq hd <| .when_true (eval_not (eval_toNumeric hf hr)) <| returns_fail (numberCells c')
  case ok x       =>
    exact .of_eq hd <| .of_eq (execAll_when_false (eval_not (eval_toNumeric hf hr)) rfl) (h x)

end Number

section Integer

variable {t : IntegerType} {x : Double}

theorem decodes_nanBody (rule : NaNRule) :
    Decodes p (nanBody rule) (numberFrame (.integer t) v c x) (.integer t) c (t.ofNaN rule) := by
  cases rule
  case reject => exact returns_fail _
  case zero   =>
    have hz := convert_integer t .int 0
    rw [t.contains_zero.reduce_eq] at hz
    exact returns_succeed _ rfl rfl hz

-- A number has an integer part, unless it is infinite.
theorem decodes_whole {first : List Stmt} {r : Except DecodeError NativeValue}
    (hx : x.isNaN = false)
    (hi : x.isInfinite →
      Decodes p first (numberFrame (.integer t) v c x) (.integer t) c r)
    (hn : ∀ n, x.truncate? = some n →
      Decodes p rest (numberFrame (.integer t) v c x) (.integer t) c r) :
    Decodes p (.when (.callName "std::isinf" [.name "number"]) first :: rest)
      (numberFrame (.integer t) v c x) (.integer t) c r := by
  refine .when (b := x.isInfinite) rfl hi fun h => ?_
  rw [Double.isInfinite_eq hx] at h
  have ⟨n, h⟩ := Option.isSome_iff_exists.mp (Option.isNone_eq_false_iff.mp h)
  exact hn n h

theorem decodes_wrap {f : Callee} (hf : p.Calls "WrapToUint64" f) (hw : WordOf f) (rule : NaNRule)
    (hx : x.isNaN = false) :
    Decodes p (.when (.callName "std::isinf" [.name "number"]) (nanBody rule)
        :: succeed (.cast (.storage (.integer t)) (.callName "WrapToUint64" [.name "number"])))
      (numberFrame (.integer t) v c x) (.integer t) c (t.wrap rule x) := by
  refine decodes_whole hx (fun hi => ?infinite) fun n hn => ?finite
  case infinite =>
    rw [IntegerType.wrap, if_pos hi]
    exact decodes_nanBody rule
  case finite =>
    rw [IntegerType.wrap_of_truncate? rule hn]
    have hc := convert_integer t (.word false 64) (n % pow2 64)
    rw [reduce_emod, ← IntegerType.narrow_ofInt] at hc
    exact decodes_succeed (numberCells _) rfl (IntegerType.holds_narrow ..)
      (eval_cast (hf.eval_value rfl rfl rfl (hw x n hn)) hc)

theorem eval_least (s : State) :
    p.eval (.whole t.range.least) s = some (.floating false t.range.lower, s) :=
  have ⟨h, _⟩ := Double.ofInt_finite t.natAbs_least_lt
  eval_whole h

theorem eval_greatest (s : State) :
    p.eval (.whole t.range.greatest) s = some (.floating false t.range.upper, s) :=
  have ⟨h, _⟩ := Double.ofInt_finite t.natAbs_greatest_lt
  eval_whole h

theorem decodes_clamp (hx : x.isNaN = false) :
    Decodes p (.declare true .double "clamped" (some (.callName "std::min"
          [.callName "std::max" [.name "number", .whole t.range.least], .whole t.range.greatest]))
        :: succeed (.cast (.storage (.integer t)) (.callName "std::nearbyint" [.name "clamped"])))
      (numberFrame (.integer t) v c x) (.integer t) c (t.clamp x) := by
  have hl : (Double.ofInt t.range.greatest).lt (.ofInt t.range.least) = false := by
    rw [← Bool.not_eq_true, Double.ofInt_lt_ofInt t.natAbs_greatest_lt t.natAbs_least_lt]
    exact not_lt.mpr t.limits_ordered
  have ⟨n, hn, h₁, h₂, hr⟩ := t.exists_clamp hx
  have hc := IntegerType.contains_of_limits h₁ h₂
  rw [hr]
  rw [IntegerRange.lower, IntegerRange.upper, ← Double.smaller_larger hl] at hn
  have hm : p.eval (.callName "std::max" [.name "number", .whole t.range.least])
      (numberFrame (.integer t) v c x) =
      some (.floating false (x.larger t.range.lower), numberFrame (.integer t) v c x) :=
    (eval_call (evalAll_two rfl (eval_least _))).trans rfl
  refine .declare ((eval_call (evalAll_two hm (eval_greatest _))).trans rfl) rfl ?_
  refine decodes_succeed (("clamped", _) :: _) rfl (IntegerType.holds_exact hc) ?_
  exact eval_cast rfl (convert_number ((Double.truncate?_roundEven _).trans hn) hc)

theorem decodes_enforce (hx : x.isNaN = false) :
    Decodes p (.when (.callName "std::isinf" [.name "number"]) fail
        :: .declare true .double "truncated" (some (.callName "std::trunc" [.name "number"]))
        :: .when (.binary .either (.binary .less (.name "truncated") (.whole t.range.least))
            (.binary .greater (.name "truncated") (.whole t.range.greatest))) fail
        :: succeed (.cast (.storage (.integer t)) (.name "truncated")))
      (numberFrame (.integer t) v c x) (.integer t) c (t.enforce x) := by
  refine decodes_whole hx (fun hi => ?infinite) fun n hn => ?finite
  case infinite =>
    rw [IntegerType.enforce, if_pos hi]
    exact returns_fail _
  case finite =>
    rw [IntegerType.enforce_of_truncate? hn]
    refine .declare (a := .floating false x.trunc) rfl rfl ?_
    refine .when (b := decide (n < t.range.least ∨ t.range.greatest < n)) ?_ ?_ ?_
    · rw [← IntegerType.outside_eq hn]
      exact eval_either (eval_binary rfl rfl (eval_least _)) (eval_binary rfl rfl (eval_greatest _))
    · intro h
      simp only [of_decide_eq_true h, if_true]
      exact returns_fail (("truncated", _) :: _)
    · intro h
      have h := of_decide_eq_false h
      have hc : t.Contains n := IntegerType.contains_of_limits (by omega) (by omega)
      simp only [h, if_false]
      refine decodes_succeed (("truncated", _) :: _) rfl (IntegerType.holds_exact hc) ?_
      exact eval_cast rfl (convert_number ((Double.truncate?_trunc x).trans hn) hc)

theorem decodes_integerBody (hf : ∃ f, p.Calls "ToNumeric" f ∧ NumericView policy f)
    (hw : policy.integerOverflow = .wrap → ∃ f, p.Calls "WrapToUint64" f ∧ WordOf f) :
    Decodes p (integerBody policy t) (frame (.storage (.integer t)) v c []) (.integer t) c
      ((ScalarType.integer t).decode policy v) := by
  have ⟨f, hf, hn⟩ := hf
  rw [integerBody, List.append_assoc]
  refine decodes_numericStart hf hn fun x => ?_
  refine .when (b := x.isNaN) rfl ?_ ?_
  all_goals
    intro hx
    simp only [IntegerType.ofNumber, hx, if_true, if_false, Bool.false_eq_true]
  case refine_1 => exact decodes_nanBody policy.integerNaN
  case refine_2 =>
    cases ho : policy.integerOverflow
    case wrap =>
      have ⟨f, hf, hw⟩ := hw ho
      exact decodes_wrap hf hw policy.integerNaN hx
    case clamp => exact decodes_clamp hx
    case reject => exact decodes_enforce hx

end Integer

section Float

variable {t : FloatType} {x : Double}

theorem convert_toSingle : Value.convert .float (.floating true x.toSingle) =
    some (.floating true x.toSingle) :=
  congrArg (fun y => some (Value.floating true y)) Double.toSingle_idem

theorem decodes_unlessFinite {y : String} {single : Bool} {e : DecodeError}
    {r : Except DecodeError NativeValue} (own : Cells)
    (hy : (frame (.storage (.float t)) v c own).locals.content y = some (.floating single x))
    (hr : Decodes p rest (frame (.storage (.float t)) v c own) (.float t) c r) :
    Decodes p (unlessFinite y :: rest) (frame (.storage (.float t)) v c own) (.float t) c
      (if !x.isFinite then .error e else r) := by
  have he : p.eval (.callName "std::isfinite" [.name y]) (frame (.storage (.float t)) v c own) =
      some (.bool x.isFinite, frame (.storage (.float t)) v c own) :=
    eval_call (evalAll_one (eval_name hy))
  refine .when (eval_not he) (fun h => ?_) fun h => ?_
  · rw [if_pos h]
    exact returns_fail own
  · rw [if_neg (by simp [h])]
    exact hr

theorem decodes_floatBody (hf : ∃ f, p.Calls "ToNumeric" f ∧ NumericView policy f) :
    Decodes p (floatBody t) (frame (.storage (.float t)) v c []) (.float t) c
      ((ScalarType.float t).decode policy v) := by
  have ⟨f, hf, hn⟩ := hf
  rw [floatBody, List.append_assoc]
  refine decodes_numericStart hf hn fun x => ?_
  obtain ⟨single, unrestricted⟩ := t
  cases unrestricted <;> cases single
  all_goals
    simp only [FloatType.ofNumber, FloatType.round, Bool.false_eq_true, Bool.not_true,
      Bool.not_false, Bool.true_and, Bool.false_and, Bool.or_self, Bool.or_eq_true, ite_or,
      if_true, if_false]
  case true.false  => exact returns_succeed _ rfl rfl rfl
  case true.true   =>
    refine .declare (eval_cast rfl rfl) convert_toSingle ?_
    exact returns_succeed (("narrowed", _) :: _) rfl rfl convert_toSingle
  case false.false =>
    exact decodes_unlessFinite (numberCells _) rfl <| returns_succeed (numberCells _) rfl rfl rfl
  case false.true  =>
    refine decodes_unlessFinite (numberCells _) rfl ?_
    refine .declare (eval_cast rfl rfl) convert_toSingle ?_
    refine decodes_unlessFinite (("narrowed", _) :: _) rfl ?_
    exact returns_succeed (("narrowed", _) :: _) rfl rfl convert_toSingle

end Float

theorem decodes_textBody {kind : TextKind} :
    Decodes p textBody (frame .text v c []) (.text kind) c
      ((ScalarType.text kind).decode policy v) := by
  have ht : (utf8 v.toText).take (utf8 v.toText).length = utf8 v.toText := List.take_length
  have hr : p.Returns textBody (frame .text v c []) (.bool true)
      [some (.text ((utf8 v.toText).take (utf8 v.toText).length))] :=
    ⟨_, rfl, rfl⟩
  rwa [ht] at hr

theorem decodes_booleanBody :
    Decodes p booleanBody (frame .bool v c []) .boolean c (ScalarType.boolean.decode policy v) :=
  returns_succeed _ rfl rfl rfl

-- The helpers that a conversion needs.
structure Provides (p : Program) (policy : CoercionPolicy) (t : ScalarType) : Prop where
  numeric : t.isNumeric → ∃ f, p.Calls "ToNumeric" f ∧ NumericView policy f
  word    : policy.integerOverflow = .wrap → (∃ i, t = .integer i) →
    ∃ f, p.Calls "WrapToUint64" f ∧ WordOf f

theorem run_decode {t : ScalarType} (h : Provides p policy t) :
    (function policy (.decode t)).run p [.host v] [c] =
      some (verdict t c (t.decode policy v)) := by
  have hd : Decodes p (decodeBody policy t) (frame (.storage t) v c []) t c
      (t.decode policy v) := by
    cases t
    case text      => exact decodes_textBody
    case boolean   => exact decodes_booleanBody
    case integer i => exact decodes_integerBody (h.numeric rfl) (h.word · ⟨i, rfl⟩)
    case float     => exact decodes_floatBody (h.numeric rfl)
  refine Function.run_of_returns rfl rfl hd ?_
  cases t.decode policy v <;> rfl

end Decode

end Helper

end Source

end AddonBinding
