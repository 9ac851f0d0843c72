import AddonBinding.Proofs.BlankScan
import AddonBinding.Proofs.TextNumber

namespace AddonBinding

namespace Source

namespace Helper

open Program

variable {p : Program} {policy : CoercionPolicy} {v : HostValue} {c : Option Value}
  {type : TypeName}

-- The state of a helper that has a value to convert, with the variables that it has declared.
def frame (type : TypeName) (v : HostValue) (c : Option Value) (own : Cells) : State where
  locals  := own ++ [("value", ⟨hostValue, some (.host v)⟩),
    ("out", ⟨.pointer type, some (.target "out")⟩)]
  targets := [("out", ⟨type, c⟩)]

theorem returns_fail (own : Cells) : p.Returns fail (frame type v c own) (.bool false) [c] :=
  .leave rfl rfl

theorem assign_result (own : Cells) {a b : Value}
    (ho : (frame type v c own).locals.content "out" = some (.target "out"))
    (h : a.convert type = some b) :
    (frame type v c own).assign a result = some (frame type v (some b) own) :=
  (bind_of_eq_some ho).trans <| bind_of_eq_some <| Cells.put_head h

theorem returns_succeed (own : Cells) {e : Expr} {a b : Value}
    (ho : (frame type v c own).locals.content "out" = some (.target "out"))
    (he : p.eval e (frame type v c own) = some (a, frame type v c own))
    (h : a.convert type = some b) :
    p.Returns (succeed e) (frame type v c own) (.bool true) [some b] :=
  .of_eq (execAll_assign he (assign_result own ho h)) <| .leave rfl rfl

section Numeric

-- The answer of a helper for numbers and what it leaves behind, for the number that there is.
inductive Numbered : Except DecodeError Double → Value → List (Option Value) → Prop
  | ok {x}      : Numbered (.ok x) (.bool true) [some (.floating false x)]
  | error {e c} : Numbered (.error e) (.bool false) [c]

theorem Numbered.convert_bool {n : Except DecodeError Double} {r : Value}
    {cs : List (Option Value)} (h : Numbered n r cs) : r.convert .bool = some r := by
  cases h <;> rfl

def NumericView (policy : CoercionPolicy) (f : Callee) : Prop :=
  ∀ v c, ∃ r cs, f [.host v] [c] = some (r, cs) ∧ Numbered (v.toNumber policy) r cs

def BlankTest (f : Callee) : Prop :=
  ∀ s, f [.text (utf8 s)] [] = some (.bool (HostValue.isBlank s), [])

-- What is done with a text, where texts count.
def textBranch (policy : CoercionPolicy) : List Stmt :=
  [.construct false (.named "Nan::Utf8String") "utf8" [.name "value"],
    .construct true .text "text"
      [.dereference (.name "utf8"), (Expr.name "utf8").method "length"],
    .when (.callName "IsBlank" [.name "text"])
      (if policy.emptyStringAsZero then succeed (.natural 0) else fail),
    .assign result hostNumber,
    .returnValue (.not (.callName "std::isnan" [result]))]

theorem toNumericBody_eq (policy : CoercionPolicy) :
    toNumericBody policy =
      .when ((Expr.name "value").arrowMethod "IsNumber") (succeed hostNumber) ::
        (if policy.numericStrings then
          [.when ((Expr.name "value").arrowMethod "IsString") (textBranch policy)] else []) ++
        fail :=
  rfl

section Text

variable {s : String} {f : Callee}

def textCells (s : String) : Cells :=
  [("text", ⟨.text, some (.text (utf8 s))⟩),
    ("utf8", ⟨.named "Nan::Utf8String", some (.utf8 (utf8 s))⟩)]

theorem execAll_textBranch (policy : CoercionPolicy) (c : Option Value) :
    p.execAll (textBranch policy) (frame .double (.text s) c []) =
      p.execAll [.when (.callName "IsBlank" [.name "text"])
          (if policy.emptyStringAsZero then succeed (.natural 0) else fail),
        .assign result hostNumber, .returnValue (.not (.callName "std::isnan" [result]))]
        (frame .double (.text s) c (textCells s)) := by
  have ht : Value.construct .text [.chars (utf8 s), .integer .int (utf8 s).length] =
      some (.text (utf8 s)) := by
    simp [Value.construct]
  rw [textBranch, execAll_construct rfl rfl, execAll_construct rfl ht]
  rfl

theorem returns_blank (policy : CoercionPolicy) (s : String) (c : Option Value) :
    p.Returns (if policy.emptyStringAsZero then succeed (.natural 0) else fail)
      (frame .double (.text s) c (textCells s)) (.bool policy.emptyStringAsZero)
      [if policy.emptyStringAsZero then some (.floating false .zero) else c] := by
  cases policy.emptyStringAsZero
  case false => exact returns_fail _
  case true  =>
    rw [← Double.ofInt_zero]
    exact returns_succeed _ rfl rfl rfl

-- The answer is whether the text has a number, which is stored before that.
theorem returns_numberOfText (p : Program) (s : String) (c : Option Value) :
    p.Returns [.assign result hostNumber, .returnValue (.not (.callName "std::isnan" [result]))]
      (frame .double (.text s) c (textCells s)) (.bool !(HostValue.text s).toDouble.isNaN)
      [some (.floating false (HostValue.text s).toDouble)] :=
  .of_eq (execAll_assign rfl (assign_result (textCells s) rfl rfl)) <| .leave rfl rfl

theorem returns_textBranch (hf : p.Calls "IsBlank" f) (hb : BlankTest f)
    (hs : policy.numericStrings) (s : String) (c : Option Value) :
    ∃ r cs, p.Returns (textBranch policy) (frame .double (.text s) c []) r cs ∧
      Numbered ((HostValue.text s).toNumber policy) r cs := by
  have hc : p.eval (.callName "IsBlank" [.name "text"]) (frame .double (.text s) c (textCells s)) =
      some (.bool (HostValue.isBlank s), frame .double (.text s) c (textCells s)) :=
    hf.eval_value rfl rfl rfl (hb s)
  rw [HostValue.toNumber, hs]
  cases hz : HostValue.isBlank s <;> rw [hz] at hc
  case false =>
    have hr := Returns.of_eq (execAll_textBranch policy c) <| .of_eq (execAll_when_false hc rfl) <|
      returns_numberOfText p s c
    refine ⟨_, _, hr, ?_⟩
    cases hn : HostValue.numberOfText? s
    case none   =>
      simp only [HostValue.toDouble, hn]
      exact .error
    case some x =>
      simp only [HostValue.toDouble, hn, Option.getD_some, HostValue.isNaN_of_numberOfText? hn]
      exact .ok
  case true =>
    have hr := Returns.of_eq (execAll_textBranch policy c) <| .when_true hc <|
      returns_blank policy s c
    refine ⟨_, _, hr, ?_⟩
    rw [HostValue.numberOfText?_of_isBlank hz]
    cases policy.emptyStringAsZero
    case false => exact .error
    case true  => exact .ok

end Text

variable (hb : policy.numericStrings → ∃ f, p.Calls "IsBlank" f ∧ BlankTest f)
include hb

theorem returns_toNumeric (v : HostValue) (c : Option Value) :
    ∃ r cs, p.Returns (toNumericBody policy) (frame .double v c []) r cs ∧
      Numbered (v.toNumber policy) r cs := by
  rw [toNumericBody_eq]
  cases v
  case number x => exact ⟨_, _, .when_true rfl (returns_succeed [] rfl rfl rfl), .ok⟩
  case text s   =>
    cases hs : policy.numericStrings
    case false =>
      rw [HostValue.toNumber, hs]
      exact ⟨_, _, .of_eq (execAll_when_false rfl rfl) (returns_fail []), .error⟩
    case true  =>
      obtain ⟨f, hf, hb⟩ := hb hs
      obtain ⟨r, cs, hr, hn⟩ := returns_textBranch hf hb hs s c
      exact ⟨r, cs, .of_eq (execAll_when_false rfl rfl) <| .when_true rfl hr, hn⟩
  all_goals
    refine ⟨_, [c], .of_eq (execAll_when_false rfl rfl) ?_, .error⟩
    cases policy.numericStrings
    case false => exact returns_fail []
    case true  => exact .of_eq (execAll_when_false rfl rfl) (returns_fail [])

theorem numericView_toNumeric : NumericView policy ((function policy .toNumeric).run p) := by
  intro v c
  have ⟨r, cs, hr, hn⟩ := returns_toNumeric hb v c
  exact ⟨r, cs, Function.run_of_returns rfl rfl hr hn.convert_bool, hn⟩

omit hb

end Numeric

section Wrap

-- The low bits of a word.
def WordOf (f : Callee) : Prop :=
  ∀ x n, x.truncate? = some n →
    f [.floating false x] [] = some (.integer (.word false 64) (n % pow2 64), [])

-- A word keeps the low bits of an integer.
theorem reduce_emod (signed : Bool) (width : Width) (n : Int) :
    reduce signed width.bits (n % pow2 64) = reduce signed width.bits n := by
  cases signed
  case false => cases width <;> simp [reduce, Width.bits]
  case true  =>
    have h : (pow2 width.bits : Int) ∣ pow2 64 := by
      cases width <;> decide
    simp only [reduce, if_true, Int.bmod, Int.emod_emod_of_dvd n h]

section Word

variable {k q : Nat} {a : Bool} (hq : q = k % pow2 64)
include hq

theorem reduce_word : reduce false 64 q = q := by
  rw [show pow2 64 = 18446744073709551616 from rfl] at hq
  simp only [reduce, Bool.false_eq_true, if_false, show pow2 64 = 18446744073709551616 from rfl]
  omega

-- The word of a negative number counts down from zero.
theorem signed_true_emod :
    Double.signed true k % pow2 64 =
      reduce false 64 (reduce false 64 0 - reduce false 64 (reduce false 64 q)) := by
  rw [show pow2 64 = 18446744073709551616 from rfl] at hq
  simp only [Double.signed, reduce, Bool.false_eq_true, if_false, if_true,
    show pow2 64 = 18446744073709551616 from rfl]
  omega

theorem signed_emod (h : (a && q ≠ 0) = false) :
    Double.signed a k % pow2 64 = reduce false 64 q := by
  rw [reduce_word hq]
  rw [show pow2 64 = 18446744073709551616 from rfl] at hq ⊢
  cases a
  case false =>
    simp only [Double.signed, Bool.false_eq_true, if_false]
    omega
  case true  =>
    have h₀ : q = 0 := by simpa using h
    simp only [Double.signed, if_true]
    omega

end Word

theorem eval_remainder {s : State} {x : Double} {n : ℤ}
    (hx : s.locals.content "number" = some (.floating false x))
    (hn : Double.Fits (n.natAbs * Double.one)) :
    p.eval (.callName "std::fmod" [.callName "std::trunc" [.name "number"], .whole n]) s =
      some (.floating false (x.trunc.fmod (.ofInt n)), s) := by
  have ht : p.eval (.callName "std::trunc" [.name "number"]) s = some (.floating false x.trunc, s) :=
    (eval_call (evalAll_one (bind_of_eq_some hx))).trans rfl
  exact (eval_call (evalAll_two ht (eval_whole hn))).trans rfl

theorem run_wrapToWord {x : Double} {n : Int} (h : x.truncate? = some n) :
    (function policy .wrapToWord).run p [.floating false x] [] =
      some (.integer (.word false 64) (n % pow2 64), []) := by
  cases x <;> cases h
  case finite a m fits =>
    have ⟨q, fits', hr, hq⟩ := Double.fmod_trunc (k := 64) a fits (by decide)
    have ⟨h64, _⟩ := Double.ofInt_pow2 (k := 64) (by decide)
    have hm : Value.convert (.word false 64)
        (.floating false (.finite false (q * Double.one) fits')) =
        some (.integer (.word false 64) q) := by
      simp [Value.convert, Value.toInteger, IntegerKind.ofDouble, Double.truncate?, Double.one_pos,
        Double.signed, IntegerKind.convert, reduce_word hq]
    refine Function.run_of_returns
      (v := .integer (.word false 64) (Double.signed a (m / Double.one) % pow2 64)) rfl rfl ?_ ?_
    · refine .declare (a := .floating false (.finite a (q * Double.one) fits'))
        ?_ rfl ?_
      · rw [← hr]
        exact eval_remainder rfl (by rwa [Int.natAbs_natCast])
      refine .declare (eval_cast rfl hm) rfl ?_
      refine .leave (eval_conditional (b := a && q ≠ 0) ?_ ?_ ?_) rfl
      · rw [← Double.finite_lt_zero fits']
        rfl
      · intro h
        rw [(Bool.and_eq_true_iff.mp h).left, signed_true_emod hq]
        rfl
      · intro h
        rw [signed_emod hq h]
        rfl
    · simp only [Value.convert, Value.toInteger, IntegerKind.convert, function, reduce,
        Bool.false_eq_true, if_false, Int.emod_emod, Option.map_some]

end Wrap

end Helper

end Source

end AddonBinding
