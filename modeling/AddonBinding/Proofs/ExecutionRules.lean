import AddonBinding.Proofs.Execution
import AddonBinding.Proofs.NumericLiterals

-- One rule for each form of expression and statement that the source has. A rule holds by
-- definition once the results of the parts are known.

namespace AddonBinding

namespace Source

theorem bind_of_eq_some {α β : Type} {x : Option α} {a : α} {f : α → Option β} (h : x = some a) :
    x >>= f = f a := by
  rw [h]
  rfl

section Variables

variable {cells rest : Cells} {cell : Cell} {x y : String} {v w : Value}

theorem Cells.put_head (h : v.convert cell.type = some w) :
    put ((x, cell) :: cells) x v = some ((x, ⟨cell.type, some w⟩) :: cells) := by
  simp [put, update, h]

theorem Cells.put_tail (hn : y ≠ x) (h : cells.put x v = some rest) :
    put ((y, cell) :: cells) x v = some ((y, cell) :: rest) := by
  rw [put] at h
  simp [put, update, hn, h]

theorem State.assign_name {s : State} (h : s.locals.put x v = some rest) :
    s.assign v (.name x) = some { s with locals := rest } :=
  bind_of_eq_some h

end Variables

theorem Outcome.andThen_next {s : State} {k : State → Outcome} :
    Outcome.andThen (some (.next, s)) k = k s :=
  rfl

theorem State.leaveBlock_self (s : State) : s.leaveBlock s.locals.length = s := by
  simp [leaveBlock]

section Loop

variable {test : State → Option (Value × State)} {body : State → Outcome} {s t u : State}

open Classical in
theorem iterate_of_stop {r : Flow × State} (h : loopRound test body s = some (.inl r)) :
    iterate test body s = some r := by
  have hr : r ∈ rounds test body s := PFun.fix_stop <| Part.mem_ofOption.mpr h
  exact Part.mem_toOption.mpr hr

theorem iterate_done (h : test s = some (.bool false, t)) :
    iterate test body s = some (.next, t) := by
  apply iterate_of_stop
  rw [loopRound, h]

theorem iterate_next (h : test s = some (.bool true, t)) (hb : body t = some (.next, u)) :
    iterate test body s = iterate test body u := by
  have hr : loopRound test body s = some (.inr u) := by
    rw [loopRound, h]
    simp only [hb]
  have hs : rounds test body s = rounds test body u :=
    PFun.fix_fwd_eq <| Part.mem_ofOption.mpr hr
  rw [iterate, hs, iterate]

theorem iterate_leave {r : Option Value} (h : test s = some (.bool true, t))
    (hb : body t = some (.leave r, u)) : iterate test body s = some (.leave r, u) := by
  apply iterate_of_stop
  rw [loopRound, h]
  simp only [hb]
  rfl

end Loop

namespace Program

variable {p : Program} {s t u : State} {e a : Expr} {v w : Value}

section Expressions

theorem eval_name {x : String} (h : s.locals.content x = some v) :
    p.eval (.name x) s = some (v, s) :=
  bind_of_eq_some h

theorem eval_index {i : Expr} {n : Value} (he : p.eval e s = some (v, t))
    (hi : p.eval i t = some (n, u)) (h : v.element n = some w) :
    p.eval (.index e i) s = some (w, u) :=
  (bind_of_eq_some he).trans <| (bind_of_eq_some hi).trans <| bind_of_eq_some h

theorem evalAll_one (h : p.eval e s = some (v, t)) : p.evalAll [e] s = some ([v], t) :=
  bind_of_eq_some h

theorem evalAll_two {d e : Expr} {v w : Value} {u : State} (hd : p.eval d s = some (v, t))
    (he : p.eval e t = some (w, u)) : p.evalAll [d, e] s = some ([v, w], u) :=
  (bind_of_eq_some hd).trans <| bind_of_eq_some (evalAll_one he)

theorem eval_call {f : String} {args : List Expr} {vs : List Value}
    (h : p.evalAll args s = some (vs, t)) : p.eval (.callName f args) s = p.call f vs t :=
  bind_of_eq_some h

theorem eval_method {m : String} (h : p.eval e s = some (v, t)) :
    p.eval (e.method m) s = t.invoke v m [] :=
  bind_of_eq_some h

theorem eval_method_of {m : String} (h : p.eval e s = some (v, t)) (ha : p.eval a t = some (w, u)) :
    p.eval (e.method m [a]) s = u.invoke v m [w] :=
  (bind_of_eq_some h).trans <| bind_of_eq_some <| evalAll_one ha

theorem eval_arrowMethod_of {m : String} (h : p.eval e s = some (v, t))
    (ha : p.eval a t = some (w, u)) : p.eval (e.arrowMethod m [a]) s = u.invoke v m [w] :=
  (bind_of_eq_some h).trans <| bind_of_eq_some <| evalAll_one ha

theorem eval_cast {type : TypeName} (h : p.eval e s = some (v, t)) (hv : v.convert type = some w) :
    p.eval (.cast type e) s = some (w, t) :=
  (bind_of_eq_some h).trans <| bind_of_eq_some hv

theorem eval_not {b : Bool} (h : p.eval e s = some (.bool b, t)) :
    p.eval (.not e) s = some (.bool !b, t) :=
  bind_of_eq_some h

-- The operators that look at both operands.
theorem eval_binary {op : BinaryOperator} {x y : Value} (h : op.apply x y = some v)
    (he : p.eval e s = some (x, t)) (ha : p.eval a t = some (y, u)) :
    p.eval (.binary op e a) s = some (v, u) := by
  cases op
  case both   => simp [BinaryOperator.apply_lazy (.inl rfl)] at h
  case either => simp [BinaryOperator.apply_lazy (.inr rfl)] at h
  all_goals exact (bind_of_eq_some he).trans <| (bind_of_eq_some ha).trans <| bind_of_eq_some h

theorem eval_both {b : Bool} (h : p.eval e s = some (.bool b, t)) :
    p.eval (.binary .both e a) s = if b then p.eval a t else some (.bool false, t) := by
  cases b <;> exact bind_of_eq_some h

theorem eval_either {b b' : Bool} (h : p.eval e s = some (.bool b, s))
    (h' : p.eval a s = some (.bool b', s)) :
    p.eval (.binary .either e a) s = some (.bool (b || b'), s) := by
  cases b
  case false => exact (bind_of_eq_some h).trans h'
  case true  => exact bind_of_eq_some h

theorem eval_conditional {b : Bool} {yes no : Expr} (h : p.eval e s = some (.bool b, s))
    (ht : b = true → p.eval yes s = some (v, s)) (hf : b = false → p.eval no s = some (v, s)) :
    p.eval (.conditional e yes no) s = some (v, s) := by
  cases b
  case false => exact (bind_of_eq_some h).trans (hf rfl)
  case true  => exact (bind_of_eq_some h).trans (ht rfl)

end Expressions

section Statements

variable {first : Stmt} {rest body : List Stmt}

theorem execAll_cons : p.execAll (first :: rest) s = (p.exec first s).andThen (p.execAll rest) :=
  rfl

theorem execAll_of_next (h : p.exec first s = some (.next, t)) :
    p.execAll (first :: rest) s = p.execAll rest t := by
  rw [execAll_cons, h]
  rfl

theorem execAll_of_leave {r : Option Value} (h : p.exec first s = some (.leave r, t)) :
    p.execAll (first :: rest) s = some (.leave r, t) := by
  rw [execAll_cons, h]
  rfl

theorem execAll_declare {constant : Bool} {type : TypeName} {x : String}
    (h : p.eval e s = some (v, t)) (hv : v.convert type = some w) :
    p.execAll (.declare constant type x (some e) :: rest) s =
      p.execAll rest (t.declare x type (some w)) :=
  execAll_of_next <| (bind_of_eq_some h).trans <| bind_of_eq_some hv

theorem execAll_construct {constant : Bool} {type : TypeName} {x : String} {args : List Expr}
    {vs : List Value} (h : p.evalAll args s = some (vs, t))
    (hv : Value.construct type vs = some w) :
    p.execAll (.construct constant type x args :: rest) s =
      p.execAll rest (t.declare x type (some w)) :=
  execAll_of_next <| (bind_of_eq_some h).trans <| bind_of_eq_some hv

theorem execAll_assign {target : Expr} (h : p.eval e s = some (v, t))
    (ht : t.assign v target = some u) :
    p.execAll (.assign target e :: rest) s = p.execAll rest u :=
  execAll_of_next <| (bind_of_eq_some h).trans <| bind_of_eq_some ht

theorem execAll_evaluate (h : p.eval e s = some (v, t)) :
    p.execAll (.evaluate e :: rest) s = p.execAll rest t :=
  execAll_of_next <| bind_of_eq_some h

theorem exec_choose {b : Bool} {no : List Stmt} (h : p.eval e s = some (.bool b, t)) :
    p.exec (.choose e body no) s =
      (p.execAll (if b then body else no) t).leaveBlock s.locals.length := by
  cases b <;> exact bind_of_eq_some h

theorem exec_count {type : TypeName} {x : String} {start limit : Expr}
    (h : p.eval start s = some (v, s)) (hv : v.convert type = some w)
    (hi : iterate (p.eval (.binary .less (.name x) limit))
      (fun s => (Outcome.leaveBlock (p.execAll body s) s.locals.length).andThen (increment x))
      (s.declare x type (some w)) = some (.next, t)) :
    p.exec (.count type x start limit body) s = some (.next, t.leaveBlock s.locals.length) :=
  (bind_of_eq_some h).trans <| (bind_of_eq_some hv).trans <|
    congrArg (Outcome.leaveBlock · s.locals.length) hi

theorem exec_select {k : IntegerKind} {n : Int} {labels : List Nat} {other : List Stmt}
    (h : p.eval e s = some (.integer k n, t)) :
    p.exec (.select e labels body other) s =
      (if labels.any (· = n) then (p.execAll body t).andThen (p.execAll other)
        else p.execAll other t).stopExit.leaveBlock s.locals.length :=
  bind_of_eq_some h

theorem exec_addAssign {target : Expr} (h : p.eval (.binary .add target e) s = some (v, t))
    (ht : t.assign v target = some u) : p.exec (.addAssign target e) s = some (.next, u) :=
  (bind_of_eq_some h).trans <| bind_of_eq_some ht

theorem execAll_leave (h : p.eval e s = some (v, t)) :
    p.execAll (.returnValue e :: rest) s = some (.leave (some v), t) :=
  execAll_of_leave <| bind_of_eq_some h

theorem execAll_when_false (h : p.eval e s = some (.bool false, t))
    (ht : t.locals.length = s.locals.length) :
    p.execAll (.when e body :: rest) s = p.execAll rest t := by
  refine execAll_of_next <| (exec_choose h).trans ?_
  rw [← ht]
  exact congrArg (fun t => some (Flow.next, t)) t.leaveBlock_self

-- A body that leaves the function.
theorem execAll_when_true {r : Option Value} (h : p.eval e s = some (.bool true, t))
    (hb : p.execAll body t = some (.leave r, u)) :
    p.execAll (.when e body :: rest) s = some (.leave r, u.leaveBlock s.locals.length) :=
  execAll_of_leave <| (exec_choose h).trans <|
    congrArg (Outcome.leaveBlock · s.locals.length) hb

end Statements

section Literals

open Arithmetic

variable {p : Program} {s t : State} {e : Expr} {v w : Value}

theorem eval_negate (h : p.eval e s = some (v, t)) (hv : v.negate = some w) :
    p.eval (.negate e) s = some (w, t) :=
  (bind_of_eq_some h).trans <| bind_of_eq_some hv

theorem eval_withSign (negative : Bool) (h : p.eval e s = some (v, t))
    (hv : negative → v.negate = some w) :
    p.eval (e.withSign negative) s = some (if negative then w else v, t) := by
  cases negative
  case false => exact h
  case true  => exact eval_negate h (hv rfl)

-- A number without a suffix is of the type that counts, and one with a suffix of the type of that.
theorem exists_eval_integer (p : Program) (s : State) {n : Nat} {suffix : Suffix}
    (hn : n < if suffix.unsigned then 2 ^ 64 else 2 ^ 63) :
    ∃ k : IntegerKind, p.eval (.integer n suffix) s = some (.integer k n, s) ∧
      (suffix.unsigned = false → k.promote.convert (-n : ℤ) = some (-n : ℤ)) := by
  obtain ⟨t, ht, hu, hc⟩ := @exists_type suffix n hn
  have he : suffix ≠ {} → p.eval (.integer n suffix) s =
      some (.integer (.word t.signed t.width.bits) n, s) := by
    intro h
    rcases suffix with ⟨_ | _, _ | _⟩
    · exact absurd rfl h
    all_goals exact bind_of_eq_some ht
  by_cases h₀ : suffix = {}
  case pos =>
    subst h₀
    exact ⟨.int, rfl, fun _ => rfl⟩
  case neg =>
    refine ⟨_, he h₀, fun h => ?_⟩
    have hc := contains_neg (by rw [hu, h]; rfl) hc (Int.natCast_nonneg n)
    unfold IntegerKind.promote
    dsimp only
    split
    · rfl
    · rw [IntegerKind.convert, hc.reduce_eq]

theorem eval_decimal_withSign {n : Numeral} {single a : Bool} {m : Nat} {hf : Double.Fits m}
    (hd : n.toDouble = .finite false m hf)
    (hs : single → (Double.finite a m hf).toSingle = .finite a m hf) :
    p.eval ((Expr.decimal n single).withSign a) s =
      some (.floating single (.finite a m hf), s) := by
  have hn (h : single) : (Double.finite false m hf).toSingle = .finite false m hf := by
    cases a
    case false => exact hs h
    case true  =>
      have hn := Double.toSingle_negated (.finite true m hf)
      rw [hs h] at hn
      exact hn
  have he : p.eval (.decimal n single) s = some (.floating single (.finite false m hf), s) :=
    bind_of_eq_some (eval?_floating hd hn)
  refine (eval_withSign a he fun _ => rfl).trans ?_
  cases a <;> rfl

theorem eval_whole {n : ℤ} (h : Double.Fits (n.natAbs * Double.one)) :
    p.eval (.whole n) s = some (.floating false (.ofInt n), s) := by
  have hd : Numeral.toDouble ⟨false, n.natAbs, [0], none⟩ = .finite false _ h := by
    have hs := Decimal.toDouble_shift false n.natAbs 1 0
    have hu : Decimal.scaleUp 0 = 1 := rfl
    have hd : Decimal.scaleDown 0 = 1 := rfl
    rw [Decimal.toDouble_eq_nearest ⟨_, _, 0⟩, hu, hd, Nat.mul_one] at hs
    exact hs.trans <| Double.ofSteps_eq h
  rw [Double.ofInt_of_fits h]
  exact eval_decimal_withSign hd (by simp)

theorem exists_eval_ofInteger (p : Program) (s : State) (wide : Bool) (n : Int64) :
    ∃ k, p.eval (.ofInteger wide n) s = some (.integer k n.toInt, s) := by
  by_cases hm : n = Int64.minValue
  case pos =>
    subst hm
    have hg : p.eval (.integer 9223372036854775807 ⟨false, true⟩) s =
        some (.integer (.word true 64) 9223372036854775807, s) :=
      bind_of_eq_some (a := Operand.integer ⟨.w64, true⟩ 9223372036854775807) (by decide +kernel)
    refine ⟨.word true 64, ?_⟩
    rw [Expr.ofInteger, if_pos rfl]
    exact (bind_of_eq_some (eval_negate hg rfl)).trans rfl
  case neg =>
    have hl := n.le_toInt
    have hu := n.toInt_lt
    have hi : n.toInt ≠ -2 ^ 63 := fun h => hm (Int64.toInt_inj.mp h)
    obtain ⟨k, hk, hc⟩ := @exists_eval_integer p s n.toInt.natAbs ⟨false, wide⟩ (by simp; omega)
    have hn : Value.negate (.integer k n.toInt.natAbs) =
        some (.integer k.promote (-n.toInt.natAbs)) := by
      rw [Value.negate, hc rfl]
      rfl
    have hs := eval_withSign (n.toInt < 0) hk fun _ => hn
    rw [Expr.ofInteger, if_neg hm, hs]
    by_cases hz : n.toInt < 0
    · refine ⟨k.promote, ?_⟩
      rw [if_pos (by simpa using hz)]
      congr; omega
    · refine ⟨k, ?_⟩
      rw [if_neg (by simpa using hz)]
      congr; omega

theorem eval_nan (t : FloatType) :
    p.eval (.numericLimit (.storage (.float t)) "quiet_NaN") s =
      some (.floating t.single .nan, s) := by
  obtain ⟨single, _⟩ := t
  cases single <;> rfl

theorem eval_infinity (t : FloatType) :
    p.eval (.numericLimit (.storage (.float t)) "infinity") s =
      some (.floating t.single (.infinite false), s) := by
  obtain ⟨single, _⟩ := t
  cases single <;> rfl

theorem eval_ofDouble {t : FloatType} {x : Double} (h : t.holds x) :
    p.eval (.ofDouble t x) s = some (.floating t.single x, s) := by
  match x with
  | .nan           => exact eval_nan t
  | .infinite a    =>
    refine (eval_withSign a (eval_infinity t) fun _ => rfl).trans ?_
    cases a <;> rfl
  | .finite a m hf =>
    refine eval_decimal_withSign (NumberFormat.toDouble_numeral (f := .explicit) rfl false hf) ?_
    intro hs
    simpa [FloatType.round, hs] using FloatType.round_eq_of_holds h

end Literals

end Program

end Source

end AddonBinding
