import AddonBinding.Proofs.ExecutionRules
import Mathlib.Data.List.Induction

namespace AddonBinding

namespace Source

namespace Program

section Call

variable {p : Program} {s : State} {e : Expr} {f x : String} {g : Callee}

-- A name that stands for a function of the program.
def Calls (p : Program) (f : String) (g : Callee) : Prop :=
  ∀ args s, p.call f args s = s.callFunction g args

-- What the libraries define is in their namespaces.
theorem head_libraryFunctions : ∀ b ∈ libraryFunctions,
    b.1.toList.head? = some 's' ∨ b.1.toList.head? = some 'N' := by
  simp [libraryFunctions, Arithmetic.Operand.constants]

theorem head_append {c : Char} {t : String} (h : f.toList.head? = some c) :
    (f ++ t).toList.head? = some c := by
  rw [String.toList_append, List.head?_append, h]
  rfl

theorem head_unwrapName (c : Class) : (unwrapName c).toList.head? = some 'N' :=
  head_append (head_append (by simp))

theorem calls_of_lookup (hs : f.toList.head? ≠ some 's') (hn : f.toList.head? ≠ some 'N')
    (h : p.functions.lookup f = some g) : p.Calls f g := by
  have hl : libraryFunctions.lookup f = none := by
    rw [List.lookup_eq_none_iff]
    intro b hb
    rw [bne_iff_ne]
    intro he
    exact head_libraryFunctions b hb |>.elim (he ▸ hs) (he ▸ hn)
  have hc : p.classes.find? (unwrapName · = f) = none := by
    rw [List.find?_eq_none]
    intro c _ hc
    exact hn (of_decide_eq_true hc ▸ head_unwrapName c)
  intro args s
  simp only [call, hl, hc, h]

theorem Calls.eval_value {v r : Value} (h : p.Calls f g) (hx : s.locals.content x = some v)
    (hv : State.values [v] = [v]) (ha : State.addressed [v] = []) (hg : g [v] [] = some (r, [])) :
    p.eval (.callName f [.name x]) s = some (r, s) := by
  rw [eval_call (evalAll_one (eval_name hx)), h, State.callFunction, hv, ha]
  exact bind_of_eq_some hg

-- The callee sees what the variable contains, and decides what it contains afterwards.
theorem Calls.eval_address {v : HostValue} {r : Value} {cell : Cell} {c : Option Value}
    {locals : Cells} (h : p.Calls f g) (he : p.eval e s = some (.host v, s))
    (hx : s.locals.lookup x = some cell) (hg : g [.host v] [cell.content] = some (r, [c]))
    (hl : s.locals.update x (fun cell => some ⟨cell.type, c⟩) = some locals) :
    p.eval (.callName f [e, .addressOf (.name x)]) s = some (r, { s with locals }) := by
  have ha : p.evalAll [e, .addressOf (.name x)] s = some ([.host v, .address x], s) :=
    bind_of_eq_some he
  have hc : (State.addressed [.host v, .address x]).mapM (fun x => s.locals.lookup x) =
      some [cell] := by
    simp [State.addressed, hx]
  have hr : State.refill s.locals [x] [c] = some locals := bind_of_eq_some hl
  rw [eval_call ha, h, State.callFunction, hc]
  exact (bind_of_eq_some hg).trans <| bind_of_eq_some hr

end Call

end Program

section Returns

variable {p : Program} {s t : State} {e : Expr} {v : Value} {rest body : List Stmt}
  {contents : List (Option Value)}

namespace Program

-- Statements that end with a result, and what the pointer parameters point to then.
def Returns (p : Program) (body : List Stmt) (s : State) (v : Value)
    (contents : List (Option Value)) : Prop :=
  ∃ t, p.execAll body s = some (.leave (some v), t) ∧ t.targets.map (·.2.content) = contents

theorem Returns.of_eq {first : List Stmt} (h : p.execAll first s = p.execAll rest t)
    (hr : p.Returns rest t v contents) : p.Returns first s v contents :=
  have ⟨u, hu, hc⟩ := hr
  ⟨u, h.trans hu, hc⟩

theorem Returns.leave (h : p.eval e s = some (v, t)) (ht : t.targets.map (·.2.content) = contents) :
    p.Returns (.returnValue e :: rest) s v contents :=
  ⟨t, execAll_leave h, ht⟩

theorem Returns.when_true (h : p.eval e s = some (.bool true, t))
    (hb : p.Returns body t v contents) : p.Returns (.when e body :: rest) s v contents :=
  have ⟨u, hu, hc⟩ := hb
  ⟨u.leaveBlock s.locals.length, execAll_when_true h hu, hc⟩

-- A condition that changes nothing.
theorem Returns.when {b : Bool} (h : p.eval e s = some (.bool b, s))
    (hb : b = true → p.Returns body s v contents) (hr : b = false → p.Returns rest s v contents) :
    p.Returns (.when e body :: rest) s v contents := by
  cases b
  case false => exact .of_eq (execAll_when_false h rfl) (hr rfl)
  case true  => exact .when_true h (hb rfl)

theorem Returns.declare {constant : Bool} {type : TypeName} {x : String} {a b : Value}
    (h : p.eval e s = some (a, s)) (hv : a.convert type = some b)
    (hr : p.Returns rest (s.declare x type (some b)) v contents) :
    p.Returns (.declare constant type x (some e) :: rest) s v contents :=
  .of_eq (execAll_declare h hv) hr

end Program

theorem Function.run_of_returns {f : Function} {args : List Value} {locals targets : Cells}
    {w : Value} {after : List (Option Value)} (hl : bindValues f.parameters args = some locals)
    (ht : bindTargets f.parameters contents = some targets)
    (h : p.Returns f.body { locals, targets } v after) (hv : v.convert f.result = some w) :
    f.run p args contents = some (w, after) := by
  have ⟨u, hu, hc⟩ := h
  simp only [run, hl, ht, hu, hv, hc, Option.bind_eq_bind, Option.bind_some, Option.pure_def]

end Returns

section Link

variable {f : Function} {fs gs : List Function} {name : String} {g : Callee}

theorem link_concat (fs : List Function) (f : Function) :
    link (fs ++ [f]) = link fs ++ [(f.name, f.run { functions := link fs })] := by
  simp only [link, List.foldl_append, List.foldl_cons, List.foldl_nil]

-- Functions that come later do not change what a name stands for.
theorem lookup_link_append (h : (link fs).lookup name = some g) :
    (link (fs ++ gs)).lookup name = some g := by
  induction gs using List.reverseRecOn
  case nil               => rwa [List.append_nil]
  case append_singleton gs f ih =>
    rw [← List.append_assoc, link_concat, List.lookup_append, ih]
    rfl

theorem lookup_link_eq_none (h : ∀ f ∈ fs, f.name ≠ name) : (link fs).lookup name = none := by
  induction fs using List.reverseRecOn
  case nil               => rfl
  case append_singleton fs f ih =>
    have ⟨hs, hf⟩ := List.forall_mem_append.mp h
    have hn : (name == f.name) = false := beq_false_of_ne (hf f (List.mem_singleton_self f)).symm
    rw [link_concat, List.lookup_append, ih hs, List.lookup_cons, hn]
    rfl

theorem lookup_link (h : ∀ f' ∈ fs, f'.name ≠ f.name) :
    (link (fs ++ f :: gs)).lookup f.name = some (f.run { functions := link fs }) := by
  rw [List.append_cons]
  apply lookup_link_append
  rw [link_concat, List.lookup_append, lookup_link_eq_none h, List.lookup_cons_self]
  rfl

end Link

end Source

end AddonBinding
