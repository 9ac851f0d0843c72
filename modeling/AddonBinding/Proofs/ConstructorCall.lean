import AddonBinding.Proofs.UnitProgram

namespace AddonBinding

open Source Program

section Fields

-- The fields of an object. One that has no value yet is not initialised.
def fieldCells (attributes : List AttributePlan) (storage : List (Option NativeValue)) : Cells :=
  List.zipWith (fun a v => (a.field, ⟨.storage a.type, v.map (stored a.type)⟩)) attributes storage

-- The instance of the generated class that stands for an object.
def HostObject.object (o : HostObject) : Object where
  className := o.plan.name
  fields    := fieldCells o.plan.attributes (o.storage.map some)

-- What the host finds after an object was to be created.
def Source.Host.created (host : Host) : Except RuntimeError HostObject → Host
  | .error e => { host with thrown := some (utf8 e.message) }
  | .ok o    => { host with
    objects := host.objects ++ [o.object]
    wrapped := some host.objects.length
    answer  := some .receiver }

variable {attributes : List AttributePlan} {storage : List (Option NativeValue)} {a : AttributePlan}
variable {v : NativeValue} {k : Nat}

theorem put_fieldCells (hd : (attributes.map (·.name)).Nodup) (ha : attributes[k]? = some a)
    (hl : storage.length = attributes.length) {w : Value}
    (hv : w.convert (.storage a.type) = some (stored a.type v)) :
    (fieldCells attributes storage).put a.field w =
      some (fieldCells attributes (storage.set k (some v))) := by
  induction attributes generalizing storage k
  case nil => contradiction
  case cons b attributes hi =>
    have ⟨hb, hd⟩ := List.nodup_cons.mp hd
    have ⟨_, rest, hs⟩ := List.exists_cons_of_length_eq_add_one hl
    subst hs
    cases k
    case zero =>
      cases ha
      exact Cells.put_head hv
    case succ k =>
      have hf : b.field ≠ a.field := by
        intro hf
        have hn := (append_underscore_inj hf).symm
        exact hb <| List.mem_map.mpr ⟨a, List.mem_of_getElem? ha, hn⟩
      exact Cells.put_tail hf <| hi hd ha (Nat.succ.inj hl)

-- An assignment to a field is an assignment to the slot.
theorem put_storage {storage : List NativeValue} (hd : (attributes.map (·.name)).Nodup)
    (ha : attributes[k]? = some a) (hl : storage.length = attributes.length)
    (hv : a.type.holds v) :
    (fieldCells attributes (storage.map some)).put a.field (stored a.type v) =
      some (fieldCells attributes ((storage.set k v).map some)) := by
  rw [List.map_set]
  exact put_fieldCells hd ha (by simpa using hl) (Helper.convert_stored hv)

end Fields

namespace Source.Program

variable {p : Program} {policy : CoercionPolicy} {plan : InterfacePlan} {s : State}

-- The constructor goes through the fields in order, so the fields before one have values and the
-- others have none.
theorem initialise_fieldCells {attributes : List AttributePlan}
    (hd : (attributes.map (·.name)).Nodup) (pre post : List AttributePlan)
    (ha : attributes = pre ++ post) :
    (fieldCells attributes (pre.map (some ·.type.zero) ++ post.map fun _ => none)).initialise
      (post.map fun a => (a.field, (initialValue? (.ofNative a.type a.type.zero)).getD .void)) =
        some (fieldCells attributes (attributes.map (some ·.type.zero))) := by
  induction post generalizing pre
  case nil => simp [Cells.initialise, ha]
  case cons a post hi =>
    have hp : attributes[pre.length]? = some a := by simp [ha]
    refine (bind_of_eq_some
      (put_fieldCells hd hp (by simp [ha]) (convert_initialValue a.type))).trans ?_
    simpa [Cells.initialise] using hi (pre ++ [a]) (by simp [ha])

theorem declared_fields (plan : InterfacePlan) :
    plan.classDeclaration.fields.map (fun f => (f.name, Cell.mk f.type none)) =
      fieldCells plan.attributes (plan.attributes.map fun _ => none) := by
  have hf : plan.classDeclaration.fields =
      plan.attributes.map fun a => ⟨.storage a.type, a.field⟩ := by
    rw [List.map_eq_flatMap]
    simp [InterfacePlan.classDeclaration, InterfacePlan.fragments, ConstructorPlan.fragment,
      AttributePlan.fragment, List.flatMap_map]
  rw [hf, fieldCells, List.zipWith_map_right, List.zipWith_self, List.map_map]
  rfl

theorem Serves.eval_new (h : p.Serves policy plan) (l : plan.LaidOut) (s : State) :
    p.eval (.new plan.name) s = some (.object s.host.objects.length, { s with
      host.objects := s.host.objects ++
        [⟨plan.name, fieldCells plan.attributes (plan.initialStorage.map some)⟩] }) := by
  have hi : Cells.initialise (plan.classDeclaration.fields.map fun f => (f.name, ⟨f.type, none⟩))
      plan.initialValues = some (fieldCells plan.attributes (plan.initialStorage.map some)) := by
    rw [declared_fields, InterfacePlan.initialStorage, List.map_map]
    exact initialise_fieldCells l.names [] plan.attributes rfl
  exact (bind_of_eq_some h.creates).trans <| bind_of_eq_some hi

end Source.Program

namespace Source.Cells

variable {before mid after bindings : Cells} {b : String × Cell} {x : String} {cell cell' : Cell}

-- Variables have these cells, and all others are as they were.
structure Assigned (bindings before after : Cells) : Prop where
  bound : ∀ b ∈ bindings, after.lookup b.1 = some b.2
  other : ∀ x, (∀ b ∈ bindings, b.1 ≠ x) → after.lookup x = before.lookup x

theorem Assigned.nil (cells : Cells) : Assigned [] cells cells :=
  ⟨by simp, fun _ _ => rfl⟩

theorem Assigned.of_lookup (h : before.lookup b.1 = some b.2) : Assigned [b] before before :=
  ⟨by simpa using h, fun _ _ => rfl⟩

theorem Assigned.declare (x : String) (cell : Cell) (cells : Cells) :
    Assigned [(x, cell)] cells ((x, cell) :: cells) := by
  constructor
  case bound => simp
  case other =>
    intro y hy
    have hy : (y == x) = false := beq_false_of_ne (hy _ (List.mem_singleton_self _)).symm
    rw [List.lookup_cons, hy]

theorem Assigned.cons (h : Assigned [b] before mid) (hs : Assigned bindings mid after)
    (hb : ∀ c ∈ bindings, c.1 ≠ b.1) : Assigned (b :: bindings) before after := by
  constructor
  case bound =>
    rw [List.forall_mem_cons, hs.other b.1 hb]
    exact ⟨h.bound b (List.mem_singleton_self b), hs.bound⟩
  case other =>
    intro x hx
    have ⟨hx, hxs⟩ := List.forall_mem_cons.mp hx
    rw [hs.other x hxs, h.other x (by simpa using hx)]

theorem Assigned.lift (h : Assigned [(x, cell)] before after) (hb : b.1 ≠ x) :
    Assigned [(x, cell)] (b :: before) (b :: after) := by
  constructor
  case bound =>
    rw [List.forall_mem_singleton, List.lookup_cons, beq_false_of_ne hb.symm]
    exact h.bound _ (List.mem_singleton_self _)
  case other =>
    intro y hy
    rw [List.lookup_cons, List.lookup_cons, h.other y hy]

theorem exists_update {f : Cell → Option Cell} {cells : Cells} (h : cells.lookup x = some cell)
    (hf : f cell = some cell') : ∃ after, cells.update x f = some after ∧
      after.length = cells.length ∧ Assigned [(x, cell')] cells after := by
  induction cells
  case nil => contradiction
  case cons b cells hi =>
    rw [List.lookup_cons] at h
    by_cases hb : b.1 = x
    case pos =>
      subst hb
      rw [beq_self_eq_true] at h
      have hu : update b.1 f (b :: cells) = some ((b.1, cell') :: cells) := by
        simp [update, Option.some.inj h, hf]
      refine ⟨_, hu, rfl, (Assigned.declare b.1 cell' cells).bound, fun y hy => ?_⟩
      have hy : (y == b.1) = false := beq_false_of_ne (hy _ (List.mem_singleton_self _)).symm
      rw [List.lookup_cons, List.lookup_cons, hy]
    case neg =>
      rw [beq_false_of_ne <| Ne.symm hb] at h
      obtain ⟨after, hu, hl, ha⟩ := hi h
      exact ⟨b :: after, by simp [update, hb, hu], congrArg (· + 1) hl, ha.lift hb⟩

end Source.Cells

namespace Source.Program

variable {p : Program} {policy : CoercionPolicy} {plan : InterfacePlan} {s t : State}
variable {first rest : List Stmt} {e : RuntimeError}

-- Statements that leave with an error of the host and change nothing else there.
def Raises (p : Program) (body : List Stmt) (s : State) (e : RuntimeError) : Prop :=
  ∃ t, p.execAll body s = some (.leave none, t) ∧
    t.host = { s.host with thrown := some (utf8 e.message) }

theorem Raises.host? (h : p.Raises rest s e) :
    (p.execAll rest s).host? = some { s.host with thrown := some (utf8 e.message) } := by
  have ⟨t, ht, hh⟩ := h
  rw [ht, ← hh]
  rfl

theorem Raises.of_eq (h : p.execAll first s = p.execAll rest t) (ht : t.host = s.host)
    (hr : p.Raises rest t e) : p.Raises first s e :=
  have ⟨u, hu, hh⟩ := hr
  ⟨u, h.trans hu, ht ▸ hh⟩

theorem Raises.when {condition : Expr} {body : List Stmt}
    (h : p.eval condition s = some (.bool true, t)) (ht : t.host = s.host)
    (hb : p.Raises body t e) : p.Raises (.when condition body :: rest) s e :=
  have ⟨u, hu, hh⟩ := hb
  ⟨u.leaveBlock s.locals.length, execAll_when_true h hu, ht ▸ hh⟩

theorem Serves.raises (h : p.Serves policy plan) {message : Expr}
    (hm : p.eval message s = some (.chars (utf8 e.message), s)) :
    p.Raises (throwing message) s e := by
  have hc := (eval_call (evalAll_one hm)).trans (h.throws ..)
  exact ⟨_, execAll_evaluate hc, rfl⟩

theorem Calls.exists_eval {f x : String} {g : Callee} {value : Expr} {v : HostValue} {r : Value}
    {cell : Cell} {c : Option Value} (h : p.Calls f g) (hv : p.eval value s = some (.host v, s))
    (hx : s.locals.lookup x = some cell) (hg : g [.host v] [cell.content] = some (r, [c])) :
    ∃ locals, locals.length = s.locals.length ∧
      p.eval (.callName f [value, .addressOf (.name x)]) s = some (r, { s with locals }) ∧
        Cells.Assigned [(x, ⟨cell.type, c⟩)] s.locals locals := by
  have ⟨locals, hu, hl, ha⟩ := Cells.exists_update (f := fun cell => some ⟨cell.type, c⟩) hx rfl
  exact ⟨locals, hl, h.eval_address hv hx hg hu, ha⟩

-- Statements that give variables values before others follow, or that raise an error.
def Fills (p : Program) (first rest : List Stmt) (s : State) : Except RuntimeError Cells → Prop
  | .ok bindings => ∃ locals, p.execAll (first ++ rest) s = p.execAll rest { s with locals } ∧
    Cells.Assigned bindings s.locals locals
  | .error e     => p.Raises (first ++ rest) s e

theorem Fills.ok {bindings locals : Cells}
    (h : p.execAll (first ++ rest) s = p.execAll rest { s with locals })
    (ha : Cells.Assigned bindings s.locals locals) : p.Fills first rest s (.ok bindings) :=
  ⟨locals, h, ha⟩

theorem Fills.error (h : p.Raises (first ++ rest) s e) : p.Fills first rest s (.error e) :=
  h

-- A conversion fills the variable if it succeeds, and leaves it alone otherwise.
theorem Serves.eval_decodeCall (h : p.Serves policy plan) {a : AttributePlan}
    (ha : a ∈ plan.attributes) {value : Expr} {v : HostValue} {x : String} {cell : Cell}
    (hv : p.eval value s = some (.host v, s)) (hx : s.locals.lookup x = some cell) :
    ∃ locals, locals.length = s.locals.length ∧
      match a.type.decode policy v with
      | .ok n    =>
        p.eval (decodeCall a.type value x) s = some (.bool true, { s with locals }) ∧
          Cells.Assigned [(x, ⟨cell.type, some (stored a.type n)⟩)] s.locals locals
      | .error _ =>
        p.eval (decodeCall a.type value x) s = some (.bool false, { s with locals }) ∧
          Cells.Assigned [(x, cell)] s.locals locals := by
  have ⟨f, hf, hd⟩ := h.decodes a ha
  have hd := hd v cell.content
  cases hr : a.type.decode policy v <;> rw [hr] at hd <;> exact hf.exists_eval hv hx hd

end Source.Program

def ParameterPlan.cell (q : ParameterPlan) (v : NativeValue) : String × Cell :=
  (q.name, ⟨.storage q.type, some (stored q.type v)⟩)

namespace ConstructorPlan

variable {c : ConstructorPlan} {policy : CoercionPolicy} {args : List HostValue} {k : Nat}
variable {q : ParameterPlan} {qs : List ParameterPlan} {bs : List (ParameterPlan × NativeValue)}

-- The parameters from a position on with their values.
def bindings (c : ConstructorPlan) (policy : CoercionPolicy) (args : List HostValue) :
    Nat → List ParameterPlan → Except RuntimeError (List (ParameterPlan × NativeValue))
  | _, []      => .ok []
  | k, q :: qs => do
    let v ← c.argument policy args k q
    let bs ← c.bindings policy args (k + 1) qs
    return (q, v) :: bs

theorem mapM_argument (qs : List ParameterPlan) (k : Nat) :
    ((qs.zipIdx k).mapM fun (p, position) =>
      return (p.slot, ← c.argument policy args position p)) =
      (c.bindings policy args k qs).map (·.map fun b => (b.1.slot, b.2)) := by
  induction qs generalizing k
  case nil => rfl
  case cons q qs hi =>
    rw [List.zipIdx_cons, List.mapM_cons, hi, bindings]
    dsimp only
    cases c.argument policy args k q <;> cases c.bindings policy args (k + 1) qs <;> rfl

theorem bind_eq :
    c.bind policy args =
      if args.length < c.required ∨ c.total < args.length then .error (.arity c args.length)
      else (c.bindings policy args 0 c.parameters).map (·.map fun b => (b.1.slot, b.2)) := by
  rw [bind, mapM_argument]

theorem holds_argument (hi : q.type.holds q.initial) {v : NativeValue}
    (h : c.argument policy args k q = .ok v) : q.type.holds v := by
  unfold argument at h
  split at h
  case _ => exact Except.ok.inj h ▸ hi
  case _ => exact ScalarType.holds_of_decode <| mapError_eq_ok_iff.mp h

theorem bindings_cons_eq_ok_iff :
    c.bindings policy args k (q :: qs) = .ok bs ↔ ∃ v bs', c.argument policy args k q = .ok v ∧
      c.bindings policy args (k + 1) qs = .ok bs' ∧ (q, v) :: bs' = bs := by
  simp only [bindings, bind_eq_ok_iff, pure_eq_ok_iff, exists_and_left]

theorem bindings_parameters (h : c.bindings policy args k qs = .ok bs) : bs.map (·.1) = qs := by
  induction qs generalizing k bs
  case nil =>
    cases h
    rfl
  case cons q qs hi =>
    have ⟨v, bs', _, hb, h⟩ := bindings_cons_eq_ok_iff.mp h
    rw [← h, List.map_cons, hi hb]

theorem bindings_holds (hi : ∀ q ∈ qs, q.type.holds q.initial)
    (h : c.bindings policy args k qs = .ok bs) : ∀ b ∈ bs, b.1.type.holds b.2 := by
  induction qs generalizing k bs
  case nil =>
    cases h
    simp
  case cons q qs ih =>
    have ⟨hq, hi⟩ := List.forall_mem_cons.mp hi
    have ⟨v, bs', hv, hb, h⟩ := bindings_cons_eq_ok_iff.mp h
    exact h ▸ List.forall_mem_cons.mpr ⟨holds_argument hq hv, ih hi hb⟩

end ConstructorPlan

-- The object whose storage has the parameters' values in their slots.
def InterfacePlan.filled (plan : InterfacePlan) (policy : CoercionPolicy)
    (bs : List (ParameterPlan × NativeValue)) : HostObject where
  plan    := plan
  policy  := policy
  storage := bs.foldl (fun storage b => storage.set b.1.slot b.2) plan.initialStorage

theorem InterfacePlan.construct_eq {plan : InterfacePlan} {policy : CoercionPolicy}
    {args : List HostValue} :
    plan.construct policy args =
      if args.length < plan.constructor.required ∨ plan.constructor.total < args.length then
        .error (.arity plan.constructor args.length)
      else (plan.constructor.bindings policy args 0 plan.constructor.parameters).map
        (plan.filled policy) := by
  rw [construct, ConstructorPlan.bind_eq]
  split
  case isTrue  => rfl
  case isFalse =>
    cases plan.constructor.bindings policy args 0 plan.constructor.parameters
    case error => rfl
    case ok bs =>
      simp [filled, Except.map, bind, Except.bind, pure, Except.pure, List.foldl_map]

namespace Source.Program

variable {p : Program} {policy : CoercionPolicy} {plan : InterfacePlan} {s : State}
variable {rest : List Stmt} {args : List HostValue} {c : ConstructorPlan} {k : Nat}
variable {q : ParameterPlan} {qs : List ParameterPlan}

-- The variables that the conversions of the arguments look at.
structure Ready (args : List HostValue) (locals : Cells) : Prop where
  info : locals.content "info" = some (.info args true)
  argc : locals.content "argc" = some (.integer .int args.length)

theorem Ready.assigned {bindings before after : Cells} (h : Ready args before)
    (ha : Cells.Assigned bindings before after)
    (hn : ∀ b ∈ bindings, b.1 ≠ "info" ∧ b.1 ≠ "argc") : Ready args after := by
  constructor
  case info =>
    rw [Cells.content, ha.other _ fun b hb => (hn b hb).left]
    exact h.info
  case argc =>
    rw [Cells.content, ha.other _ fun b hb => (hn b hb).right]
    exact h.argc

theorem execAll_argumentVariables (hd : (qs.map (·.name)).Nodup)
    (hi : ∀ q ∈ qs, q.type.holds q.initial) (rest : List Stmt) (s : State) :
    ∃ locals, p.execAll (qs.map ConstructorPlan.argumentVariable ++ rest) s =
        p.execAll rest { s with locals } ∧
      Cells.Assigned (qs.map fun q => q.cell q.initial) s.locals locals := by
  induction qs generalizing s
  case nil => exact ⟨s.locals, rfl, .nil _⟩
  case cons q qs ih =>
    have ⟨hq, hd⟩ := List.nodup_cons.mp hd
    have ⟨hh, hi⟩ := List.forall_mem_cons.mp hi
    have ⟨w, he, hc⟩ := Helper.exists_eval_ofNative hh p s
    have ⟨locals, hl, ha⟩ := ih hd hi (s.declare q.name (.storage q.type)
      (some (stored q.type q.initial)))
    refine ⟨locals, (execAll_declare he hc).trans hl, ?_⟩
    refine .cons (.declare ..) ha fun b hb => ?_
    have ⟨r, hr, hb⟩ := List.mem_map.mp hb
    subst hb
    intro he
    exact hq <| List.mem_map.mpr ⟨r, hr, he⟩

section Decode

variable (h : p.Serves policy plan) {a : AttributePlan} (ha : a ∈ plan.attributes)
variable (ht : a.type = q.type) (hr : Ready args s.locals) (hk : c.required ≤ args.length)
variable (hq : s.locals.lookup q.name = some (q.cell q.initial).2)
include h ha ht hr hk hq

-- One argument is converted as the host layer does it, with the default in place before.
theorem fills_decodeArgument (k : Nat) (rest : List Stmt) :
    p.Fills [c.decodeArgument k q] rest s
      ((c.argument policy args k q).map fun v => [q.cell v]) := by
  have hc : p.eval (.binary .greater (.name "argc") (.natural k)) s =
      some (.bool (k < args.length), s) :=
    eval_binary (BinaryOperator.greater_int ..) (eval_name hr.argc) rfl
  unfold ConstructorPlan.argument ConstructorPlan.decodeArgument
  cases hv : args[k]?
  case none =>
    have hl : args.length ≤ k := List.getElem?_eq_none_iff.mp hv
    have hn : ¬k < c.required := by omega
    refine .ok (execAll_when_false ?_ rfl) (.of_lookup hq)
    rw [if_neg hn, eval_both hc, decide_eq_false (Nat.not_lt.mpr hl)]
    rfl
  case some v =>
    have hl : k < args.length := (List.getElem?_eq_some_iff.mp hv).choose
    have he : p.eval (.index (.name "info") (.natural k)) s = some (.host v, s) :=
      eval_index (eval_name hr.info) rfl (by simp [Value.element, hv])
    obtain ⟨locals, hs, hd⟩ := h.eval_decodeCall ha he hq
    have hg (t : State) (b : Bool) (failed : Expr) (hf : p.eval failed s = some (.bool b, t)) :
        p.eval (if k < c.required then failed
          else .binary .both (.binary .greater (.name "argc") (.natural k)) failed) s =
            some (.bool b, t) := by
      split
      case isTrue  => exact hf
      case isFalse => rw [eval_both hc, decide_eq_true hl, if_pos rfl, hf]
    rw [ht] at hd
    dsimp only
    cases hr : q.type.decode policy v <;> rw [hr] at hd
    case ok n    =>
      refine .ok ?_ hd.right
      exact execAll_when_false (hg _ _ _ (eval_not hd.left)) hs
    case error r =>
      refine .error ?_
      exact .when (hg _ _ _ (eval_not hd.left)) rfl (h.raises rfl)

end Decode

-- The conversions go through the parameters in order, and the first error ends them. A conversion
-- touches neither what the later ones look at nor the defaults that they may keep.
theorem fills_decodeArguments (h : p.Serves policy plan)
    (hb : ∀ q ∈ qs, ∃ a ∈ plan.attributes, a.type = q.type) (hd : (qs.map (·.name)).Nodup)
    (hn : ∀ q ∈ qs, q.name ≠ "info" ∧ q.name ≠ "argc") (hr : Ready args s.locals)
    (hk : c.required ≤ args.length)
    (hq : ∀ q ∈ qs, s.locals.lookup q.name = some (q.cell q.initial).2) (rest : List Stmt) :
    p.Fills ((qs.zipIdx k).map fun (q, k) => c.decodeArgument k q) rest s
      ((c.bindings policy args k qs).map (·.map fun b => b.1.cell b.2)) := by
  induction qs generalizing k s
  case nil => exact .ok rfl (.nil _)
  case cons q qs ih =>
    have ⟨⟨a, ha, ht⟩, hb⟩ := List.forall_mem_cons.mp hb
    have ⟨hqn, hd⟩ := List.nodup_cons.mp hd
    have ⟨hnq, hn⟩ := List.forall_mem_cons.mp hn
    have ⟨hqq, hq⟩ := List.forall_mem_cons.mp hq
    have hs := fills_decodeArgument h ha ht hr hk hqq k
      ((qs.zipIdx (k + 1)).map (fun (q, k) => c.decodeArgument k q) ++ rest)
    rw [ConstructorPlan.bindings]
    cases hv : c.argument policy args k q <;> rw [hv] at hs
    case error e => exact hs
    case ok v    =>
      have ⟨locals, hl, hs⟩ := hs
      have hne : ∀ r ∈ qs, q.name ≠ r.name := by
        intro r hr he
        exact hqn <| List.mem_map.mpr ⟨r, hr, he.symm⟩
      have hi := ih (s := { s with locals }) (k := k + 1) hb hd hn
        (hr.assigned hs (List.forall_mem_singleton.mpr hnq)) fun r hm => by
          rw [hs.other r.name (List.forall_mem_singleton.mpr (hne r hm))]
          exact hq r hm
      cases hv : c.bindings policy args (k + 1) qs <;> rw [hv] at hi
      case error e => exact .error <| .of_eq hl rfl hi
      case ok bs   =>
        have ⟨locals', hl', hs'⟩ := hi
        refine .ok (hl.trans hl') (hs.cons hs' <| List.forall_mem_map.mpr fun b hm => ?_)
        have hm : b.1 ∈ qs :=
          ConstructorPlan.bindings_parameters hv ▸ List.mem_map_of_mem hm
        exact (hne b.1 hm).symm

section Arity

variable (hr : Ready args s.locals)
include hr

theorem eval_arityCondition :
    p.eval c.arityCondition s =
      some (.bool (args.length < c.required ∨ c.total < args.length), s) := by
  have hm : p.eval (.binary .greater (.name "argc") (.natural c.total)) s =
      some (.bool (c.total < args.length), s) :=
    eval_binary (BinaryOperator.greater_int ..) (eval_name hr.argc) rfl
  have hl : p.eval (.binary .less (.name "argc") (.natural c.required)) s =
      some (.bool (args.length < c.required), s) :=
    eval_binary (BinaryOperator.less_int ..) (eval_name hr.argc) rfl
  unfold ConstructorPlan.arityCondition
  dsimp only
  split
  case isTrue h  => simp [hm, h]
  case isFalse h => rw [eval_either hl hm, Bool.decide_or]

theorem eval_argumentCount :
    p.eval (.callName "std::to_string" [.name "argc"]) s =
      some (.text (utf8 (toString args.length)), s) :=
  eval_call (evalAll_one (eval_name hr.argc))

theorem eval_argumentVerb :
    p.eval (.parens (.conditional (.binary .equal (.name "argc") (.natural 1)) (.text " was")
      (.text " were"))) s =
        some (.chars (utf8 (if args.length = 1 then " was" else " were")), s) := by
  refine eval_conditional (eval_binary (BinaryOperator.equal_int ..) (eval_name hr.argc) rfl) ?_ ?_
  · intro h
    rw [if_pos (of_decide_eq_true h)]
    rfl
  · intro h
    rw [if_neg (of_decide_eq_false h)]
    rfl

-- The message is put together when it is needed, from the number of arguments at hand.
theorem raises_arityThrow (h : p.Serves policy plan) :
    p.Raises c.arityThrow s (.arity c args.length) := by
  have hs : p.eval (.callName "std::string" [.text c.arityStart]) s =
      some (.text (utf8 c.arityStart), s) := rfl
  have hm : utf8 (c.arityMessage args.length) =
      utf8 c.arityStart ++ utf8 (toString args.length) ++
        utf8 (if args.length = 1 then " was" else " were") ++ utf8 " provided." := by
    simp only [ConstructorPlan.arityMessage, utf8_append]
  have ht := eval_binary (BinaryOperator.add_text ..) hs (eval_argumentCount hr)
  have ht := eval_binary (BinaryOperator.add_chars ..) ht (eval_argumentVerb hr)
  have ht := eval_binary (a := .text " provided.") (BinaryOperator.add_chars ..) ht rfl
  rw [← hm] at ht
  exact .of_eq (execAll_declare ht rfl) rfl (h.raises rfl)

end Arity

section Fields

variable {n : Nat} {o : Object} {field : String} {v : Value} {fields : Cells}

theorem assign_selfField (hx : s.locals.content "self" = some (.object n))
    (ho : s.host.objects[n]? = some o) (hf : o.fields.put field v = some fields) :
    s.assign v (selfField field) =
      some { s with host.objects := s.host.objects.set n { o with fields } } :=
  (bind_of_eq_some hx).trans <| (bind_of_eq_some ho).trans <| bind_of_eq_some hf

-- A field is assigned when the slot of its parameter is filled.
theorem execAll_fieldAssignments {attributes : List AttributePlan} {className : String}
    {storage : List NativeValue} {bs : List (ParameterPlan × NativeValue)}
    (hd : (attributes.map (·.name)).Nodup) (hl : storage.length = attributes.length)
    (hx : s.locals.content "self" = some (.object n))
    (ho : s.host.objects[n]? = some ⟨className, fieldCells attributes (storage.map some)⟩)
    (hb : ∀ b ∈ bs, ∃ a, attributes[b.1.slot]? = some a ∧ a.name = b.1.name ∧ a.type = b.1.type)
    (hh : ∀ b ∈ bs, b.1.type.holds b.2)
    (hs : ∀ b ∈ bs, s.locals.content b.1.name = some (stored b.1.type b.2)) (rest : List Stmt) :
    p.execAll (bs.map (fun b => .assign (selfField (b.1.name ++ "_")) (.name b.1.name)) ++ rest) s =
      p.execAll rest { s with host.objects := s.host.objects.set n ⟨className, fieldCells attributes
        ((bs.foldl (fun storage b => storage.set b.1.slot b.2) storage).map some)⟩ } := by
  induction bs generalizing s storage
  case nil =>
    have ⟨hn, ho⟩ := List.getElem?_eq_some_iff.mp ho
    have he := ho ▸ List.set_getElem_self hn
    simp [he]
  case cons b bs hi =>
    have ⟨⟨a, ha, hn, ht⟩, hb⟩ := List.forall_mem_cons.mp hb
    have ⟨hhb, hh⟩ := List.forall_mem_cons.mp hh
    have ⟨hsb, hs⟩ := List.forall_mem_cons.mp hs
    have hf : (fieldCells attributes (storage.map some)).put (b.1.name ++ "_")
        (stored b.1.type b.2) =
          some (fieldCells attributes ((storage.set b.1.slot b.2).map some)) := by
      rw [← hn, ← ht]
      exact put_storage hd ha hl (ht ▸ hhb)
    refine (execAll_assign (eval_name hsb) (assign_selfField hx ho hf)).trans ?_
    have ho := List.getElem?_set_self (a := Object.mk className
      (fieldCells attributes ((storage.set b.1.slot b.2).map some)))
      (List.getElem?_eq_some_iff.mp ho).choose
    refine (hi (s := ⟨s.locals, s.targets, { s.host with objects := s.host.objects.set n _ }⟩)
      (by simpa using hl) hx ho hb hh hs).trans ?_
    simp

end Fields

section Creation

-- The object is put behind the receiver, which is the answer.
def handOver : List Stmt :=
  [.evaluate ((Expr.name "self").arrowMethod "Wrap" [(Expr.name "info").method "This"]),
    answer ((Expr.name "info").method "This")]

theorem host?_handOver (args : List HostValue) {n : Nat}
    (hx : s.locals.content "self" = some (.object n))
    (hi : s.locals.content "info" = some (.info args true)) :
    (p.execAll handOver s).host? =
      some { s.host with wrapped := some n, answer := some .receiver } := by
  let t : State := { s with host.wrapped := some n }
  have ht (s : State) (hi : s.locals.content "info" = some (.info args true)) :
      p.eval ((Expr.name "info").method "This") s = some (.receiver, s) :=
    eval_method (eval_name hi)
  have hw : p.eval ((Expr.name "self").arrowMethod "Wrap" [(Expr.name "info").method "This"]) s =
      some (.void, t) :=
    eval_arrowMethod_of (eval_name hx) (ht s hi)
  have hg : p.eval ((Expr.name "info").method "GetReturnValue") t = some (.answer, t) :=
    eval_method (eval_name (s := t) hi)
  rw [handOver, execAll_evaluate hw, answer, execAll_evaluate (eval_method_of hg (ht t hi))]
  rfl

-- What is left to do when all arguments have been converted.
def creation (c : ConstructorPlan) : List Stmt :=
  .declare false (classPointer c.interface) "self" (some (.new c.interface)) ::
    (c.parameters.map (fun q => .assign (selfField (q.name ++ "_")) (.name q.name)) ++ handOver)

theorem body_eq (c : ConstructorPlan) :
    c.body =
      .when (.not ((Expr.name "info").method "IsConstructCall"))
        (throwing (.text
          ("Failed to construct '" ++ c.interface ++ "': Please use the 'new' operator."))) ::
      .declare true .int "argc" (some ((Expr.name "info").method "Length")) ::
      .when c.arityCondition c.arityThrow ::
      (c.parameters.map ConstructorPlan.argumentVariable ++
        (c.parameters.zipIdx.map (fun (q, k) => c.decodeArgument k q) ++ creation c)) := by
  simp only [ConstructorPlan.body, List.append_assoc, List.cons_append, List.nil_append]
  rfl

theorem ne_occupied (hn : plan.Named) :
    ∀ q ∈ plan.constructor.parameters, q.name ≠ "info" ∧ q.name ≠ "argc" ∧ q.name ≠ "self" := by
  intro q hq
  have hu := (hn.usable q hq).unreserved
  refine ⟨?_, ?_, ?_⟩ <;> intro he <;> rw [he] at hu <;> contradiction

variable (h : p.Serves policy plan) (l : plan.LaidOut) (hn : plan.Named)
include h l hn

-- After the conversions nothing can fail: the object is created, filled and handed over.
theorem host?_creation {bs : List (ParameterPlan × NativeValue)}
    (hp : bs.map (·.1) = plan.constructor.parameters) (hh : ∀ b ∈ bs, b.1.type.holds b.2)
    (hr : Ready args s.locals)
    (hs : ∀ b ∈ bs, s.locals.content b.1.name = some (stored b.1.type b.2)) :
    (p.execAll (creation plan.constructor) s).host? =
      some (s.host.created (.ok (plan.filled policy bs))) := by
  have hm : ∀ b ∈ bs, b.1 ∈ plan.constructor.parameters := fun b hb =>
    hp ▸ List.mem_map_of_mem hb
  have hb : ∀ b ∈ bs, ∃ a, plan.attributes[b.1.slot]? = some a ∧ a.name = b.1.name ∧
      a.type = b.1.type := by
    intro b hb
    have ⟨a, ha, hn, ht, hs⟩ := hn.bound b.1 (hm b hb)
    exact ⟨a, hs ▸ l.getElem?_slot ha, hn, ht⟩
  have hs (cell : Cell) : ∀ b ∈ bs, Cells.content (("self", cell) :: s.locals) b.1.name =
      some (stored b.1.type b.2) := by
    intro b hb
    rw [Cells.content, List.lookup_cons, beq_false_of_ne (ne_occupied hn b.1 (hm b hb)).right.right]
    exact hs b hb
  let o : Object := ⟨plan.name, fieldCells plan.attributes (plan.initialStorage.map some)⟩
  let self : Cell := ⟨classPointer plan.name, some (.object s.host.objects.length)⟩
  let t : State :=
    { s with locals := ("self", self) :: s.locals, host.objects := s.host.objects ++ [o] }
  have ho : t.host.objects[s.host.objects.length]? = some o := List.getElem?_concat_length
  have ha := execAll_fieldAssignments (p := p) (s := t) l.names (List.length_map ..) rfl ho hb hh
    (hs self) handOver
  rw [creation, hn.interface, execAll_declare (h.eval_new l s) rfl, ← hp, List.map_map]
  refine (congrArg Outcome.host? ha).trans <|
    (host?_handOver args (n := s.host.objects.length) ?self ?info).trans ?_
  case self => rfl
  case info => exact hr.info
  simp [t, InterfacePlan.initialStorage, InterfacePlan.filled, Host.created, HostObject.object]

-- Once the number of arguments is right, their conversions decide.
theorem host?_conversions (hr : Ready args s.locals)
    (hk : plan.constructor.required ≤ args.length) :
    (p.execAll (plan.constructor.parameters.map ConstructorPlan.argumentVariable ++
      (plan.constructor.parameters.zipIdx.map (fun (q, k) =>
        plan.constructor.decodeArgument k q) ++ creation plan.constructor)) s).host? =
      some (s.host.created ((plan.constructor.bindings policy args 0
        plan.constructor.parameters).map (plan.filled policy))) := by
  have hu : ∀ q ∈ plan.constructor.parameters, q.name ≠ "info" ∧ q.name ≠ "argc" := fun q hq =>
    have ⟨h₁, h₂, _⟩ := ne_occupied hn q hq
    ⟨h₁, h₂⟩
  have hb : ∀ q ∈ plan.constructor.parameters, ∃ a ∈ plan.attributes, a.type = q.type := by
    intro q hq
    have ⟨a, ha, _, ht, _⟩ := hn.bound q hq
    exact ⟨a, ha, ht⟩
  have ⟨locals, hl, hv⟩ := execAll_argumentVariables (p := p) hn.parameters l.initial
    (plan.constructor.parameters.zipIdx.map (fun (q, k) => plan.constructor.decodeArgument k q) ++
      creation plan.constructor) s
  have hr := hr.assigned hv (List.forall_mem_map.mpr hu)
  have hf := fills_decodeArguments (s := { s with locals }) (k := 0) h hb hn.parameters hu hr hk
    (List.forall_mem_map.mp hv.bound) (creation plan.constructor)
  rw [hl]
  cases hbs : plan.constructor.bindings policy args 0 plan.constructor.parameters <;>
    rw [hbs] at hf
  case error e => exact Raises.host? hf
  case ok bs   =>
    have ⟨locals', hl', hs⟩ := hf
    have hp := ConstructorPlan.bindings_parameters hbs
    have hm : ∀ b ∈ bs, b.1 ∈ plan.constructor.parameters := fun b hb =>
      hp ▸ List.mem_map_of_mem hb
    rw [hl']
    refine host?_creation h l hn hp (ConstructorPlan.bindings_holds l.initial hbs)
      (hr.assigned hs ?_) ?_
    · exact List.forall_mem_map.mpr fun b hb => hu b.1 (hm b hb)
    · exact fun b hb => bind_of_eq_some (List.forall_mem_map.mp hs.bound b hb)

theorem host?_body (args : List HostValue) (host : Host) :
    (p.execAll plan.constructor.body { locals := creationParameters args, host }).host? =
      some (host.created (plan.construct policy args)) := by
  let start : State := { locals := creationParameters args, host }
  let s := start.declare "argc" .int (some (.integer .int args.length))
  have hr : Ready args s.locals := ⟨rfl, rfl⟩
  have hi : p.eval (.not ((Expr.name "info").method "IsConstructCall")) start =
      some (.bool false, start) := rfl
  have hl : p.eval ((Expr.name "info").method "Length") start =
      some (.integer .int args.length, start) := rfl
  rw [body_eq, execAll_when_false hi rfl, execAll_declare hl rfl, InterfacePlan.construct_eq]
  by_cases ha : args.length < plan.constructor.required ∨ plan.constructor.total < args.length
  case pos =>
    have hc : p.eval plan.constructor.arityCondition s = some (.bool true, s) := by
      rw [eval_arityCondition hr, decide_eq_true ha]
    rw [if_pos ha]
    exact Raises.host? <| .when hc rfl (raises_arityThrow hr h)
  case neg =>
    have hc : p.eval plan.constructor.arityCondition s = some (.bool false, s) := by
      rw [eval_arityCondition hr, decide_eq_false ha]
    rw [if_neg ha, execAll_when_false hc rfl]
    exact host?_conversions h l hn hr (by omega)

end Creation

end Source.Program

end AddonBinding
