import AddonBinding.Proofs.ConstructorCall
import AddonBinding.Proofs.ReadUnits

namespace AddonBinding

open Source Program

-- What the host finds after a property of the object at a position was to be assigned.
def Source.Host.assigned (host : Host) (n : Nat) : Except RuntimeError HostObject → Host
  | .error e => { host with thrown := some (utf8 e.message) }
  | .ok o    => { host with objects := host.objects.set n o.object }

namespace ConstructorPlan

variable {c : ConstructorPlan} {policy : CoercionPolicy} {args : List HostValue} {k : Nat}
variable {qs : List ParameterPlan} {e : RuntimeError}

theorem bindings_eq_error (h : c.bindings policy args k qs = .error e) :
    ∃ target expected reason, e = .typeMismatch target expected reason := by
  induction qs generalizing k
  case nil => contradiction
  case cons q qs hi =>
    rw [bindings] at h
    cases ha : c.argument policy args k q <;> rw [ha] at h
    case error =>
      cases h
      unfold argument at ha
      split at ha
      case _ => contradiction
      case _ v _ =>
        cases hd : q.type.decode policy v <;> rw [hd] at ha <;> cases ha
        exact ⟨_, _, _, rfl⟩
    case ok v  =>
      cases hb : c.bindings policy args (k + 1) qs <;> rw [hb] at h <;> cases h
      exact hi hb

end ConstructorPlan

theorem InterfacePlan.construct_eq_error {plan : InterfacePlan} {policy : CoercionPolicy}
    {args : List HostValue} {e : RuntimeError} (h : plan.construct policy args = .error e) :
    e = .arity plan.constructor args.length ∨
      ∃ target expected reason, e = .typeMismatch target expected reason := by
  rw [construct_eq] at h
  split at h
  case isTrue  => exact .inl (Except.error.inj h).symm
  case isFalse =>
    cases hb : plan.constructor.bindings policy args 0 plan.constructor.parameters <;>
      rw [hb] at h <;> cases h
    exact .inr <| ConstructorPlan.bindings_eq_error hb

theorem Accepted.class?_eq {plans : List InterfacePlan} (h : Accepted plans) {plan : InterfacePlan}
    (hp : plan ∈ plans) (name : String) (policy : CoercionPolicy) :
    HostModule.class? ⟨name, policy, plans⟩ plan.name = some plan :=
  find?_eq_some_of_unique hp (by simp) fun i hi hn =>
    List.inj_on_of_nodup_map h.distinct hi hp (beq_iff_eq.mp hn)

theorem Accepted.construct_eq {plans : List InterfacePlan} (h : Accepted plans)
    {plan : InterfacePlan} (hp : plan ∈ plans) (name : String) (policy : CoercionPolicy)
    (args : List HostValue) :
    HostModule.construct ⟨name, policy, plans⟩ plan.name args = plan.construct policy args := by
  rw [HostModule.construct, h.class?_eq hp]

namespace HostObject

variable {o : HostObject} {a : AttributePlan} {v : HostValue}

theorem set_of_writable (l : o.plan.LaidOut) (ha : a ∈ o.plan.attributes) (hw : a.writable) :
    o.set a.name v =
      match a.type.decode o.policy v with
      | .ok n    => .ok { o with storage := o.storage.set a.slot n }
      | .error r => .error (.typeMismatch (.property o.plan.name a.name) a.type r) := by
  have hv := set_eq_verdict (o := o) (c := ⟨a.name, v⟩)
  simp only [Assignment.verdict, l.attribute?_eq_some_iff.mpr ⟨ha, rfl⟩, hw, if_true] at hv
  rw [hv]
  cases a.type.decode o.policy v <;> rfl

end HostObject

namespace Source.Program

variable {p : Program} {o : HostObject} {a : AttributePlan} {host : Host} {n : Nat}

-- The emitted setter does what the host layer does. It finds the object behind the receiver and
-- leaves every other object alone.
theorem host?_setterEntry (h : p.Serves o.policy o.plan) (l : o.plan.LaidOut)
    (hs : o.storage.length = o.plan.attributes.length) (ha : a ∈ o.plan.attributes)
    (hw : a.writable) (hn : host.wrapped = some n) (ho : host.objects[n]? = some o.object)
    (setter : String) (v : HostValue) :
    (p.execAll (a.setterEntry o.plan.name setter).body
      { locals := setterParameters a.name v, host }).host? =
        some (host.assigned n (o.set a.name v)) := by
  let start : State := { locals := setterParameters a.name v, host }
  let s := (start.declare "self" (classPointer o.plan.name) (some (.object n))).declare "decoded"
    (.storage a.type) (some (stored a.type a.type.zero))
  have hu : start.unwrap o.plan.name = some (.object n, start) :=
    (bind_of_eq_some hn).trans <| (bind_of_eq_some ho).trans <| if_pos rfl
  have hu : p.eval (.callName ("Nan::ObjectWrap::Unwrap<" ++ o.plan.name ++ ">")
      [(Expr.name "info").method "Holder"]) start = some (.object n, start) :=
    (eval_call (evalAll_one (v := .receiver) rfl)).trans <| (h.unwraps ..).trans hu
  have ⟨w, hz, hc⟩ := Helper.exists_eval_ofNative a.type.holds_zero p
    (start.declare "self" (classPointer o.plan.name) (some (.object n)))
  have hv : p.eval (.name "value") s = some (.host v, s) := rfl
  have ⟨locals, hl, hd⟩ := h.eval_decodeCall (x := "decoded") ha hv rfl
  rw [AttributePlan.setterEntry, unwrapSelf, execAll_declare hu rfl,
    execAll_declare hz hc,
    HostObject.set_of_writable l ha hw]
  cases hr : a.type.decode o.policy v <;> rw [hr] at hd
  case error r =>
    exact Raises.host? <| .when (eval_not hd.left) rfl (h.raises rfl)
  case ok m    =>
    have hx : Cells.content locals "self" = some (.object n) :=
      bind_of_eq_some <| hd.right.other "self" (by simp)
    have hc : Cells.content locals "decoded" = some (stored a.type m) :=
      bind_of_eq_some <| hd.right.bound _ (List.mem_singleton_self _)
    have hf := put_storage l.names (l.getElem?_slot ha) hs (ScalarType.holds_of_decode hr)
    have hg := assign_selfField (s := { s with locals }) hx ho hf
    rw [execAll_when_false (eval_not hd.left) hl, execAll_assign (eval_name hc) hg]
    rfl

end Source.Program

-- Every accepted unit is generated as it is loaded: the entry points of a class, as they are read
-- from the source, create objects and assign properties with the results of the host layer, errors
-- and their messages included.
theorem compile_refines_load {options : Options} {interfaces : List Interface} {u : CompiledUnit}
    (hu : compile options interfaces = .ok u) :
    ∃ m, HostModule.load interfaces options = .ok m ∧ ∀ plan ∈ m.classes,
      (∀ args host, u.create plan.name args host =
          some (host.created (m.construct plan.name args)) ∧
        ∀ e, m.construct plan.name args = .error e → e = .arity plan.constructor args.length ∨
          ∃ target expected reason, e = .typeMismatch target expected reason) ∧
      ∀ a ∈ plan.attributes, a.writable → ∃ setter, a.setter? = some setter ∧
        ∀ (o : HostObject) host n v, o.plan = plan → o.policy = m.policy →
          o.storage.length = plan.attributes.length → host.wrapped = some n →
          host.objects[n]? = some o.object →
          u.assign plan.name a.name setter v host = some (host.assigned n (o.set a.name v)) ∧
            ∀ e, o.set a.name v = .error e →
              ∃ reason, e = .typeMismatch (.property plan.name a.name) a.type reason := by
  have ⟨hm, plans, hp, hu⟩ := compile_eq_ok_iff.mp hu
  have ha := planAll_accepted hp
  subst hu
  refine ⟨_, HostModule.load_eq_ok_iff.mpr ⟨hm, plans, hp, rfl⟩, fun plan hi => ?_⟩
  have hm := Role.check_eq_ok_iff.mp hm
  have hs := CompiledUnit.serves_program options ha hi
  have l := ha.laidOut plan hi
  constructor
  case left =>
    intro args host
    rw [CompiledUnit.create_eq hm ha hi, ha.construct_eq hi]
    exact ⟨host?_body hs l (ha.named plan hi) args host,
      fun _ => InterfacePlan.construct_eq_error⟩
  case right =>
    intro a hb hw
    refine ⟨"Set_" ++ a.name, if_pos hw, ?_⟩
    intro o host n v ho hq hl hn hx
    subst ho
    refine ⟨?_, ?_⟩
    · rw [CompiledUnit.assign_eq hm ha hi hb (if_pos hw)]
      exact host?_setterEntry (hq ▸ hs) l hl hb hw hn hx _ v
    · intro e he
      rw [HostObject.set_of_writable l hb hw] at he
      split at he <;> cases he
      exact ⟨_, rfl⟩

-- The second parameter is left out, so that its field gets the default.
theorem compile_refines_load_pixel :
    let object (n : Int) : Object := ⟨"Pixel", [("red_", ⟨.word false 16,
      some (.integer (.word false 16) n)⟩), ("tag_", ⟨.text, some (.text (utf8 "p"))⟩)]⟩
    ∃ u, compile {} [pixel] = .ok u ∧
      u.create "Pixel" [] {} = some { thrown := some (utf8 ("Failed to construct 'Pixel': " ++
        "expected between 1 and 2 arguments, but 0 were provided.")) } ∧
      u.create "Pixel" [.text "p"] {} =
        some { objects := [object 7], wrapped := some 0, answer := some .receiver } ∧
      u.assign "Pixel" "red" "Set_red" (.number (.ofInt 300))
          { objects := [object 7], wrapped := some 0 } =
        some { objects := [object 300], wrapped := some 0 } := by
  intro object
  refine ⟨_, rfl, ?_⟩
  have ⟨m, hm, h⟩ := @compile_refines_load {} [pixel] _ rfl
  cases hm
  have ⟨hc, ha⟩ := h _ (List.mem_singleton_self _)
  have ⟨_, hs, ha⟩ := ha _ (.head _) rfl
  cases hs
  let red : AttributePlan := ⟨"red", .integer ⟨.w16, false⟩, true, 0⟩
  let tag : AttributePlan := ⟨"tag", .text .dom, false, 1⟩
  let plan : InterfacePlan := ⟨"Pixel", [red, tag], "Pixel",
    [⟨"tag", .text .dom, none, 1⟩, ⟨"red", .integer ⟨.w16, false⟩, some (.unsigned 7), 0⟩]⟩
  have hset : HostObject.set ⟨plan, {}, [.unsigned 7, .text "p"]⟩ "red" (.number (.ofInt 300)) =
      .ok ⟨plan, {}, [.unsigned 300, .text "p"]⟩ := by
    decide +kernel
  refine ⟨(hc [] {}).left.trans rfl, (hc [.text "p"] {}).left.trans rfl, ?_⟩
  refine (ha ⟨plan, {}, [.unsigned 7, .text "p"]⟩ { objects := [object 7], wrapped := some 0 } 0
    (.number (.ofInt 300)) rfl rfl rfl rfl rfl).left.trans ?_
  exact (congrArg (some ∘ Host.assigned _ 0) hset).trans rfl

end AddonBinding
