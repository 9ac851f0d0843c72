import AddonBinding.Proofs.ConstantAttributes

namespace AddonBinding

namespace Interface

-- The numbers of arguments that the constructor takes.
def Takes (i : Interface) (count : Nat) : Prop :=
  i.constructor.countP (!·.hasDefault) ≤ count ∧ count ≤ i.constructor.length

instance {i : Interface} {count : Nat} : Decidable (i.Takes count) :=
  inferInstanceAs (Decidable (_ ∧ _))

-- The parameter at a position, its type, and the place of the attribute of its name.
structure Binds (i : Interface) (position : Nat) (p : Parameter) (t : ScalarType) (slot : Nat) :
    Prop where
  parameter : i.constructor[position]? = some p
  type      : ScalarType.ofTag? p.type = some t
  bound     : ∃ a, i.attributes[slot]? = some a ∧ a.name = p.name

-- The argument at a position converts to the type of its parameter, or there is none.
def Accepts (i : Interface) (policy : CoercionPolicy) (args : List HostValue) (position : Nat) :
    Prop :=
  ∀ p t slot v, i.Binds position p t slot → args[position]? = some v →
    ∃ n, t.decode policy v = .ok n

-- What a call leaves in the storage: the arguments that are given, the declared defaults of those
-- that are not, and zeros where no parameter is for the attribute.
structure Filled (i : Interface) (policy : CoercionPolicy) (args : List HostValue)
    (storage : List NativeValue) : Prop where
  size    : storage.length = i.attributes.length
  given   : ∀ k p t slot v, i.Binds k p t slot → args[k]? = some v →
    ∃ n, t.decode policy v = .ok n ∧ storage[slot]? = some n
  omitted : ∀ k p t slot, i.Binds k p t slot → args.length ≤ k →
    ∃ n, p.fallback t = some n ∧ storage[slot]? = some n
  unbound : ∀ (a : Attribute) (t : ScalarType) (slot : Nat), i.attributes[slot]? = some a →
    ScalarType.ofTag? a.type = some t → (∀ p ∈ i.constructor, p.name ≠ a.name) →
    storage[slot]? = some t.zero

end Interface

namespace ConstructorPlan

variable {c : ConstructorPlan} {policy : CoercionPolicy} {args : List HostValue} {k n : Nat}
variable {q : ParameterPlan} {qs : List ParameterPlan} {bs : List (ParameterPlan × NativeValue)}

theorem argument_of_some {v : HostValue} (h : args[k]? = some v) :
    c.argument policy args k q =
      (q.type.decode policy v).mapError (.typeMismatch (c.target k q) q.type) := by
  rw [argument, h]

theorem argument_of_le (h : args.length ≤ k) : c.argument policy args k q = .ok q.initial := by
  rw [argument, List.getElem?_eq_none h]

theorem mem_bindings (h : c.bindings policy args k qs = .ok bs) (hq : qs[n]? = some q) :
    ∃ v, c.argument policy args (k + n) q = .ok v ∧ (q, v) ∈ bs := by
  induction qs generalizing k n bs
  case nil => simp at hq
  case cons r qs hi =>
    have ⟨v, bs', hv, hb, he⟩ := bindings_cons_eq_ok_iff.mp h
    subst he
    cases n
    case zero =>
      cases Option.some.inj hq
      exact ⟨v, hv, .head _⟩
    case succ n =>
      have ⟨w, hw, hm⟩ := hi hb hq
      exact ⟨w, Nat.succ_add_eq_add_succ k n ▸ hw, .tail _ hm⟩

theorem exists_bindings
    (h : ∀ n q, qs[n]? = some q → ∃ v, c.argument policy args (k + n) q = .ok v) :
    ∃ bs, c.bindings policy args k qs = .ok bs := by
  induction qs generalizing k
  case nil => exact ⟨[], rfl⟩
  case cons q qs hi =>
    have ⟨v, hv⟩ := h 0 q rfl
    have ⟨bs, hb⟩ := hi fun n r hr => Nat.succ_add_eq_add_succ k n ▸ h (n + 1) r hr
    exact ⟨_, bindings_cons_eq_ok_iff.mpr ⟨v, bs, hv, hb, rfl⟩⟩

-- Parameters are looked at in order, so the first fault is the one that is reported.
theorem bindings_eq_error_of_first {e : RuntimeError} (hq : qs[n]? = some q)
    (he : c.argument policy args (k + n) q = .error e)
    (h : ∀ j < n, ∀ r, qs[j]? = some r → ∃ v, c.argument policy args (k + j) r = .ok v) :
    c.bindings policy args k qs = .error e := by
  induction qs generalizing k n
  case nil => simp at hq
  case cons r qs hi =>
    cases n
    case zero =>
      cases Option.some.inj hq
      rw [bindings, ← Nat.add_zero k, he]
      rfl
    case succ n =>
      obtain ⟨v, hv⟩ := h 0 (Nat.succ_pos n) r rfl
      have hr := hi hq (Nat.succ_add_eq_add_succ k n ▸ he) fun j hj s hs =>
        Nat.succ_add_eq_add_succ k j ▸ h (j + 1) (Nat.succ_lt_succ hj) s hs
      rw [bindings, hr]
      exact congrArg (· >>= _) hv

end ConstructorPlan

namespace Interface

variable {i : Interface} {plan : InterfacePlan} {policy : CoercionPolicy} {args : List HostValue}
variable {p p' : Parameter} {q : ParameterPlan} {t t' : ScalarType} {k slot slot' : Nat}
variable {o : HostObject}

theorem Binds.unique (hd : (i.attributes.map (·.name)).Nodup) (h : i.Binds k p t slot)
    (h' : i.Binds k p' t' slot') : p = p' ∧ t = t' ∧ slot = slot' := by
  have hp : p = p' := Option.some.inj <| h.parameter ▸ h'.parameter
  subst hp
  refine ⟨rfl, Option.some.inj <| h.type ▸ h'.type, ?_⟩
  have ⟨a, ha, hn⟩ := h.bound
  have ⟨a', ha', hn'⟩ := h'.bound
  have hl : slot < (i.attributes.map (·.name)).length := by
    simpa using (List.getElem?_eq_some_iff.mp ha).choose
  refine (List.getElem?_inj hl hd).mp ?_
  rw [List.getElem?_map, List.getElem?_map, ha, ha', Option.map_some, Option.map_some, hn, hn']

theorem plan_attribute (h : i.plan = .ok plan) {a : AttributePlan} (ha : a ∈ plan.attributes) :
    ∃ b, i.attributes[a.slot]? = some b ∧ b.name = a.name := by
  have hs := (plan_laidOut h).getElem?_slot ha
  have hp := forall₂_planned (P := fun b a => a.name = b.name) (plan_planned h).attributes
    fun _ _ _ h => h.name
  have ⟨b, hb, hn⟩ := getElem?_of_forall₂ (R := fun a (b : Attribute) => a.name = b.name) hp.flip hs
  exact ⟨b, hb, hn.symm⟩

-- A planned parameter is a declared one, with its default.
theorem plan_parameter (h : i.plan = .ok plan) (hq : plan.constructor.parameters[k]? = some q) :
    ∃ p, i.Binds k p q.type q.slot ∧ q.name = p.name ∧ q.default = p.fallback q.type := by
  have ⟨p, hp, hpl⟩ := getElem?_of_forall₂
    (R := fun q (p : Parameter) => p.PlannedAs plan.attributes q)
    (plan_planned h).parameters.flip hq
  have ⟨a, ha, hn, _, hs⟩ := hpl.bound
  have ⟨b, hb, hbn⟩ := plan_attribute h ha
  have ht := ScalarType.ofTag?_eq_some_iff.mpr hpl.type
  refine ⟨p, ⟨hp, ht, b, hs ▸ hb, ?_⟩, hpl.name, hpl.default⟩
  rw [hbn, hn, hpl.name]

theorem Binds.planned (hb : i.Binds k p t slot) (h : i.plan = .ok plan) :
    ∃ q, plan.constructor.parameters[k]? = some q ∧ q.name = p.name ∧ q.type = t ∧ q.slot = slot ∧
      q.default = p.fallback t := by
  have ⟨q, hq, _⟩ := getElem?_of_forall₂ (plan_planned h).parameters hb.parameter
  have ⟨p', hb', hn, hd⟩ := plan_parameter h hq
  have ⟨hp, ht, hs⟩ := hb'.unique (plan_wellFormed h).attributes.distinct hb
  subst hp ht
  exact ⟨q, hq, hn, rfl, hs, hd⟩

theorem takes_iff (h : i.plan = .ok plan) :
    i.Takes args.length ↔
      ¬(args.length < plan.constructor.required ∨ plan.constructor.total < args.length) := by
  have hp := plan_planned h
  have hn : plan.constructor.total = i.constructor.length := hp.parameters.length_eq.symm
  rw [Takes, hp.required, hn]
  omega

theorem exists_argument (h : i.plan = .ok plan) (ha : i.Accepts policy args k)
    (hq : plan.constructor.parameters[k]? = some q) :
    ∃ v, plan.constructor.argument policy args k q = .ok v := by
  cases hv : args[k]?
  case none   => exact ⟨_, ConstructorPlan.argument_of_le (List.getElem?_eq_none_iff.mp hv)⟩
  case some v =>
    have ⟨p, hb, _⟩ := plan_parameter h hq
    have ⟨n, hn⟩ := ha p _ _ v hb hv
    exact ⟨n, by rw [ConstructorPlan.argument_of_some hv, hn]; rfl⟩

theorem construct_eq_mismatch (h : i.plan = .ok plan) (ht : i.Takes args.length) {v : HostValue}
    {r : DecodeError} (hb : i.Binds k p t slot) (hv : args[k]? = some v)
    (hr : t.decode policy v = .error r) (ha : ∀ j < k, i.Accepts policy args j) :
    plan.construct policy args = .error (.typeMismatch (.argument i.name k p.name) t r) := by
  have ⟨q, hq, hn, hqt, _, _⟩ := hb.planned h
  have he : plan.constructor.argument policy args (0 + k) q =
      .error (.typeMismatch (.argument i.name k p.name) t r) := by
    rw [Nat.zero_add, ConstructorPlan.argument_of_some hv, hqt, hr, ConstructorPlan.target, hn,
      (plan_planned h).interface]
    rfl
  have hf := ConstructorPlan.bindings_eq_error_of_first hq he fun j hj s hs =>
    (Nat.zero_add j).symm ▸ exists_argument h (ha j hj) hs
  rw [InterfacePlan.construct_eq, if_neg <| (takes_iff h).mp ht, hf]
  rfl

theorem exists_construct (h : i.plan = .ok plan) (ht : i.Takes args.length)
    (ha : ∀ j, i.Accepts policy args j) : ∃ o, plan.construct policy args = .ok o := by
  have ⟨bs, hb⟩ := ConstructorPlan.exists_bindings (c := plan.constructor) (k := 0) fun n q hq =>
    (Nat.zero_add n).symm ▸ exists_argument h (ha n) hq
  exact ⟨_, by rw [InterfacePlan.construct_eq, if_neg <| (takes_iff h).mp ht, hb]; rfl⟩

-- Every parameter has a slot of its own, so what is put there stays.
theorem construct_stored (h : i.plan = .ok plan) (ho : plan.construct policy args = .ok o)
    (hq : plan.constructor.parameters[k]? = some q) :
    ∃ v, plan.constructor.argument policy args k q = .ok v ∧ o.storage[q.slot]? = some v := by
  have ⟨filled, hf, ho⟩ := InterfacePlan.construct_eq_ok_iff.mp ho
  have hs := ConstructorPlan.bind_slots hf
  rw [ConstructorPlan.bind_eq, ite_error_eq_ok_iff] at hf
  cases hb : plan.constructor.bindings policy args 0 plan.constructor.parameters <;>
    rw [hb] at hf <;> cases hf.right
  have ⟨v, hv, hm⟩ := ConstructorPlan.mem_bindings hb hq
  have ⟨a, ha, _, hsa⟩ := (plan_laidOut h).parameters q (List.mem_of_getElem? hq)
  refine ⟨v, Nat.zero_add k ▸ hv, ?_⟩
  rw [← ho]
  refine getElem?_fill_of_mem (hs ▸ (plan_planned h).slots) (List.mem_map_of_mem hm) ?_
  exact hsa ▸ (plan_laidOut h).initialStorage_typed.slots a ha

theorem not_isBound (h : i.plan = .ok plan) {a : AttributePlan} (ha : a ∈ plan.attributes)
    (hn : ∀ p ∈ i.constructor, p.name ≠ a.name) : ¬plan.isBound a := by
  rw [InterfacePlan.isBound_iff]
  intro hs
  have ⟨q, hq, hs⟩ := List.mem_map.mp hs
  have ⟨p, hp, hpl⟩ := exists_of_forall₂_right (plan_planned h).parameters hq
  have ⟨b, hb, hbn, _, hbs⟩ := hpl.bound
  cases (plan_laidOut h).slot_inj hb ha (hbs.trans hs)
  exact hn p hp (by rw [hbn, hpl.name])

theorem construct_size (h : i.plan = .ok plan) (ho : plan.construct policy args = .ok o) :
    o.storage.length = i.attributes.length := by
  have ⟨filled, hf, ho⟩ := InterfacePlan.construct_eq_ok_iff.mp ho
  have l := plan_laidOut h
  have hs := (l.initialStorage_typed.foldl_set l <| l.bind_typed hf).size
  have hn : plan.attributes.length = i.attributes.length := by
    simp [← (plan_planned h).attributes.length_eq]
  rw [← ho, ← hn]
  exact hs

theorem filled_of_construct (h : i.plan = .ok plan) (ht : i.Takes args.length)
    (ho : plan.construct policy args = .ok o) : i.Filled policy args o.storage := by
  constructor
  case size => exact construct_size h ho
  case given =>
    intro k p t slot v hb hv
    obtain ⟨q, hq, _, hqt, hs, _⟩ := hb.planned h
    obtain ⟨n, hn, hst⟩ := construct_stored h ho hq
    rw [ConstructorPlan.argument_of_some hv, mapError_eq_ok_iff, hqt] at hn
    exact ⟨n, hn, hs ▸ hst⟩
  case omitted =>
    intro k p t slot hb hk
    obtain ⟨q, hq, _, _, hs, hd⟩ := hb.planned h
    obtain ⟨n, hn, hst⟩ := construct_stored h ho hq
    have hr : plan.constructor.required ≤ k := (plan_planned h).required ▸ ht.left.trans hk
    obtain ⟨d, hqd⟩ := Option.isSome_iff_exists.mp <| (plan_optionalLast h).isSome_default hr hq
    rw [ConstructorPlan.argument_of_le hk, ParameterPlan.initial, hqd, Option.getD_some] at hn
    exact ⟨n, hd ▸ Except.ok.inj hn ▸ hqd, hs ▸ hst⟩
  case unbound =>
    intro a t slot ha hat hn
    have hz : i.attributes.zipIdx[slot]? = some (a, slot) := by simp [ha]
    obtain ⟨b, hb, hpl⟩ := getElem?_of_forall₂ (plan_planned h).attributes hz
    have hbm := List.mem_of_getElem? hb
    have ht := hpl.type.unique <| ScalarType.ofTag?_eq_some_iff.mp hat
    have hz := InterfacePlan.construct_unbound (plan_laidOut h) hbm
      (not_isBound h hbm (hpl.name ▸ hn)) ho
    have hs : b.slot = slot := hpl.slot
    rw [hs, ht] at hz
    exact hz

end Interface

-- A call fails for the number of its arguments, or else for the first of them that does not
-- convert, or else it creates an object. No argument that is missing then is a required one.
theorem construct_dispatches {i : Interface} {plan : InterfacePlan} (h : i.plan = .ok plan)
    (policy : CoercionPolicy) (args : List HostValue) :
    (∀ k < i.constructor.length, ∃ p t slot, i.Binds k p t slot) ∧
    ((∃ c n, plan.construct policy args = .error (.arity c n)) ↔ ¬i.Takes args.length) ∧
    (¬i.Takes args.length →
      plan.construct policy args = .error (.arity plan.constructor args.length)) ∧
    (i.Takes args.length →
      (∀ k p t slot v r, i.Binds k p t slot → args[k]? = some v → t.decode policy v = .error r →
        (∀ j < k, i.Accepts policy args j) →
        plan.construct policy args = .error (.typeMismatch (.argument i.name k p.name) t r)) ∧
      ((∀ k, i.Accepts policy args k) →
        ∃ o, plan.construct policy args = .ok o ∧ i.Filled policy args o.storage) ∧
      ∀ k q, plan.constructor.parameters[k]? = some q → args.length ≤ k → q.default.isSome) := by
  refine ⟨fun k hk => ?_, ?_, fun ht => ?_, fun ht => ⟨?_, fun ha => ?_, fun k q hq hk => ?_⟩⟩
  · have hl := (Interface.plan_planned h).parameters.length_eq
    have ⟨p, hb, _⟩ := Interface.plan_parameter h (List.getElem?_eq_getElem (hl ▸ hk))
    exact ⟨p, _, _, hb⟩
  · rw [InterfacePlan.construct_eq_arity_iff, Interface.takes_iff h, not_not]
  · rw [Interface.takes_iff h, not_not] at ht
    rw [InterfacePlan.construct_eq, if_pos ht]
  · exact fun k p t slot v r hb hv hr ha => Interface.construct_eq_mismatch h ht hb hv hr ha
  · have ⟨o, ho⟩ := Interface.exists_construct h ht ha
    exact ⟨o, ho, Interface.filled_of_construct h ht ho⟩
  · exact (Interface.plan_optionalLast h).isSome_default
      ((Interface.plan_planned h).required ▸ ht.left.trans hk) hq

-- A call without arguments, one whose second argument is no number, and one that leaves it out.
theorem construct_dispatches_pixel :
    ∃ plan, pixel.plan = .ok plan ∧
      plan.construct {} [] = .error (.arity plan.constructor 0) ∧
      plan.construct {} [.text "p", .text "x"] =
        .error (.typeMismatch (.argument "Pixel" 1 "red") (.integer ⟨.w16, false⟩)
          (.notNumeric "string")) ∧
      ∃ o, plan.construct {} [.text "p"] = .ok o ∧ pixel.Filled {} [.text "p"] o.storage := by
  have ⟨plan, h⟩ : ∃ plan, pixel.plan = .ok plan := ⟨_, rfl⟩
  have hr : pixel.Binds 1 ⟨"red", "unsigned short", false, some (.integer 7)⟩
      (.integer ⟨.w16, false⟩) 0 := ⟨rfl, by decide, _, rfl, rfl⟩
  have ha (args : List HostValue) : pixel.Accepts {} (.text "p" :: args) 0 := by
    intro p t slot v hb hv
    cases Option.some.inj hb.parameter
    cases Option.some.inj hv
    cases Option.some.inj <| hb.type.symm.trans (by decide : _ = some (.text .dom))
    exact ⟨_, rfl⟩
  have hn := (construct_dispatches h {} []).right.right.left
  have hm := (construct_dispatches h {} [.text "p", .text "x"]).right.right.right (by decide)
  have ho := (construct_dispatches h {} [.text "p"]).right.right.right (by decide)
  refine ⟨plan, h, hn (by decide), ?_, ho.right.left fun k => ?_⟩
  · exact hm.left 1 _ _ _ _ _ hr rfl rfl fun j hj => Nat.lt_one_iff.mp hj ▸ ha _
  · cases k
    case zero => exact ha []
    case succ => exact fun _ _ _ _ _ hv => absurd hv (by simp)

end AddonBinding
