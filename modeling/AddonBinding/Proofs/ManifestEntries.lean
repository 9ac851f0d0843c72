import AddonBinding.Proofs.Assignment
import AddonBinding.Proofs.GeneratedClass
import AddonBinding.Proofs.OmittedArguments

namespace AddonBinding

namespace InterfaceEntry

-- The object has the properties that the entry lists, and those can be written that it says can be.
structure Lists (e : InterfaceEntry) (o : HostObject) : Prop where
  keys     : o.keys = e.attributes.map (·.name)
  flags    : ∀ a ∈ e.attributes, ∃ f, o.flags? a.name = some f ∧ f.writable = a.writable
  readOnly : ∀ a ∈ e.attributes,
    a.writable ↔ ∀ v interface property, o.set a.name v ≠ .error (.readOnly interface property)

-- What an entry says about the class of its name is what the module does.
structure Describes (e : InterfaceEntry) (m : HostModule) : Prop where
  arity    : ∀ args, (∃ c n, m.construct e.name args = .error (.arity c n)) ↔
    args.length < e.constructor.required ∨ e.constructor.total < args.length
  total    : e.constructor.total = e.constructor.parameters.length
  optional : ∀ k p, e.constructor.parameters[k]? = some p →
    (p.optional ↔ e.constructor.required ≤ k)
  setter   : ∀ a ∈ e.attributes, a.writable ↔ a.setter.isSome
  objects  : ∀ args o, m.construct e.name args = .ok o → ∀ calls, e.Lists (o.run calls)

end InterfaceEntry

theorem of_lt_length_takeWhile {α : Type} {l : List α} {f : α → Bool} {a : α} {k : Nat}
    (hk : k < (l.takeWhile f).length) (ha : l[k]? = some a) : f a := by
  induction l generalizing k
  case nil => contradiction
  case cons b l hi =>
    cases hf : f b
    case false => simp [hf] at hk
    case true  =>
      cases k
      case zero   => simp_all
      case succ k => exact hi (by simpa [hf] using hk) ha

-- The parameters that need an argument are those before the first one that needs none.
theorem ConstructorPlan.OptionalLast.isSome_default_iff {c : ConstructorPlan} {p : ParameterPlan}
    {k : Nat} (h : c.OptionalLast) (hp : c.parameters[k]? = some p) :
    p.default.isSome ↔ c.required ≤ k := by
  constructor
  case mpr => exact fun hk => h.isSome_default hk hp
  case mp  =>
    intro hs
    by_contra hk
    have hn := of_lt_length_takeWhile (Nat.not_le.mp hk) hp
    simp_all

theorem AttributePlan.isSome_setter? (a : AttributePlan) : a.setter?.isSome = a.writable := by
  cases h : a.writable <;> simp [setter?, h]

theorem HostObject.set_eq_readOnly_iff {o : HostObject} {a : AttributePlan} {v : HostValue}
    (l : o.plan.LaidOut) (ha : a ∈ o.plan.attributes) :
    (∃ interface property, o.set a.name v = .error (.readOnly interface property)) ↔
      a.writable = false := by
  constructor
  case mpr =>
    intro hw
    let c : Assignment := ⟨a.name, v⟩
    have hr : c.verdict o.plan o.policy = .error (.readOnly o.plan.name a.name) :=
      Assignment.verdict_eq_error_iff l |>.mpr (.readonly ha rfl hw)
    exact ⟨_, _, set_eq_verdict.trans <| congrArg (Except.map _) hr⟩
  case mp  =>
    intro ⟨i, p, h⟩
    cases hw : a.writable
    case false => rfl
    case true  =>
      rw [set_of_writable l ha hw] at h
      split at h <;> cases h

namespace InterfacePlan

variable {plan : InterfacePlan} {policy : CoercionPolicy} {args : List HostValue} {o : HostObject}

theorem construct_eq_arity_iff :
    (∃ c n, plan.construct policy args = .error (.arity c n)) ↔
      args.length < plan.constructor.required ∨ plan.constructor.total < args.length := by
  rw [construct_eq]
  split
  case isTrue h  => simp [h]
  case isFalse h =>
    simp only [h, iff_false]
    intro ⟨c, n, he⟩
    cases hb : plan.constructor.bindings policy args 0 plan.constructor.parameters <;>
      rw [hb] at he <;> cases he
    have ⟨_, _, _, he⟩ := ConstructorPlan.bindings_eq_error hb
    contradiction

-- The entry depends on the plan of an object alone, which no assignment changes.
theorem lists_manifestEntry (l : o.plan.LaidOut) : o.plan.manifestEntry.Lists o := by
  constructor
  case keys => simp [HostObject.keys, manifestEntry, AttributePlan.flags]
  all_goals
    intro e he
    have ⟨a, ha, he⟩ := List.mem_map.mp he
    subst he
  case flags =>
    refine ⟨a.flags, ?_, rfl⟩
    rw [HostObject.flags?, l.attribute?_eq_some_iff.mpr ⟨ha, rfl⟩, Option.map_some]
  case readOnly =>
    have h v := HostObject.set_eq_readOnly_iff (v := v) l ha
    constructor
    case mp =>
      intro (hw : a.writable) v i p he
      exact absurd hw <| Bool.not_eq_true _ |>.mpr <| (h v).mp ⟨i, p, he⟩
    case mpr =>
      intro hn
      by_contra hw
      have ⟨i, p, he⟩ := (h .null).mpr <| Bool.not_eq_true _ |>.mp hw
      exact hn .null i p he

theorem describes_manifestEntry {m : HostModule} (h : Accepted m.classes) (hp : plan ∈ m.classes)
    (ho : plan.constructor.OptionalLast) : plan.manifestEntry.Describes m := by
  have hc args : m.construct plan.name args = plan.construct m.policy args :=
    h.construct_eq hp m.name m.policy args
  constructor
  case arity => exact fun args => hc args ▸ construct_eq_arity_iff
  case total => simp [manifestEntry, ConstructorPlan.total]
  case optional =>
    intro k p hk
    obtain ⟨q, hq, he⟩ := Option.map_eq_some_iff.mp <| List.getElem?_map .. ▸ hk
    exact he ▸ ho.isSome_default_iff hq
  case setter =>
    intro e he
    obtain ⟨a, _, he⟩ := List.mem_map.mp he
    subst he
    simp [AttributePlan.isSome_setter?]
  case objects =>
    intro args o ho calls
    have hr : (o.run calls).plan = plan := (o.run_plan calls).trans <| construct_plan (hc args ▸ ho)
    exact hr ▸ lists_manifestEntry (hr ▸ h.laidOut plan hp)

end InterfacePlan

section Unit

variable {options : Options} {interfaces : List Interface} {plans : List InterfacePlan}

theorem exists_load_iff :
    (∃ m, HostModule.load interfaces options = .ok m) ↔ ∃ u, compile options interfaces = .ok u := by
  simp only [HostModule.load_eq_ok_iff, compile_eq_ok_iff]
  constructor
  case mp  => exact fun ⟨_, hn, plans, hp, _⟩ => ⟨_, hn, plans, hp, rfl⟩
  case mpr => exact fun ⟨_, hn, plans, hp, _⟩ => ⟨_, hn, plans, hp, rfl⟩

theorem planAll_optionalLast (h : planAll interfaces = .ok plans) :
    ∀ plan ∈ plans, plan.constructor.OptionalLast := by
  intro plan hp
  have ⟨_, hs⟩ := planAll_eq_ok_iff.mp h
  have ⟨i, _, hi⟩ := exists_of_forall₂_right hs hp
  exact Interface.plan_optionalLast hi

theorem construct_eq_unknown_iff {m : HostModule} {name : String} {args : List HostValue} :
    (∃ n, m.construct name args = .error (.unknownInterface n)) ↔ m.class? name = none := by
  cases h : m.class? name <;> simp only [HostModule.construct, h]
  case none      => simp
  case some plan =>
    simp only [reduceCtorEq, iff_false]
    rintro ⟨n, he⟩
    rcases InterfacePlan.construct_eq_error he with h | ⟨_, _, _, h⟩ <;> contradiction

theorem interface?_ofPlans (moduleName name : String) :
    (Manifest.ofPlans moduleName plans).interface? name =
      (plans.find? (·.name == name)).map (·.manifestEntry) := by
  rw [Manifest.interface?, Manifest.ofPlans, List.find?_map]
  rfl

-- A unit is loaded exactly if it is compiled, and then its manifest tells what the host finds in the
-- module: the same classes in the same order, with the numbers of arguments that their constructors
-- take and the properties that their objects have.
theorem load_matches_manifest (options : Options) (interfaces : List Interface) :
    ((∃ m, HostModule.load interfaces options = .ok m) ↔
      ∃ u, compile options interfaces = .ok u) ∧
    ∀ m u, HostModule.load interfaces options = .ok m → compile options interfaces = .ok u →
      m.classNames = interfaces.map (·.name) ∧
      u.manifest.interfaces.map (·.name) = interfaces.map (·.name) ∧
      (∀ name args, (∃ n, m.construct name args = .error (.unknownInterface n)) ↔
        u.manifest.interface? name = none) ∧
      ∀ e ∈ u.manifest.interfaces, e.Describes m := by
  refine ⟨exists_load_iff, fun m u hm hu => ?_⟩
  have ⟨_, plans, hp, hm⟩ := HostModule.load_eq_ok_iff.mp hm
  have ⟨_, plans', hp', hu⟩ := compile_eq_ok_iff.mp hu
  cases hp.symm.trans hp'
  subst hm hu
  have hn := planAll_names hp
  refine ⟨hn, ?_, fun name args => ?_, fun e he => ?_⟩
  · rw [← hn]
    exact List.map_map
  · rw [construct_eq_unknown_iff, CompiledUnit.ofPlans, interface?_ofPlans, Option.map_eq_none_iff]
    rfl
  · obtain ⟨plan, hm, he⟩ := List.mem_map.mp he
    subst he
    exact InterfacePlan.describes_manifestEntry (planAll_accepted hp) hm
      (planAll_optionalLast hp plan hm)

theorem load_matches_manifest_pixel :
    ∃ m u, HostModule.load [pixel] {} = .ok m ∧ compile {} [pixel] = .ok u ∧
      m.classNames = ["Pixel"] ∧
      (∃ c n, m.construct "Pixel" [] = .error (.arity c n)) ∧
      ∀ o, m.construct "Pixel" [.text "p"] = .ok o → o.keys = ["red", "tag"] := by
  refine ⟨_, _, rfl, rfl, ?_⟩
  have ⟨hn, _, _, hd⟩ := (load_matches_manifest {} [pixel]).right _ _ rfl rfl
  have h := hd _ (List.mem_singleton_self _)
  exact ⟨hn, h.arity [] |>.mpr (.inl (by decide)), fun o ho => (h.objects _ o ho []).keys⟩

end Unit

end AddonBinding
