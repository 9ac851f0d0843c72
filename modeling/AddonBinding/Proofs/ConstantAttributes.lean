import AddonBinding.Proofs.ManifestEntries

namespace AddonBinding

namespace ScalarType

-- A value besides the zero of the type, and one that every policy stores.
def unit : ScalarType → NativeValue
  | .text _    => .text "1"
  | .integer t => t.exact 1
  | .float _   => .float (.ofInt 1)
  | .boolean   => .boolean true

theorem holds_unit (t : ScalarType) : t.holds t.unit := by
  cases t
  case text    => rfl
  case boolean => rfl
  case integer t =>
    obtain ⟨width, signed⟩ := t
    cases width <;> cases signed <;> decide
  case float t =>
    obtain ⟨single, unrestricted⟩ := t
    cases single <;> cases unrestricted <;> decide +kernel

theorem safe_unit (t : ScalarType) : t.Safe t.unit := by
  cases t
  case integer t =>
    obtain ⟨width, signed⟩ := t
    cases width <;> cases signed <;> decide
  all_goals trivial

theorem decode_unit (t : ScalarType) (policy : CoercionPolicy) :
    t.decode policy t.unit.encode = .ok t.unit :=
  decode_encode policy t.holds_unit t.safe_unit

theorem encode_unit_ne (t : ScalarType) : t.unit.encode ≠ t.zero.encode := by
  cases t
  case text    => simp [unit, zero, NativeValue.encode]
  case boolean => simp [unit, zero, NativeValue.encode]
  case integer t =>
    obtain ⟨width, signed⟩ := t
    cases width <;> cases signed <;> decide +kernel
  case float t =>
    obtain ⟨single, unrestricted⟩ := t
    cases single <;> cases unrestricted <;> decide +kernel

end ScalarType

section Filling

variable {storage : List NativeValue} {filled : List (Nat × NativeValue)} {k : Nat} {v : NativeValue}

theorem getElem?_fill_of_not_mem (h : k ∉ filled.map (·.1)) :
    (filled.foldl (fun storage s => storage.set s.1 s.2) storage)[k]? = storage[k]? := by
  induction filled generalizing storage
  case nil => rfl
  case cons s filled hi =>
    have ⟨hs, h⟩ := List.ne_and_not_mem_of_not_mem_cons h
    rw [List.foldl_cons, hi h, List.getElem?_set_ne (Ne.symm hs)]

theorem getElem?_fill_of_mem (hd : (filled.map (·.1)).Nodup) (hm : (k, v) ∈ filled)
    (hk : k < storage.length) :
    (filled.foldl (fun storage s => storage.set s.1 s.2) storage)[k]? = some v := by
  induction filled generalizing storage
  case nil => contradiction
  case cons s filled hi =>
    have ⟨hs, hd⟩ := List.nodup_cons.mp hd
    rw [List.foldl_cons]
    rcases List.mem_cons.mp hm with rfl | hm
    · rw [getElem?_fill_of_not_mem hs, List.getElem?_set_self hk]
    · exact hi hd hm (by simpa using hk)

end Filling

namespace ConstructorPlan

variable {c : ConstructorPlan} {policy : CoercionPolicy} {args : List HostValue}

-- A call fills the slots of all parameters, whichever arguments are given.
theorem bind_slots {filled : List (Nat × NativeValue)} (h : c.bind policy args = .ok filled) :
    filled.map (·.1) = c.parameters.map (·.slot) := by
  rw [bind_eq, ite_error_eq_ok_iff] at h
  cases hb : c.bindings policy args 0 c.parameters <;> rw [hb] at h
  case error  => exact absurd h.right (by simp [Except.map])
  case ok bs =>
    rw [← Except.ok.inj h.right, ← bindings_parameters hb]
    simp

-- One argument for each parameter, which is not the zero of its type.
def unitArguments (c : ConstructorPlan) : List HostValue :=
  c.parameters.map (·.type.unit.encode)

theorem bind_unitArguments (c : ConstructorPlan) (policy : CoercionPolicy) :
    c.bind policy c.unitArguments = .ok (c.parameters.map fun p => (p.slot, p.type.unit)) := by
  have hr : c.required ≤ c.total := (List.takeWhile_sublist _).length_le
  have hl : c.unitArguments.length = c.total := List.length_map ..
  rw [bind, hl, ite_error_eq_ok_iff, mapM_eq_ok_iff]
  refine ⟨by omega, ?_⟩
  rw [← List.zipIdx_map_fst 0 c.parameters, List.map_map, List.forall₂_map_right_iff,
    List.zipIdx_map_fst, List.forall₂_same]
  rintro ⟨p, k⟩ hp
  have hk : c.unitArguments[k]? = some p.type.unit.encode := by
    rw [unitArguments, List.getElem?_map, List.mem_zipIdx_iff_getElem?.mp hp, Option.map_some]
  simp only [argument, hk, p.type.decode_unit]
  rfl

end ConstructorPlan

namespace InterfacePlan

variable {plan : InterfacePlan} {plans : List InterfacePlan} {policy : CoercionPolicy}
variable {args : List HostValue} {o : HostObject} {a : AttributePlan}

theorem isBound_iff : plan.isBound a ↔ a.slot ∈ plan.constructor.parameters.map (·.slot) := by
  simp [isBound]

theorem construct_unbound (l : plan.LaidOut) (ha : a ∈ plan.attributes) (hb : ¬plan.isBound a)
    (ho : plan.construct policy args = .ok o) : o.storage[a.slot]? = some a.type.zero := by
  have ⟨filled, hf, ho⟩ := construct_eq_ok_iff.mp ho
  rw [isBound_iff, ← ConstructorPlan.bind_slots hf] at hb
  rw [← ho, getElem?_fill_of_not_mem hb, initialStorage, List.getElem?_map, l.getElem?_slot ha,
    Option.map_some]

-- Some call succeeds, and it leaves no zero where a parameter can put another value.
theorem exists_construct_units (l : plan.LaidOut)
    (hd : (plan.constructor.parameters.map (·.slot)).Nodup) (policy : CoercionPolicy) :
    ∃ o, plan.construct policy plan.constructor.unitArguments = .ok o ∧
      ∀ a ∈ plan.attributes, plan.isBound a → o.storage[a.slot]? = some a.type.unit := by
  have hb := plan.constructor.bind_unitArguments policy
  refine ⟨_, construct_eq_ok_iff.mpr ⟨_, hb, rfl⟩, fun a ha hs => ?_⟩
  have ⟨p, hp, hs⟩ := List.mem_map.mp <| isBound_iff.mp hs
  have ⟨b, hbm, ht, hbs⟩ := l.parameters p hp
  have hab : b = a := l.slot_inj hbm ha <| hbs.trans hs
  refine getElem?_fill_of_mem ?_ ?_ (l.initialStorage_typed.slots a ha)
  · simpa [Function.comp_def] using hd
  · exact List.mem_map.mpr ⟨p, hp, by rw [hs, ← ht, hab]⟩

theorem constant_mem_attributeWarnings_iff {i name : String} :
    .constant i name ∈ plan.attributeWarnings a ↔
      a.writable = false ∧ ¬plan.isBound a ∧ plan.name = i ∧ a.name = name := by
  rw [attributeWarnings, List.mem_append, or_iff_left]
  · cases a.writable <;> cases plan.isBound a <;> simp [eq_comm]
  · split <;> simp

theorem constant_mem_warnings_iff {i name : String} :
    .constant i name ∈ plan.warnings ↔ plan.name = i ∧
      ∃ a ∈ plan.attributes, a.name = name ∧ a.writable = false ∧ ¬plan.isBound a := by
  unfold warnings
  cases plan.attributes <;> simp only [List.isEmpty, List.mem_append, List.mem_flatMap,
    constant_mem_attributeWarnings_iff]
  all_goals grind

-- An attribute is known by its own name and the name of its interface.
theorem constant_mem_unitWarnings_iff (h : Accepted plans) (hp : plan ∈ plans)
    (ha : a ∈ plan.attributes) :
    .constant plan.name a.name ∈ plans.flatMap warnings ↔
      a.writable = false ∧ ¬plan.isBound a := by
  rw [List.mem_flatMap]
  simp only [constant_mem_warnings_iff]
  constructor
  case mpr => exact fun ⟨hw, hb⟩ => ⟨plan, hp, rfl, a, ha, rfl, hw, hb⟩
  case mp  =>
    intro ⟨plan', hp', hn, b, hb, hbn, hw⟩
    cases List.inj_on_of_nodup_map h.distinct hp' hp hn
    cases List.inj_on_of_nodup_map (h.laidOut plan hp).names hb ha hbn
    exact hw

end InterfacePlan

namespace HostObject

variable {o : HostObject} {a : AttributePlan} {v : NativeValue}

theorem Valid.get_eq (h : o.Valid) (ha : a ∈ o.plan.attributes) (hv : o.storage[a.slot]? = some v) :
    o.get a.name = .ok v.encode :=
  h.get_eq_ok_iff.mpr ⟨a, ha, rfl, v, hv, rfl⟩

theorem Valid.run_readonly (h : o.Valid) (ha : a ∈ o.plan.attributes) (hw : a.writable = false)
    (calls : List Assignment) : (o.run calls).storage[a.slot]? = o.storage[a.slot]? := by
  refine (run_leave h ha calls).eq_start fun c _ v hs => ?_
  exact absurd hs.writable (by simp [hw])

end HostObject

namespace HostModule

variable {interfaces : List Interface} {options : Options} {m : HostModule} {plan : InterfacePlan}
variable {a : AttributePlan}

-- A class whose attribute can be written or is filled by a parameter has an object where it does
-- not read as zero: one that was created from units, or that was assigned one.
theorem constant_iff (hm : load interfaces options = .ok m) (hp : plan ∈ m.classes)
    (hs : (plan.constructor.parameters.map (·.slot)).Nodup) (ha : a ∈ plan.attributes)
    (hc : ∀ args, m.construct plan.name args = plan.construct m.policy args) :
    a.writable = false ∧ ¬plan.isBound a ↔
      ∀ args o, m.construct plan.name args = .ok o →
        ∀ calls, (o.run calls).get a.name = .ok a.type.zero.encode := by
  have l := load_laidOut hm hp
  constructor
  case mp =>
    intro ⟨hw, hb⟩ args o ho calls
    have hv := construct_valid hm ho
    rw [hc] at ho
    have hz := InterfacePlan.construct_unbound l ha hb ho
    rw [← InterfacePlan.construct_plan ho] at ha
    refine (hv.run calls).get_eq (o.run_plan calls ▸ ha) ?_
    rw [hv.run_readonly ha hw, hz]
  case mpr =>
    intro h
    have ⟨o, ho, hu⟩ := InterfacePlan.exists_construct_units l hs m.policy
    have ha' : a ∈ o.plan.attributes := InterfacePlan.construct_plan ho ▸ ha
    rw [← hc] at ho
    have hv := construct_valid hm ho
    have hn calls : (o.run calls).storage[a.slot]? ≠ some a.type.unit := by
      intro hr
      have hg := (hv.run calls).get_eq (o.run_plan calls ▸ ha') hr
      rw [h _ o ho calls] at hg
      exact a.type.encode_unit_ne (Except.ok.inj hg).symm
    constructor
    · by_contra hw
      have hst : Assignment.Stores ⟨a.name, a.type.unit.encode⟩ o.policy a a.type.unit :=
        ⟨rfl, Bool.not_eq_false _ ▸ hw, a.type.decode_unit o.policy⟩
      exact hn [_] <| HostObject.attempt_stored hv ha' hst
    · exact fun hb => hn [] (hu a ha hb)

end HostModule

-- A warning that an attribute is constant is given exactly if no call of the constructor and no
-- assignments afterwards make it read as anything but the zero of its type.
theorem constant_warning_iff {options : Options} {interfaces : List Interface} {u : CompiledUnit}
    (h : compile options interfaces = .ok u) :
    ∃ m, HostModule.load interfaces options = .ok m ∧
      ∀ i ∈ interfaces, ∀ a ∈ i.attributes, ∃ t, ScalarType.ofTag? a.type = some t ∧
        (.constant i.name a.name ∈ u.warnings ↔
          ∀ args o, m.construct i.name args = .ok o →
            ∀ calls, (o.run calls).get a.name = .ok t.zero.encode) := by
  have ⟨hn, plans, hp, hu⟩ := compile_eq_ok_iff.mp h
  have hm : HostModule.load interfaces options =
      .ok ⟨options.moduleName, options.coercion, plans⟩ :=
    HostModule.load_eq_ok_iff.mpr ⟨hn, plans, hp, rfl⟩
  refine ⟨_, hm, fun i hi a ha => ?_⟩
  have hacc := planAll_accepted hp
  have ⟨_, hs⟩ := planAll_eq_ok_iff.mp hp
  have ⟨plan, hpm, hplan⟩ := exists_of_forall₂_left hs hi
  have hpl := Interface.plan_planned hplan
  have hts : List.Forall₂ (fun a b => b.name = a.name ∧ ScalarType.Names a.type b.type)
      i.attributes plan.attributes :=
    Interface.forall₂_planned hpl.attributes fun _ _ _ h => ⟨h.name, h.type⟩
  have ⟨b, hb, hbn, hbt⟩ := exists_of_forall₂_left hts ha
  refine ⟨b.type, ScalarType.ofTag?_eq_some_iff.mpr hbt, ?_⟩
  have hc := hacc.construct_eq hpm options.moduleName options.coercion
  rw [← hu, ← hpl.name, ← hbn]
  exact (InterfacePlan.constant_mem_unitWarnings_iff hacc hpm hb).trans <|
    HostModule.constant_iff hm hpm hpl.slots hb hc

def badge : Interface where
  name        := "Badge"
  constructor := [⟨"label", "DOMString", true, none⟩]
  attributes  := [⟨"serial", "unsigned long", true⟩, ⟨"label", "DOMString", true⟩]

-- Nothing initialises the serial number, whereas the label can be given.
theorem constant_warning_iff_badge :
    ∃ u m, compile {} [badge] = .ok u ∧ HostModule.load [badge] {} = .ok m ∧
      u.warnings = [.constant "Badge" "serial"] ∧
      (∀ args o, m.construct "Badge" args = .ok o →
        ∀ calls, (o.run calls).get "serial" = .ok (.number (.ofInt 0))) ∧
      ∃ args o, m.construct "Badge" args = .ok o ∧
        ∃ calls, (o.run calls).get "label" ≠ .ok (.text "") := by
  have ⟨u, hu, hw⟩ :
      ∃ u, compile {} [badge] = .ok u ∧ u.warnings = [.constant "Badge" "serial"] :=
    ⟨_, rfl, rfl⟩
  have ⟨m, hm, h⟩ := constant_warning_iff hu
  have ⟨t, ht, hs⟩ := h badge (.head _) ⟨"serial", "unsigned long", true⟩ (.head _)
  have ⟨t', ht', hl⟩ := h badge (.head _) ⟨"label", "DOMString", true⟩ (.tail _ (.head _))
  refine ⟨u, m, hu, hm, hw, ?_, ?_⟩
  · cases Option.some.inj <| ht.symm.trans (by decide : _ = some (.integer ⟨.w32, false⟩))
    exact hs.mp (hw ▸ .head _)
  · cases Option.some.inj <| ht'.symm.trans (by decide : _ = some (.text .dom))
    have hn := mt hl.mpr (by simp [hw])
    push Not at hn
    exact hn

end AddonBinding
