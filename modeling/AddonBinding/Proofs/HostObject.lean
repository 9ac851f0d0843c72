import AddonBinding.Host.Module
import AddonBinding.Proofs.Conversion
import AddonBinding.Proofs.Planning

namespace AddonBinding

namespace InterfacePlan

-- What a plan promises about the storage of its objects: the attributes take the slots in order,
-- and a parameter fills the slot of an attribute of its own type.
structure LaidOut (plan : InterfacePlan) : Prop where
  names      : (plan.attributes.map (·.name)).Nodup
  slots      : plan.attributes.map (·.slot) = List.range plan.attributes.length
  parameters : ∀ p ∈ plan.constructor.parameters, ∃ a ∈ plan.attributes,
    a.type = p.type ∧ a.slot = p.slot
  initial    : ∀ p ∈ plan.constructor.parameters, p.type.holds p.initial

-- Every attribute has a slot of its own in the storage, with a value of its type.
structure TypedStorage (plan : InterfacePlan) (storage : List NativeValue) : Prop where
  size  : storage.length = plan.attributes.length
  slots : ∀ a ∈ plan.attributes, a.slot < storage.length
  holds : ∀ a ∈ plan.attributes, ∀ v ∈ storage[a.slot]?, a.type.holds v

end InterfacePlan

structure HostObject.Valid (o : HostObject) : Prop where
  laidOut : o.plan.LaidOut
  typed   : o.plan.TypedStorage o.storage

theorem Parameter.holds_fallback {p : Parameter} {t : ScalarType} {v : NativeValue}
    (h : p.fallback t = some v) : t.holds v := by
  unfold fallback at h
  split at h
  case _ => exact ScalarType.holds_of_ofLiteral? h
  case _ =>
    split at h <;> cases h
    exact t.holds_zero

theorem Interface.plan_laidOut {i : Interface} {plan : InterfacePlan} (h : i.plan = .ok plan) :
    plan.LaidOut := by
  have hp := plan_planned h
  constructor
  case names =>
    rw [planned_names hp.attributes]
    exact (plan_wellFormed h).attributes.distinct
  case slots =>
    have hl : plan.attributes.length = i.attributes.length := by simp [← hp.attributes.length_eq]
    rw [planned_slots hp.attributes, List.range_eq_range', hl]
  case parameters =>
    intro q hq
    have ⟨_, _, hq⟩ := exists_of_forall₂_right hp.parameters hq
    have ⟨a, ha, _, ht, hs⟩ := hq.bound
    exact ⟨a, ha, ht, hs⟩
  case initial =>
    intro q hq
    have ⟨p, _, hq⟩ := exists_of_forall₂_right hp.parameters hq
    rw [ParameterPlan.initial, hq.default]
    cases hf : p.fallback q.type
    case none   => exact q.type.holds_zero
    case some v => exact Parameter.holds_fallback hf

namespace InterfacePlan

variable {plan : InterfacePlan} {storage : List NativeValue} {a b : AttributePlan} {v : NativeValue}

-- A slot is the position of its attribute, so that it tells the attribute.
theorem LaidOut.getElem?_slot (l : plan.LaidOut) (ha : a ∈ plan.attributes) :
    plan.attributes[a.slot]? = some a := by
  have ⟨k, hk⟩ := List.mem_iff_getElem?.mp ha
  have hs : (plan.attributes.map (·.slot))[k]? = some a.slot := by simp [hk]
  rw [l.slots] at hs
  have ⟨_, hs⟩ := List.getElem?_eq_some_iff.mp hs
  rw [List.getElem_range] at hs
  exact hs ▸ hk

theorem LaidOut.slot_lt (l : plan.LaidOut) (ha : a ∈ plan.attributes) :
    a.slot < plan.attributes.length :=
  (List.getElem?_eq_some_iff.mp <| l.getElem?_slot ha).choose

theorem LaidOut.slot_inj (l : plan.LaidOut) (ha : a ∈ plan.attributes) (hb : b ∈ plan.attributes)
    (h : a.slot = b.slot) : a = b :=
  Option.some.inj <| l.getElem?_slot ha ▸ h ▸ l.getElem?_slot hb

theorem LaidOut.storage_ext (l : plan.LaidOut) {storage' : List NativeValue}
    (h₁ : storage.length = plan.attributes.length) (h₂ : storage'.length = plan.attributes.length)
    (h : ∀ a ∈ plan.attributes, storage[a.slot]? = storage'[a.slot]?) : storage = storage' := by
  refine List.ext_getElem? fun k => ?_
  by_cases hk : k < plan.attributes.length
  case pos =>
    have hs : (plan.attributes.map (·.slot))[k]? = some k := by simp [l.slots, hk]
    rw [List.getElem?_map, List.getElem?_eq_getElem hk] at hs
    exact Option.some.inj hs ▸ h _ (List.getElem_mem hk)
  case neg =>
    have hk := Nat.not_lt.mp hk
    rw [List.getElem?_eq_none (h₁ ▸ hk), List.getElem?_eq_none (h₂ ▸ hk)]

theorem LaidOut.attribute?_eq_some_iff (l : plan.LaidOut) {name : String} :
    plan.attribute? name = some a ↔ a ∈ plan.attributes ∧ a.name = name :=
  Interface.find?_name_eq_some_iff l.names

theorem LaidOut.initialStorage_typed (l : plan.LaidOut) :
    plan.TypedStorage plan.initialStorage := by
  have hs : plan.initialStorage.length = plan.attributes.length := List.length_map ..
  constructor
  case size  => exact hs
  case slots => exact fun a ha => hs ▸ l.slot_lt ha
  case holds =>
    intro a ha v hv
    rw [initialStorage, List.getElem?_map, l.getElem?_slot ha] at hv
    exact Option.some.inj hv ▸ a.type.holds_zero

-- An assignment to one slot leaves the others alone, and no other attribute has that slot.
theorem TypedStorage.set (h : plan.TypedStorage storage) (l : plan.LaidOut)
    (ha : a ∈ plan.attributes) (hv : a.type.holds v) :
    plan.TypedStorage (storage.set a.slot v) := by
  constructor
  case size  => rw [List.length_set, h.size]
  case slots => simpa using h.slots
  case holds =>
    intro b hb w hw
    by_cases hs : a.slot = b.slot
    case pos =>
      cases l.slot_inj ha hb hs
      rw [List.getElem?_set_self (h.slots a ha)] at hw
      exact Option.some.inj hw ▸ hv
    case neg =>
      rw [List.getElem?_set_ne hs] at hw
      exact h.holds b hb w hw

theorem TypedStorage.foldl_set (h : plan.TypedStorage storage) (l : plan.LaidOut)
    {filled : List (Nat × NativeValue)}
    (hf : ∀ s ∈ filled, ∃ a ∈ plan.attributes, a.slot = s.1 ∧ a.type.holds s.2) :
    plan.TypedStorage (filled.foldl (fun storage s => storage.set s.1 s.2) storage) := by
  induction filled generalizing storage
  case nil => exact h
  case cons s _ hi =>
    rw [List.forall_mem_cons] at hf
    have ⟨⟨a, ha, hs, hv⟩, hf⟩ := hf
    rw [List.foldl_cons, ← hs]
    exact hi (h.set l ha hv) hf

-- The arguments of a call are put into slots of their own types.
theorem LaidOut.bind_typed (l : plan.LaidOut) {policy : CoercionPolicy} {args : List HostValue}
    {filled : List (Nat × NativeValue)} (h : plan.constructor.bind policy args = .ok filled) :
    ∀ s ∈ filled, ∃ a ∈ plan.attributes, a.slot = s.1 ∧ a.type.holds s.2 := by
  rw [ConstructorPlan.bind, ite_error_eq_ok_iff, mapM_eq_ok_iff] at h
  intro s hs
  have ⟨⟨p, position⟩, hp, h⟩ := exists_of_forall₂_right h.right hs
  have ⟨v, hv, h⟩ := bind_eq_ok_iff.mp h
  rw [pure_eq_ok_iff] at h
  subst h
  have hp : p ∈ plan.constructor.parameters := List.fst_mem_of_mem_zipIdx hp
  have ⟨a, ha, ht, hs⟩ := l.parameters p hp
  refine ⟨a, ha, hs, ht ▸ ?_⟩
  unfold ConstructorPlan.argument at hv
  split at hv
  case _ => exact Except.ok.inj hv ▸ l.initial p hp
  case _ => exact ScalarType.holds_of_decode <| mapError_eq_ok_iff.mp hv

theorem construct_eq_ok_iff {policy : CoercionPolicy} {args : List HostValue} {o : HostObject} :
    plan.construct policy args = .ok o ↔ ∃ filled, plan.constructor.bind policy args = .ok filled ∧
      { plan, policy, storage := filled.foldl (fun storage s => storage.set s.1 s.2)
          plan.initialStorage } = o := by
  rw [construct, bind_eq_ok_iff]
  simp only [pure_eq_ok_iff]

theorem construct_plan {policy : CoercionPolicy} {args : List HostValue} {o : HostObject}
    (h : plan.construct policy args = .ok o) : o.plan = plan := by
  have ⟨_, _, ho⟩ := construct_eq_ok_iff.mp h
  rw [← ho]

end InterfacePlan

namespace HostModule

variable {interfaces : List Interface} {options : Options} {m : HostModule} {name : String}
variable {args : List HostValue} {o : HostObject}

theorem load_eq_ok_iff :
    load interfaces options = .ok m ↔ Role.module.check options.moduleName = .ok () ∧
      ∃ plans, planAll interfaces = .ok plans ∧
        ⟨options.moduleName, options.coercion, plans⟩ = m := by
  rw [load, check_bind_eq_ok_iff, mapError_eq_ok_iff]
  simp only [bind_eq_ok_iff, pure_eq_ok_iff]

theorem exists_plan_of_load (h : load interfaces options = .ok m) {plan : InterfacePlan}
    (hp : plan ∈ m.classes) : ∃ i ∈ interfaces, i.plan = .ok plan := by
  have ⟨_, plans, ha, hm⟩ := load_eq_ok_iff.mp h
  subst hm
  have ⟨_, ha⟩ := planAll_eq_ok_iff.mp ha
  have ⟨i, hi, h⟩ := exists_of_forall₂_right ha hp
  exact ⟨i, hi, h⟩

theorem load_laidOut (h : load interfaces options = .ok m) {plan : InterfacePlan}
    (hp : plan ∈ m.classes) : plan.LaidOut := by
  have ⟨_, _, hi⟩ := exists_plan_of_load h hp
  exact Interface.plan_laidOut hi

theorem construct_eq_ok_iff :
    m.construct name args = .ok o ↔ m.class? name = some o.plan ∧
      o.plan.construct m.policy args = .ok o := by
  cases hc : m.class? name <;> rw [construct, hc]
  case none => simp
  case some plan =>
    rw [Option.some.injEq]
    constructor
    case mp =>
      intro h
      have hp := (InterfacePlan.construct_plan h).symm
      exact ⟨hp, hp ▸ h⟩
    case mpr => exact fun ⟨h, hc⟩ => h ▸ hc

theorem construct_valid (hm : load interfaces options = .ok m)
    (ho : m.construct name args = .ok o) : o.Valid := by
  have ⟨hp, hc⟩ := construct_eq_ok_iff.mp ho
  have ⟨_, hb, hs⟩ := InterfacePlan.construct_eq_ok_iff.mp hc
  have l := load_laidOut hm <| List.mem_of_find?_eq_some hp
  refine ⟨l, ?_⟩
  rw [← hs]
  exact l.initialStorage_typed.foldl_set l <| l.bind_typed hb

theorem construct_policy (ho : m.construct name args = .ok o) : o.policy = m.policy := by
  have ⟨_, hc⟩ := construct_eq_ok_iff.mp ho
  have ⟨_, _, hs⟩ := InterfacePlan.construct_eq_ok_iff.mp hc
  rw [← hs]

end HostModule

-- A property and the value that it is to get.
structure Assignment where
  property : String
  value    : HostValue

namespace Assignment

-- The attribute that an assignment changes and its new value. The storage has no say in this.
def verdict (c : Assignment) (plan : InterfacePlan) (policy : CoercionPolicy) :
    Except RuntimeError (AttributePlan × NativeValue) :=
  match plan.attribute? c.property with
  | none => .error (.unknownProperty plan.name c.property)
  | some a =>
    if a.writable then
      match a.type.decode policy c.value with
      | .ok v    => .ok (a, v)
      | .error r => .error (.typeMismatch (.property plan.name a.name) a.type r)
    else .error (.readOnly plan.name c.property)

-- The assignment gives the attribute this value.
structure Stores (c : Assignment) (policy : CoercionPolicy) (a : AttributePlan) (v : NativeValue) :
    Prop where
  property : c.property = a.name
  writable : a.writable
  decode   : a.type.decode policy c.value = .ok v

variable {c : Assignment} {plan : InterfacePlan} {policy : CoercionPolicy} {a : AttributePlan}
variable {v : NativeValue}

theorem verdict_eq_ok_iff (l : plan.LaidOut) :
    c.verdict plan policy = .ok (a, v) ↔ a ∈ plan.attributes ∧ c.Stores policy a v := by
  have h : (a ∈ plan.attributes ∧ c.Stores policy a v) ↔ plan.attribute? c.property = some a ∧
      a.writable ∧ a.type.decode policy c.value = .ok v := by
    rw [l.attribute?_eq_some_iff]
    constructor
    case mp  => exact fun ⟨h₁, h₂, h₃, h₄⟩ => ⟨⟨h₁, h₂.symm⟩, h₃, h₄⟩
    case mpr => exact fun ⟨⟨h₁, h₂⟩, h₃, h₄⟩ => ⟨h₁, h₂.symm, h₃, h₄⟩
  rw [h, verdict]
  cases plan.attribute? c.property
  case none => simp
  case some b =>
    cases hw : b.writable <;> cases hd : b.type.decode policy c.value
    all_goals simp
    all_goals grind

end Assignment

namespace HostObject

variable {o : HostObject} {c : Assignment} {calls : List Assignment}

theorem set_eq_verdict : o.set c.property c.value = (c.verdict o.plan o.policy).map fun s =>
    { o with storage := o.storage.set s.1.slot s.2 } := by
  rw [set, lookup, Assignment.verdict]
  cases o.plan.attribute? c.property
  case none => rfl
  case some a =>
    cases hw : a.writable <;> cases hd : a.type.decode o.policy c.value
    all_goals simp [bind, Except.bind, hw, hd]
    all_goals rfl

-- The object after an attempt to assign, which may fail.
def attempt (o : HostObject) (c : Assignment) : HostObject :=
  match o.set c.property c.value with
  | .ok o'   => o'
  | .error _ => o

def run (o : HostObject) (calls : List Assignment) : HostObject :=
  calls.foldl attempt o

theorem attempt_eq : o.attempt c = match c.verdict o.plan o.policy with
    | .ok s    => { o with storage := o.storage.set s.1.slot s.2 }
    | .error _ => o := by
  rw [attempt, set_eq_verdict]
  cases c.verdict o.plan o.policy <;> rfl

theorem attempt_plan (o : HostObject) (c : Assignment) : (o.attempt c).plan = o.plan := by
  rw [attempt_eq]
  cases c.verdict o.plan o.policy <;> rfl

theorem attempt_policy (o : HostObject) (c : Assignment) : (o.attempt c).policy = o.policy := by
  rw [attempt_eq]
  cases c.verdict o.plan o.policy <;> rfl

-- An attempt gives one attribute a value, or it changes nothing.
theorem attempt_cases (l : o.plan.LaidOut) (c : Assignment) :
    (∃ a ∈ o.plan.attributes, ∃ v, c.Stores o.policy a v ∧
      o.attempt c = { o with storage := o.storage.set a.slot v }) ∨
    (∀ a ∈ o.plan.attributes, ∀ v, ¬c.Stores o.policy a v) ∧ o.attempt c = o := by
  rw [attempt_eq]
  cases h : c.verdict o.plan o.policy
  case ok s =>
    have ⟨ha, hs⟩ := Assignment.verdict_eq_ok_iff l |>.mp h
    exact .inl ⟨s.1, ha, s.2, hs, rfl⟩
  case error =>
    refine .inr ⟨fun a ha v hs => ?_, rfl⟩
    rw [Assignment.verdict_eq_ok_iff l |>.mpr ⟨ha, hs⟩] at h
    contradiction

theorem Valid.attempt (h : o.Valid) (c : Assignment) : (o.attempt c).Valid := by
  rcases attempt_cases h.laidOut c with ⟨a, ha, v, hs, he⟩ | ⟨_, he⟩ <;> rw [he]
  · exact ⟨h.laidOut, h.typed.set h.laidOut ha <| ScalarType.holds_of_decode hs.decode⟩
  · exact h

theorem Valid.run (h : o.Valid) (calls : List Assignment) : (o.run calls).Valid := by
  induction calls generalizing o
  case nil => exact h
  case cons c _ hi => exact hi <| h.attempt c

theorem run_plan (o : HostObject) (calls : List Assignment) : (o.run calls).plan = o.plan := by
  induction calls generalizing o
  case nil => rfl
  case cons c _ hi => exact (hi <| o.attempt c).trans <| o.attempt_plan c

theorem run_policy (o : HostObject) (calls : List Assignment) :
    (o.run calls).policy = o.policy := by
  induction calls generalizing o
  case nil => rfl
  case cons c _ hi => exact (hi <| o.attempt c).trans <| o.attempt_policy c

theorem lookup_eq_ok_iff {property : String} {a : AttributePlan} :
    o.lookup property = .ok a ↔ o.plan.attribute? property = some a := by
  unfold lookup
  cases o.plan.attribute? property <;> simp

theorem Valid.getElem?_slot (h : o.Valid) {a : AttributePlan} (ha : a ∈ o.plan.attributes) :
    o.storage[a.slot]? = some (o.stored a) := by
  rw [stored, List.getD_eq_getElem?_getD, List.getElem?_eq_getElem (h.typed.slots a ha),
    Option.getD_some]

end HostObject

-- Whatever is assigned to an object, every attribute keeps a slot with a value of its type, and
-- neither the constructor nor an accessor goes outside of the storage.
theorem storage_typed_of_load {interfaces : List Interface} {options : Options} {m : HostModule}
    {name : String} {args : List HostValue} {o : HostObject}
    (hm : HostModule.load interfaces options = .ok m) (ho : m.construct name args = .ok o)
    (calls : List Assignment) :
    m.class? name = some o.plan ∧ (o.run calls).plan = o.plan ∧
    o.plan.TypedStorage (o.run calls).storage ∧
    (∀ filled, o.plan.constructor.bind m.policy args = .ok filled →
      ∀ s ∈ filled, s.1 < o.plan.initialStorage.length) ∧
    (∀ property a, (o.run calls).lookup property = .ok a →
      a.slot < (o.run calls).storage.length) ∧
    ∀ a ∈ o.plan.attributes, (o.run calls).storage[a.slot]? = some ((o.run calls).stored a) := by
  have hv := HostModule.construct_valid hm ho
  have hp := o.run_plan calls
  have hr := hv.run calls
  have ht : o.plan.TypedStorage (o.run calls).storage := hp ▸ hr.typed
  refine ⟨(HostModule.construct_eq_ok_iff.mp ho).left, hp, ht, ?_, ?_, ?_⟩
  · intro filled hb s hs
    have ⟨a, ha, he, _⟩ := hv.laidOut.bind_typed hb s hs
    exact he ▸ hv.laidOut.initialStorage_typed.slots a ha
  · intro property a ha
    rw [HostObject.lookup_eq_ok_iff, hp] at ha
    exact ht.slots a <| List.mem_of_find?_eq_some ha
  · exact fun a ha => hr.getElem?_slot <| hp.symm ▸ ha

theorem exists_pixel :
    ∃ m o, HostModule.load [pixel] {} = .ok m ∧ m.construct "Pixel" [.text "p"] = .ok o :=
  ⟨_, _, rfl, rfl⟩

theorem storage_typed_of_load_pixel :
    ∃ m o, HostModule.load [pixel] {} = .ok m ∧ m.construct "Pixel" [.text "p"] = .ok o ∧
      let calls : List Assignment := [⟨"red", .boolean true⟩, ⟨"tag", .null⟩, ⟨"green", .null⟩]
      o.plan.TypedStorage (o.run calls).storage := by
  have ⟨m, o, hm, ho⟩ := exists_pixel
  exact ⟨m, o, hm, ho, storage_typed_of_load hm ho _ |>.right.right.left⟩

end AddonBinding
