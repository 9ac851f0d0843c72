import AddonBinding.Proofs.Naming
import AddonBinding.Proofs.Results
import Mathlib.Data.List.Nodup

namespace AddonBinding

namespace Parameter

-- The value of an argument that is left out, where the type has room for the declared one.
def fallback (p : Parameter) (t : ScalarType) : Option NativeValue :=
  match p.default with
  | some literal => t.ofLiteral? literal
  | none => if p.optional then some t.zero else none

end Parameter

namespace Interface

structure MemberName (i : Interface) (name : String) : Prop where
  usable   : Identifier.Usable name
  distinct : name ≠ i.name

structure WellFormedAttributes (i : Interface) : Prop where
  distinct : (i.attributes.map (·.name)).Nodup
  name     : ∀ a ∈ i.attributes, i.MemberName a.name
  type     : ∀ a ∈ i.attributes, ∃ t, ScalarType.Names a.type t

structure WellFormedConstructor (i : Interface) : Prop where
  distinct  : (i.constructor.map (·.name)).Nodup
  name      : ∀ p ∈ i.constructor, i.MemberName p.name
  binds     : ∀ p ∈ i.constructor, ∃ a ∈ i.attributes, ∃ t,
    a.name = p.name ∧ ScalarType.Names a.type t ∧ ScalarType.Names p.type t
  optional  : i.constructor.Pairwise fun p q => p.hasDefault → q.hasDefault
  default   : ∀ p ∈ i.constructor, ∀ literal, p.default = some literal →
    ∃ t v, ScalarType.Names p.type t ∧ t.ofLiteral? literal = some v

structure WellFormed (i : Interface) : Prop where
  name        : Identifier.Usable i.name
  attributes  : i.WellFormedAttributes
  constructor : i.WellFormedConstructor

end Interface

-- The plan of an attribute says what was declared and where the value is stored.
structure Attribute.PlannedAs (a : Attribute) (slot : Nat) (q : AttributePlan) : Prop where
  name     : q.name = a.name
  type     : ScalarType.Names a.type q.type
  writable : q.writable = !a.readonly
  slot     : q.slot = slot

structure Parameter.PlannedAs (p : Parameter) (attributes : List AttributePlan) (q : ParameterPlan) :
    Prop where
  name     : q.name = p.name
  type     : ScalarType.Names p.type q.type
  default  : q.default = p.fallback q.type
  optional : q.default.isSome = p.hasDefault
  bound    : ∃ a ∈ attributes, a.name = q.name ∧ a.type = q.type ∧ a.slot = q.slot

structure Interface.PlannedAs (i : Interface) (plan : InterfacePlan) : Prop where
  name       : plan.name = i.name
  attributes : List.Forall₂ (fun a q => a.1.PlannedAs a.2 q) i.attributes.zipIdx plan.attributes
  interface  : plan.constructor.interface = i.name
  parameters : List.Forall₂ (·.PlannedAs plan.attributes ·) i.constructor plan.constructor.parameters
  slots      : (plan.constructor.parameters.map (·.slot)).Nodup
  required   : plan.constructor.required = i.constructor.countP (!·.hasDefault)

-- A unit that can be planned.
structure WellFormedUnit (interfaces : List Interface) : Prop where
  distinct   : (interfaces.map (·.name)).Nodup
  interfaces : ∀ i ∈ interfaces, i.WellFormed

section Names

variable {r : Role} {m : Member} {i : Interface} {name tag : String} {t : ScalarType}

theorem Role.check_eq_ok_iff : r.check name = .ok () ↔ Identifier.Usable name := by
  simp only [check, ite_error_eq_ok_iff, Bool.not_eq_true', Bool.not_eq_false, and_true]
  rw [Identifier.isValid_iff, Bool.not_eq_true]
  exact ⟨fun ⟨h₁, h₂⟩ => ⟨h₁, h₂⟩, fun ⟨h₁, h₂⟩ => ⟨h₁, h₂⟩⟩

theorem Role.checkMember_eq_ok_iff : r.checkMember i.name name = .ok () ↔ i.MemberName name := by
  rw [checkMember, check_bind_eq_ok_iff, check_eq_ok_iff, ite_throw_eq_ok_iff]
  exact ⟨fun ⟨h₁, h₂⟩ => ⟨h₁, h₂.left⟩, fun ⟨h₁, h₂⟩ => ⟨h₁, h₂, rfl⟩⟩

theorem Member.typeOf_eq_ok_iff : m.typeOf tag = .ok t ↔ ScalarType.Names tag t := by
  rw [← ScalarType.ofTag?_eq_some_iff, typeOf]
  cases ScalarType.ofTag? tag <;> simp

end Names

namespace Interface

variable {i : Interface}

theorem any_name_eq_false_iff {α : Type} {l : List α} {key : α → String} {name : String} :
    ¬(l.any (key · == name)) ↔ ∀ b ∈ l, key b ≠ name := by
  simp

section Attributes

variable {earlier : List Attribute} {a : Attribute} {typed : Attribute × ScalarType}
variable {attributes : List AttributePlan}

theorem attributeType_eq_ok_iff :
    i.attributeType earlier a = .ok typed ↔
      (∀ b ∈ earlier, b.name ≠ a.name) ∧
        i.MemberName a.name ∧ typed.1 = a ∧ ScalarType.Names a.type typed.2 := by
  obtain ⟨a', t⟩ := typed
  rw [attributeType, check_bind_eq_ok_iff, Role.checkMember_eq_ok_iff]
  simp only [throw_bind, ite_throw_eq_ok_iff, any_name_eq_false_iff, bind_eq_ok_iff,
    Member.typeOf_eq_ok_iff, pure_eq_ok_iff, Prod.mk.injEq]
  constructor
  case mp =>
    intro ⟨hn, he, _, ht, ha, h⟩
    exact ⟨he, hn, ha.symm, h ▸ ht⟩
  case mpr =>
    intro ⟨he, hn, ha, ht⟩
    exact ⟨hn, he, t, ht, ha.symm, rfl⟩

-- Attributes are typed one by one in view of the earlier ones. Only the names of the earlier ones
-- matter, so nothing else has to be known about them.
theorem gather_attributeType_eq_ok_iff {typed : List (Attribute × ScalarType)} :
    gather (withEarlier i.attributeType [] i.attributes) = .ok typed ↔
      (i.attributes.map (·.name)).Nodup ∧
        List.Forall₂ (fun a r => i.MemberName a.name ∧ r.1 = a ∧ ScalarType.Names a.type r.2)
          i.attributes typed := by
  have h := withEarlier_nil_eq_map_ok_iff (f := i.attributeType) (G := fun _ => True)
    (fun _ _ _ _ _ => trivial) (fun _ _ _ _ => attributeType_eq_ok_iff) trivial
  rw [gather_eq_ok_iff, h, List.Nodup, List.pairwise_map]

theorem WellFormedAttributes.exists_plan (w : i.WellFormedAttributes) :
    ∃ attributes, i.planAttributes = .ok attributes := by
  have ⟨typed, h⟩ : ∃ typed, gather (withEarlier i.attributeType [] i.attributes) = .ok typed := by
    simp only [gather_attributeType_eq_ok_iff, exists_and_left]
    refine ⟨w.distinct, exists_forall₂ fun a ha => ?_⟩
    have ⟨t, ht⟩ := w.type a ha
    exact ⟨(a, t), w.name a ha, rfl, ht⟩
  exact ⟨_, bind_eq_ok_iff.mpr ⟨typed, h, rfl⟩⟩

theorem planAttributes_wellFormed (h : i.planAttributes = .ok attributes) :
    i.WellFormedAttributes := by
  have ⟨typed, h, _⟩ := bind_eq_ok_iff.mp h
  have ⟨hd, h⟩ := gather_attributeType_eq_ok_iff.mp h
  constructor
  case distinct => exact hd
  all_goals
    intro a ha
    have ⟨r, _, hr⟩ := exists_of_forall₂_left h ha
  case name => exact hr.left
  case type => exact ⟨_, hr.right.right⟩

theorem planAttributes_planned (h : i.planAttributes = .ok attributes) :
    List.Forall₂ (fun a q => a.1.PlannedAs a.2 q) i.attributes.zipIdx attributes := by
  have ⟨typed, h, he⟩ := bind_eq_ok_iff.mp h
  have ⟨_, h⟩ := gather_attributeType_eq_ok_iff.mp h
  rw [pure_eq_ok_iff] at he
  rw [← he, List.mapIdx_eq_zipIdx_map, List.forall₂_map_right_iff]
  refine forall₂_zipIdx h 0 |>.imp fun a r hr => ?_
  obtain ⟨⟨a', t⟩, slot⟩ := r
  obtain ⟨⟨_, rfl, ht⟩, hs⟩ := hr
  exact ⟨rfl, ht, rfl, hs.symm⟩

theorem planned_names {l : List Attribute} {n : Nat}
    (h : List.Forall₂ (fun a q => a.1.PlannedAs a.2 q) (l.zipIdx n) attributes) :
    attributes.map (·.name) = l.map (·.name) := by
  induction l generalizing n attributes <;> cases h
  case nil => rfl
  case cons hi _ _ h hs => simp [h.name, hi hs]

theorem planned_slots {l : List Attribute} {n : Nat}
    (h : List.Forall₂ (fun a q => a.1.PlannedAs a.2 q) (l.zipIdx n) attributes) :
    attributes.map (·.slot) = List.range' n l.length := by
  induction l generalizing n attributes <;> cases h
  case nil => rfl
  case cons hi _ _ h hs => simp [h.slot, hi hs, List.range'_succ]

theorem forall₂_planned {l : List Attribute} {n : Nat} {P : Attribute → AttributePlan → Prop}
    (h : List.Forall₂ (fun a q => a.1.PlannedAs a.2 q) (l.zipIdx n) attributes)
    (hP : ∀ a slot q, a.PlannedAs slot q → P a q) : List.Forall₂ P l attributes := by
  rw [← List.zipIdx_map_fst n l, List.forall₂_map_left_iff]
  exact h.imp fun _ _ h => hP _ _ _ h

theorem planned_attributes (h : i.planAttributes = .ok attributes) :
    List.Forall₂ (fun a q => q.name = a.name ∧ ScalarType.Names a.type q.type)
      i.attributes attributes :=
  forall₂_planned (planAttributes_planned h) fun _ _ _ h => ⟨h.name, h.type⟩

theorem planAttributes_distinct (h : i.planAttributes = .ok attributes) :
    (attributes.map (·.name)).Nodup :=
  planned_names (planAttributes_planned h) ▸ (planAttributes_wellFormed h).distinct

end Attributes

section Constructor

variable {earlier : List Parameter} {attributes : List AttributePlan} {p : Parameter}
variable {q : ParameterPlan} {t : ScalarType} {c : ConstructorPlan}

theorem checkParameterName_eq_ok_iff :
    i.checkParameterName earlier p = .ok () ↔
      i.MemberName p.name ∧ ∀ b ∈ earlier, b.name ≠ p.name := by
  rw [checkParameterName, check_bind_eq_ok_iff, Role.checkMember_eq_ok_iff, ite_throw_eq_ok_iff,
    any_name_eq_false_iff]
  exact ⟨fun ⟨h₁, h₂, _⟩ => ⟨h₁, h₂⟩, fun ⟨h₁, h₂⟩ => ⟨h₁, h₂, rfl⟩⟩

-- What is known of parameters once they have been accepted.
structure Named (i : Interface) (ps : List Parameter) : Prop where
  distinct : ps.Pairwise (·.name ≠ ·.name)
  name     : ∀ p ∈ ps, i.MemberName p.name

theorem firstOptional?_eq_none_iff {ps : List Parameter} (n : i.Named ps)
    (he : ∀ p ∈ ps, ∀ b ∈ earlier, b.name ≠ p.name) :
    i.firstOptional? earlier ps = none ↔ ∀ p ∈ ps, p.hasDefault = false := by
  induction ps generalizing earlier
  case nil => simp [firstOptional?]
  case cons p ps hi =>
    have ⟨hp, hps⟩ := List.pairwise_cons.mp n.distinct
    have ⟨hn, hns⟩ := List.forall_mem_cons.mp n.name
    have ⟨hd, hds⟩ := List.forall_mem_cons.mp he
    have hc : i.checkParameterName earlier p = .ok () := checkParameterName_eq_ok_iff.mpr ⟨hn, hd⟩
    have hi : i.firstOptional? (earlier ++ [p]) ps = none ↔ _ := hi ⟨hps, hns⟩ (by grind)
    cases hp : p.hasDefault <;> simp [firstOptional?, hc, hp, hi, Except.isOk, Except.toBool]

theorem parameterDefault_eq_ok_iff {value : Option NativeValue} :
    i.parameterDefault p t = .ok value ↔
      value = p.fallback t ∧ value.isSome = p.hasDefault := by
  obtain ⟨name, type, optional, default⟩ := p
  cases default
  case none =>
    simp only [parameterDefault, Parameter.fallback, Parameter.hasDefault, Except.ok.injEq]
    cases optional <;> grind
  case some literal =>
    simp only [parameterDefault, Parameter.fallback, Parameter.hasDefault]
    cases t.ofLiteral? literal <;> grind

theorem find?_name_eq_some_iff {name : String} {a : AttributePlan}
    (hd : (attributes.map (·.name)).Nodup) :
    attributes.find? (·.name == name) = some a ↔ a ∈ attributes ∧ a.name = name := by
  constructor
  case mp =>
    intro h
    exact ⟨List.mem_of_find?_eq_some h, by simpa using List.find?_some h⟩
  case mpr =>
    intro ⟨hm, hn⟩
    cases hf : attributes.find? (·.name == name)
    case none => simp_all
    case some b =>
      have hb := List.find?_some hf
      have := List.inj_on_of_nodup_map hd (List.mem_of_find?_eq_some hf) hm (by simp_all)
      rw [this]

theorem bindParameter_eq_ok_iff (hd : (attributes.map (·.name)).Nodup) :
    i.bindParameter attributes p = .ok q ↔ p.PlannedAs attributes q := by
  rw [bindParameter, bind_eq_ok_iff]
  simp only [Member.typeOf_eq_ok_iff, throw_bind]
  constructor
  case mp =>
    intro ⟨t, ht, h⟩
    split at h
    case _ => contradiction
    case _ a hf =>
      rw [ite_throw_eq_ok_iff, bind_eq_ok_iff] at h
      obtain ⟨hs, value, hv, h⟩ := h
      rw [pure_eq_ok_iff] at h
      have ⟨hm, hn⟩ := find?_name_eq_some_iff hd |>.mp hf
      have ⟨hv, ho⟩ := parameterDefault_eq_ok_iff.mp hv
      subst h
      exact ⟨rfl, ht, hv, ho, a, hm, hn, not_not.mp hs, rfl⟩
  case mpr =>
    intro h
    have ⟨a, hm, hn, ht, hs⟩ := h.bound
    have hf := find?_name_eq_some_iff hd |>.mpr ⟨hm, hn.trans h.name⟩
    refine ⟨q.type, h.type, ?_⟩
    simp only [hf]
    rw [ite_throw_eq_ok_iff, bind_eq_ok_iff]
    refine ⟨not_not.mpr ht, q.default, parameterDefault_eq_ok_iff.mpr ⟨h.default, h.optional⟩, ?_⟩
    rw [pure_eq_ok_iff, hs, ← h.name]

theorem planParameter_eq_ok_iff_bindParameter :
    i.planParameter attributes earlier p = .ok q ↔
      i.MemberName p.name ∧ (∀ b ∈ earlier, b.name ≠ p.name) ∧
        (p.hasDefault ∨ i.firstOptional? [] earlier = none) ∧ i.bindParameter attributes p = .ok q := by
  rw [planParameter, check_bind_eq_ok_iff, checkParameterName_eq_ok_iff, and_assoc]
  simp only [throw_bind]
  cases p.hasDefault <;> cases i.firstOptional? [] earlier
  all_goals simp [throw, throwThe, MonadExceptOf.throw]

-- A required parameter is accepted only if no accepted parameter before it is optional. The search
-- for one skips parameters without a proper name, of which there are none by then.
theorem planParameter_eq_ok_iff (hd : (attributes.map (·.name)).Nodup) (n : i.Named earlier) :
    i.planParameter attributes earlier p = .ok q ↔
      (∀ b ∈ earlier, b.name ≠ p.name ∧ (b.hasDefault → p.hasDefault)) ∧
        i.MemberName p.name ∧ p.PlannedAs attributes q := by
  rw [planParameter_eq_ok_iff_bindParameter, bindParameter_eq_ok_iff hd,
    firstOptional?_eq_none_iff n (by simp)]
  have ho : (∀ b ∈ earlier, b.hasDefault → p.hasDefault) ↔
      p.hasDefault ∨ ∀ b ∈ earlier, b.hasDefault = false := by
    cases p.hasDefault <;> simp
  simp only [forall_and, ho]
  constructor
  case mp  => exact fun ⟨hn, hf, ho, hp⟩ => ⟨⟨hf, ho⟩, hn, hp⟩
  case mpr => exact fun ⟨⟨hf, ho⟩, hn, hp⟩ => ⟨hn, hf, ho, hp⟩

theorem Named.append (n : i.Named earlier) (hn : i.MemberName p.name)
    (hf : ∀ b ∈ earlier, b.name ≠ p.name) : i.Named (earlier ++ [p]) where
  distinct := List.pairwise_append.mpr ⟨n.distinct, List.pairwise_singleton .., by simpa using hf⟩
  name     := by simpa [or_imp, forall_and, hn] using n.name

theorem gather_planParameter_eq_ok_iff {parameters : List ParameterPlan}
    (hd : (attributes.map (·.name)).Nodup) :
    gather (withEarlier (i.planParameter attributes) [] i.constructor) = .ok parameters ↔
      i.constructor.Pairwise (fun p q => p.name ≠ q.name ∧ (p.hasDefault → q.hasDefault)) ∧
        List.Forall₂ (fun p q => i.MemberName p.name ∧ p.PlannedAs attributes q)
          i.constructor parameters := by
  have hg : ∀ pre p q, i.Named pre → i.planParameter attributes pre p = .ok q → i.Named (pre ++ [p]) := by
    intro pre p q n h
    have ⟨hn, hf, _⟩ := planParameter_eq_ok_iff_bindParameter.mp h
    exact n.append hn hf
  rw [gather_eq_ok_iff]
  exact withEarlier_nil_eq_map_ok_iff hg (fun _ _ _ n => planParameter_eq_ok_iff hd n)
    ⟨.nil, by simp⟩ i.constructor parameters

theorem planConstructor_eq_ok_iff (hd : (attributes.map (·.name)).Nodup) :
    i.planConstructor attributes = .ok c ↔ c.interface = i.name ∧
      i.constructor.Pairwise (fun p q => p.name ≠ q.name ∧ (p.hasDefault → q.hasDefault)) ∧
        List.Forall₂ (fun p q => i.MemberName p.name ∧ p.PlannedAs attributes q)
          i.constructor c.parameters := by
  obtain ⟨interface, parameters⟩ := c
  rw [planConstructor, bind_eq_ok_iff]
  simp only [gather_planParameter_eq_ok_iff hd, pure_eq_ok_iff, ConstructorPlan.mk.injEq]
  constructor
  case mp =>
    intro ⟨_, h, hi, hp⟩
    exact ⟨hi.symm, hp ▸ h⟩
  case mpr =>
    intro ⟨hi, h⟩
    exact ⟨parameters, h, hi.symm, rfl⟩

theorem planConstructor_wellFormed (ha : i.planAttributes = .ok attributes)
    (hc : i.planConstructor attributes = .ok c) : i.WellFormedConstructor := by
  have ⟨_, hp, hc⟩ := planConstructor_eq_ok_iff (planAttributes_distinct ha) |>.mp hc
  have ⟨hd, ho⟩ := List.pairwise_and_iff.mp hp
  constructor
  case distinct => exact List.pairwise_map.mpr hd
  case optional => exact ho
  all_goals
    intro p hm
    have ⟨q, _, hn, h⟩ := exists_of_forall₂_left hc hm
  case name => exact hn
  case binds =>
    have ⟨b, hb, hbn, hbt, _⟩ := h.bound
    have ⟨a, ha, han, hat⟩ := exists_of_forall₂_right (planned_attributes ha) hb
    exact ⟨a, ha, q.type, by rw [← han, hbn, h.name], hbt ▸ hat, h.type⟩
  case default =>
    intro literal hl
    have hs := h.optional
    simp only [h.default, Parameter.fallback, hl, Parameter.hasDefault, Option.isSome_some,
      Bool.or_true, Option.isSome_iff_exists] at hs
    have ⟨v, hv⟩ := hs
    exact ⟨q.type, v, h.type, hv⟩

theorem isSome_fallback (h : ∀ literal, p.default = some literal → (t.ofLiteral? literal).isSome) :
    (p.fallback t).isSome = p.hasDefault := by
  unfold Parameter.fallback Parameter.hasDefault
  cases hd : p.default
  case none         => cases p.optional <;> rfl
  case some literal => simp [h literal hd]

theorem WellFormedConstructor.exists_plan (w : i.WellFormedConstructor)
    (ha : i.planAttributes = .ok attributes) : ∃ c, i.planConstructor attributes = .ok c := by
  have ⟨parameters, h⟩ : ∃ parameters,
      List.Forall₂ (fun p q => i.MemberName p.name ∧ p.PlannedAs attributes q)
        i.constructor parameters := by
    apply exists_forall₂
    intro p hp
    have ⟨a, ham, t, han, hat, ht⟩ := w.binds p hp
    have ⟨b, hb, hbn, hbt⟩ := exists_of_forall₂_left (planned_attributes ha) ham
    refine ⟨⟨p.name, t, p.fallback t, b.slot⟩, w.name p hp, rfl, ht, rfl, ?_, b, hb, ?_, ?_, rfl⟩
    · apply isSome_fallback
      intro literal hl
      have ⟨u, v, hu, hv⟩ := w.default p hp literal hl
      rw [hu.unique ht] at hv
      simp [hv]
    · rw [hbn, han]
    · exact hbt.unique hat
  refine ⟨⟨i.name, parameters⟩, planConstructor_eq_ok_iff (planAttributes_distinct ha) |>.mpr ?_⟩
  exact ⟨rfl, List.pairwise_and_iff.mpr ⟨List.pairwise_map.mp w.distinct, w.optional⟩, h⟩

theorem planned_parameter_names {ps : List Parameter} {qs : List ParameterPlan}
    (h : List.Forall₂ (·.PlannedAs attributes ·) ps qs) : qs.map (·.name) = ps.map (·.name) := by
  induction h
  case nil => rfl
  case cons h _ hi => simp [h.name, hi]

-- Attributes are stored in slots of their own, so parameters that initialise attributes of different
-- names fill different slots.
theorem planConstructor_slots (ha : i.planAttributes = .ok attributes)
    (hc : i.planConstructor attributes = .ok c) : (c.parameters.map (·.slot)).Nodup := by
  have w := planConstructor_wellFormed ha hc
  have ⟨_, _, hc⟩ := planConstructor_eq_ok_iff (planAttributes_distinct ha) |>.mp hc
  have hs : (attributes.map (·.slot)).Nodup := by
    rw [planned_slots (planAttributes_planned ha)]
    exact List.nodup_range'
  have hn : c.parameters.Pairwise (·.name ≠ ·.name) := by
    rw [← List.pairwise_map, planned_parameter_names (hc.imp fun _ _ h => h.right)]
    exact w.distinct
  refine List.pairwise_map.mpr (hn.imp_of_mem fun {q r} hq hr hne hse => ?_)
  have ⟨p, _, _, hp⟩ := exists_of_forall₂_right hc hq
  have ⟨p', _, _, hp'⟩ := exists_of_forall₂_right hc hr
  have ⟨a, ham, han, _, has⟩ := hp.bound
  have ⟨b, hbm, hbn, _, hbs⟩ := hp'.bound
  have hab : a = b := List.inj_on_of_nodup_map hs ham hbm (by rw [has, hbs, hse])
  exact hne (by rw [← han, ← hbn, hab])

theorem length_takeWhile_eq_countP {α : Type} {l : List α} {f : α → Bool}
    (h : l.Pairwise fun a b => f a → f b) : (l.takeWhile (!f ·)).length = l.countP (!f ·) := by
  induction l
  case nil => rfl
  case cons a l hi =>
    have ⟨ha, hl⟩ := List.pairwise_cons.mp h
    cases hf : f a
    case false => simp [hf, hi hl]
    case true  =>
      have : l.countP (!f ·) = 0 := List.countP_eq_zero.mpr fun b hb => by simp [ha b hb hf]
      simp [hf, this]

theorem planned_required {ps : List Parameter} {qs : List ParameterPlan}
    (h : List.Forall₂ (·.PlannedAs attributes ·) ps qs) :
    (qs.takeWhile (·.default.isNone)).length = (ps.takeWhile (!·.hasDefault)).length := by
  induction h
  case nil => rfl
  case cons p q _ _ h _ hi =>
    have hs : q.default.isNone = !p.hasDefault := by rw [← h.optional, Option.not_isSome]
    cases hp : p.hasDefault <;> simp [hs, hp, hi]

theorem planConstructor_required (ha : i.planAttributes = .ok attributes)
    (hc : i.planConstructor attributes = .ok c) :
    c.required = i.constructor.countP (!·.hasDefault) := by
  have w := planConstructor_wellFormed ha hc
  have ⟨_, _, hc⟩ := planConstructor_eq_ok_iff (planAttributes_distinct ha) |>.mp hc
  rw [← length_takeWhile_eq_countP w.optional]
  exact planned_required (hc.imp fun _ _ h => h.right)

end Constructor

section Interface

variable {plan : InterfacePlan}

-- There is a rejection wherever several are joined.
theorem plan_eq : i.plan = match Role.interface.check i.name, i.planAttributes with
    | .error f, .error r    => .error ⟨f, r.faults⟩
    | .error f, .ok _       => .error (.single f)
    | .ok _, .error r       => .error r
    | .ok _, .ok attributes => do return ⟨i.name, attributes, ← i.planConstructor attributes⟩ := by
  have hj {rs : List Rejection} {r : Rejection} (h : Rejection.ofList? rs = some r) :
      Except.error (plan.rejection i rs) = Except.error (α := InterfacePlan) r := by
    rw [plan.rejection, h, Option.getD_some]
  unfold plan
  cases Role.interface.check i.name <;> cases i.planAttributes
  case error.error f r  => exact hj (ofList?_pair f r)
  case error.ok f _     => exact hj (ofList?_singleton (.single f))
  case ok.error r       => exact hj (ofList?_singleton r)
  case ok.ok attributes =>
    simp only [Except.mapError, Rejection.among, List.append_nil, Except.toOption, Option.getD_some]
    cases i.planConstructor attributes
    case ok      => rfl
    case error r => exact hj (ofList?_singleton r)

theorem plan_eq_ok_iff :
    i.plan = .ok plan ↔ Identifier.Usable i.name ∧ ∃ attributes c, i.planAttributes = .ok attributes ∧
      i.planConstructor attributes = .ok c ∧ plan = ⟨i.name, attributes, c⟩ := by
  rw [← Role.check_eq_ok_iff (r := .interface), plan_eq]
  cases hn : Role.interface.check i.name <;> cases ha : i.planAttributes
  case ok.ok attributes =>
    constructor
    case mp =>
      intro h
      have ⟨c, hc, h⟩ := bind_eq_ok_iff.mp h
      exact ⟨rfl, attributes, c, rfl, hc, (pure_eq_ok_iff.mp h).symm⟩
    case mpr =>
      intro ⟨_, attributes', c, ha, hc, hp⟩
      cases ha
      exact bind_eq_ok_iff.mpr ⟨c, hc, pure_eq_ok_iff.mpr hp.symm⟩
  all_goals simp

theorem plan_wellFormed (h : i.plan = .ok plan) : i.WellFormed := by
  have ⟨hn, _, _, ha, hc, _⟩ := plan_eq_ok_iff.mp h
  exact ⟨hn, planAttributes_wellFormed ha, planConstructor_wellFormed ha hc⟩

theorem WellFormed.exists_plan (w : i.WellFormed) : ∃ plan, i.plan = .ok plan := by
  have ⟨_, ha⟩ := w.attributes.exists_plan
  have ⟨_, hc⟩ := w.constructor.exists_plan ha
  exact ⟨_, plan_eq_ok_iff.mpr ⟨w.name, _, _, ha, hc, rfl⟩⟩

theorem plan_planned (h : i.plan = .ok plan) : i.PlannedAs plan := by
  have ⟨_, attributes, c, ha, hc, hp⟩ := plan_eq_ok_iff.mp h
  subst hp
  have ⟨hi, _, hq⟩ := planConstructor_eq_ok_iff (planAttributes_distinct ha) |>.mp hc
  exact {
    name       := rfl
    attributes := planAttributes_planned ha
    interface  := hi
    parameters := hq.imp fun _ _ h => h.right
    slots      := planConstructor_slots ha hc
    required   := planConstructor_required ha hc
  }

theorem planNext_eq_ok_iff {earlier : List Interface} :
    planNext earlier i = .ok plan ↔ (∀ b ∈ earlier, b.name ≠ i.name) ∧ i.plan = .ok plan := by
  rw [planNext, ite_error_eq_ok_iff, any_name_eq_false_iff]

end Interface

end Interface

section Unit

variable {interfaces : List Interface} {plans : List InterfacePlan}

theorem planAll_eq_ok_iff :
    planAll interfaces = .ok plans ↔ (interfaces.map (·.name)).Nodup ∧
      List.Forall₂ (fun i plan => i.plan = .ok plan) interfaces plans := by
  have h := withEarlier_nil_eq_map_ok_iff (f := Interface.planNext) (G := fun _ => True)
    (fun _ _ _ _ _ => trivial) (fun _ _ _ _ => Interface.planNext_eq_ok_iff) trivial
  rw [planAll, orAccept_eq_ok_iff, ofList?_eq_none_iff, flatMap_among_eq_nil_iff, acceptedValues,
    ← eq_map_ok_iff, h, List.Nodup, List.pairwise_map]

-- Planning accepts exactly the well-formed units, and its plans say what was declared.
theorem planAll_accepts_wellFormed (interfaces : List Interface) :
    ((∃ plans, planAll interfaces = .ok plans) ↔ WellFormedUnit interfaces) ∧
      ∀ plans, planAll interfaces = .ok plans →
        List.Forall₂ Interface.PlannedAs interfaces plans := by
  simp only [planAll_eq_ok_iff]
  refine ⟨⟨?_, ?_⟩, ?_⟩
  · intro ⟨plans, hd, h⟩
    refine ⟨hd, fun i hi => ?_⟩
    have ⟨_, _, h⟩ := exists_of_forall₂_left h hi
    exact Interface.plan_wellFormed h
  · intro w
    have ⟨plans, h⟩ := exists_forall₂ fun i hi => (w.interfaces i hi).exists_plan
    exact ⟨plans, w.distinct, h⟩
  · intro plans ⟨_, h⟩
    exact h.imp fun _ _ => Interface.plan_planned

def pixel : Interface where
  name        := "Pixel"
  constructor := [
    ⟨"tag", "DOMString", false, none⟩,
    ⟨"red", "unsigned short", false, some (.integer 7)⟩]
  attributes  := [⟨"red", " unsigned  short", false⟩, ⟨"tag", "DOMString", true⟩]

theorem planAll_accepts_wellFormed_pixel :
    ∃ plans, planAll [pixel] = .ok plans ∧ List.Forall₂ Interface.PlannedAs [pixel] plans :=
  ⟨_, rfl, (planAll_accepts_wellFormed _).right _ rfl⟩

end Unit

end AddonBinding
