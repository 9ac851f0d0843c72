import AddonBinding.Compile
import AddonBinding.Proofs.Planning

namespace AddonBinding

open Source

-- The identifiers that a class declares besides its own. Every class has the entry point that sets
-- it up; the others come from the members of the interface.
def Source.ClassDeclaration.memberNames (c : ClassDeclaration) : List String :=
  "Init" :: c.entries.map (·.name) ++ c.fields.map (·.name)

namespace Attribute

def accessors (a : Attribute) : List String :=
  ("Get_" ++ a.name) :: if a.readonly then [] else ["Set_" ++ a.name]

def field (a : Attribute) : String :=
  a.name ++ "_"

end Attribute

namespace Interface

variable {i : Interface} {plan : InterfacePlan}

def memberNames (i : Interface) : List String :=
  "Init" :: "New" :: i.attributes.flatMap (·.accessors) ++ i.attributes.map (·.field)

-- Two attributes are called alike but for an underscore at the end of one and the start of an
-- accessor at the beginning of the other, or the interface is called like a member of its class.
inductive Clashes (i : Interface) : Prop
  | getter {a b} (ha : a ∈ i.attributes) (hb : b ∈ i.attributes) (stem : String)
      (h₁ : a.name = stem ++ "_") (h₂ : b.name = "Get_" ++ stem)
  | setter {a b} (ha : a ∈ i.attributes) (hb : b ∈ i.attributes) (hw : a.readonly = false)
      (stem : String) (h₁ : a.name = stem ++ "_") (h₂ : b.name = "Set_" ++ stem)
  | className {a} (ha : a ∈ i.attributes) (h : i.name ∈ a.field :: a.accessors)

variable {className : String} {l : List Attribute} {qs : List AttributePlan} {n : Nat}

theorem planned_flatMap {α : Type} {f : AttributePlan → List α} {g : Attribute → List α}
    (h : List.Forall₂ (fun a q => a.1.PlannedAs a.2 q) (l.zipIdx n) qs)
    (hf : ∀ a slot q, a.PlannedAs slot q → f q = g a) : qs.flatMap f = l.flatMap g :=
  flatMap_of_forall₂ (forall₂_planned h hf) fun _ _ => id

theorem planned_accessors (h : List.Forall₂ (fun a q => a.1.PlannedAs a.2 q) (l.zipIdx n) qs) :
    (qs.flatMap (·.fragment className |>.entries)).map (·.name) = l.flatMap (·.accessors) := by
  rw [List.map_flatMap]
  refine planned_flatMap h fun a _ q h => ?_
  cases hr : a.readonly
  all_goals simp [AttributePlan.fragment, AttributePlan.getter, AttributePlan.setter?,
    Attribute.accessors, h.name, h.writable, hr]

theorem planned_fields (h : List.Forall₂ (fun a q => a.1.PlannedAs a.2 q) (l.zipIdx n) qs) :
    (qs.flatMap (·.fragment className |>.fields)).map (·.name) = l.map (·.field) := by
  rw [List.map_flatMap, List.map_eq_flatMap]
  refine planned_flatMap h fun a _ q h => ?_
  simp [AttributePlan.fragment, AttributePlan.field, Attribute.field, h.name]

theorem memberNames_classDeclaration (h : i.PlannedAs plan) :
    plan.classDeclaration.memberNames = i.memberNames := by
  simp only [ClassDeclaration.memberNames, InterfacePlan.classDeclaration, InterfacePlan.fragments,
    List.flatMap_cons, List.flatMap_map, List.map_append, memberNames]
  rw [planned_accessors h.attributes, planned_fields h.attributes]
  simp [ConstructorPlan.fragment]

end Interface

section Affixes

variable {s t start : String}

theorem append_underscore_inj (h : s ++ "_" = t ++ "_") : s = t := by
  rw [← String.toList_inj] at h ⊢
  simpa using h

-- A name that is extended at both ends in two ways has the underscore at the end and the start at
-- the beginning in either.
theorem append_underscore_eq_iff (ht : t ≠ "") :
    s ++ "_" = start ++ t ↔ ∃ stem, t = stem ++ "_" ∧ s = start ++ stem := by
  constructor
  case mpr =>
    rintro ⟨stem, rfl, rfl⟩
    rw [String.append_assoc]
  case mp =>
    intro h
    rw [← String.toList_inj] at h
    obtain ⟨init, last, hl⟩ : ∃ init last, t.toList = init ++ [last] := by
      apply List.eq_nil_or_concat' t.toList |>.resolve_left
      simpa using ht
    rw [String.toList_append, String.toList_append, hl, ← List.append_assoc] at h
    have ⟨hs, hc⟩ := List.append_inj' h rfl
    refine ⟨String.ofList init, ?_, ?_⟩ <;> rw [← String.toList_inj]
    · simp [hl, ← hc]
    · simp [hs]

end Affixes

namespace Attribute

variable {a b : Attribute} {name : String}

theorem mem_accessors :
    name ∈ a.accessors ↔
      name = "Get_" ++ a.name ∨ a.readonly = false ∧ name = "Set_" ++ a.name := by
  cases h : a.readonly <;> simp [accessors, h]

theorem accessors_nodup (a : Attribute) : a.accessors.Nodup := by
  cases h : a.readonly <;> simp [accessors, h, ← String.toList_inj]

theorem accessors_disjoint (h : a.name ≠ b.name) : a.accessors.Disjoint b.accessors := by
  intro name ha hb
  rw [mem_accessors] at ha hb
  rcases ha with rfl | ⟨_, rfl⟩ <;> rcases hb with hb | ⟨_, hb⟩
  all_goals simp [← String.toList_inj] at hb h
  all_goals contradiction

theorem not_mem_accessors (hg : name.toList.head? ≠ some 'G') (hs : name.toList.head? ≠ some 'S') :
    name ∉ a.accessors := by
  rw [mem_accessors]
  rintro (rfl | ⟨_, rfl⟩)
  · simp at hg
  · simp at hs

theorem field_ne (h : name.toList.getLast? ≠ some '_') : a.field ≠ name := by
  rintro rfl
  simp [field] at h

end Attribute

namespace Interface

variable {i : Interface}

theorem field_mem_accessors_iff {a b : Attribute} (ha : a.name ≠ "") :
    b.field ∈ a.accessors ↔ ∃ stem, a.name = stem ++ "_" ∧
      (b.name = "Get_" ++ stem ∨ a.readonly = false ∧ b.name = "Set_" ++ stem) := by
  rw [Attribute.mem_accessors, Attribute.field]
  rw [append_underscore_eq_iff ha, append_underscore_eq_iff ha]
  constructor
  case mp =>
    rintro (⟨stem, h₁, h₂⟩ | ⟨hw, stem, h₁, h₂⟩)
    · exact ⟨stem, h₁, .inl h₂⟩
    · exact ⟨stem, h₁, .inr ⟨hw, h₂⟩⟩
  case mpr =>
    rintro ⟨stem, h₁, h₂ | ⟨hw, h₂⟩⟩
    · exact .inl ⟨stem, h₁, h₂⟩
    · exact .inr ⟨hw, stem, h₁, h₂⟩

theorem entryNames_nodup (w : i.WellFormedAttributes) :
    ("Init" :: "New" :: i.attributes.flatMap (·.accessors)).Nodup := by
  have hd : i.attributes.Pairwise (·.name ≠ ·.name) := List.pairwise_map.mp w.distinct
  have ha : (i.attributes.flatMap (·.accessors)).Nodup :=
    List.nodup_flatMap.mpr ⟨fun a _ => a.accessors_nodup, hd.imp Attribute.accessors_disjoint⟩
  have hi (a : Attribute) : "Init" ∉ a.accessors :=
    Attribute.not_mem_accessors (by simp) (by simp)
  have hn (a : Attribute) : "New" ∉ a.accessors :=
    Attribute.not_mem_accessors (by simp) (by simp)
  simp [List.nodup_cons, ha, hi, hn]

theorem memberNames_nodup_iff (w : i.WellFormedAttributes) :
    i.memberNames.Nodup ↔ ∀ a ∈ i.attributes, ∀ b ∈ i.attributes, b.field ∉ a.accessors := by
  have hd : i.attributes.Pairwise (·.name ≠ ·.name) := List.pairwise_map.mp w.distinct
  have hf : (i.attributes.map (·.field)).Nodup :=
    List.pairwise_map.mpr <| hd.imp fun h => mt append_underscore_inj h
  rw [memberNames, List.nodup_append]
  constructor
  case mp =>
    intro ⟨_, _, h⟩ a ham b hbm hm
    refine h b.field ?_ b.field (List.mem_map_of_mem hbm) rfl
    exact List.mem_cons_of_mem _ <| List.mem_cons_of_mem _ <| List.mem_flatMap.mpr ⟨a, ham, hm⟩
  case mpr =>
    intro h
    refine ⟨entryNames_nodup w, hf, ?_⟩
    simp only [List.forall_mem_cons, List.forall_mem_map]
    refine ⟨fun b _ => ?_, fun b _ => ?_, fun name hn b hbm he => ?_⟩
    · exact Ne.symm <| Attribute.field_ne (by simp)
    · exact Ne.symm <| Attribute.field_ne (by simp)
    · have ⟨a, ham, hm⟩ := List.mem_flatMap.mp hn
      exact h a ham b hbm (he ▸ hm)

theorem name_mem_memberNames_iff (hn : Identifier.Usable i.name) :
    i.name ∈ i.memberNames ↔ ∃ a ∈ i.attributes, i.name ∈ a.field :: a.accessors := by
  have h₁ : i.name ≠ "Init" := fun h => absurd (h ▸ hn.unreserved) (by decide)
  have h₂ : i.name ≠ "New" := fun h => absurd (h ▸ hn.unreserved) (by decide)
  simp only [memberNames, List.cons_append, List.mem_cons, List.mem_append, List.mem_flatMap,
    List.mem_map, h₁, h₂, false_or]
  grind

theorem memberNames_distinct_iff (w : i.WellFormed) :
    (i.name :: i.memberNames).Nodup ↔ ¬i.Clashes := by
  have hn a (h : a ∈ i.attributes) : a.name ≠ "" := by
    simpa using (w.attributes.name a h).usable.wellFormed.nonempty
  rw [List.nodup_cons, name_mem_memberNames_iff w.name, memberNames_nodup_iff w.attributes]
  constructor
  case mpr =>
    intro h
    refine ⟨fun ⟨a, ha, hm⟩ => h <| .className ha hm, fun a ha b hb hm => h ?_⟩
    have ⟨stem, h₁, h₂⟩ := field_mem_accessors_iff (hn a ha) |>.mp hm
    rcases h₂ with h₂ | ⟨hw, h₂⟩
    · exact .getter ha hb stem h₁ h₂
    · exact .setter ha hb hw stem h₁ h₂
  case mp =>
    intro ⟨hc, hd⟩ h
    cases h
    case getter a b ha hb stem h₁ h₂ =>
      exact hd a ha b hb <| field_mem_accessors_iff (hn a ha) |>.mpr ⟨stem, h₁, .inl h₂⟩
    case setter a b ha hb hw stem h₁ h₂ =>
      exact hd a ha b hb <| field_mem_accessors_iff (hn a ha) |>.mpr ⟨stem, h₁, .inr ⟨hw, h₂⟩⟩
    case className a ha h =>
      exact hc ⟨a, ha, h⟩

end Interface

theorem compile_eq_ok_iff {options : Options} {interfaces : List Interface} {u : CompiledUnit} :
    compile options interfaces = .ok u ↔ Role.module.check options.moduleName = .ok () ∧
      ∃ plans, planAll interfaces = .ok plans ∧ .ofPlans options plans = u := by
  rw [compile, orAccept_eq_ok_iff, ofList?_eq_none_iff, List.append_eq_nil_iff]
  cases Role.module.check options.moduleName <;> cases planAll interfaces <;>
    simp [Rejection.among, Except.mapError, Except.toOption]

def Source.Item.classDeclaration? : Item → Option ClassDeclaration
  | .classDeclaration c => some c
  | _ => none

namespace CompiledUnit

-- The classes that the source of a unit declares, in order.
def classes (u : CompiledUnit) : List ClassDeclaration :=
  u.items.filterMap (·.classDeclaration?)

variable {options : Options} {plans : List InterfacePlan}

theorem classes_ofPlans : (ofPlans options plans).classes = plans.map (·.classDeclaration) := by
  have hh p ts : (helperItems p ts).filterMap (·.classDeclaration?) = [] := by
    unfold helperItems
    split <;> rfl
  have hd : (plans.flatMap (·.definitions)).filterMap (·.classDeclaration?) = [] := by
    rw [List.filterMap_eq_nil_iff]
    intro item hm
    simp only [InterfacePlan.definitions, List.mem_flatMap, List.mem_append, List.mem_cons,
      List.mem_map, List.not_mem_nil, or_false] at hm
    rcases hm with ⟨_, _, (rfl | rfl | rfl) | ⟨_, _, rfl⟩⟩ <;> rfl
  have hw ws : (warningItems options ws).filterMap (·.classDeclaration?) = [] := by
    unfold warningItems
    split <;> rfl
  have hc : (plans.map fun p => Item.classDeclaration p.classDeclaration).filterMap
      (·.classDeclaration?) = plans.map (·.classDeclaration) := by
    rw [List.filterMap_map, ← List.filterMap_eq_map]
    rfl
  simp only [classes, ofPlans, unitItems, List.filterMap_append, hh, hd, hw, hc]
  simp [header, Item.classDeclaration?]

end CompiledUnit

-- The identifiers of a class are distinct for most interfaces but not for all: a member is checked
-- by the name that it is declared with and not by those that are made from it.
theorem compile_classes_distinct_iff (options : Options) (interfaces : List Interface)
    (u : CompiledUnit) (h : compile options interfaces = .ok u) :
    List.Forall₂ (fun i c => c.name = i.name ∧ c.memberNames = i.memberNames ∧
      ((c.name :: c.memberNames).Nodup ↔ ¬i.Clashes)) interfaces u.classes := by
  have ⟨_, plans, hp, hu⟩ := compile_eq_ok_iff.mp h
  have ⟨_, hs⟩ := planAll_eq_ok_iff.mp hp
  rw [← hu, CompiledUnit.classes_ofPlans, List.forall₂_map_right_iff]
  refine hs.imp fun i plan hi => ?_
  have hn : plan.name = i.name := (Interface.plan_planned hi).name
  have hm := Interface.memberNames_classDeclaration (Interface.plan_planned hi)
  refine ⟨hn, hm, ?_⟩
  rw [hm, show plan.classDeclaration.name = i.name from hn]
  exact Interface.memberNames_distinct_iff (Interface.plan_wellFormed hi)

theorem compile_classes_distinct_iff_gauge :
    let gauge : Interface := {
      name := "Set_size"
      attributes := [⟨"size", "octet", false⟩, ⟨"Get_size", "DOMString", true⟩] }
    let tag : Interface := { name := "Tag", attributes := [⟨"label", "DOMString", true⟩] }
    ∃ u, compile {} [gauge, tag] = .ok u ∧
      List.Forall₂ (fun i c => c.name = i.name ∧ c.memberNames = i.memberNames ∧
        ((c.name :: c.memberNames).Nodup ↔ ¬i.Clashes)) [gauge, tag] u.classes :=
  ⟨_, rfl, compile_classes_distinct_iff {} _ _ rfl⟩

-- The field of one attribute and the getter of the other are both called "Get_a_".
theorem compile_member_collision :
    let w : Interface := {
      name := "W"
      attributes := [⟨"Get_a", "long", false⟩, ⟨"a_", "long", false⟩] }
    ∃ u, compile {} [w] = .ok u ∧ ∃ c ∈ u.classes, c.name = "W" ∧
      "Get_a_" ∈ c.entries.map (·.name) ∧ "Get_a_" ∈ c.fields.map (·.name) ∧
        ¬c.memberNames.Nodup := by
  refine ⟨_, rfl, ?_⟩
  rw [CompiledUnit.classes_ofPlans]
  exact ⟨_, .head _, rfl, by decide, by decide, by decide⟩

end AddonBinding
