import AddonBinding.Proofs.LineStarts

namespace AddonBinding

open Source Text

-- What the host calls for an attribute, each with the macro of its definition.
def Attribute.entryPoints (a : Attribute) : List (String × String) :=
  ("NAN_GETTER", "Get_" ++ a.name) ::
    if a.readonly then [] else [("NAN_SETTER", "Set_" ++ a.name)]

def Interface.entryPoints (i : Interface) : List (String × String) :=
  (("NAN_MODULE_INIT", "Init") :: ("NAN_METHOD", "New") ::
    i.attributes.flatMap (·.entryPoints)).map fun e => (e.1, i.name ++ "::" ++ e.2)

def unitEntryPoints (interfaces : List Interface) : List (String × String) :=
  interfaces.flatMap (·.entryPoints) ++ [("NAN_MODULE_INIT", "InitAll")]

namespace Interface

variable {i : Interface} {plan : InterfacePlan}

theorem planned_entryPoints (h : i.PlannedAs plan) :
    plan.entryPoints.map (fun e => (e.kind.macroName, e.symbol)) = i.entryPoints := by
  have ha : plan.attributes.flatMap (fun q =>
      (q.fragment plan.name).definitions.map fun e => (e.kind.macroName, e.symbol)) =
      i.attributes.flatMap fun a => a.entryPoints.map fun e => (e.1, i.name ++ "::" ++ e.2) := by
    refine planned_flatMap h.attributes fun a _ q hq => ?_
    cases hr : a.readonly
    all_goals simp [AttributePlan.fragment, AttributePlan.getterEntry, AttributePlan.setterEntry,
      AttributePlan.getter, AttributePlan.setter?, EntryKind.macroName, hq.writable, hq.name, hr,
      h.name, Attribute.entryPoints]
  simp only [entryPoints, InterfacePlan.entryPoints, InterfacePlan.fragments, List.map_cons,
    List.flatMap_cons, List.flatMap_map, List.map_append, List.map_flatMap, ha]
  simp [InterfacePlan.initEntry, ConstructorPlan.fragment, EntryKind.macroName, h.name,
    h.interface, String.append_assoc]

theorem planned_symbols (h : i.PlannedAs plan) :
    plan.manifestEntry.symbols = i.name :: i.entryPoints.map (·.2) := by
  have ha : plan.manifestEntry.attributes.flatMap (fun a => a.getter :: a.setter.toList) =
      i.attributes.flatMap fun a => a.entryPoints.map fun e => i.name ++ "::" ++ e.2 := by
    rw [InterfacePlan.manifestEntry, List.flatMap_map]
    refine planned_flatMap h.attributes fun a _ q hq => ?_
    cases hr : a.readonly
    all_goals simp [InterfacePlan.symbol, AttributePlan.getter, AttributePlan.setter?, hq.writable,
      hq.name, hr, h.name, Attribute.entryPoints]
  rw [InterfaceEntry.symbols, ha]
  simp [InterfacePlan.manifestEntry, InterfacePlan.symbol, h.name, entryPoints, List.map_flatMap,
    Function.comp_def, String.append_assoc]

theorem entryPoints_symbols (i : Interface) : i.entryPoints.map (·.2) =
    ("Init" :: "New" :: i.attributes.flatMap (·.accessors)).map (i.name ++ "::" ++ ·) := by
  have ha (a : Attribute) : a.entryPoints.map (·.2) = a.accessors := by
    cases hr : a.readonly <;> simp [Attribute.entryPoints, Attribute.accessors, hr]
  simp [entryPoints, List.map_flatMap, ← ha, Function.comp_def]

-- The class that a symbol belongs to is what stands before the colons.
theorem takeWhile_of_mem_symbols (hn : Identifier.Usable i.name) {s : String}
    (hs : s ∈ i.name :: i.entryPoints.map (·.2)) :
    s.toList.takeWhile (· ≠ ':') = i.name.toList := by
  rw [entryPoints_symbols] at hs
  rcases List.mem_cons.mp hs with rfl | hs
  · exact List.takeWhile_eq_self_iff.mpr (by simpa using hn.ne_colon)
  · have ⟨m, _, hm⟩ := List.mem_map.mp hs
    rw [← hm, takeWhile_symbol hn]

theorem colon_mem_of_mem_entryPoints {s : String} (hs : s ∈ i.entryPoints.map (·.2)) :
    ':' ∈ s.toList := by
  rw [entryPoints_symbols] at hs
  have ⟨m, _, hm⟩ := List.mem_map.mp hs
  simp [← hm]

theorem symbols_nodup (w : i.WellFormed) : (i.name :: i.entryPoints.map (·.2)).Nodup := by
  refine List.nodup_cons.mpr ⟨fun hm => ?_, ?_⟩
  · exact w.name.ne_colon _ (colon_mem_of_mem_entryPoints hm) rfl
  · rw [entryPoints_symbols]
    exact (entryNames_nodup w.attributes).map fun _ _ => String.append_right_inj _ |>.mp

end Interface

section Unit

variable {interfaces : List Interface} {plans : List InterfacePlan}

theorem planAll_wellFormed (h : planAll interfaces = .ok plans) : WellFormedUnit interfaces where
  distinct   := (planAll_eq_ok_iff.mp h).left
  interfaces := fun _ hi =>
    have ⟨_, _, hp⟩ := exists_of_forall₂_left (planAll_eq_ok_iff.mp h).right hi
    Interface.plan_wellFormed hp

theorem planAll_planned (h : planAll interfaces = .ok plans) :
    List.Forall₂ Interface.PlannedAs interfaces plans :=
  (planAll_eq_ok_iff.mp h).right.imp fun _ _ => Interface.plan_planned

theorem symbols_ofPlans (h : planAll interfaces = .ok plans) (name : String) :
    (Manifest.ofPlans name plans).symbols =
      interfaces.flatMap (fun i => i.name :: i.entryPoints.map (·.2)) ++ ["InitAll"] := by
  rw [Manifest.symbols, Manifest.ofPlans, List.flatMap_map]
  exact congrArg (· ++ ["InitAll"])
    (flatMap_of_forall₂ (planAll_planned h) fun _ _ => Interface.planned_symbols)

namespace WellFormedUnit

theorem symbols_nodup (w : WellFormedUnit interfaces) :
    (interfaces.flatMap (fun i => i.name :: i.entryPoints.map (·.2)) ++ ["InitAll"]).Nodup := by
  have hu i (hi : i ∈ interfaces) : Identifier.Usable i.name := (w.interfaces i hi).name
  have hd : interfaces.Pairwise (·.name ≠ ·.name) := List.pairwise_map.mp w.distinct
  refine List.nodup_append'.mpr ⟨List.nodup_flatMap.mpr ⟨?_, ?_⟩, List.nodup_singleton _, ?_⟩
  · exact fun i hi => Interface.symbols_nodup (w.interfaces i hi)
  · refine hd.imp_of_mem fun {i j} hi hj hn s hsi hsj => hn ?_
    rw [← String.toList_inj, ← Interface.takeWhile_of_mem_symbols (hu i hi) hsi,
      Interface.takeWhile_of_mem_symbols (hu j hj) hsj]
  · refine List.disjoint_singleton.mpr fun hm => ?_
    have ⟨i, hi, hs⟩ := List.mem_flatMap.mp hm
    have hn : i.name = "InitAll" := by
      rw [← String.toList_inj, ← Interface.takeWhile_of_mem_symbols (hu i hi) hs]
      simp
    exact absurd (hn ▸ (hu i hi).unreserved) (by decide)

theorem not_mem_names (w : WellFormedUnit interfaces) {s : String}
    (hs : s = "InitAll" ∨ ∃ i : Interface, s ∈ i.entryPoints.map (·.2)) :
    s ∉ interfaces.map (·.name) := by
  intro hm
  have ⟨i, hi, hn⟩ := List.mem_map.mp hm
  have hu := hn ▸ (w.interfaces i hi).name
  rcases hs with rfl | ⟨j, hs⟩
  · exact absurd hu.unreserved (by decide)
  · exact hu.ne_colon _ (Interface.colon_mem_of_mem_entryPoints hs) rfl

-- What tells the names of classes from all the other symbols takes the symbols apart.
theorem filter_symbols {p : String → Bool} (hc : ∀ i ∈ interfaces, p i.name)
    (he : ∀ s, (s = "InitAll" ∨ ∃ i : Interface, s ∈ i.entryPoints.map (·.2)) → p s = false) :
    let symbols := interfaces.flatMap (fun i => i.name :: i.entryPoints.map (·.2)) ++ ["InitAll"]
    symbols.filter p = interfaces.map (·.name) ∧
      symbols.filter (!p ·) = (unitEntryPoints interfaces).map (·.2) := by
  have ha : p "InitAll" = false := he _ (.inl rfl)
  have he (i : Interface) : ∀ s ∈ i.entryPoints.map (·.2), p s = false :=
    fun s hs => he s (.inr ⟨i, hs⟩)
  have h₁ : ∀ i ∈ interfaces, (i.name :: i.entryPoints.map (·.2)).filter p = [i.name] := by
    intro i hi
    rw [List.filter_cons_of_pos (hc i hi), List.filter_eq_nil_iff.mpr (by simpa using he i)]
  have h₂ : ∀ i ∈ interfaces, (i.name :: i.entryPoints.map (·.2)).filter (!p ·) =
      i.entryPoints.map (·.2) := by
    intro i hi
    rw [List.filter_cons_of_neg (by simp [hc i hi]), List.filter_eq_self.mpr (by simpa using he i)]
  constructor
  case left  =>
    rw [List.filter_append, List.filter_flatMap, List.flatMap_congr h₁, ← List.map_eq_flatMap]
    simp [ha]
  case right =>
    rw [List.filter_append, List.filter_flatMap, List.flatMap_congr h₂, unitEntryPoints,
      List.map_append, List.map_flatMap]
    simp [ha]

end WellFormedUnit

end Unit

namespace CompiledUnit

variable {options : Options} {interfaces : List Interface} {plans : List InterfacePlan}

theorem headings_entryPoints (h : planAll interfaces = .ok plans) :
    (ofPlans options plans).entryPoints.map EntryPoint.heading =
      (unitEntryPoints interfaces).map fun e => e.1 ++ "(" ++ e.2 ++ ") \x7b" := by
  have hs : (ofPlans options plans).entryPoints.map (fun e => (e.kind.macroName, e.symbol)) =
      unitEntryPoints interfaces := by
    rw [entryPoints_ofPlans, List.map_append, List.map_flatMap]
    exact congrArg (· ++ [("NAN_MODULE_INIT", "InitAll")])
      (flatMap_of_forall₂ (planAll_planned h) fun _ _ => Interface.planned_entryPoints)
  have he (e : EntryPoint) : e.heading = e.kind.macroName ++ "(" ++ e.symbol ++ ") \x7b" := by
    simp [EntryPoint.heading, EntryKind.head, String.append_assoc]
  simp [← hs, he]

theorem beginning_macro (hm : Identifier.Usable options.moduleName)
    (h : planAll interfaces = .ok plans) :
    beginning "NAN_" (Text.lines (ofPlans options plans).code) =
      (unitEntryPoints interfaces).map fun e => e.1 ++ "(" ++ e.2 ++ ") \x7b" := by
  rw [beginning_code hm (planAll_accepted h) distinctive_macro,
    beginning_map_eq_nil fun f => f.begins_heading.not_begins (by decide) (by decide),
    beginning_map_eq_nil fun c => c.begins_heading.not_begins (by decide) (by decide),
    beginning_map_eq_self EntryPoint.begins_heading, headings_entryPoints h]
  rfl

theorem beginning_class (hm : Identifier.Usable options.moduleName)
    (h : planAll interfaces = .ok plans) :
    beginning "class " (Text.lines (ofPlans options plans).code) =
      (interfaces.map (·.name)).map fun c =>
        "class " ++ c ++ " : public Nan::ObjectWrap \x7b" := by
  rw [beginning_code hm (planAll_accepted h) distinctive_class,
    beginning_map_eq_nil fun f => f.begins_heading.not_begins (by decide) (by decide),
    beginning_map_eq_self ClassDeclaration.begins_heading,
    beginning_map_eq_nil fun e => e.begins_heading.not_begins (by decide) (by decide),
    classes_ofPlans, ← planAll_names h]
  simp [ClassDeclaration.heading, InterfacePlan.classDeclaration]

end CompiledUnit

-- The lines of the source at the left edge are told apart by how they begin, whatever the names, the
-- banner, the defaults and the policy. What they define is what the manifest lists.
theorem code_defines_symbols {options : Options} {interfaces : List Interface} {u : CompiledUnit}
    (hu : compile options interfaces = .ok u) :
    let lines := Text.lines u.code
    let classNames := interfaces.map (·.name)
    beginning "NAN_" lines =
        (unitEntryPoints interfaces).map (fun e => e.1 ++ "(" ++ e.2 ++ ") \x7b") ∧
      u.manifest.symbols.filter (· ∉ classNames) = (unitEntryPoints interfaces).map (·.2) ∧
      beginning "class " lines =
        classNames.map (fun c => "class " ++ c ++ " : public Nan::ObjectWrap \x7b") ∧
      u.manifest.symbols.filter (· ∈ classNames) = classNames ∧
      u.manifest.symbols.Nodup := by
  have ⟨hm, plans, hp, hu⟩ := compile_eq_ok_iff.mp hu
  have hm := Role.check_eq_ok_iff.mp hm
  have ha := planAll_accepted hp
  have w := planAll_wellFormed hp
  subst hu
  intro lines classNames
  have hs := WellFormedUnit.filter_symbols (p := fun s => s ∈ classNames)
    (fun i hi => decide_eq_true (List.mem_map_of_mem hi))
    fun s hs => decide_eq_false (w.not_mem_names hs)
  simp only [← symbols_ofPlans hp options.moduleName, ← decide_not] at hs
  exact ⟨CompiledUnit.beginning_macro hm hp, hs.right, CompiledUnit.beginning_class hm hp, hs.left,
    symbols_ofPlans hp _ ▸ w.symbols_nodup⟩

def label : Interface where
  name        := "NAN"
  constructor := [⟨"tag", "DOMString", true, some (.text "\nclass Label \x7b")⟩]
  attributes  := [⟨"tag", "DOMString", true⟩, ⟨"size", "octet", false⟩]

-- The banner and the default would each be taken for a definition on a line of its own.
theorem code_defines_symbols_label :
    ∃ u, compile { banner := some "x\nNAN_METHOD(NAN::Get_tag) \x7b" } [label] = .ok u ∧
      beginning "NAN_" (Text.lines u.code) = [
        "NAN_MODULE_INIT(NAN::Init) \x7b", "NAN_METHOD(NAN::New) \x7b",
        "NAN_GETTER(NAN::Get_tag) \x7b", "NAN_GETTER(NAN::Get_size) \x7b",
        "NAN_SETTER(NAN::Set_size) \x7b", "NAN_MODULE_INIT(InitAll) \x7b"] ∧
      beginning "class " (Text.lines u.code) = ["class NAN : public Nan::ObjectWrap \x7b"] ∧
      u.manifest.symbols.Nodup := by
  refine ⟨_, rfl, ?_⟩
  have ⟨hn, _, hc, _, hd⟩ := @code_defines_symbols
    { banner := some "x\nNAN_METHOD(NAN::Get_tag) \x7b" } [label] _ rfl
  exact ⟨hn.trans (by decide), hc.trans (by decide), hd⟩

end AddonBinding
