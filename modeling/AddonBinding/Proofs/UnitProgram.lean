import AddonBinding.Proofs.ClassMembers
import AddonBinding.Proofs.HostObject
import AddonBinding.Proofs.LinkedHelpers

namespace AddonBinding

open Source

namespace Source

namespace Item

def initialiser? : Item → Option (String × List (String × Expr))
  | .initialiser className fields => some (className, fields)
  | _                             => none

def entryPoint? : Item → Option EntryPoint
  | .entryPoint e => some e
  | _             => none

end Item

-- What an initialiser gives to a field. No variable is in its reach.
def initialValue? (e : Expr) : Option Value :=
  (({} : Program).eval e ⟨[], [], {}⟩).map (·.1)

-- Outside of their namespace the helpers have qualified names. A class takes part if its
-- constructor is defined.
noncomputable def Program.ofItems (items : List Item) : Program where
  functions := (link (items.flatMap Item.functions)).map fun b =>
    (helperNamespace ++ "::" ++ b.1, b.2)
  classes   := (items.filterMap (·.classDeclaration?)).filterMap fun c => do
    let fields ← (items.filterMap (·.initialiser?)).lookup c.name
    return ⟨c, ← fields.mapM fun f => (initialValue? f.2).map (f.1, ·)⟩

-- A call that is made with the operator for new objects.
def creationParameters (args : List HostValue) : Cells :=
  [("info", ⟨.named "Nan::FunctionCallbackInfo<v8::Value>", some (.info args true)⟩)]

def setterParameters (property : String) (v : HostValue) : Cells :=
  [("property", ⟨.named "v8::Local<v8::String>", some (.host (.text property))⟩),
    ("value", ⟨.named "v8::Local<v8::Value>", some (.host v)⟩),
    ("info", ⟨.named "Nan::PropertyCallbackInfo<void>", some (.info [] false)⟩)]

-- What the host finds after an entry point, which itself has no result.
def Outcome.host? : Outcome → Option Host
  | some (.next, s)       => some s.host
  | some (.leave none, s) => some s.host
  | _                     => none

end Source

namespace CompiledUnit

noncomputable def program (u : CompiledUnit) : Program :=
  .ofItems u.items

def entryPoints (u : CompiledUnit) : List EntryPoint :=
  u.items.filterMap (·.entryPoint?)

end CompiledUnit

section Lists

variable {α : Type} {l : List α} {a : α}

theorem find?_eq_some_of_unique {f : α → Bool} (ha : a ∈ l) (hf : f a)
    (hu : ∀ b ∈ l, f b → b = a) : l.find? f = some a := by
  cases h : l.find? f
  case none   => exact absurd hf <| List.find?_eq_none.mp h a ha
  case some b => rw [hu b (List.mem_of_find?_eq_some h) (List.find?_some h)]

theorem lookup_map_of_nodup {β : Type} {f : α → String} {g : α → β} (hd : (l.map f).Nodup)
    (ha : a ∈ l) : (l.map fun a => (f a, g a)).lookup (f a) = some (g a) := by
  induction l
  case nil => contradiction
  case cons b l hi =>
    have ⟨hb, hd⟩ := List.nodup_cons.mp hd
    rw [List.map_cons, List.lookup_cons]
    rcases List.mem_cons.mp ha with rfl | ha
    · rw [beq_self_eq_true]
    · have hn : f a ≠ f b := fun h => hb (h ▸ List.mem_map_of_mem ha)
      rw [beq_false_of_ne hn]
      exact hi hd ha

theorem lookup_map_append {β : Type} (start name : String) (l : List (String × β)) :
    (l.map fun b => (start ++ b.1, b.2)).lookup (start ++ name) = l.lookup name := by
  induction l
  case nil => rfl
  case cons b l hi =>
    have hb : (start ++ name == start ++ b.1) = (name == b.1) := by
      rw [Bool.eq_iff_iff, beq_iff_eq, beq_iff_eq, String.append_right_inj]
    rw [List.map_cons, List.lookup_cons, List.lookup_cons, hb, hi]

end Lists

namespace InterfacePlan

-- What the source relies on when it uses the names of a plan.
structure Named (plan : InterfacePlan) : Prop where
  name       : Identifier.Usable plan.name
  interface  : plan.constructor.interface = plan.name
  attributes : ∀ a ∈ plan.attributes, Identifier.Usable a.name
  parameters : (plan.constructor.parameters.map (·.name)).Nodup
  usable     : ∀ q ∈ plan.constructor.parameters, Identifier.Usable q.name
  bound      : ∀ q ∈ plan.constructor.parameters, ∃ a ∈ plan.attributes,
    a.name = q.name ∧ a.type = q.type ∧ a.slot = q.slot

end InterfacePlan

theorem Interface.plan_named {i : Interface} {plan : InterfacePlan} (h : i.plan = .ok plan) :
    plan.Named := by
  have hp := plan_planned h
  have hw := plan_wellFormed h
  constructor
  case name       => exact hp.name ▸ hw.name
  case interface  => rw [hp.interface, hp.name]
  case attributes =>
    intro q hq
    have ⟨a, ha, hn⟩ := List.mem_map.mp <| planned_names hp.attributes ▸ List.mem_map_of_mem hq
    exact hn ▸ (hw.attributes.name a ha).usable
  case parameters =>
    rw [planned_parameter_names hp.parameters]
    exact hw.constructor.distinct
  case usable     =>
    intro q hq
    have ⟨p, hp, hq⟩ := exists_of_forall₂_right hp.parameters hq
    exact hq.name ▸ (hw.constructor.name p hp).usable
  case bound      =>
    intro q hq
    have ⟨_, _, hq⟩ := exists_of_forall₂_right hp.parameters hq
    exact hq.bound

-- The plans of a unit that is accepted.
structure Accepted (plans : List InterfacePlan) : Prop where
  distinct : (plans.map (·.name)).Nodup
  laidOut  : ∀ plan ∈ plans, plan.LaidOut
  named    : ∀ plan ∈ plans, plan.Named

theorem planAll_names {interfaces : List Interface} {plans : List InterfacePlan}
    (h : planAll interfaces = .ok plans) : plans.map (·.name) = interfaces.map (·.name) := by
  have ⟨_, hs⟩ := planAll_eq_ok_iff.mp h
  clear * - hs
  induction hs
  case nil => rfl
  case cons i plan _ _ hi _ ih =>
    rw [List.map_cons, List.map_cons, ih, (Interface.plan_planned hi).name]

theorem planAll_accepted {interfaces : List Interface} {plans : List InterfacePlan}
    (h : planAll interfaces = .ok plans) : Accepted plans := by
  have ⟨hd, hs⟩ := planAll_eq_ok_iff.mp h
  have hp : ∀ plan ∈ plans, ∃ i : Interface, i.plan = .ok plan := fun plan hm =>
    have ⟨i, _, hi⟩ := exists_of_forall₂_right hs hm
    ⟨i, hi⟩
  constructor
  case distinct => exact planAll_names h ▸ hd
  case laidOut  => exact fun plan hm => (hp plan hm).elim fun _ => Interface.plan_laidOut
  case named    => exact fun plan hm => (hp plan hm).elim fun _ => Interface.plan_named

theorem AttributePlan.name_eq_of_setter? {a b : AttributePlan} {setter : String}
    (ha : a.setter? = some setter) (hb : b.setter? = some setter) : a.name = b.name := by
  unfold setter? at ha hb
  split at ha <;> split at hb
  case isTrue.isTrue =>
    exact String.append_right_inj _ |>.mp <| Option.some.inj <| ha.trans hb.symm
  all_goals contradiction

section Symbols

variable {a b s t : String}

theorem Identifier.Usable.ne_colon (h : Identifier.Usable a) : ∀ c ∈ a.toList, c ≠ ':' := by
  rintro _ hc rfl
  exact h.wellFormed.not_mem (by decide) hc

-- The name of a class ends at the first colon of a symbol.
theorem takeWhile_symbol (h : Identifier.Usable a) (s : String) :
    (a ++ "::" ++ s).toList.takeWhile (· ≠ ':') = a.toList := by
  rw [String.toList_append, String.toList_append, List.append_assoc,
    List.takeWhile_append_of_pos (by simpa using h.ne_colon)]
  simp

theorem append_colons_inj (ha : Identifier.Usable a) (hb : Identifier.Usable b)
    (h : a ++ "::" ++ s = b ++ "::" ++ t) : a = b ∧ s = t := by
  have he : a = b := by
    rw [← String.toList_inj, ← takeWhile_symbol ha s, h, takeWhile_symbol hb]
  subst he
  exact ⟨rfl, String.append_right_inj _ |>.mp h⟩

end Symbols

namespace InterfacePlan

variable {plan : InterfacePlan} {e : EntryPoint}

-- Every class has one entry point that creates objects, and the others are for its attributes.
def entryPoints (plan : InterfacePlan) : List EntryPoint :=
  plan.initEntry :: plan.fragments.flatMap Fragment.definitions

theorem mem_entryPoints :
    e ∈ plan.entryPoints ↔ e = plan.initEntry ∨ e ∈ plan.constructor.fragment.definitions ∨
      ∃ a ∈ plan.attributes, e = a.getterEntry plan.name ∨
        ∃ setter ∈ a.setter?, e = a.setterEntry plan.name setter := by
  simp [entryPoints, fragments, AttributePlan.fragment, eq_comm]

theorem method_of_mem (h : e ∈ plan.entryPoints) (hk : e.kind = .method) :
    e ∈ plan.constructor.fragment.definitions := by
  rcases mem_entryPoints.mp h with rfl | h | ⟨_, _, rfl | ⟨_, _, rfl⟩⟩
  case inr.inl => exact h
  all_goals contradiction

theorem setter_of_mem (h : e ∈ plan.entryPoints) (hk : e.kind = .setter) :
    ∃ a ∈ plan.attributes, ∃ setter ∈ a.setter?, e = a.setterEntry plan.name setter := by
  rcases mem_entryPoints.mp h with rfl | h | ⟨a, ha, rfl | h⟩
  case inr.inl         => cases List.mem_singleton.mp h; contradiction
  case inr.inr.inr     => exact ⟨a, ha, h⟩
  all_goals contradiction

def initialFields (plan : InterfacePlan) : List (String × Expr) :=
  plan.attributes.map fun a => (a.field, .ofNative a.type a.type.zero)

def initialValues (plan : InterfacePlan) : List (String × Value) :=
  plan.attributes.map fun a =>
    (a.field, (initialValue? (.ofNative a.type a.type.zero)).getD .void)

end InterfacePlan

theorem exists_initialValue? (t : ScalarType) :
    ∃ w, initialValue? (.ofNative t t.zero) = some w ∧
      w.convert (.storage t) = some (stored t t.zero) := by
  have ⟨w, hw, hc⟩ := Helper.exists_eval_ofNative t.holds_zero {} ⟨[], [], {}⟩
  exact ⟨w, by rw [initialValue?, hw]; rfl, hc⟩

theorem convert_initialValue (t : ScalarType) :
    ((initialValue? (.ofNative t t.zero)).getD .void).convert (.storage t) =
      some (stored t t.zero) := by
  have ⟨w, hw, hc⟩ := exists_initialValue? t
  rw [hw]
  exact hc

theorem InterfacePlan.mapM_initialFields (plan : InterfacePlan) :
    plan.initialFields.mapM (fun f => (initialValue? f.2).map (f.1, ·)) =
      some plan.initialValues := by
  unfold initialFields initialValues
  induction plan.attributes
  case nil => rfl
  case cons a rest hi =>
    have ⟨w, hw, _⟩ := exists_initialValue? a.type
    simp [hi, hw]

namespace CompiledUnit

variable {options : Options} {plans : List InterfacePlan}

-- What can be gathered from the items of a unit is in the helpers, in the classes and in the entry
-- points.
theorem flatMap_items {α : Type} (f : Item → List α) (hc : ∀ texts, f (.comments texts) = [])
    (hi : ∀ headers, f (.includes headers) = []) (hr : ∀ name, f (.registration name) = []) :
    (ofPlans options plans).items.flatMap f =
      (helperItems options.coercion (plans.flatMap fun i => i.attributes.map (·.type))).flatMap f ++
        plans.flatMap (fun i => f (.classDeclaration i.classDeclaration)) ++
        plans.flatMap (·.definitions.flatMap f) ++ f (.entryPoint (initAllEntry plans)) := by
  have hw ws : (warningItems options ws).flatMap f = [] := by
    unfold warningItems
    split <;> simp [hc]
  simp [ofPlans, unitItems, header, hc, hi, hr, hw, List.flatMap_map, List.flatMap_assoc]

theorem functions_ofPlans :
    (ofPlans options plans).items.flatMap Item.functions =
      (Helper.needed options.coercion (plans.flatMap fun i => i.attributes.map (·.type))).map
        (Helper.function options.coercion) := by
  rw [flatMap_items _ (fun _ => rfl) (fun _ => rfl) (fun _ => rfl), Helper.functions_helperItems]
  simp [InterfacePlan.definitions, Item.functions, List.flatMap_map]

theorem flatMap_helperItems {α : Type} {f : Item → List α} (h : ∀ fs, f (.helpers fs) = [])
    (policy : CoercionPolicy) (types : List ScalarType) :
    (helperItems policy types).flatMap f = [] := by
  unfold helperItems
  split <;> simp [h]

theorem initialisers_ofPlans :
    (ofPlans options plans).items.filterMap (·.initialiser?) =
      plans.map fun i => (i.name, i.initialFields) := by
  rw [List.filterMap_eq_flatMap_toList,
    flatMap_items _ (fun _ => rfl) (fun _ => rfl) (fun _ => rfl),
    flatMap_helperItems (fun _ => rfl)]
  have hd (i : InterfacePlan) : i.definitions.flatMap (·.initialiser?.toList) =
      [(i.name, i.initialFields)] := by
    simp [InterfacePlan.definitions, Item.initialiser?, List.flatMap_map,
      InterfacePlan.initialFields, List.flatMap_eq_nil_iff]
  simp only [hd, ← List.map_eq_flatMap]
  simp [Item.initialiser?, List.flatMap_eq_nil_iff]

theorem entryPoints_ofPlans :
    (ofPlans options plans).entryPoints =
      plans.flatMap (·.entryPoints) ++ [initAllEntry plans] := by
  rw [entryPoints, List.filterMap_eq_flatMap_toList,
    flatMap_items _ (fun _ => rfl) (fun _ => rfl) (fun _ => rfl),
    flatMap_helperItems (fun _ => rfl)]
  simp [InterfacePlan.definitions, Item.entryPoint?, List.flatMap_map, InterfacePlan.entryPoints]

theorem classes_program (options : Options) (h : (plans.map (·.name)).Nodup) :
    (ofPlans options plans).program.classes =
      plans.map fun i => ⟨i.classDeclaration, i.initialValues⟩ := by
  have hc : (ofPlans options plans).items.filterMap (·.classDeclaration?) =
      plans.map (·.classDeclaration) :=
    classes_ofPlans
  simp only [program, Program.ofItems, hc, initialisers_ofPlans, List.filterMap_map]
  refine (List.filterMap_congr fun i hi => ?_).trans (congrFun List.filterMap_eq_map plans)
  refine (bind_of_eq_some (lookup_map_of_nodup h hi)).trans ?_
  exact bind_of_eq_some i.mapM_initialFields

end CompiledUnit

namespace Source.Program

-- What the entry points of a class rely on: the conversions of its types, errors of the host, and
-- the class itself.
structure Serves (p : Program) (policy : CoercionPolicy) (plan : InterfacePlan) : Prop where
  decodes : ∀ a ∈ plan.attributes, ∃ f,
    p.Calls (helperNamespace ++ "::" ++ (Helper.decode a.type).name) f ∧
      ∀ v c, f [.host v] [c] = some (Helper.verdict a.type c (a.type.decode policy v))
  throws  : ∀ args s, p.call "Nan::ThrowTypeError" args s = s.throw args
  unwraps : ∀ args s,
    p.call ("Nan::ObjectWrap::Unwrap<" ++ plan.name ++ ">") args s = s.unwrap plan.name
  creates : p.classes.find? (·.declaration.name = plan.name) =
    some ⟨plan.classDeclaration, plan.initialValues⟩

variable {p : Program}

-- No function of the libraries has a name like those of the functions that unwrap.
theorem getElem?_unwrapName (c : Class) : (unwrapName c).toList[5]? = some 'O' := by
  unfold unwrapName
  rw [String.append_assoc, String.toList_append, List.getElem?_append_left (by decide)]
  decide

theorem getElem?_libraryFunctions : ∀ b ∈ libraryFunctions, b.1.toList[5]? ≠ some 'O' := by
  have h : libraryFunctions.all (·.1.toList[5]? ≠ some 'O') := by decide +kernel
  intro b hb
  exact of_decide_eq_true <| List.all_eq_true.mp h b hb

theorem unwrapName_inj {c d : Class} (h : unwrapName c = unwrapName d) :
    c.declaration.name = d.declaration.name :=
  String.append_right_inj _ |>.mp <| String.append_left_inj _ |>.mp h

theorem call_unwrapName {c : Class} (hc : c ∈ p.classes) (args : List Value) (s : State) :
    p.call (unwrapName c) args s = s.unwrap c.declaration.name := by
  have hl : libraryFunctions.lookup (unwrapName c) = none := by
    rw [List.lookup_eq_none_iff]
    intro b hb
    rw [bne_iff_ne]
    intro he
    exact getElem?_libraryFunctions b hb (he ▸ getElem?_unwrapName c)
  cases hd : p.classes.find? (unwrapName · = unwrapName c)
  case none   => exact absurd (decide_eq_true rfl) <| List.find?_eq_none.mp hd c hc
  case some d =>
    have hn : unwrapName d = unwrapName c := by simpa using List.find?_some hd
    simp only [call, hl, hd, unwrapName_inj hn]

theorem call_throw (h : p.functions.lookup "Nan::ThrowTypeError" = none) (args : List Value)
    (s : State) : p.call "Nan::ThrowTypeError" args s = s.throw args := by
  have hl : libraryFunctions.lookup "Nan::ThrowTypeError" = none := rfl
  have hc : p.classes.find? (unwrapName · = "Nan::ThrowTypeError") = none := by
    rw [List.find?_eq_none]
    intro c _ hc
    exact absurd (of_decide_eq_true hc ▸ getElem?_unwrapName c) (by decide)
  simp only [call, hl, hc, h, if_true]

end Source.Program

namespace CompiledUnit

open Program

variable {options : Options} {plans : List InterfacePlan} {plan : InterfacePlan}

theorem head_qualified (name : String) :
    (helperNamespace ++ "::" ++ name).toList.head? = some 'w' :=
  head_append <| head_append <| by simp [helperNamespace]

theorem serves_program (options : Options) (h : Accepted plans) (hp : plan ∈ plans) :
    (ofPlans options plans).program.Serves options.coercion plan := by
  have hc := classes_program options h.distinct
  constructor
  case decodes =>
    intro a ha
    have ht : a.type ∈ plans.flatMap fun i => i.attributes.map (·.type) :=
      List.mem_flatMap.mpr ⟨plan, hp, List.mem_map_of_mem ha⟩
    have ⟨f, hf, hd⟩ := Helper.lookup_decode options.coercion ht
    refine ⟨f, calls_of_lookup ?_ ?_ ?_, hd⟩
    · rw [head_qualified]
      simp
    · rw [head_qualified]
      simp
    · rw [program, Program.ofItems, functions_ofPlans]
      exact (lookup_map_append ..).trans hf
  case throws =>
    refine call_throw <| List.lookup_eq_none_iff.mpr fun b hb => ?_
    have ⟨f, _, hf⟩ := List.mem_map.mp hb
    rw [bne_iff_ne, ← hf]
    intro (he : _ = helperNamespace ++ "::" ++ f.1)
    have hh := head_qualified f.1
    rw [← he] at hh
    simp at hh
  case unwraps =>
    have hm : ⟨plan.classDeclaration, plan.initialValues⟩ ∈
        (ofPlans options plans).program.classes :=
      hc ▸ List.mem_map_of_mem hp
    have hu : unwrapName ⟨plan.classDeclaration, plan.initialValues⟩ =
        "Nan::ObjectWrap::Unwrap<" ++ plan.name ++ ">" := rfl
    rw [← hu]
    exact call_unwrapName hm
  case creates =>
    rw [hc]
    refine find?_eq_some_of_unique (List.mem_map_of_mem hp) (decide_eq_true rfl) ?_
    intro c hm hn
    have ⟨i, hi, he⟩ := List.mem_map.mp hm
    subst he
    have hn : i.name = plan.name := of_decide_eq_true hn
    rw [List.inj_on_of_nodup_map h.distinct hi hp hn]

section EntryPoints

variable {e : EntryPoint}

theorem mem_entryPoints (hk : e.kind ≠ .moduleInit) :
    e ∈ (ofPlans options plans).entryPoints ↔ ∃ plan ∈ plans, e ∈ plan.entryPoints := by
  have hi : e ≠ initAllEntry plans := fun h => hk (h ▸ rfl)
  simp [entryPoints_ofPlans, hi]

theorem find?_method (h : Accepted plans) (hp : plan ∈ plans) :
    (ofPlans options plans).entryPoints.find?
        (fun e => e.kind = .method ∧ e.symbol = plan.name ++ "::New") =
      some ⟨plan.constructor.signature, .method, plan.constructor.interface ++ "::New",
        plan.constructor.body⟩ := by
  refine find?_eq_some_of_unique ?_ ?_ ?_
  · refine mem_entryPoints (by simp) |>.mpr ⟨plan, hp, InterfacePlan.mem_entryPoints.mpr ?_⟩
    exact .inr <| .inl <| List.mem_singleton_self _
  · simp [(h.named plan hp).interface]
  · intro e he hs
    have ⟨hk, hs⟩ : e.kind = .method ∧ e.symbol = plan.name ++ "::New" := of_decide_eq_true hs
    have ⟨i, hi, he⟩ := mem_entryPoints (hk ▸ by simp) |>.mp he
    have he := List.mem_singleton.mp <| InterfacePlan.method_of_mem he hk
    subst he
    have hn : i.name = plan.name := by
      rw [← (h.named i hi).interface]
      exact String.append_left_inj _ |>.mp hs
    rw [List.inj_on_of_nodup_map h.distinct hi hp hn]

theorem find?_setter (h : Accepted plans) (hp : plan ∈ plans) {a : AttributePlan} {setter : String}
    (ha : a ∈ plan.attributes) (hs : a.setter? = some setter) :
    (ofPlans options plans).entryPoints.find?
        (fun e => e.kind = .setter ∧ e.symbol = plan.name ++ "::" ++ setter) =
      some (a.setterEntry plan.name setter) := by
  refine find?_eq_some_of_unique ?_ ?_ ?_
  · refine mem_entryPoints (by simp [AttributePlan.setterEntry]) |>.mpr ⟨plan, hp, ?_⟩
    exact InterfacePlan.mem_entryPoints.mpr <| .inr <| .inr ⟨a, ha, .inr ⟨setter, hs, rfl⟩⟩
  · simp [AttributePlan.setterEntry]
  · intro e he hq
    have ⟨hk, hq⟩ : e.kind = .setter ∧ e.symbol = plan.name ++ "::" ++ setter :=
      of_decide_eq_true hq
    have ⟨i, hi, he⟩ := mem_entryPoints (hk ▸ by simp) |>.mp he
    have ⟨b, hb, t, ht, he⟩ := InterfacePlan.setter_of_mem he hk
    subst he
    have ⟨hn, ht'⟩ := append_colons_inj (h.named i hi).name (h.named plan hp).name hq
    cases List.inj_on_of_nodup_map h.distinct hi hp hn
    subst ht'
    have hb := List.inj_on_of_nodup_map (h.laidOut _ hp).names hb ha
      (AttributePlan.name_eq_of_setter? ht hs)
    rw [hb]

end EntryPoints

end CompiledUnit

end AddonBinding
