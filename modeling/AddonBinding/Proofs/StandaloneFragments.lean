import AddonBinding.Proofs.HelperDefinitions

-- What single members contribute, and where the source of a whole unit has it.

namespace AddonBinding

open Source

namespace Source

namespace Fragment

def declarationTexts (f : Fragment) : List String :=
  f.entries.map (·.render)

def fieldTexts (f : Fragment) : List String :=
  f.fields.map (·.render)

def registrationTexts (f : Fragment) : List String :=
  Stmt.blockLines 0 f.registrations

end Fragment

-- A class that has what is contributed to it, in that order.
def classLines (name : String) (parts : List Fragment) : List String :=
  let declarations := parts.flatMap Fragment.declarationTexts
  let fields := parts.flatMap Fragment.fieldTexts
  ["class " ++ name ++ " : public Nan::ObjectWrap \x7b",
    " public:", "  static NAN_MODULE_INIT(Init);", "",
    " private:", "  " ++ name ++ "();", "  ~" ++ name ++ "();", ""]
    ++ declarations.map ("  " ++ ·)
    ++ (if fields = [] then [] else "" :: fields.map ("  " ++ ·))
    ++ ["\x7d;"]

def initLines (name : String) (parts : List Fragment) : List String :=
  let registrations := parts.flatMap Fragment.registrationTexts
  let hostName := "Nan::New(" ++ stringLiteral name ++ ").ToLocalChecked()"
  ["NAN_MODULE_INIT(" ++ name ++ "::Init) \x7b",
    "  v8::Local<v8::FunctionTemplate> tpl = Nan::New<v8::FunctionTemplate>(New);",
    "  tpl->SetClassName(" ++ hostName ++ ");",
    "  tpl->InstanceTemplate()->SetInternalFieldCount(1);"]
    ++ registrations.map ("  " ++ ·)
    ++ ["  Nan::Set(target, " ++ hostName ++ ", Nan::GetFunction(tpl).ToLocalChecked());", "\x7d"]

section Layout

variable {groups groups' : List (List String)}

theorem spaced_append_eq (h : groups' ≠ []) :
    spaced (groups ++ groups') = groups.flatMap (· ++ [""]) ++ spaced groups' := by
  induction groups
  case nil => rfl
  case cons group groups hi =>
    rw [← List.singleton_append, List.append_assoc, spaced_append (by simp) (by simp [h]), hi]
    simp [spaced]

theorem spaced_append_blank (h : groups ≠ []) :
    spaced groups ++ [""] = groups.flatMap (· ++ [""]) := by
  have he : spaced (groups ++ [[]]) = _ := spaced_append_eq (List.cons_ne_nil _ _)
  rwa [spaced_append h (List.cons_ne_nil _ _), spaced, List.append_nil] at he

theorem unlines_append (ls ls' : List String) : unlines (ls ++ ls') = unlines ls ++ unlines ls' := by
  simp [unlines, String.join_append]

theorem line_one (text : String) : line 1 text = "  " ++ text :=
  rfl

theorem blockLines_append (n : Nat) (body rest : List Stmt) :
    Stmt.blockLines n (body ++ rest) = Stmt.blockLines n body ++ Stmt.blockLines n rest := by
  induction body
  case nil          => rfl
  case cons s _ hi => rw [List.cons_append, Stmt.blockLines, hi, Stmt.blockLines, List.append_assoc]

-- An item and the blank line after it, which no item but the last one of a source is without.
def Item.closedLines (item : Item) : List String :=
  item.lines ++ [""]

theorem itemLines_append_eq {items items' : List Item} (h : items' ≠ []) :
    itemLines (items ++ items') = items.flatMap Item.closedLines ++ itemLines items' := by
  rw [itemLines, List.map_append, spaced_append_eq (by simpa using h), List.flatMap_map]
  rfl

theorem Fragment.definitionText_append {f : Fragment} (h : f.definitions ≠ []) :
    f.definitionText ++ "\n" =
      unlines (f.definitions.flatMap fun e => (Item.entryPoint e).closedLines) := by
  have hb : "\n" = unlines [""] := rfl
  rw [definitionText, hb, ← unlines_append, spaced_append_blank (by simpa using h), List.flatMap_map]
  rfl

end Layout

end Source

namespace InterfacePlan

variable {i : InterfacePlan} {f : Fragment}

theorem definitions_ne_nil (h : f ∈ i.fragments) : f.definitions ≠ [] := by
  rcases List.mem_cons.mp h with rfl | h
  · exact List.cons_ne_nil _ _
  · obtain ⟨a, -, rfl⟩ := List.mem_map.mp h
    exact List.cons_ne_nil _ _

theorem map_line_flatMap {α : Type} (parts : List Fragment) (members : Fragment → List α)
    (render : α → String) :
    (parts.flatMap members).map (fun d => line 1 (render d)) =
      (parts.flatMap fun f => (members f).map render).map ("  " ++ ·) := by
  simp only [List.map_flatMap, List.map_map]
  rfl

theorem lines_classDeclaration (i : InterfacePlan) :
    i.classDeclaration.lines = classLines i.name i.fragments := by
  have hn : (i.fragments.flatMap Fragment.fields).isEmpty ↔
      i.fragments.flatMap Fragment.fieldTexts = [] := by
    simp [Fragment.fieldTexts]
  rw [ClassDeclaration.lines, classDeclaration, map_line_flatMap, map_line_flatMap, classLines]
  simp only [hn]
  have hd : i.fragments.flatMap Fragment.declarationTexts =
      i.fragments.flatMap fun f => f.entries.map (·.render) := rfl
  have hf : i.fragments.flatMap Fragment.fieldTexts =
      i.fragments.flatMap fun f => f.fields.map (·.render) := rfl
  have hs : "  " ++ ("~" ++ i.name ++ "();") = "  ~" ++ i.name ++ "();" := by
    simp [← String.toList_inj]
  have hr : (EntryDeclaration.mk .moduleInit "Init").render = "static NAN_MODULE_INIT(Init);" := rfl
  split <;> simp [spaced, line_one, hr, hd, hf, hs, ← String.append_assoc]

theorem blockLines_flatMap_registrations {parts : List Fragment}
    (h : ∀ f ∈ parts, Stmt.blockLines 1 f.registrations = f.registrationTexts.map ("  " ++ ·)) :
    Stmt.blockLines 1 (parts.flatMap Fragment.registrations) =
      (parts.flatMap Fragment.registrationTexts).map ("  " ++ ·) := by
  induction parts
  case nil => rfl
  case cons f parts hi =>
    obtain ⟨hf, h⟩ := List.forall_mem_cons.mp h
    rw [List.flatMap_cons, blockLines_append, hf, hi h, List.flatMap_cons, List.map_append]

-- Registrations are single lines, so that one more level changes nothing but how they begin.
theorem blockLines_registrations (h : f ∈ i.fragments) :
    Stmt.blockLines 1 f.registrations = f.registrationTexts.map ("  " ++ ·) := by
  rcases List.mem_cons.mp h with rfl | h
  · rfl
  · obtain ⟨a, -, rfl⟩ := List.mem_map.mp h
    rfl

theorem lines_initEntry (i : InterfacePlan) : i.initEntry.lines = initLines i.name i.fragments := by
  have hn : Nat.toDigits 10 1 = ['1'] := by decide
  have hs : (Suffix.render {}).toList = [] := rfl
  rw [EntryPoint.lines, initEntry, blockLines_append, blockLines_append,
    blockLines_flatMap_registrations fun _ => blockLines_registrations, initLines]
  simp [Stmt.blockLines, Stmt.linesAfter, Stmt.constantMark, TypeName.render, Expr.render,
    Expr.renderArgs, Expr.callName, Expr.arrowMethod, Expr.method, EntryKind.head,
    EntryKind.macroName, hostName, line_one, ← String.toList_inj, hn, hs]

end InterfacePlan

namespace Interface

variable {i : Interface} {plan : InterfacePlan} {f : Fragment}

theorem constructorFragment_eq_ok_iff :
    i.constructorFragment = .ok f ↔ ∃ plan, i.plan = .ok plan ∧ f = plan.constructor.fragment := by
  rw [constructorFragment, check_bind_eq_ok_iff, mapError_eq_ok_iff, Role.check_eq_ok_iff]
  simp only [bind_eq_ok_iff, pure_eq_ok_iff, plan_eq_ok_iff]
  constructor
  · rintro ⟨hn, attributes, ha, c, hc, rfl⟩
    exact ⟨_, ⟨hn, attributes, c, ha, hc, rfl⟩, rfl⟩
  · rintro ⟨_, ⟨hn, attributes, c, ha, hc, rfl⟩, rfl⟩
    exact ⟨hn, attributes, ha, c, hc, rfl⟩

theorem attributeFragment_eq_ok {attributes : List AttributePlan} {a : AttributePlan}
    (hn : Identifier.Usable i.name) (ha : i.planAttributes = .ok attributes) (h : a ∈ attributes) :
    i.attributeFragment a.name = .ok (a.fragment i.name) := by
  have hf : attributes.find? (·.name == a.name) = some a :=
    (find?_name_eq_some_iff (planAttributes_distinct ha)).mpr ⟨h, rfl⟩
  rw [attributeFragment, check_bind_eq_ok_iff, mapError_eq_ok_iff, Role.check_eq_ok_iff]
  refine ⟨hn, bind_eq_ok_iff.mpr ⟨attributes, ha, ?_⟩⟩
  simp only [hf]
  rfl

theorem attributeFragments_of_plan (h : i.plan = .ok plan) :
    List.Forall₂ (fun a f => i.attributeFragment a.name = .ok f) i.attributes
      (plan.attributes.map (·.fragment plan.name)) := by
  obtain ⟨hn, attributes, c, ha, -, rfl⟩ := plan_eq_ok_iff.mp h
  have hp := (List.forall₂_and_left ..).mpr
    ⟨fun q hq => attributeFragment_eq_ok hn ha hq, (planned_attributes ha).flip⟩
  rw [List.forall₂_map_right_iff]
  exact hp.flip.imp fun a q ⟨hq, hm⟩ => hm.left ▸ hq

end Interface

section Unit

variable {plans : List InterfacePlan} {plan : InterfacePlan} {parts : List Fragment}

theorem unlines_definitions (h : ∀ f ∈ parts, f.definitions ≠ []) :
    unlines (((parts.flatMap Fragment.definitions).map Item.entryPoint).flatMap Item.closedLines) =
      String.join (parts.map (·.definitionText ++ "\n")) := by
  induction parts
  case nil => rfl
  case cons f parts hi =>
    obtain ⟨hf, h⟩ := List.forall_mem_cons.mp h
    rw [List.flatMap_cons, List.map_append, List.flatMap_append, unlines_append, hi h,
      List.flatMap_map, ← Fragment.definitionText_append hf, List.map_cons, String.join_cons]

-- After all classes come all their definitions, and after these at least the module itself.
theorem exists_unitItems (options : Options) (plans : List InterfacePlan) :
    ∃ before after, after ≠ [] ∧ unitItems options plans =
      before ++ plans.map (fun i => .classDeclaration i.classDeclaration) ++
        plans.flatMap InterfacePlan.definitions ++ after :=
  ⟨_, _, by simp, List.append_assoc ..⟩

theorem exists_items_of_mem (options : Options) (h : plan ∈ plans) :
    ∃ before between after, after ≠ [] ∧ unitItems options plans =
      before ++ [.classDeclaration plan.classDeclaration] ++ between ++
        [.entryPoint plan.initEntry] ++
        (plan.fragments.flatMap Fragment.definitions).map .entryPoint ++ after := by
  obtain ⟨first, last, hl, hi⟩ := exists_unitItems options plans
  obtain ⟨earlier, later, rfl⟩ := List.append_of_mem h
  obtain ⟨start, hs⟩ : ∃ start, plan.definitions = start ++ [.entryPoint plan.initEntry] ++
      (plan.fragments.flatMap Fragment.definitions).map .entryPoint := ⟨[_, _], rfl⟩
  refine ⟨first ++ earlier.map (fun i => .classDeclaration i.classDeclaration),
    later.map (fun i => .classDeclaration i.classDeclaration) ++
      earlier.flatMap InterfacePlan.definitions ++ start,
    later.flatMap InterfacePlan.definitions ++ last, by simp [hl], ?_⟩
  rw [hi, List.map_append, List.map_cons, List.flatMap_append, List.flatMap_cons, hs]
  simp only [List.append_assoc, List.cons_append, List.nil_append]

theorem exists_code (options : Options) (h : plan ∈ plans) :
    ∃ before between after, (CompiledUnit.ofPlans options plans).code =
      before ++ unlines (classLines plan.name plan.fragments) ++ between ++
        unlines (initLines plan.name plan.fragments) ++ "\n" ++
        String.join (plan.fragments.map (·.definitionText ++ "\n")) ++ after := by
  obtain ⟨before, between, after, ha, he⟩ := exists_items_of_mem options h
  refine ⟨unlines (before.flatMap Item.closedLines),
    unlines ([""] ++ between.flatMap Item.closedLines), unlines (itemLines after), ?_⟩
  have hb : unlines [""] = "\n" := rfl
  rw [CompiledUnit.code, CompiledUnit.ofPlans, he, itemLines_append_eq ha]
  simp only [List.flatMap_append, unlines_append, List.flatMap_singleton, Item.closedLines, Item.lines,
    InterfacePlan.lines_classDeclaration, InterfacePlan.lines_initEntry, hb, String.append_assoc,
    unlines_definitions fun _ => InterfacePlan.definitions_ne_nil]

end Unit

-- Alone or in a unit, members contribute the same. The source of a unit has the declarations and the
-- fields in the class, the registrations where the class is set up, and the definitions right after
-- that, each time in the order of declaration.
theorem standalone_fragments_in_code :
    (∀ i : Interface, (∃ f, i.constructorFragment = .ok f) ↔ ∃ plan, i.plan = .ok plan) ∧
      ∀ options interfaces u, compile options interfaces = .ok u → ∀ i ∈ interfaces, ∃ c fs,
        i.constructorFragment = .ok c ∧
        List.Forall₂ (fun a f => i.attributeFragment a.name = .ok f) i.attributes fs ∧
        ∃ before between after, u.code =
          before ++ unlines (classLines i.name (c :: fs)) ++ between ++
            unlines (initLines i.name (c :: fs)) ++ "\n" ++
            String.join ((c :: fs).map (·.definitionText ++ "\n")) ++ after := by
  constructor
  · intro i
    simp only [Interface.constructorFragment_eq_ok_iff]
    exact ⟨fun ⟨_, plan, h, _⟩ => ⟨plan, h⟩, fun ⟨plan, h⟩ => ⟨_, plan, h, rfl⟩⟩
  · intro options interfaces u hu i hi
    obtain ⟨-, plans, hp, rfl⟩ := compile_eq_ok_iff.mp hu
    obtain ⟨plan, hm, hp⟩ := exists_of_forall₂_left (planAll_eq_ok_iff.mp hp).right hi
    have hn : plan.name = i.name := (Interface.plan_planned hp).name
    refine ⟨plan.constructor.fragment, plan.attributes.map (·.fragment plan.name),
      Interface.constructorFragment_eq_ok_iff.mpr ⟨plan, hp, rfl⟩,
      Interface.attributeFragments_of_plan hp, ?_⟩
    rw [← hn]
    exact exists_code options hm

theorem standalone_fragments_in_code_pixel :
    ∃ u c red tag, compile {} [label, pixel] = .ok u ∧ pixel.constructorFragment = .ok c ∧
      pixel.attributeFragment "red" = .ok red ∧ pixel.attributeFragment "tag" = .ok tag ∧
      ∃ before after, u.code =
        before ++ String.join ([c, red, tag].map (·.definitionText ++ "\n")) ++ after := by
  obtain ⟨c, fs, hc, hf, before, between, after, h⟩ :=
    standalone_fragments_in_code.right {} [label, pixel] _ rfl pixel (by simp)
  obtain - | @⟨_, red, _, _, hr, - | @⟨_, tag, _, _, ht, - | -⟩⟩ := hf
  exact ⟨_, c, red, tag, rfl, hc, hr, ht, _, after, h⟩

end AddonBinding
