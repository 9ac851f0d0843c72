import AddonBinding.Proofs.DefinedSymbols
import AddonBinding.Proofs.OwnCalls

namespace AddonBinding

open Source Text

def ScalarType.isInteger : ScalarType → Bool
  | .integer _ => true
  | _          => false

theorem nodup_eraseDups {α : Type} [BEq α] [LawfulBEq α] : (l : List α) → l.eraseDups.Nodup
  | []     => .nil
  | a :: l => by
    rw [List.eraseDups_cons]
    exact List.nodup_cons.mpr ⟨by simp [List.mem_eraseDups], nodup_eraseDups _⟩
termination_by l => l.length
decreasing_by exact Nat.lt_succ_of_le <| List.length_filter_le ..

namespace Source.Helper

variable {policy : CoercionPolicy} {types : List ScalarType} {h h' : Helper} {t : ScalarType}

theorem mem_needed_iff : h ∈ needed policy types ↔ isNeeded policy types h := by
  cases h <;> simp [needed, isNeeded]

theorem needed_nodup (policy : CoercionPolicy) (types : List ScalarType) :
    (needed policy types).Nodup := by
  refine List.nodup_append'.mpr ⟨?_, ?_, ?_⟩
  · exact (by decide : [isBlank, toNumeric, wrapToWord].Nodup).filter _
  · exact (nodup_eraseDups types).map fun _ _ => decode.inj
  · intro h hs hd
    have ⟨t, _, ht⟩ := List.mem_map.mp hd
    subst ht
    simp at hs

-- A helper calls only helpers of lower rank, and the ranks do not decrease along the source.
def rank : Helper → Nat
  | .isBlank    => 0
  | .toNumeric  => 1
  | .wrapToWord => 2
  | .decode _   => 3

theorem needed_ranked (policy : CoercionPolicy) (types : List ScalarType) :
    (needed policy types).Pairwise (rank · ≤ rank ·) := by
  refine List.pairwise_append.mpr ⟨?_, ?_, ?_⟩
  · exact (by decide : [isBlank, toNumeric, wrapToWord].Pairwise (rank · ≤ rank ·)).filter _
  · exact List.pairwise_map.mpr <| List.pairwise_of_forall fun _ _ => Nat.le_refl _
  · intro h _ h' hd
    have ⟨t, _, ht⟩ := List.mem_map.mp hd
    subst ht
    cases h <;> simp [rank]

theorem uses_needed (hn : isNeeded policy types h) (hu : h' ∈ uses policy h) :
    isNeeded policy types h' ∧ rank h' < rank h := by
  cases h
  case isBlank    => contradiction
  case wrapToWord => contradiction
  case toNumeric  =>
    simp only [uses] at hu
    split at hu
    case isFalse    => contradiction
    case isTrue hs  =>
      cases List.mem_singleton.mp hu
      exact ⟨by simpa [isNeeded, hs] using hn, by decide⟩
  case decode t   =>
    have ht : t ∈ types := by simpa [isNeeded] using hn
    cases t
    case text       => contradiction
    case boolean    => contradiction
    case float t    =>
      cases List.mem_singleton.mp hu
      exact ⟨List.any_eq_true.mpr ⟨_, ht, rfl⟩, by simp [rank]⟩
    case integer t =>
      rcases List.mem_cons.mp hu with rfl | hu
      · exact ⟨List.any_eq_true.mpr ⟨_, ht, rfl⟩, by simp [rank]⟩
      · split at hu
        case isFalse   => contradiction
        case isTrue hw =>
          cases List.mem_singleton.mp hu
          have hi : isNeeded policy types wrapToWord := by
            simp only [isNeeded, hw, Bool.and_eq_true, List.any_eq_true]
            exact ⟨rfl, _, ht, rfl⟩
          exact ⟨hi, by simp [rank]⟩

theorem uses_before {before after : List Helper}
    (he : needed policy types = before ++ h :: after) (hu : h' ∈ uses policy h) : h' ∈ before := by
  have hn : isNeeded policy types h := mem_needed_iff.mp (he ▸ by simp)
  have ⟨hn, hr⟩ := uses_needed hn hu
  have hp := needed_ranked policy types
  rw [he] at hp
  have ha := List.pairwise_cons.mp (List.pairwise_append.mp hp).right.left |>.left
  rcases List.mem_append.mp (he ▸ mem_needed_iff.mpr hn) with hm | hm
  · exact hm
  · rcases List.mem_cons.mp hm with rfl | hm
    · omega
    · have := ha _ hm
      omega

theorem ownCalls_subset {before after : List Function} {f : Function}
    (he : (needed policy types).map (function policy) = before ++ f :: after) :
    ownCalls f.body ⊆ before.map (·.name) := by
  have ⟨hs, _, hn, hb, hr⟩ := List.map_eq_append_iff.mp he
  have ⟨h, _, ht, hf, _⟩ := List.map_eq_cons_iff.mp hr
  subst hb hf ht
  intro g hg
  rw [ownCalls_function] at hg
  have ⟨h', hu, hg⟩ := List.mem_map.mp hg
  rw [← hg, ← name_function policy h']
  exact List.mem_map_of_mem <| List.mem_map_of_mem <| uses_before hn hu

theorem names_needed (policy : CoercionPolicy) (types : List ScalarType) :
    (needed policy types).map name =
      (if policy.numericStrings ∧ types.any ScalarType.isNumeric then ["IsBlank"] else []) ++
      (if types.any ScalarType.isNumeric then ["ToNumeric"] else []) ++
      (if policy.integerOverflow = .wrap ∧ types.any ScalarType.isInteger then ["WrapToUint64"]
        else []) ++
      types.eraseDups.map fun t => "Decode" ++ t.camelName := by
  have hi : isNeeded policy types wrapToWord =
      (policy.integerOverflow == .wrap && types.any ScalarType.isInteger) := rfl
  have hf (p : Helper → Bool) : ([isBlank, toNumeric, wrapToWord].filter p).map name =
      (if p isBlank then ["IsBlank"] else []) ++ (if p toNumeric then ["ToNumeric"] else []) ++
        (if p wrapToWord then ["WrapToUint64"] else []) := by
    cases h₁ : p isBlank <;> cases h₂ : p toNumeric <;> cases h₃ : p wrapToWord
    all_goals simp [h₁, h₂, h₃, name]
  rw [needed, List.map_append, hf, hi, List.map_map]
  simp only [isNeeded, Bool.and_eq_true, beq_iff_eq]
  rfl

theorem not_mem_camelName (t : ScalarType) :
    '(' ∉ t.camelName.toList ∧ ':' ∉ t.camelName.toList := by
  have h : ∀ t ∈ ScalarType.all, '(' ∉ t.camelName.toList ∧ ':' ∉ t.camelName.toList := by
    decide +kernel
  exact h t t.mem_all

theorem takeWhile_camelName (t : ScalarType) (rest : List Char) :
    (t.camelName.toList ++ '(' :: rest).takeWhile (· ≠ '(') = t.camelName.toList := by
  have hn : ∀ c ∈ t.camelName.toList, c ≠ '(' := by
    rintro _ hc rfl
    exact (not_mem_camelName t).left hc
  rw [List.takeWhile_append_of_pos (by simpa using hn)]
  simp

-- How the definition of the helper of a type begins.
def decodeStart (t : ScalarType) : String :=
  "inline bool Decode" ++ t.camelName ++ "("

theorem distinctive_decodeStart (t : ScalarType) : Distinctive (decodeStart t) := by
  have hc := (not_mem_camelName t).right
  unfold decodeStart
  constructor
  case head  => exact ⟨'i', by simp, by decide⟩
  case colon => simpa using hc
  case fixed => simp [fixedStarts, Begins]
  case name  => exact fun _ hc => hc.not_begins (by simp)

-- The name of a helper ends at the first parenthesis.
theorem begins_decodeStart_iff :
    Begins (decodeStart t) (function policy h).heading ↔ h = decode t := by
  unfold decodeStart
  cases h
  case isBlank    => simp [Begins, function, Function.heading, Function.head, TypeName.render, name]
  case toNumeric  => simp [Begins, function, Function.heading, Function.head, TypeName.render, name]
  case wrapToWord => simp [Begins, function, Function.heading, Function.head, TypeName.render, name]
  case decode t'  =>
    obtain ⟨rest, hr⟩ : ∃ rest, (function policy (decode t')).heading.toList =
        "inline bool Decode".toList ++ (t'.camelName.toList ++ '(' :: rest) :=
      ⟨_, by simp [function, Function.heading, Function.head, TypeName.render, name]; rfl⟩
    rw [Begins, hr, String.toList_append, String.toList_append, List.append_assoc,
      List.prefix_append_right_inj]
    constructor
    case mp  =>
      rintro ⟨more, hm⟩
      have hm : t.camelName.toList ++ '(' :: more = t'.camelName.toList ++ '(' :: rest := by
        simpa using hm
      have hn : t.camelName.toList = t'.camelName.toList := by
        rw [← takeWhile_camelName t more, hm, takeWhile_camelName]
      rw [camelName_injective (String.toList_inj.mp hn)]
    case mpr =>
      intro he
      cases he
      exact ⟨rest, by simp⟩

theorem one_decodeStart (ht : t ∈ types) :
    (beginning (decodeStart t) (((needed policy types).map (function policy)).map
      Function.heading)).length = 1 := by
  have hc : (needed policy types).count (decode t) = 1 :=
    List.count_eq_one_of_mem (needed_nodup policy types)
      (mem_needed_iff.mpr (by simpa [isNeeded] using ht))
  rw [List.map_map, beginning, ← List.countP_eq_length_filter, List.countP_map, ← hc, List.count]
  refine List.countP_congr fun h _ => ?_
  simp [begins_decodeStart_iff]

end Source.Helper

section Block

variable {groups groups' : List (List String)}

theorem spaced_append (h : groups ≠ []) (h' : groups' ≠ []) :
    spaced (groups ++ groups') = spaced groups ++ "" :: spaced groups' := by
  induction groups
  case nil => contradiction
  case cons group groups hi =>
    cases groups
    case nil =>
      cases groups'
      case nil  => contradiction
      case cons => rfl
    case cons =>
      have hs (g g' : List String) gs : spaced (g :: g' :: gs) = g ++ "" :: spaced (g' :: gs) := rfl
      rw [List.cons_append, List.cons_append, hs, hs, ← List.cons_append,
        hi (List.cons_ne_nil _ _), List.append_assoc, List.cons_append]

theorem itemLines_append {items items' : List Item} (h : items ≠ []) (h' : items' ≠ []) :
    itemLines (items ++ items') = itemLines items ++ "" :: itemLines items' := by
  rw [itemLines, List.map_append, spaced_append (by simpa using h) (by simpa using h')]
  rfl

theorem lines_helpers (functions : List Function) : (Item.helpers functions).lines =
    "namespace widl \x7b" :: "" :: spaced (functions.map (·.lines)) ++
      ["", "\x7d  // namespace widl"] := by
  simp [Item.lines, helperNamespace]

end Block

namespace CompiledUnit

variable {options : Options} {plans : List InterfacePlan}

theorem beginning_inline (hm : Identifier.Usable options.moduleName) (h : Accepted plans) :
    beginning "inline " (Text.lines (ofPlans options plans).code) =
      ((ofPlans options plans).items.flatMap Item.functions).map Function.heading := by
  rw [beginning_code hm h distinctive_inline, beginning_map_eq_self Function.begins_heading,
    beginning_map_eq_nil fun c => c.begins_heading.not_begins (by decide) (by decide),
    beginning_map_eq_nil fun e => e.begins_heading.not_begins (by decide) (by decide),
    List.append_nil, List.append_nil]

theorem one_decodeStart (hm : Identifier.Usable options.moduleName) (h : Accepted plans)
    {t : ScalarType} (ht : t ∈ plans.flatMap fun i => i.attributes.map (·.type)) :
    (beginning (Helper.decodeStart t) (Text.lines (ofPlans options plans).code)).length = 1 := by
  have hs : ∀ s ∈ ["class ", "NAN_"],
      ¬Begins s (Helper.decodeStart t) ∧ ¬Begins (Helper.decodeStart t) s := by
    unfold Helper.decodeStart
    simp [Begins]
  have hc (c : ClassDeclaration) : ¬Begins (Helper.decodeStart t) c.heading :=
    have hs := hs "class " (by decide)
    c.begins_heading.not_begins hs.left hs.right
  have he (e : EntryPoint) : ¬Begins (Helper.decodeStart t) e.heading :=
    have hs := hs "NAN_" (by decide)
    e.begins_heading.not_begins hs.left hs.right
  rw [beginning_code hm h (Helper.distinctive_decodeStart t), beginning_map_eq_nil hc,
    beginning_map_eq_nil he, functions_ofPlans, List.append_nil, List.append_nil]
  exact Helper.one_decodeStart ht

-- What comes before the helpers.
def preamble (options : Options) (count : Nat) : List Item :=
  [header options count, .includes ["algorithm", "cmath", "cstdint", "limits", "string"],
    .includes ["nan.h"]]

theorem exists_items (options : Options) (plans : List InterfacePlan) :
    ∃ rest ≠ [], ∀ policy, (ofPlans { options with coercion := policy } plans).items =
      preamble options plans.length ++
        (helperItems policy (plans.flatMap fun i => i.attributes.map (·.type)) ++ rest) := by
  refine ⟨plans.map (fun i => .classDeclaration i.classDeclaration)
    ++ plans.flatMap InterfacePlan.definitions
    ++ [.entryPoint (initAllEntry plans), .registration options.moduleName]
    ++ warningItems options (plans.flatMap InterfacePlan.warnings), by simp, fun policy => ?_⟩
  simp only [ofPlans, unitItems, preamble, List.append_assoc]
  rfl

-- The namespace of the helpers comes after what declares nothing.
theorem exists_block (hm : Identifier.Usable options.moduleName) (h : Accepted plans) :
    let functions := (ofPlans options plans).items.flatMap Item.functions
    ∃ before block after, Text.lines (ofPlans options plans).code = before ++ block ++ after ∧
      (block = [] ∨ block = (Item.helpers functions).lines) ∧
      ∀ start, Distinctive start → beginning start before = [] ∧
        beginning start block = beginning start (functions.map Function.heading) := by
  have ⟨rest, hr, hi⟩ := exists_items options plans
  have hi : (ofPlans options plans).items = _ := hi options.coercion
  have hp := isPlain_items hm h
  rw [lines_code hm h, functions_ofPlans, ← Helper.functions_helperItems]
  rw [hi] at hp ⊢
  have hb start (d : Distinctive start) :
      beginning start (itemLines (preamble options plans.length) ++ [""]) = [] := by
    rw [beginning_append, beginning_itemLines d fun item hi => hp item (List.mem_append_left _ hi)]
    have hn : ¬Begins start "" := fun h => absurd (d.isHeading h) (by decide)
    simp [preamble, header, Item.declarations, beginning, hn]
  unfold helperItems at hp ⊢
  split
  case isTrue  =>
    refine ⟨itemLines (preamble options plans.length) ++ [""], [], itemLines rest, ?_, .inl rfl, ?_⟩
    · rw [List.nil_append, itemLines_append (by simp [preamble]) hr]
      simp
    · exact fun start d => ⟨hb start d, rfl⟩
  case isFalse hn =>
    rw [if_neg hn] at hp
    rw [List.flatMap_singleton]
    refine ⟨itemLines (preamble options plans.length) ++ [""], _, "" :: itemLines rest, ?_,
      .inr rfl, fun start d => ⟨hb start d, ?_⟩⟩
    · rw [itemLines_append (by simp [preamble]) (by simp), itemLines_append (by simp) hr]
      simp [itemLines, spaced, Item.functions]
    · have hp := hp _ (List.mem_append_right _ (List.mem_append_left _ (List.mem_singleton_self _)))
      refine (beginning_itemLines d (List.forall_mem_singleton.mpr hp)).trans ?_
      simp [Item.declarations, Item.functions]

theorem exists_helperBlock (hm : Identifier.Usable options.moduleName) (h : Accepted plans) :
    let functions := (ofPlans options plans).items.flatMap Item.functions
    ∃ before block after, Text.lines (ofPlans options plans).code = before ++ block ++ after ∧
      (block = [] ∨ block = "namespace widl \x7b" :: "" :: spaced (functions.map (·.lines)) ++
        ["", "\x7d  // namespace widl"]) ∧
      beginning "inline " block = functions.map (·.heading) ∧
      beginning "inline " before = [] ∧ beginning "inline " after = [] ∧
      beginning "class " before = [] ∧ beginning "class " block = [] ∧
      beginning "NAN_" before = [] ∧ beginning "NAN_" block = [] := by
  intro functions
  have ⟨before, block, after, hl, hd, hb⟩ := exists_block hm h
  rw [lines_helpers] at hd
  have ⟨hi, hi'⟩ := hb _ distinctive_inline
  have ⟨hc, hc'⟩ := hb _ distinctive_class
  have ⟨he, he'⟩ := hb _ distinctive_macro
  rw [beginning_map_eq_self Function.begins_heading] at hi'
  rw [beginning_map_eq_nil fun f => f.begins_heading.not_begins (by decide) (by decide)] at hc' he'
  have ha : beginning "inline " after = [] := by
    have hn := beginning_inline hm h
    rw [hl, beginning_append, beginning_append, hi, hi', List.nil_append] at hn
    exact List.append_right_eq_self.mp hn
  exact ⟨before, block, after, hl, hd, hi', hi, ha, hc, hc', he, he'⟩

end CompiledUnit

section Types

variable {i : Interface} {plan : InterfacePlan} {interfaces : List Interface}
  {plans : List InterfacePlan}

theorem ScalarType.eq_filterMap_of_names {tags : List String} {types : List ScalarType}
    (h : List.Forall₂ Names tags types) : types = tags.filterMap ofTag? := by
  induction h
  case nil         => rfl
  case cons h _ hi => rw [List.filterMap_cons_some (ofTag?_eq_some_iff.mpr h), ← hi]

def Interface.types (i : Interface) : List String :=
  i.attributes.map (·.type)

-- The types of the parameters, then those of the attributes that can be assigned.
def Interface.convertedTypes (i : Interface) : List String :=
  i.constructor.map (·.type) ++ (i.attributes.filter (!·.readonly)).map (·.type)

theorem Interface.planned_members (h : i.PlannedAs plan) :
    List.Forall₂ (fun a q => ScalarType.Names a.type q.type ∧ q.writable = !a.readonly)
      i.attributes plan.attributes :=
  forall₂_planned h.attributes fun _ _ _ h => ⟨h.type, h.writable⟩

theorem Interface.planned_types (h : i.PlannedAs plan) :
    List.Forall₂ ScalarType.Names i.types (plan.attributes.map (·.type)) := by
  rw [types, List.forall₂_map_left_iff, List.forall₂_map_right_iff]
  exact (planned_members h).imp fun _ _ h => h.left

theorem Interface.planned_convertedTypes (h : i.PlannedAs plan) :
    List.Forall₂ ScalarType.Names i.convertedTypes plan.convertedTypes := by
  refine List.rel_append ?_ ?_ <;> rw [List.forall₂_map_left_iff, List.forall₂_map_right_iff]
  · exact h.parameters.imp fun _ _ h => h.type
  · have hw := List.rel_filter (p := fun a => !a.readonly) (q := (·.writable))
      (fun _ _ h => Bool.eq_iff_iff.mp h.right.symm) (planned_members h)
    exact hw.imp fun _ _ h => h.left

theorem planAll_types (h : planAll interfaces = .ok plans) :
    List.Forall₂ ScalarType.Names (interfaces.flatMap (·.types))
      (plans.flatMap fun i => i.attributes.map (·.type)) :=
  List.rel_flatMap (planAll_planned h) fun _ _ h => Interface.planned_types h

theorem planAll_convertedTypes (h : planAll interfaces = .ok plans) :
    List.Forall₂ ScalarType.Names (interfaces.flatMap (·.convertedTypes))
      (plans.flatMap (·.convertedTypes)) :=
  List.rel_flatMap (planAll_planned h) fun _ _ h => Interface.planned_convertedTypes h

-- What is converted is an attribute or is bound to one.
theorem Accepted.convertedTypes_subset (h : Accepted plans) :
    plans.flatMap (·.convertedTypes) ⊆ plans.flatMap fun i => i.attributes.map (·.type) := by
  intro t ht
  have ⟨plan, hp, ht⟩ := List.mem_flatMap.mp ht
  refine List.mem_flatMap.mpr ⟨plan, hp, ?_⟩
  rcases List.mem_append.mp ht with ht | ht
  · have ⟨q, hq, ht⟩ := List.mem_map.mp ht
    have ⟨a, ha, _, hb, _⟩ := (h.named plan hp).bound q hq
    exact List.mem_map.mpr ⟨a, ha, hb.trans ht⟩
  · have ⟨a, ha, ht⟩ := List.mem_map.mp ht
    exact List.mem_map.mpr ⟨a, (List.mem_filter.mp ha).left, ht⟩

end Types

-- Every function that the source of a unit calls is of a library, an entry point or a helper. The
-- helpers are those that the types and the policy call for. They stand in a namespace that comes
-- before all classes and all entry points, and each comes after the helpers that it calls.
theorem helpers_defined_before_use {options : Options} {interfaces : List Interface}
    {u : CompiledUnit} (hu : compile options interfaces = .ok u) :
    let policy := options.coercion
    let functions := u.items.flatMap Item.functions
    let lines := Text.lines u.code
    ∃ types called,
      List.Forall₂ ScalarType.Names (interfaces.flatMap (·.types)) types ∧
      List.Forall₂ ScalarType.Names (interfaces.flatMap (·.convertedTypes)) called ∧
      functions.map (·.name) =
        (if policy.numericStrings ∧ types.any ScalarType.isNumeric then ["IsBlank"] else []) ++
        (if types.any ScalarType.isNumeric then ["ToNumeric"] else []) ++
        (if policy.integerOverflow = .wrap ∧ types.any ScalarType.isInteger then ["WrapToUint64"]
          else []) ++
        types.eraseDups.map (fun t => "Decode" ++ t.camelName) ∧
      (functions.map (·.name)).Nodup ∧
      (∃ before block after, lines = before ++ block ++ after ∧
        (block = [] ∨ block = "namespace widl \x7b" :: "" :: spaced (functions.map (·.lines)) ++
          ["", "\x7d  // namespace widl"]) ∧
        beginning "inline " block = functions.map (·.heading) ∧
        beginning "inline " before = [] ∧ beginning "inline " after = [] ∧
        beginning "class " before = [] ∧ beginning "class " block = [] ∧
        beginning "NAN_" before = [] ∧ beginning "NAN_" block = []) ∧
      (∀ t ∈ types, (beginning ("inline bool Decode" ++ t.camelName ++ "(") lines).length = 1) ∧
      u.entryPoints.flatMap (fun e => ownCalls e.body) =
        called.map (fun t => "widl::Decode" ++ t.camelName) ++
          interfaces.map (·.name ++ "::Init") ∧
      called ⊆ types ∧
      ∀ before f after, functions = before ++ f :: after →
        ownCalls f.body ⊆ before.map (·.name) := by
  have ⟨hm, plans, hp, hu⟩ := compile_eq_ok_iff.mp hu
  have hm := Role.check_eq_ok_iff.mp hm
  have ha := planAll_accepted hp
  subst hu
  intro policy functions lines
  have hn : functions.map (·.name) = (Helper.needed policy
      (plans.flatMap fun i => i.attributes.map (·.type))).map Helper.name := by
    simp only [functions, CompiledUnit.functions_ofPlans, List.map_map]
    exact List.map_congr_left fun h _ => Helper.name_function policy h
  refine ⟨plans.flatMap fun i => i.attributes.map (·.type), plans.flatMap (·.convertedTypes),
    planAll_types hp, planAll_convertedTypes hp,
    hn.trans (Helper.names_needed ..), ?_, CompiledUnit.exists_helperBlock hm ha,
    fun t => CompiledUnit.one_decodeStart hm ha, ?_, ha.convertedTypes_subset, ?_⟩
  · rw [hn]
    exact (Helper.needed_nodup ..).map Helper.name_injective
  · have hi : interfaces.map (·.name ++ "::Init") = plans.map (·.name ++ "::Init") := by
      have h := congrArg (List.map (· ++ "::Init")) (planAll_names hp)
      rw [List.map_map, List.map_map] at h
      exact h.symm
    rw [CompiledUnit.ownCalls_entryPoints ha, hi]
    rfl
  · intro before f after he
    exact Helper.ownCalls_subset (CompiledUnit.functions_ofPlans.symm.trans he)

-- The classes share a helper, and what is only read has one too.
theorem helpers_defined_before_use_pixel :
    ∃ u, compile { coercion := { numericStrings := true } } [pixel, label] = .ok u ∧
      (u.items.flatMap Item.functions).map (·.name) = ["IsBlank", "ToNumeric", "WrapToUint64",
        "DecodeUnsignedShort", "DecodeDOMString", "DecodeOctet"] ∧
      (beginning "inline bool DecodeDOMString(" (Text.lines u.code)).length = 1 ∧
      u.entryPoints.flatMap (fun e => ownCalls e.body) =
        ["widl::DecodeDOMString", "widl::DecodeUnsignedShort", "widl::DecodeUnsignedShort",
          "widl::DecodeDOMString", "widl::DecodeOctet", "Pixel::Init", "NAN::Init"] := by
  refine ⟨_, rfl, ?_⟩
  have ⟨types, called, ht, hc, hn, _, _, hd, he, _⟩ :=
    @helpers_defined_before_use { coercion := { numericStrings := true } } [pixel, label] _ rfl
  cases ScalarType.eq_filterMap_of_names ht
  cases ScalarType.eq_filterMap_of_names hc
  exact ⟨hn.trans (by decide), hd (.text .dom) (by decide), he.trans (by decide)⟩

end AddonBinding
