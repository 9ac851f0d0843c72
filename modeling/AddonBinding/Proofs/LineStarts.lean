import AddonBinding.Proofs.Outline

namespace AddonBinding

open Source Text

namespace Text

def Begins (start l : String) : Prop :=
  start.toList <+: l.toList

instance (start l : String) : Decidable (Begins start l) :=
  inferInstanceAs (Decidable (start.toList <+: l.toList))

-- The lines that begin in this way, at the left edge.
def beginning (start : String) (ls : List String) : List String :=
  ls.filter (Begins start ·)

variable {start s t : String}

theorem beginning_append (start : String) (ls ls' : List String) :
    beginning start (ls ++ ls') = beginning start ls ++ beginning start ls' :=
  List.filter_append ..

theorem Begins.of_append (h : Begins start (s ++ t)) :
    Begins start s ∨ ∃ rest, start.toList = s.toList ++ rest ∧ rest <+: t.toList := by
  rw [Begins, String.toList_append] at h
  rcases List.prefix_or_prefix_of_prefix h (List.prefix_append _ _) with hp | ⟨rest, hr⟩
  · exact .inl hp
  · rw [← hr, List.prefix_append_right_inj] at h
    exact .inr ⟨rest, hr.symm, h⟩

theorem Begins.append (h : Begins start s) (t : String) : Begins start (s ++ t) := by
  rw [Begins, String.toList_append]
  exact h.trans (List.prefix_append _ _)

theorem Begins.not_begins {l : String} (h : Begins s l) (h₁ : ¬Begins s start)
    (h₂ : ¬Begins start s) : ¬Begins start l :=
  fun hb => (List.prefix_or_prefix_of_prefix h hb).elim h₁ h₂

section Map

variable {α : Type} {f : α → String}

theorem beginning_map_eq_self (h : ∀ a, Begins start (f a)) (l : List α) :
    beginning start (l.map f) = l.map f :=
  List.filter_eq_self.mpr <| List.forall_mem_map.mpr fun a _ => decide_eq_true (h a)

theorem beginning_map_eq_nil (h : ∀ a, ¬Begins start (f a)) (l : List α) :
    beginning start (l.map f) = [] :=
  List.filter_eq_nil_iff.mpr <| List.forall_mem_map.mpr fun a _ => by simpa using h a

end Map

end Text

theorem Identifier.Usable.not_begins {start c : String} (hc : Usable c) (h : ' ' ∈ start.toList) :
    ¬Begins start c :=
  fun hb => hc.wellFormed.not_mem (by decide) (hb.mem h)

namespace Source

theorem Function.begins_heading (f : Function) : Begins "inline " f.heading := by
  simp [Begins, heading, head]

theorem ClassDeclaration.begins_heading (c : ClassDeclaration) : Begins "class " c.heading := by
  simp [Begins, heading]

theorem EntryPoint.begins_heading (e : EntryPoint) : Begins "NAN_" e.heading := by
  have hk : Begins "NAN_" e.kind.macroName := by cases e.kind <;> decide
  simp only [heading, EntryKind.head, String.append_assoc]
  exact hk.append _

-- How the headings begin that do not begin with a name.
def fixedStarts : List String :=
  ["#include <", "namespace ", "\x7d  // namespace ", "NODE_MODULE("]

-- A start that no line has but the headings of functions, of classes and of entry points.
structure Distinctive (start : String) : Prop where
  head  : ∃ c, start.toList.head? = some c ∧ c ∉ [' ', '/', '\x7d']
  colon : ':' ∉ start.toList
  fixed : ∀ s ∈ fixedStarts, ¬Begins start s ∧ ¬Begins s start
  name  : ∀ c, Identifier.Usable c → ¬Begins start c

namespace Distinctive

variable {start l : String}

theorem isHeading (d : Distinctive start) (h : Begins start l) : isHeading l := by
  have ⟨c, hc, hn⟩ := d.head
  have ⟨rest, hl⟩ := h
  exact isHeading_of_head (by rw [← hl, List.head?_append, hc]; rfl) hn

theorem not_fixed (d : Distinctive start) {s : String} (hs : s ∈ fixedStarts) (t : String) :
    ¬Begins start (s ++ t) := by
  intro h
  rcases h.of_append with h | ⟨rest, hr, _⟩
  · exact (d.fixed s hs).left h
  · exact (d.fixed s hs).right ⟨rest, hr.symm⟩

-- The name ends at the first colon of the line, which the start does not reach.
theorem not_symbol (d : Distinctive start) {c t : String} (hc : Identifier.Usable c)
    (ht : t.toList.head? = some ':') : ¬Begins start (c ++ t) := by
  intro h
  rcases h.of_append with h | ⟨rest, hr, hp⟩
  · exact d.name c hc h
  · cases rest
    case nil       => exact d.name c hc ⟨[], by simpa using hr⟩
    case cons x xs =>
      obtain ⟨_, hp⟩ := hp
      rw [← hp] at ht
      cases ht
      exact d.colon (by simp [hr])

end Distinctive

theorem distinctive_macro : Distinctive "NAN_" where
  head  := ⟨'N', by decide, by decide⟩
  colon := by decide
  fixed := by decide
  name  := by
    intro c hc hb
    have hr := hc.unreserved
    simp only [Identifier.isReserved, Bool.or_eq_false_iff, List.any_eq_false] at hr
    refine hr.1.1.1.1.2 "NAN_" (by decide) ?_
    rw [Identifier.after?, List.isSome_isPrefixOf?_eq_isPrefixOf]
    exact List.isPrefixOf_iff_prefix.mpr hb

theorem distinctive_class : Distinctive "class " where
  head  := ⟨'c', by decide, by decide⟩
  colon := by decide
  fixed := by decide
  name  := fun _ hc => hc.not_begins (by decide)

theorem distinctive_inline : Distinctive "inline " where
  head  := ⟨'i', by decide, by decide⟩
  colon := by decide
  fixed := by decide
  name  := fun _ hc => hc.not_begins (by decide)

namespace Item

variable {item : Item} {items : List Item} {start : String}

-- The headings of what an item declares.
def declarations : Item → List String
  | .helpers functions  => functions.map Function.heading
  | .classDeclaration c => [c.heading]
  | .entryPoint e       => [e.heading]
  | _                   => []

theorem beginning_outline (d : Distinctive start) (h : item.isPlain) :
    beginning start item.outline = beginning start item.declarations := by
  have hn {ls : List String} (hl : ∀ l ∈ ls, ¬Begins start l) : beginning start ls = [] :=
    List.filter_eq_nil_iff.mpr fun l hm => by simpa using hl l hm
  cases item
  case comments           => rfl
  case classDeclaration c => rfl
  case entryPoint e       => rfl
  case includes hs =>
    refine hn <| List.forall_mem_map.mpr fun t _ => ?_
    rw [String.append_assoc]
    exact d.not_fixed (by decide) _
  case helpers fs =>
    have hs : beginning start ["namespace " ++ helperNamespace ++ " \x7b"] = [] := by
      refine hn <| List.forall_mem_singleton.mpr ?_
      rw [String.append_assoc]
      exact d.not_fixed (by decide) _
    have he : beginning start ["\x7d  // namespace " ++ helperNamespace] = [] :=
      hn <| List.forall_mem_singleton.mpr <| d.not_fixed (by decide) _
    unfold beginning at hs he ⊢
    simp only [outline, List.filter_append, hs, he, List.append_nil, List.nil_append, declarations]
  case initialiser c fields =>
    have ⟨hc, _⟩ := Bool.and_eq_true_iff.mp h
    refine hn <| List.forall_mem_singleton.mpr ?_
    simp only [String.append_assoc]
    exact d.not_symbol (Identifier.usable_iff.mp hc) (by simp)
  case destructor c =>
    refine hn <| List.forall_mem_singleton.mpr ?_
    simp only [String.append_assoc]
    exact d.not_symbol (Identifier.usable_iff.mp h) (by simp)
  case registration name =>
    refine hn <| List.forall_mem_singleton.mpr ?_
    rw [String.append_assoc]
    exact d.not_fixed (by decide) _

end Item

theorem beginning_itemLines {items : List Item} {start : String} (d : Distinctive start)
    (h : ∀ item ∈ items, item.isPlain) :
    beginning start (itemLines items) = beginning start (items.flatMap Item.declarations) := by
  have ho : Outlined _ (itemLines items) := .spaced fun item hi => Item.outlined_lines (h item hi)
  have hb : beginning start (itemLines items) = beginning start (outline (itemLines items)) := by
    rw [beginning, beginning, outline, List.filter_filter]
    refine List.filter_congr fun l _ => ?_
    rw [Bool.eq_iff_iff, Bool.and_eq_true, decide_eq_true_eq]
    exact ⟨fun h => ⟨h, d.isHeading h⟩, And.left⟩
  rw [hb, ho.outline, beginning, beginning, List.filter_flatMap, List.filter_flatMap]
  exact List.flatMap_congr fun item hi => Item.beginning_outline d (h item hi)

end Source

namespace CompiledUnit

variable {options : Options} {plans : List InterfacePlan} {start : String}

-- Helpers come first, then all the classes, and then what the host calls.
theorem declarations_ofPlans :
    (ofPlans options plans).items.flatMap Item.declarations =
      ((ofPlans options plans).items.flatMap Item.functions).map Function.heading ++
        (ofPlans options plans).classes.map ClassDeclaration.heading ++
        (ofPlans options plans).entryPoints.map EntryPoint.heading := by
  have hd (i : InterfacePlan) : i.definitions.flatMap Item.declarations =
      i.entryPoints.map EntryPoint.heading := by
    simp [InterfacePlan.definitions, Item.declarations, InterfacePlan.entryPoints,
      List.flatMap_map, ← List.map_eq_flatMap]
  have hh : (helperItems options.coercion
      (plans.flatMap fun i => i.attributes.map (·.type))).flatMap Item.declarations =
      ((ofPlans options plans).items.flatMap Item.functions).map Function.heading := by
    rw [functions_ofPlans, ← Helper.functions_helperItems]
    unfold helperItems
    split <;> simp [Item.declarations, Item.functions]
  rw [flatMap_items _ (fun _ => rfl) (fun _ => rfl) (fun _ => rfl), hh, classes_ofPlans,
    entryPoints_ofPlans]
  simp [Item.declarations, hd, List.map_flatMap, ← List.map_eq_flatMap]

theorem lines_code (hm : Identifier.Usable options.moduleName) (h : Accepted plans) :
    Text.lines (ofPlans options plans).code = itemLines (ofPlans options plans).items := by
  have ho : Outlined _ (itemLines (ofPlans options plans).items) :=
    .spaced fun item hi => Item.outlined_lines (isPlain_items hm h item hi)
  rw [code, Text.lines_unlines ho.oneLine]

theorem beginning_code (hm : Identifier.Usable options.moduleName) (h : Accepted plans)
    (d : Distinctive start) :
    beginning start (Text.lines (ofPlans options plans).code) =
      beginning start (((ofPlans options plans).items.flatMap Item.functions).map
          Function.heading) ++
        beginning start ((ofPlans options plans).classes.map ClassDeclaration.heading) ++
        beginning start ((ofPlans options plans).entryPoints.map EntryPoint.heading) := by
  rw [lines_code hm h, beginning_itemLines d (isPlain_items hm h), declarations_ofPlans]
  simp only [beginning, List.filter_append]

end CompiledUnit

end AddonBinding
