import AddonBinding.Proofs.ClassMembers
import AddonBinding.Proofs.OneLine
import AddonBinding.Proofs.UnitProgram
import AddonBinding.Typings

namespace AddonBinding

open Text

theorem dropWhile_eq_self {α : Type} {f : α → Bool} {l : List α} (h : ∀ a ∈ l.head?, f a = false) :
    l.dropWhile f = l := by
  cases l
  case nil      => rfl
  case cons a _ => rw [List.dropWhile_cons_of_neg (by simp [h a rfl])]

namespace Typings

-- The class that a line declares.
def exportedClass? (line : String) : Option String := do
  let rest ← Identifier.after? "export declare class " line.toList
  some (String.ofList (rest.takeWhile (· ≠ ' ')))

-- The name that a parameter binds ends where its type begins, or the mark that it is optional.
def boundName (cs : List Char) : String :=
  String.ofList ((cs.dropWhile (· = ' ')).takeWhile fun c => c ≠ '?' ∧ c ≠ ':')

-- The names that a line binds as the parameters of a constructor.
def boundNames? (line : String) : Option (List String) := do
  let rest ← Identifier.after? "  constructor(" line.toList
  let cs := rest.takeWhile (· ≠ ')')
  some (if cs.isEmpty then [] else (cs.splitOn ',').map boundName)

def exportedClasses (text : String) : List String :=
  (Text.lines text).filterMap exportedClass?

def constructors (text : String) : List (List String) :=
  (Text.lines text).filterMap boundNames?

section Renaming

variable {names : List String} {name a b : String} {c : Char}

theorem parameterName_of_mem (h : name ∈ reservedWords) : parameterName name = name ++ "_" := by
  simp [parameterName, h]

theorem parameterName_of_not_mem (h : name ∉ reservedWords) : parameterName name = name := by
  simp [parameterName, h]

-- No reserved word ends in an underscore.
theorem append_underscore_not_mem (name : String) : name ++ "_" ∉ reservedWords := by
  have hl : ∀ w ∈ reservedWords, w.toList.getLast? ≠ some '_' := by simp [reservedWords]
  intro h
  exact hl _ h (by simp)

theorem parameterName_not_mem (name : String) : parameterName name ∉ reservedWords := by
  by_cases h : name ∈ reservedWords
  case pos => exact parameterName_of_mem h ▸ append_underscore_not_mem name
  case neg => exact (parameterName_of_not_mem h).symm ▸ h

-- Two names meet after the renaming only if one is a reserved word and the other one is what that
-- word becomes.
theorem of_parameterName_eq (h : parameterName a = parameterName b) (hn : a ≠ b) :
    (a ∈ reservedWords ∧ b = a ++ "_") ∨ (b ∈ reservedWords ∧ a = b ++ "_") := by
  by_cases ha : a ∈ reservedWords <;> by_cases hb : b ∈ reservedWords
  all_goals simp only [parameterName_of_mem, parameterName_of_not_mem, ha, hb, not_false_eq_true] at h
  · exact absurd (append_underscore_inj h) hn
  · exact .inl ⟨ha, h.symm⟩
  · exact .inr ⟨hb, h⟩
  · exact absurd h hn

theorem nodup_parameterName_iff (hd : names.Nodup) :
    (names.map parameterName).Nodup ↔
      ∀ a ∈ names, ∀ b ∈ names, a ∈ reservedWords → b ≠ a ++ "_" := by
  rw [List.nodup_map_iff_inj_on hd]
  constructor
  case mp =>
    rintro h a ha b hb hr rfl
    have he : parameterName a = parameterName (a ++ "_") := by
      rw [parameterName_of_mem hr, parameterName_of_not_mem (append_underscore_not_mem a)]
    exact append_underscore_not_mem a <| h a ha _ hb he ▸ hr
  case mpr =>
    intro h a ha b hb he
    by_contra hn
    rcases of_parameterName_eq he hn with ⟨hr, hb'⟩ | ⟨hr, ha'⟩
    · exact h a ha b hb hr hb'
    · exact h b hb a ha hr ha'

theorem not_mem_parameterName (h : c ∉ name.toList) (hc : c ≠ '_') :
    c ∉ (parameterName name).toList := by
  by_cases hr : name ∈ reservedWords
  case pos => simp [parameterName_of_mem hr, h, hc]
  case neg => rwa [parameterName_of_not_mem hr]

end Renaming

-- The names of a class that are put into the text without a check of their own.
structure Named (e : InterfaceEntry) : Prop where
  className  : Identifier.WellFormed e.className
  parameters : ∀ p ∈ e.constructor.parameters, Identifier.WellFormed p.name
  attributes : ∀ a ∈ e.attributes, Identifier.WellFormed a.name

section Parameters

variable {p : ParameterEntry} {ps : List ParameterEntry} {lead : List Char}

theorem typeOfTag_mem (tag : String) :
    typeOfTag tag ∈ ["unknown", "string", "boolean", "number"] := by
  unfold typeOfTag
  cases ScalarType.ofTag? tag
  case none   => decide
  case some t => cases t <;> simp [typeName]

theorem toList_parameter (p : ParameterEntry) : ∃ mark rest, (mark = '?' ∨ mark = ':') ∧
    (∀ c ∈ rest, c ≠ ',' ∧ c ≠ ')' ∧ c ≠ '\n') ∧
    (parameter p).toList = (parameterName p.name).toList ++ mark :: rest := by
  have ht : ∀ t ∈ ["unknown", "string", "boolean", "number"],
      ∀ c ∈ ':' :: ' ' :: t.toList, c ≠ ',' ∧ c ≠ ')' ∧ c ≠ '\n' := by simp
  have ht := ht _ (typeOfTag_mem p.type)
  cases ho : p.optional
  case false =>
    refine ⟨':', ' ' :: (typeOfTag p.type).toList, .inr rfl, (List.forall_mem_cons.mp ht).right, ?_⟩
    simp [parameter, ho]
  case true =>
    exact ⟨'?', ':' :: ' ' :: (typeOfTag p.type).toList, .inl rfl, ht, by simp [parameter, ho]⟩

theorem not_mem_parameter {c : Char} (w : Identifier.WellFormed p.name)
    (hc : c = ',' ∨ c = ')' ∨ c = '\n') : c ∉ (parameter p).toList := by
  have ⟨mark, rest, hm, hr, hp⟩ := toList_parameter p
  have hn : c ∉ (parameterName p.name).toList := by
    refine not_mem_parameterName (w.not_mem ?_) ?_ <;> rcases hc with rfl | rfl | rfl <;> decide
  rw [hp, List.mem_append, List.mem_cons]
  rintro (h | rfl | h)
  · exact hn h
  · rcases hm with rfl | rfl <;> revert hc <;> decide
  · have := hr c h
    grind

theorem boundName_parameter (w : Identifier.WellFormed p.name) (hl : ∀ c ∈ lead, c = ' ') :
    boundName (lead ++ (parameter p).toList) = parameterName p.name := by
  have ⟨mark, rest, hm, _, hp⟩ := toList_parameter p
  have hn c (hc : c = ' ' ∨ c = '?' ∨ c = ':') : c ∉ (parameterName p.name).toList := by
    refine not_mem_parameterName (w.not_mem ?_) ?_ <;> rcases hc with rfl | rfl | rfl <;> decide
  have hd : (parameter p).toList.dropWhile (· = ' ') = (parameter p).toList := by
    refine dropWhile_eq_self fun c hc => ?_
    rw [hp, List.head?_append, Option.mem_def, Option.or_eq_some_iff] at hc
    rcases hc with hc | ⟨_, hc⟩
    · exact decide_eq_false fun he => hn c (.inl he) (List.mem_of_mem_head? hc)
    · rcases hm with rfl | rfl <;> cases hc <;> decide
  rw [boundName, List.dropWhile_append_of_pos (by simpa using hl), hd, hp,
    List.takeWhile_append_of_pos, List.takeWhile_cons_of_neg, List.append_nil, String.ofList_toList]
  · rcases hm with rfl | rfl <;> decide
  · intro c hc
    simp only [decide_eq_true_eq]
    exact ⟨fun he => hn _ (.inr (.inl rfl)) (he ▸ hc), fun he => hn _ (.inr (.inr rfl)) (he ▸ hc)⟩

-- The parameters are told apart by their commas; a blank after a comma is not part of a name.
theorem boundNames_parameters (hw : ∀ q ∈ p :: ps, Identifier.WellFormed q.name)
    (hl : ∀ c ∈ lead, c = ' ') :
    ((lead ++ (", ".intercalate ((p :: ps).map parameter)).toList).splitOn ',').map boundName =
      (p :: ps).map (parameterName ·.name) := by
  induction ps generalizing p lead
  case nil =>
    have ⟨hp, _⟩ := List.forall_mem_cons.mp hw
    have hc : ',' ∉ lead ++ (parameter p).toList := by
      have := not_mem_parameter hp (.inl rfl)
      grind
    simp [List.splitOn_eq_singleton hc, boundName_parameter hp hl]
  case cons q ps hi =>
    have ⟨hp, hw⟩ := List.forall_mem_cons.mp hw
    have hc : ',' ∉ lead ++ (parameter p).toList := by
      have := not_mem_parameter hp (.inl rfl)
      grind
    have hi := @hi q [' '] hw (by simp)
    have ht : lead ++ (", ".intercalate ((p :: q :: ps).map parameter)).toList =
        (lead ++ (parameter p).toList) ++
          ',' :: ([' '] ++ (", ".intercalate ((q :: ps).map parameter)).toList) := by
      simp [String.intercalate_cons_cons]
    have hf : ∀ c ∈ lead ++ (parameter p).toList, (c == ',') = false :=
      fun c hm => beq_false_of_ne fun he => hc (he ▸ hm)
    have hs := List.splitOnP_append_cons_of_forall_mem hf ',' rfl
    rw [ht, List.splitOn, hs, List.map_cons, boundName_parameter hp hl]
    exact congrArg _ hi

theorem not_mem_parameters {c : Char} (hw : ∀ q ∈ ps, Identifier.WellFormed q.name)
    (hc : c = ')' ∨ c = '\n') : c ∉ (", ".intercalate (ps.map parameter)).toList := by
  have hs : c ∉ [',', ' '] := by rcases hc with rfl | rfl <;> decide
  induction ps
  case nil => simp
  case cons p ps hi =>
    have ⟨hp, hw⟩ := List.forall_mem_cons.mp hw
    have hp := not_mem_parameter hp (.inr hc)
    have hi := hi hw
    cases ps
    case nil  => simpa using hp
    case cons =>
      simp only [List.map_cons, String.intercalate_cons_cons] at hi ⊢
      simp_all

end Parameters

section Lines

variable {e : InterfaceEntry} {m : Manifest}

theorem exportedClass?_heading (w : Identifier.WellFormed e.className) :
    exportedClass? ("export declare class " ++ e.className ++ " \x7b") = some e.className := by
  have hn : ∀ c ∈ e.className.toList, decide (c ≠ ' ') = true := by
    intro c hc
    exact decide_eq_true fun he => w.not_mem (c := ' ') rfl (he ▸ hc)
  have hl : ("export declare class " ++ e.className ++ " \x7b").toList =
      "export declare class ".toList ++ (e.className.toList ++ " \x7b".toList) := by
    simp
  rw [exportedClass?, hl, Identifier.after?_append, Option.bind_eq_bind, Option.bind_some,
    List.takeWhile_append_of_pos hn]
  simp

theorem boundNames?_constructor {ps : List ParameterEntry}
    (hw : ∀ q ∈ ps, Identifier.WellFormed q.name) :
    boundNames? ("  constructor(" ++ ", ".intercalate (ps.map parameter) ++ ");") =
      some (ps.map (parameterName ·.name)) := by
  have hl (s : String) : ("  constructor(" ++ s ++ ");").toList =
      "  constructor(".toList ++ (s.toList ++ ");".toList) := by
    simp
  have hn : ∀ c ∈ (", ".intercalate (ps.map parameter)).toList, decide (c ≠ ')') = true := by
    intro c hc
    exact decide_eq_true fun he => not_mem_parameters hw (.inl rfl) (he ▸ hc)
  have he : List.takeWhile (fun c => decide (c ≠ ')')) ");".toList = [] := rfl
  rw [boundNames?, hl, Identifier.after?_append, Option.bind_eq_bind, Option.bind_some,
    List.takeWhile_append_of_pos hn, he, List.append_nil]
  cases ps
  case nil => rfl
  case cons p ps =>
    have hb := @boundNames_parameters p ps [] hw (by simp)
    rw [List.nil_append] at hb
    have hi : (", ".intercalate ((p :: ps).map parameter)).toList.isEmpty = false := by
      have ⟨mark, rest, _, _, hp⟩ := toList_parameter p
      cases ps <;> simp [String.intercalate_cons_cons, hp]
    simp only [hi, hb, Bool.false_eq_true, ↓reduceIte]

theorem exportedClass?_of_head {l : String} (h : l.toList.head? ≠ some 'e') :
    exportedClass? l = none := by
  cases ha : Identifier.after? "export declare class " l.toList
  case none      => rw [exportedClass?, ha, Option.bind_eq_bind, Option.bind_none]
  case some rest => exact absurd (Identifier.after?_eq_some_iff.mp ha ▸ rfl) h

theorem boundNames?_of_head {l : String} (h : l.toList.head? ≠ some ' ') : boundNames? l = none := by
  cases ha : Identifier.after? "  constructor(" l.toList
  case none      => rw [boundNames?, ha, Option.bind_eq_bind, Option.bind_none]
  case some rest => exact absurd (Identifier.after?_eq_some_iff.mp ha ▸ rfl) h

-- An attribute may be called like the constructor, but no bracket follows its name.
theorem boundNames?_property {a : AttributeEntry} (w : Identifier.WellFormed a.name) :
    boundNames? ("  " ++ property a) = none := by
  cases ha : Identifier.after? "  constructor(" ("  " ++ property a).toList
  case none => rw [boundNames?, ha, Option.bind_eq_bind, Option.bind_none]
  case some rest =>
    have ha := Identifier.after?_eq_some_iff.mp ha
    have ha : "constructor(".toList ++ rest = (property a).toList := by simpa using ha
    cases hw : a.writable
    case false => simp [property, hw] at ha
    case true =>
      have ha : "constructor(".toList ++ rest =
          a.name.toList ++ ':' :: ' ' :: ((typeOfTag a.type).toList ++ [';']) := by
        simpa [property, hw] using ha
      have hb : '(' ∉ a.name.toList := w.not_mem rfl
      rcases List.append_eq_append_iff.mp ha with ⟨x, hx, _⟩ | ⟨x, hx, hr⟩
      · exact absurd (by simp [hx]) hb
      · cases x
        case nil      =>
          rw [List.append_nil] at hx
          exact absurd (hx ▸ by decide) hb
        case cons c x =>
          have hc : ':' ∈ "constructor(".toList := by
            rw [hx, ← (List.cons.inj hr).left]
            simp
          exact absurd hc (by decide)

theorem exportedClass?_classLines (h : Named e) :
    (classLines e).filterMap exportedClass? = [e.className] := by
  have hc (s : String) : exportedClass? ("  constructor(" ++ s ++ ");") = none :=
    exportedClass?_of_head (by simp)
  have ha : (e.attributes.map fun a => "  " ++ property a).filterMap exportedClass? = [] :=
    List.filterMap_eq_nil_iff.mpr <| List.forall_mem_map.mpr fun a _ =>
      exportedClass?_of_head (by simp)
  have he : exportedClass? "\x7d" = none := exportedClass?_of_head (by decide)
  simp only [classLines, List.cons_append, List.nil_append, List.filterMap_cons,
    List.filterMap_append, exportedClass?_heading h.className, hc, ha, he, List.filterMap_nil]

theorem boundNames?_classLines (h : Named e) :
    (classLines e).filterMap boundNames? = [e.constructor.parameters.map (parameterName ·.name)] := by
  have hc (s : String) : boundNames? ("export declare class " ++ s ++ " \x7b") = none :=
    boundNames?_of_head (by simp)
  have ha : (e.attributes.map fun a => "  " ++ property a).filterMap boundNames? = [] :=
    List.filterMap_eq_nil_iff.mpr <| List.forall_mem_map.mpr fun a ha =>
      boundNames?_property (h.attributes a ha)
  have he : boundNames? "\x7d" = none := boundNames?_of_head (by decide)
  simp only [classLines, List.cons_append, List.nil_append, List.filterMap_cons,
    List.filterMap_append, boundNames?_constructor h.parameters, hc, ha, he, List.filterMap_nil]

theorem oneLine_property {a : AttributeEntry} (w : Identifier.WellFormed a.name) :
    OneLine (property a) := by
  have hr : OneLine (if a.writable then "" else "readonly ") := by split <;> decide
  have ht : ∀ t ∈ ["unknown", "string", "boolean", "number"], OneLine t := by decide
  have hn : OneLine a.name := w.not_mem rfl
  simp [property, hr, hn, ht _ (typeOfTag_mem a.type), (by decide : OneLine ": "),
    (by decide : OneLine ";")]

theorem oneLine_classLines (h : Named e) : ∀ l ∈ classLines e, OneLine l := by
  intro l hl
  simp only [classLines, List.mem_append, List.mem_cons, List.not_mem_nil, or_false,
    List.mem_map] at hl
  rcases hl with ((rfl | rfl) | ⟨a, ha, rfl⟩) | rfl
  · exact oneLine_append.mpr ⟨oneLine_append.mpr ⟨by decide, h.className.not_mem rfl⟩, by decide⟩
  · exact oneLine_append.mpr
      ⟨oneLine_append.mpr ⟨by decide, not_mem_parameters h.parameters (.inr rfl)⟩, by decide⟩
  · exact oneLine_append.mpr ⟨by decide, oneLine_property (h.attributes a ha)⟩
  · decide

theorem oneLine_lines (hm : OneLine m.moduleName) (h : ∀ e ∈ m.interfaces, Named e) :
    ∀ l ∈ lines m, OneLine l := by
  intro l hl
  rcases List.mem_cons.mp hl with rfl | hl
  · exact oneLine_append.mpr ⟨oneLine_append.mpr ⟨by decide, hm⟩, by decide⟩
  · have ⟨e, he, hl⟩ := List.mem_flatMap.mp hl
    rcases List.mem_cons.mp hl with rfl | hl
    · decide
    · exact oneLine_classLines (h e he) l hl

-- What is read from each class alone is read from the text as a whole, in the order of the classes.
theorem filterMap_lines_text {α : Type} {f : String → Option α} {g : InterfaceEntry → α}
    (hm : OneLine m.moduleName) (h : ∀ e ∈ m.interfaces, Named e) (he : f "" = none)
    (hh : ∀ s, f ("// Generated by widl-nan for module `" ++ s) = none)
    (hf : ∀ e, Named e → (classLines e).filterMap f = [g e]) :
    (Text.lines (text m)).filterMap f = m.interfaces.map g := by
  have hl : Text.lines (text m) = lines m := Text.lines_unlines (oneLine_lines hm h)
  have hc : ∀ e ∈ m.interfaces, ("" :: classLines e).filterMap f = [g e] := by
    intro e hm
    rw [List.filterMap_cons_none he, hf e (h e hm)]
  rw [hl, lines, String.append_assoc, List.filterMap_cons_none (hh _), List.filterMap_flatMap,
    List.map_eq_flatMap]
  exact List.flatMap_congr hc

theorem exportedClasses_text (hm : OneLine m.moduleName) (h : ∀ e ∈ m.interfaces, Named e) :
    exportedClasses (text m) = m.interfaces.map (·.className) :=
  filterMap_lines_text hm h rfl (fun _ => exportedClass?_of_head (by simp))
    fun _ => exportedClass?_classLines

theorem constructors_text (hm : OneLine m.moduleName) (h : ∀ e ∈ m.interfaces, Named e) :
    constructors (text m) =
      m.interfaces.map (·.constructor.parameters.map (parameterName ·.name)) :=
  filterMap_lines_text hm h rfl (fun _ => boundNames?_of_head (by simp)) fun _ => boundNames?_classLines

end Lines

end Typings

open Typings

theorem InterfacePlan.Named.manifestEntry {plan : InterfacePlan} (h : plan.Named) :
    Typings.Named plan.manifestEntry where
  className  := h.name.wellFormed
  parameters := List.forall_mem_map.mpr fun q hq => (h.usable q hq).wellFormed
  attributes := List.forall_mem_map.mpr fun a ha => (h.attributes a ha).wellFormed

theorem manifestEntry_constructors {interfaces : List Interface} {plans : List InterfacePlan}
    (h : planAll interfaces = .ok plans) :
    plans.map (·.manifestEntry.constructor.parameters.map (parameterName ·.name)) =
      interfaces.map (·.constructor.map (parameterName ·.name)) := by
  have ⟨_, hs⟩ := planAll_eq_ok_iff.mp h
  clear * - hs
  induction hs
  case nil => rfl
  case cons i plan _ _ hi _ ih =>
    have hn := Interface.planned_parameter_names (Interface.plan_planned hi).parameters
    have hm := congrArg (List.map parameterName) hn
    rw [List.map_cons, List.map_cons, ih]
    simpa [InterfacePlan.manifestEntry, Function.comp_def] using hm

section Unit

variable {options : Options} {interfaces : List Interface} {u : CompiledUnit}

theorem bound_names (h : compile options interfaces = .ok u) :
    exportedClasses (text u.manifest) = interfaces.map (·.name) ∧
      constructors (text u.manifest) =
        interfaces.map (·.constructor.map (parameterName ·.name)) := by
  have ⟨hn, plans, hp, hu⟩ := compile_eq_ok_iff.mp h
  subst hu
  have hm : OneLine options.moduleName := (Role.check_eq_ok_iff.mp hn).wellFormed.not_mem rfl
  have hne : ∀ e ∈ plans.map (·.manifestEntry), Typings.Named e :=
    List.forall_mem_map.mpr fun plan hm => ((planAll_accepted hp).named plan hm).manifestEntry
  constructor
  case left =>
    rw [exportedClasses_text hm hne, ← planAll_names hp]
    exact List.map_map
  case right =>
    rw [constructors_text hm hne, ← manifestEntry_constructors hp]
    exact List.map_map

-- The declarations bind the names of the interfaces as they are, and those of the parameters with an
-- underscore after each reserved word. So no parameter is called like a reserved word, but a class
-- may be, and two parameters meet if one of them is called like another one after the renaming.
theorem typings_names (h : compile options interfaces = .ok u) :
    exportedClasses (text u.manifest) = interfaces.map (·.name) ∧
      constructors (text u.manifest) =
        interfaces.map (·.constructor.map (parameterName ·.name)) ∧
      (∀ names ∈ constructors (text u.manifest), ∀ name ∈ names, name ∉ reservedWords) ∧
      ((∀ name ∈ exportedClasses (text u.manifest), name ∉ reservedWords) ↔
        ∀ i ∈ interfaces, i.name ∉ reservedWords) ∧
      ((∀ names ∈ constructors (text u.manifest), names.Nodup) ↔
        ∀ i ∈ interfaces, ∀ p ∈ i.constructor, ∀ q ∈ i.constructor,
          p.name ∈ reservedWords → q.name ≠ p.name ++ "_") := by
  have ⟨hc, hk⟩ := bound_names h
  refine ⟨hc, hk, ?_, ?_, ?_⟩
  · rw [hk]
    refine List.forall_mem_map.mpr fun i _ => List.forall_mem_map.mpr fun p _ => ?_
    exact parameterName_not_mem p.name
  · rw [hc, List.forall_mem_map]
  · have ⟨_, plans, hp, _⟩ := compile_eq_ok_iff.mp h
    have ⟨_, hs⟩ := planAll_eq_ok_iff.mp hp
    rw [hk, List.forall_mem_map]
    refine forall₂_congr fun i hi => ?_
    have ⟨plan, _, hpl⟩ := exists_of_forall₂_left hs hi
    have hr := nodup_parameterName_iff (Interface.plan_wellFormed hpl).constructor.distinct
    simpa only [List.map_map, List.forall_mem_map, Function.comp_def] using hr

end Unit

def counter : Interface where
  name        := "Counter"
  constructor := [⟨"var", "long", false, none⟩, ⟨"step_", "long", true, none⟩]
  attributes  := [⟨"var", "long", false⟩, ⟨"step_", "long", false⟩]

theorem typings_names_counter :
    ∃ u, compile {} [counter] = .ok u ∧ exportedClasses (text u.manifest) = ["Counter"] ∧
      constructors (text u.manifest) = [["var_", "step_"]] := by
  have ⟨u, hu⟩ : ∃ u, compile {} [counter] = .ok u := ⟨_, rfl⟩
  have ⟨hc, hk, _⟩ := typings_names hu
  exact ⟨u, hu, hc, hk.trans (by simp [counter, parameterName, reservedWords])⟩

def scale : Interface where
  name        := "Scale"
  constructor := [⟨"var", "double", false, none⟩, ⟨"var_", "double", false, none⟩]
  attributes  := [⟨"var", "double", false⟩, ⟨"var_", "double", false⟩]

-- Words that are reserved for users of the module only can name a class, and the renaming of one
-- parameter can end at the name of another one.
theorem typings_names_collide :
    (∃ u, compile {} [⟨"function", [], [⟨"size", "double", false⟩]⟩] = .ok u ∧
      exportedClasses (text u.manifest) = ["function"] ∧ "function" ∈ reservedWords) ∧
    ∃ u, compile {} [scale] = .ok u ∧ constructors (text u.manifest) = [["var_", "var_"]] := by
  constructor
  case left =>
    have ⟨u, hu⟩ : ∃ u, compile {} [⟨"function", [], [⟨"size", "double", false⟩]⟩] = .ok u :=
      ⟨_, rfl⟩
    exact ⟨u, hu, (bound_names hu).left, by decide⟩
  case right =>
    have ⟨u, hu⟩ : ∃ u, compile {} [scale] = .ok u := ⟨_, rfl⟩
    exact ⟨u, hu, (bound_names hu).right.trans (by simp [scale, parameterName, reservedWords])⟩

end AddonBinding
