import AddonBinding.Proofs.SourceLines
import AddonBinding.Proofs.UnitProgram

namespace AddonBinding

open Source Text

namespace Source

-- What is indented belongs to an earlier line. Of the other lines, comments and the ends of bodies
-- declare nothing.
def isHeading (l : String) : Bool :=
  l.toList.head? ∉ [none, some ' ', some '/'] ∧ l ∉ ["\x7d", "\x7d;"]

def outline (ls : List String) : List String :=
  ls.filter isHeading

structure Outlined (heads ls : List String) : Prop where
  oneLine : ∀ l ∈ ls, OneLine l
  outline : outline ls = heads

theorem isHeading_of_head {l : String} {c : Char} (h : l.toList.head? = some c)
    (hc : c ∉ [' ', '/', '\x7d']) : isHeading l := by
  have hl (t : String) (ht : t.toList.head? = some '\x7d') : l ≠ t := by
    rintro rfl
    cases h.symm.trans ht
    simp at hc
  have h₁ := hl "\x7d" (by simp)
  have h₂ := hl "\x7d;" (by simp)
  simp_all [isHeading]

namespace Outlined

variable {heads heads' ls ls' : List String} {l : String} {c : Char}

theorem append (h : Outlined heads ls) (h' : Outlined heads' ls') :
    Outlined (heads ++ heads') (ls ++ ls') where
  oneLine := List.forall_mem_append.mpr ⟨h.oneLine, h'.oneLine⟩
  outline := by rw [Source.outline, List.filter_append, ← h.outline, ← h'.outline]; rfl

theorem headings (h : ∀ l ∈ ls, OneLine l) (hi : ∀ l ∈ ls, isHeading l) : Outlined ls ls where
  oneLine := h
  outline := List.filter_eq_self.mpr hi

theorem heading (h : OneLine l) (hi : isHeading l) : Outlined [l] [l] :=
  headings (List.forall_mem_singleton.mpr h) (List.forall_mem_singleton.mpr hi)

theorem hidden (h : ∀ l ∈ ls, OneLine l) (hi : ∀ l ∈ ls, isHeading l = false) : Outlined [] ls where
  oneLine := h
  outline := by simpa [Source.outline] using hi

theorem inner (h : ∀ l ∈ ls, Inner l) : Outlined [] ls := by
  refine hidden (fun l hl => (h l hl).oneLine) fun l hl => ?_
  simp [isHeading, (h l hl).indented]

theorem blank : Outlined [] [""] :=
  hidden (by decide) (by decide)

theorem closing : Outlined [] ["\x7d"] :=
  hidden (by decide) (by decide)

theorem spaced {α : Type} {f g : α → List String} {as : List α}
    (h : ∀ a ∈ as, Outlined (f a) (g a)) : Outlined (as.flatMap f) (spaced (as.map g)) := by
  induction as
  case nil => exact hidden nofun nofun
  case cons a as hi =>
    have ⟨ha, has⟩ := List.forall_mem_cons.mp h
    cases as
    case nil  => simpa [Source.spaced] using ha
    case cons =>
      exact ha.append <| blank.append (hi has)

end Outlined

namespace EntryPoint

def heading (e : EntryPoint) : String :=
  e.kind.head e.symbol ++ " \x7b"

def isPlain (e : EntryPoint) : Bool :=
  e.comment.all (OneLine ·) && OneLine e.symbol && Stmt.allPlain e.body

theorem outlined_lines {e : EntryPoint} (h : e.isPlain) : Outlined [e.heading] e.lines := by
  simp only [isPlain, Bool.and_eq_true, decide_eq_true_eq] at h
  have hc : Outlined [] (e.comment.map commentLine).toList := by
    cases hc : e.comment
    case none   => exact .hidden nofun nofun
    case some t =>
      have ht : OneLine t := by simpa [hc] using h.1.1
      exact .hidden (by simp +decide [commentLine, ht]) (by simp [isHeading, commentLine])
  have hk : OneLine e.kind.macroName ∧ e.kind.macroName.toList.head? = some 'N' := by
    cases e.kind <;> decide
  have hl : OneLine e.heading := by simp +decide [heading, EntryKind.head, hk.left, h.1.2]
  have hh : isHeading e.heading :=
    isHeading_of_head (c := 'N') (by simp [heading, EntryKind.head, hk.right]) (by decide)
  exact hc.append (.heading hl hh) |>.append (.inner <| Stmt.inner_blockLines 0 e.body h.2)
    |>.append .closing

end EntryPoint

namespace Function

def heading (f : Function) : String :=
  f.head ++ " \x7b"

def isPlain (f : Function) : Bool :=
  f.result.isPlain && OneLine f.name && (f.parameters.all fun p => p.1.isPlain && OneLine p.2) &&
    Stmt.allPlain f.body

theorem outlined_lines {f : Function} (h : f.isPlain) : Outlined [f.heading] f.lines := by
  simp only [isPlain, Bool.and_eq_true, decide_eq_true_eq, List.all_eq_true] at h
  have hp (g : TypeName × String → String) (hg : ∀ t n, g (t, n) = t.render ++ " " ++ n) :
      OneLine (", ".intercalate (f.parameters.map g)) := by
    refine OneLine.intercalate (by decide) (List.forall_mem_map.mpr fun p hp => ?_)
    simp +decide [hg p.1 p.2, TypeName.oneLine_render (h.1.2 p hp).1, (h.1.2 p hp).2]
  have hl : OneLine f.heading := by
    simp +decide [heading, head, TypeName.oneLine_render h.1.1.1, h.1.1.2, hp]
  have hh : isHeading f.heading :=
    isHeading_of_head (c := 'i') (by simp [heading, head]) (by decide)
  exact (.heading hl hh : Outlined [_] [_]).append (.inner <| Stmt.inner_blockLines 0 f.body h.2)
    |>.append .closing

end Function

namespace ClassDeclaration

def heading (c : ClassDeclaration) : String :=
  "class " ++ c.name ++ " : public Nan::ObjectWrap \x7b"

def isPlain (c : ClassDeclaration) : Bool :=
  OneLine c.name && (c.entries.all fun d => OneLine d.name) &&
    c.fields.all fun f => f.type.isPlain && OneLine f.name

theorem outlined_lines {c : ClassDeclaration} (h : c.isPlain) : Outlined [c.heading] c.lines := by
  simp only [isPlain, Bool.and_eq_true, decide_eq_true_eq, List.all_eq_true] at h
  obtain ⟨⟨hn, he⟩, hf⟩ := h
  have he : ∀ d ∈ c.entries, Inner (line 1 d.render) := by
    intro d hd
    have hk : OneLine d.kind.macroName := by cases d.kind <;> decide
    exact inner_line (by simp +decide [EntryDeclaration.render, EntryKind.head, hk, he d hd]) 0
  have hf : ∀ f ∈ c.fields, Inner (line 1 f.render) := by
    intro f hm
    obtain ⟨ht, hn⟩ := hf f hm
    exact inner_line (by simp +decide [Field.render, TypeName.oneLine_render ht, hn]) 0
  have hc : Outlined [c.heading] [c.heading] :=
    .heading (by simp +decide [heading, hn])
      (isHeading_of_head (c := 'c') (by simp [heading]) (by decide))
  have hs : Outlined [] [" public:", line 1 (EntryDeclaration.mk .moduleInit "Init").render, "",
      " private:"] := .hidden (by decide) (by decide)
  have hm : Outlined [] [line 1 (c.name ++ "();"), line 1 ("~" ++ c.name ++ "();")] := by
    refine .inner ?_
    simp only [List.forall_mem_cons]
    exact ⟨inner_line (by simp +decide [hn]) 0, inner_line (by simp +decide [hn]) 0,
      List.forall_mem_nil _⟩
  have hg : Outlined [] (spaced ([c.entries.map fun d => line 1 d.render]
      ++ (if c.fields.isEmpty then [] else [c.fields.map fun f => line 1 f.render]))) := by
    have he : Outlined [] (c.entries.map fun d => line 1 d.render) :=
      .inner (List.forall_mem_map.mpr he)
    split
    case isTrue  => exact he
    case isFalse => exact he.append <| Outlined.blank.append <| .inner (List.forall_mem_map.mpr hf)
  exact hc.append hs |>.append hm |>.append .blank |>.append hg
    |>.append (.hidden (by decide) (by decide) : Outlined [] ["\x7d;"])

end ClassDeclaration

namespace Item

def outline : Item → List String
  | .comments _         => []
  | .helpers functions  =>
    ["namespace " ++ helperNamespace ++ " \x7b"] ++ functions.map Function.heading ++
      ["\x7d  // namespace " ++ helperNamespace]
  | .classDeclaration c => [c.heading]
  | .entryPoint e       => [e.heading]
  | item                => item.lines

def isPlain : Item → Bool
  | .comments texts       => texts.all fun t => OneLine t ∧ t.toList.head? = some '/'
  | .includes headers     => headers.all (OneLine ·)
  | .helpers functions    => functions.all Function.isPlain
  | .classDeclaration c   => c.isPlain
  | .initialiser c fields =>
    Identifier.isValid c && !Identifier.isReserved c &&
      fields.all fun f => OneLine f.1 && f.2.isPlain
  | .destructor c         => Identifier.isValid c && !Identifier.isReserved c
  | .entryPoint e         => e.isPlain
  | .registration name    => OneLine name

end Item

end Source

theorem Identifier.usable_iff {name : String} : isValid name && !isReserved name ↔ Usable name := by
  rw [Bool.and_eq_true, isValid_iff, Bool.not_eq_true']
  exact ⟨fun ⟨h₁, h₂⟩ => ⟨h₁, h₂⟩, fun ⟨h₁, h₂⟩ => ⟨h₁, h₂⟩⟩

namespace Identifier.WellFormed

variable {name : String}

theorem oneLine (w : WellFormed name) : OneLine name :=
  w.not_mem (by decide)

theorem isHeading_append (w : WellFormed name) (s : String) : isHeading (name ++ s) := by
  have ⟨c, cs, hc⟩ := List.exists_cons_of_ne_nil w.nonempty
  refine isHeading_of_head (c := c) (by simp [hc]) fun hm => ?_
  simp only [List.mem_cons, List.not_mem_nil, or_false] at hm
  have hc : c ∈ name.toList := by simp [hc]
  rcases hm with rfl | rfl | rfl <;> exact w.not_mem (by decide) hc

end Identifier.WellFormed

namespace Source.Item

theorem outlined_lines {item : Item} (h : item.isPlain) : Outlined item.outline item.lines := by
  cases item
  case comments texts =>
    have h : ∀ t ∈ texts, OneLine t ∧ t.toList.head? = some '/' := by simpa [isPlain] using h
    exact .hidden (fun t ht => (h t ht).left) fun t ht => by simp [isHeading, (h t ht).right]
  case includes headers =>
    have h : ∀ t ∈ headers, OneLine t := by simpa [isPlain] using h
    refine .headings (List.forall_mem_map.mpr fun t ht => ?_) (List.forall_mem_map.mpr fun t _ => ?_)
    · simp +decide [h t ht]
    · exact isHeading_of_head (c := '#') (by simp) (by decide)
  case helpers functions =>
    have hf : Outlined (functions.map Function.heading)
        (spaced (functions.map Function.lines)) := by
      rw [List.map_eq_flatMap]
      exact .spaced fun f hf => Function.outlined_lines (List.all_eq_true.mp h f hf)
    have hs : Outlined ["namespace " ++ helperNamespace ++ " \x7b"]
        ["namespace " ++ helperNamespace ++ " \x7b"] := .heading (by decide) (by decide)
    have he : Outlined ["\x7d  // namespace " ++ helperNamespace]
        ["\x7d  // namespace " ++ helperNamespace] := .heading (by decide) (by decide)
    exact (hs.append .blank).append hf |>.append (Outlined.blank.append he)
  case classDeclaration c => exact ClassDeclaration.outlined_lines h
  case initialiser c fields =>
    have ⟨hc, hf⟩ := Bool.and_eq_true_iff.mp h
    have w := (Identifier.usable_iff.mp hc).wellFormed
    have hf (g : String × Expr → String) (hg : ∀ f e, g (f, e) = f ++ "(" ++ e.render ++ ")") :
        OneLine (", ".intercalate (fields.map g)) := by
      refine OneLine.intercalate (by decide) (List.forall_mem_map.mpr fun f hm => ?_)
      have hf : OneLine f.1 ∧ f.2.isPlain := by simpa using List.all_eq_true.mp hf f hm
      simp +decide [hg f.1 f.2, hf.left, Expr.oneLine_render f.2 hf.right]
    refine .heading ?_ ?_
    · split <;> simp +decide [w.oneLine, hf]
    · simp only [String.append_assoc]
      exact w.isHeading_append _
  case destructor c =>
    have w := (Identifier.usable_iff.mp h).wellFormed
    refine .heading (by simp +decide [w.oneLine]) ?_
    simp only [String.append_assoc]
    exact w.isHeading_append _
  case entryPoint e => exact EntryPoint.outlined_lines h
  case registration name =>
    refine .heading ?_ (isHeading_of_head (c := 'N') (by simp) (by decide))
    simp +decide [of_decide_eq_true h]

end Source.Item

namespace Source

namespace Stmt

theorem allPlain_iff {body : List Stmt} : allPlain body ↔ ∀ s ∈ body, s.isPlain := by
  induction body
  case nil     => simp [allPlain]
  case cons hi => simp [allPlain, hi]

theorem allPlain_append (body body' : List Stmt) :
    allPlain (body ++ body') = (allPlain body && allPlain body') := by
  rw [Bool.eq_iff_iff, Bool.and_eq_true]
  simp only [allPlain_iff, List.forall_mem_append]

end Stmt

namespace Helper

theorem isPlain_decodeBody (policy : CoercionPolicy) (t : ScalarType) :
    Stmt.allPlain (decodeBody policy t) := by
  cases t
  case text    => rfl
  case boolean => rfl
  case float t =>
    obtain ⟨single, unrestricted⟩ := t
    cases single <;> cases unrestricted <;> rfl
  case integer t =>
    unfold decodeBody integerBody
    have ht := TypeName.isPlain_storage (.integer t)
    cases policy.integerOverflow <;> cases policy.integerNaN <;>
      simp +decide [numericStart, nanBody, succeed, fail, Stmt.when, Stmt.returnBool,
        Stmt.allPlain, Stmt.isPlain, Expr.callName, Expr.isPlain, Expr.allPlain, ht]

theorem isPlain_toNumericBody (policy : CoercionPolicy) :
    Stmt.allPlain (toNumericBody policy) := by
  obtain ⟨numericStrings, emptyStringAsZero, _, _⟩ := policy
  cases numericStrings <;> cases emptyStringAsZero <;> rfl

theorem isPlain_function (policy : CoercionPolicy) (h : Helper) : (function policy h).isPlain := by
  have hb : Stmt.allPlain isBlankBody := rfl
  have hw : Stmt.allPlain wrapBody := rfl
  have hn : OneLine h.name := by
    cases h
    case decode t => exact oneLine_append.mpr ⟨by decide, t.oneLine_camelName⟩
    all_goals decide
  cases h
  all_goals simp +decide [function, Function.isPlain, hn, hb, hw, hostValue, TypeName.isPlain,
    TypeName.isPlain_storage, isPlain_toNumericBody, isPlain_decodeBody]

end Helper

theorem isPlain_helperItems (policy : CoercionPolicy) (types : List ScalarType) :
    ∀ item ∈ helperItems policy types, item.isPlain := by
  unfold helperItems
  split
  case isTrue  => nofun
  case isFalse => simp [Item.isPlain, Helper.isPlain_function]

theorem trimEnd_append_cons {p : Char → Bool} {c : Char} (hc : p c = false)
    (start cs : List Char) : trimEnd p (start ++ c :: cs) = start ++ c :: trimEnd p cs := by
  simp only [trimEnd, List.reverse_append, List.reverse_cons, List.append_assoc,
    List.dropWhile_append]
  split
  case isTrue h =>
    rw [List.isEmpty_iff.mp h]
    simp [hc]
  case isFalse => simp

theorem trimEnd_head {p : Char → Bool} {c : Char} {cs : List Char} (hc : p c = false) :
    (trimEnd p (c :: cs)).head? = some c :=
  congrArg List.head? (trimEnd_append_cons hc [] cs)

theorem isPlain_header (options : Options) (count : Nat) : (header options count).isPlain := by
  have hb : ∀ banner, ∀ l ∈ bannerLines banner, OneLine l ∧ l.toList.head? = some '/' := by
    intro banner
    refine List.forall_mem_map.mpr fun l hl => ⟨oneLine_ofList.mpr fun hm => ?_, ?_⟩
    · have hm : ¬OneLine (commentLine l) := not_not.mpr <| mem_of_mem_trimEnd hm
      simp +decide [commentLine, oneLine_of_mem_lines hl] at hm
    · simpa [commentLine] using trimEnd_head (by decide)
  have hc : OneLine (if count = 1 then "" else "s") := by split <;> decide
  cases hn : options.banner
  case none   => simp +decide [header, hn, Item.isPlain, commentLine, hc]
  case some b => simpa +decide [header, hn, Item.isPlain, commentLine, hc] using hb b

theorem isPlain_warningItems (options : Options) {ws : List Warning}
    (h : ∀ w ∈ ws, OneLine w.message) : ∀ item ∈ warningItems options ws, item.isPlain := by
  have hl (w : Warning) : OneLine w.label := by cases w <;> simp +decide [Warning.label]
  unfold warningItems
  split
  case isTrue  => nofun
  case isFalse =>
    rw [List.forall_mem_singleton]
    simpa +decide [Item.isPlain, commentLine, hl] using h

end Source

section Plans

variable {plan : InterfacePlan} {a : AttributePlan} {className : String}

theorem isPlain_encodeExpr (t : ScalarType) (stored : Expr) :
    (encodeExpr t stored).isPlain = stored.isPlain := by
  cases t <;> simp +decide [encodeExpr, Expr.callName, Expr.method, Expr.isPlain, Expr.allPlain,
    TypeName.isPlain]

theorem isPlain_throwing (message : Expr) : Stmt.allPlain (throwing message) = message.isPlain := by
  simp +decide [throwing, Stmt.allPlain, Stmt.isPlain, Expr.callName, Expr.isPlain, Expr.allPlain]

theorem isPlain_unwrapSelf (hc : OneLine className) : (unwrapSelf className).isPlain := by
  simp +decide [unwrapSelf, classPointer, Stmt.isPlain, TypeName.isPlain, Expr.callName,
    Expr.method, Expr.isPlain, Expr.allPlain, hc]

theorem isPlain_decodeCall (t : ScalarType) (value : Expr) (name : String) :
    (decodeCall t value name).isPlain = (value.isPlain && OneLine name) := by
  simp +decide [decodeCall, Expr.callName, Expr.isPlain, Expr.allPlain, Helper.name,
    t.oneLine_camelName]

namespace AttributePlan

theorem isPlain_getterEntry (hc : OneLine className) (ha : OneLine a.name) :
    (a.getterEntry className).isPlain := by
  have hs : OneLine a.signature := by
    unfold signature
    split <;> simp +decide [a.type.oneLine_tag, ha]
  simp +decide [getterEntry, EntryPoint.isPlain, Stmt.allPlain, isPlain_unwrapSelf hc, answer,
    Stmt.isPlain, Expr.method, Expr.isPlain, Expr.allPlain, isPlain_encodeExpr, selfField, hs, hc,
    getter, field, ha]

theorem isPlain_setterEntry {setter : String} (hc : OneLine className) (ha : OneLine a.name)
    (hs : setter ∈ a.setter?) : (a.setterEntry className setter).isPlain := by
  have hs : setter = "Set_" ++ a.name := by
    unfold setter? at hs
    split at hs <;> simp_all
  simp +decide [setterEntry, EntryPoint.isPlain, Stmt.allPlain, isPlain_unwrapSelf hc, Stmt.when,
    Stmt.isPlain, TypeName.isPlain_storage, Expr.isPlain, isPlain_decodeCall, isPlain_throwing,
    selfField, field, hs, hc, ha]

theorem isPlain_registration (ha : OneLine a.name) : a.registration.isPlain := by
  have hf : a.flagsExpr.isPlain := by
    unfold flagsExpr
    split <;> rfl
  have hs : (a.setter?.elim (Expr.natural 0) Expr.name).isPlain := by
    unfold setter?
    split <;> simp +decide [Expr.isPlain, ha]
  simp +decide [registration, Stmt.isPlain, Expr.callName, Expr.arrowMethod, Expr.method, hostName,
    Expr.isPlain, Expr.allPlain, getter, ha, hf, hs]

end AttributePlan

namespace ConstructorPlan

variable {c : ConstructorPlan}

theorem oneLine_signature (h : ∀ q ∈ c.parameters, OneLine q.name) : OneLine c.signature := by
  have hp : ∀ q ∈ c.parameters, OneLine (parameterSignature q) := by
    intro q hq
    unfold parameterSignature
    split <;> simp +decide [q.type.oneLine_tag, h q hq, NativeValue.oneLine_describe]
  have hs := OneLine.intercalate (s := ", ") (by decide) (List.forall_mem_map.mpr hp)
  simp +decide [signature, hs]

theorem isPlain_decodeArgument {q : ParameterPlan} (h : OneLine q.name) (n : Nat) :
    (c.decodeArgument n q).isPlain := by
  unfold decodeArgument
  split <;> simp +decide [Stmt.when, Stmt.isPlain, Stmt.allPlain, isPlain_throwing,
    isPlain_decodeCall, Expr.isPlain, h]

theorem isPlain_body (hc : OneLine c.interface) (h : ∀ q ∈ c.parameters, OneLine q.name) :
    Stmt.allPlain c.body := by
  have ha : c.arityCondition.isPlain := by
    unfold arityCondition
    split <;> rfl
  have ht : Stmt.allPlain c.arityThrow := rfl
  have hv : Stmt.allPlain (c.parameters.map argumentVariable) := by
    refine Stmt.allPlain_iff.mpr (List.forall_mem_map.mpr fun q hq => ?_)
    simp [argumentVariable, Stmt.isPlain, TypeName.isPlain_storage, h q hq]
  have hd (g : ParameterPlan × Nat → Stmt) (hg : ∀ q n, g (q, n) = c.decodeArgument n q) :
      Stmt.allPlain (c.parameters.zipIdx.map g) := by
    refine Stmt.allPlain_iff.mpr (List.forall_mem_map.mpr fun q hq => ?_)
    rw [hg q.1 q.2]
    exact isPlain_decodeArgument (h q.1 (List.fst_mem_of_mem_zipIdx hq)) q.2
  have hf : Stmt.allPlain
      (c.parameters.map fun q => .assign (selfField (q.name ++ "_")) (.name q.name)) := by
    refine Stmt.allPlain_iff.mpr (List.forall_mem_map.mpr fun q hq => ?_)
    simp +decide [selfField, Stmt.isPlain, Expr.isPlain, h q hq]
  simp +decide [body, Stmt.allPlain_append, Stmt.allPlain, Stmt.when, Stmt.isPlain, answer,
    classPointer, TypeName.isPlain, Expr.method, Expr.arrowMethod, Expr.isPlain, Expr.allPlain,
    isPlain_throwing, ha, ht, hv, hd, hf, hc]

end ConstructorPlan

theorem InterfacePlan.registrations_eq (plan : InterfacePlan) :
    plan.fragments.flatMap Fragment.registrations = plan.attributes.map (·.registration) := by
  rw [fragments, List.flatMap_cons, List.flatMap_map, List.map_eq_flatMap]
  rfl

namespace InterfacePlan.Named

theorem isPlain_initEntry (h : plan.Named) : plan.initEntry.isPlain := by
  have hr : Stmt.allPlain (plan.fragments.flatMap Fragment.registrations) := by
    rw [registrations_eq, Stmt.allPlain_iff, List.forall_mem_map]
    exact fun a ha => a.isPlain_registration (h.attributes a ha).wellFormed.oneLine
  simp +decide [initEntry, EntryPoint.isPlain, Stmt.allPlain_append, Stmt.allPlain, Stmt.isPlain,
    TypeName.isPlain, Expr.callName, Expr.method, Expr.arrowMethod, hostName, Expr.isPlain,
    Expr.allPlain, hr, h.name.wellFormed.oneLine]

theorem isPlain_entryPoints (h : plan.Named) : ∀ e ∈ plan.entryPoints, e.isPlain := by
  intro e he
  have hn := h.name.wellFormed.oneLine
  have hi : OneLine plan.constructor.interface := h.interface ▸ hn
  have hp q (hq : q ∈ plan.constructor.parameters) := (h.usable q hq).wellFormed.oneLine
  rcases mem_entryPoints.mp he with rfl | he | ⟨a, ha, rfl | ⟨setter, hs, rfl⟩⟩
  · exact h.isPlain_initEntry
  · rw [List.mem_singleton.mp he]
    simp +decide [EntryPoint.isPlain, ConstructorPlan.oneLine_signature hp,
      ConstructorPlan.isPlain_body hi hp, hi]
  · exact a.isPlain_getterEntry hn (h.attributes a ha).wellFormed.oneLine
  · exact a.isPlain_setterEntry hn (h.attributes a ha).wellFormed.oneLine hs

theorem isPlain_classDeclaration (h : plan.Named) : plan.classDeclaration.isPlain := by
  have ha a (ha : a ∈ plan.attributes) := (h.attributes a ha).wellFormed.oneLine
  have he : ∀ d ∈ plan.fragments.flatMap Fragment.entries, OneLine d.name := by
    simp only [fragments, ConstructorPlan.fragment, AttributePlan.fragment, List.flatMap_cons,
      List.flatMap_map, List.forall_mem_append, List.forall_mem_singleton, List.mem_flatMap]
    refine ⟨by decide, ?_⟩
    rintro d ⟨a, hm, hd⟩
    have hd : d = ⟨.getter, a.getter⟩ ∨ ∃ setter ∈ a.setter?, d = ⟨.setter, setter⟩ := by
      simpa [eq_comm] using hd
    rcases hd with rfl | ⟨setter, hs, rfl⟩
    · simp +decide [AttributePlan.getter, ha a hm]
    · unfold AttributePlan.setter? at hs
      split at hs <;> cases hs
      simp +decide [ha a hm]
  have hf : ∀ f ∈ plan.fragments.flatMap Fragment.fields, f.type.isPlain ∧ OneLine f.name := by
    simp only [fragments, ConstructorPlan.fragment, AttributePlan.fragment, List.flatMap_cons,
      List.flatMap_map, List.nil_append, List.mem_flatMap, List.mem_singleton]
    rintro f ⟨a, hm, rfl⟩
    simp +decide [TypeName.isPlain_storage, AttributePlan.field, ha a hm]
  simp only [ClassDeclaration.isPlain, Bool.and_eq_true, List.all_eq_true, decide_eq_true_eq]
  exact ⟨⟨h.name.wellFormed.oneLine, he⟩, hf⟩

theorem oneLine_warnings (h : plan.Named) : ∀ w ∈ plan.warnings, OneLine w.message := by
  have hi {s t : String} (hs : OneLine s) (ht : OneLine t) : OneLine (s ++ plan.name ++ t) :=
    oneLine_append.mpr ⟨oneLine_append.mpr ⟨hs, h.name.wellFormed.oneLine⟩, ht⟩
  have hm {s : String} (hs : OneLine s) {a} (ha : a ∈ plan.attributes) : OneLine (s ++ a.name) :=
    oneLine_append.mpr ⟨hs, (h.attributes a ha).wellFormed.oneLine⟩
  intro w hw
  rcases List.mem_append.mp hw with hw | hw
  · split at hw
    case isFalse => contradiction
    case isTrue  =>
      cases List.mem_singleton.mp hw
      exact hi (by decide) (by decide)
  · have ⟨a, ha, hw⟩ := List.mem_flatMap.mp hw
    rcases List.mem_append.mp hw with hw | hw
    · split at hw
      case isFalse => contradiction
      case isTrue  =>
        cases List.mem_singleton.mp hw
        exact oneLine_append.mpr ⟨hm (hi (by decide) (by decide)) ha, by decide⟩
    · split at hw
      case h_2 => contradiction
      case h_1 =>
        cases List.mem_singleton.mp hw
        refine oneLine_append.mpr ⟨oneLine_append.mpr ⟨?_, a.type.oneLine_tag⟩, by decide⟩
        exact oneLine_append.mpr ⟨hm (hi (by decide) (by decide)) ha, by decide⟩

end InterfacePlan.Named

end Plans

namespace CompiledUnit

variable {options : Options} {plans : List InterfacePlan}

theorem isPlain_items (hm : Identifier.Usable options.moduleName) (h : Accepted plans) :
    ∀ item ∈ (ofPlans options plans).items, item.isPlain := by
  have hd : ∀ plan ∈ plans, ∀ item ∈ plan.definitions, item.isPlain := by
    intro plan hp
    have hn := h.named plan hp
    have hv : Identifier.isValid plan.name && !Identifier.isReserved plan.name :=
      Identifier.usable_iff.mpr hn.name
    have he : ∀ e ∈ plan.entryPoints, (Item.entryPoint e).isPlain := hn.isPlain_entryPoints
    have hf : (Item.initialiser plan.name plan.initialFields).isPlain := by
      have ha a (ha : a ∈ plan.attributes) := (hn.attributes a ha).wellFormed.oneLine
      refine Bool.and_eq_true_iff.mpr ⟨hv, ?_⟩
      simpa +decide [InterfacePlan.initialFields, Expr.isPlain, AttributePlan.field] using ha
    have he := List.forall_mem_cons.mp he
    simp only [InterfacePlan.definitions, List.forall_mem_append, List.forall_mem_cons,
      List.forall_mem_map]
    exact ⟨⟨hf, hv, he.left, List.forall_mem_nil _⟩, he.right⟩
  have hi : (Item.entryPoint (initAllEntry plans)).isPlain := by
    have hb : Stmt.allPlain (initAllEntry plans).body := by
      refine Stmt.allPlain_iff.mpr (List.forall_mem_map.mpr fun plan hp => ?_)
      simp +decide [Stmt.isPlain, Expr.callName, Expr.isPlain, Expr.allPlain,
        (h.named plan hp).name.wellFormed.oneLine]
    exact Bool.and_eq_true_iff.mpr ⟨decide_eq_true (by decide : OneLine "InitAll"), hb⟩
  have hw : ∀ w ∈ plans.flatMap InterfacePlan.warnings, OneLine w.message := by
    simpa using fun w plan hp => (h.named plan hp).oneLine_warnings w
  simp only [ofPlans, unitItems, List.forall_mem_append, List.forall_mem_cons, List.forall_mem_map,
    List.forall_mem_flatMap]
  exact ⟨⟨⟨⟨⟨⟨isPlain_header .., rfl, rfl, List.forall_mem_nil _⟩, isPlain_helperItems _ _⟩,
    fun plan hp => (h.named plan hp).isPlain_classDeclaration⟩, hd⟩,
    hi, decide_eq_true hm.wellFormed.oneLine, List.forall_mem_nil _⟩,
    isPlain_warningItems options hw⟩

end CompiledUnit

end AddonBinding
