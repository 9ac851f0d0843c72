import AddonBinding.Proofs.LineStarts
import AddonBinding.Proofs.ReadHelpers

namespace AddonBinding

open Source Token

section Names

variable {n : String} {cs m : List Char} {d : Char}

theorem castType?_eq_none (h : ¬"static_cast<".toList <+: cs) : Word.castType? cs = none := by
  have hp : "static_cast<".toList.isPrefixOf? cs = none := by
    rw [← Option.not_isSome_iff_eq_none, List.isSome_isPrefixOf?_eq_isPrefixOf,
      List.isPrefixOf_iff_prefix]
    exact h
  rw [Word.castType?, hp]
  rfl

-- No name is taken for another kind of word.
theorem isReadable_name (h : isName n.toList) (hw : n ∉ ["true", "false", "new"])
    (hs : ¬"static_cast<".toList <+: n.toList) : (Expr.name n).isReadable := by
  simp only [List.mem_cons, List.not_mem_nil, or_false, not_or] at hw
  have ho : Word.ofChars n.toList = .name n := by
    simp only [Word.ofChars, String.toList_inj, hw, if_false, castType?_eq_none hs]
    simp
  simp [Expr.isReadable, h, ho]

theorem all_isWordChar (h : isWord cs) : cs.all isWordChar :=
  (Bool.and_eq_true_iff.mp h).right

theorem isWord_append (h : isWord cs) (hm : m.all isWordChar) : isWord (cs ++ m) := by
  simp only [isWord, Bool.and_eq_true] at h ⊢
  refine ⟨?_, by rw [List.all_append, h.2, hm]; rfl⟩
  cases cs
  case nil  => exact absurd h.1 Bool.false_ne_true
  case cons => exact h.1

theorem isReadable_word (h : isWord n.toList) (hw : n ∉ ["true", "false", "new"]) :
    (Expr.name n).isReadable := by
  refine isReadable_name (isName_of_isWord h) hw fun hs => ?_
  have hc : isWordChar '<' := List.all_eq_true.mp (all_isWordChar h) _ (hs.mem (by decide))
  exact absurd hc (by decide)

theorem keyword_eq_none (h : n ∉ Keyword.table.map (·.1)) : Keyword.ofChars? n.toList = none := by
  rw [Keyword.ofChars?, String.ofList_toList, List.lookup_eq_none_iff]
  intro k hk
  rw [bne_iff_ne]
  rintro rfl
  exact h (List.mem_map_of_mem hk)

theorem not_mem_of_mem {ws : List String} (hd : d ∈ n.toList) (hw : ∀ w ∈ ws, d ∉ w.toList) :
    n ∉ ws :=
  fun h => hw n h hd

end Names

namespace Identifier

variable {n : String}

theorem isWordChar_of_isLetter {c : Char} (h : isLetter c) : isWordChar c := by
  simp only [isLetter, Bool.or_eq_true, beq_iff_eq] at h
  rcases h with h | rfl
  · simp [isWordChar, Char.isAlphanum, h]
  · decide

theorem WellFormed.isWord (w : WellFormed n) : isWord n.toList := by
  have hv := isValid_iff.mpr w
  unfold isValid at hv
  split at hv
  case _ => contradiction
  case _ c rest h =>
    simp only [Bool.and_eq_true, List.all_eq_true, Bool.or_eq_true] at hv
    have hd : c.isDigit = false := by
      rw [← Bool.not_eq_true, isDigit_iff]
      exact (isLetter_iff.mp hv.1).not_isDigit
    have hr : ∀ c ∈ rest, isWordChar c := by
      intro c hc
      rcases hv.2 c hc with h | h
      · exact isWordChar_of_isLetter h
      · simp [isWordChar, Char.isAlphanum, h]
    simpa [Source.isWord, h, isWordChar_of_isLetter hv.1, hd] using hr

namespace Usable

variable {ws : List String}

theorem not_mem (h : Usable n) (hw : ∀ w ∈ ws, isReserved w || !isValid w) : n ∉ ws := by
  intro hn
  simpa [h.unreserved, isValid_iff.mpr h.wellFormed] using hw n hn

theorem isWord (h : Usable n) : isWord n.toList :=
  h.wellFormed.isWord

-- The symbol of an entry point of a class.
theorem isName_symbol (h : Usable n) {m : String} (hm : Source.isWord m.toList) :
    isName (n ++ "::" ++ m).toList := by
  simpa using isName_qualified h.isWord hm

theorem isReadable_name (h : Usable n) : (Expr.name n).isReadable :=
  isReadable_word h.isWord (h.not_mem (by decide))

theorem isBase (h : Usable n) : Variable.isBase (.named n) := by
  have hk := keyword_eq_none (h.not_mem (by decide))
  have ht : TypeName.ofName n = .named n := by
    have hb : n ∉ TypeName.builtIn.map TypeName.render := h.not_mem (by decide)
    have hf : TypeName.builtIn.find? (·.render = n) = none := by
      refine List.find?_eq_none.mpr fun t ht => ?_
      rw [decide_eq_true_eq]
      rintro rfl
      exact hb (List.mem_map_of_mem ht)
    rw [TypeName.ofName, hf]
    rfl
  have hc : n ∉ ["const", "unsigned"] := h.not_mem (by decide)
  simp only [List.mem_cons, List.not_mem_nil, or_false, not_or] at hc
  simp [Variable.isBase, TypeName.render, isName_of_isWord h.isWord, ht, hk, hc]

end Usable

end Identifier

section Plans

open Identifier

variable {plan : InterfacePlan} {a : AttributePlan} {className name : String}

namespace Source

theorem Expr.isReadable_callName {args : List Expr} (h : (Expr.name name).isReadable)
    (ha : allReadable args) : (callName name args).isReadable := by
  rw [callName, isReadable, h, ha]
  rfl

theorem isReadable_encodeExpr (t : ScalarType) {stored : Expr} (h : stored.isReadable) :
    (encodeExpr t stored).isReadable := by
  cases t <;> simp +decide [encodeExpr, Expr.callName, Expr.method, Expr.isReadable,
    Expr.isObject, Expr.allReadable, h]

theorem isReadable_answer {value : Expr} (h : value.isReadable) : (answer value).isReadable := by
  simp +decide [answer, Stmt.isReadable, Expr.method, Expr.isReadable, Expr.isObject,
    Expr.allReadable, Expr.tokens, Line.isStart, Line.goesOn, h]

theorem isReadable_throwing {message : Expr} (h : message.isReadable) :
    Stmt.allReadable (throwing message) := by
  simp +decide [throwing, Stmt.allReadable, Stmt.isReadable, Expr.callName, Expr.isReadable,
    Expr.isObject, Expr.allReadable, Expr.tokens, Line.isStart, Line.goesOn, h]

theorem isReadable_throwingText (s : String) : Stmt.allReadable (throwing (.text s)) :=
  isReadable_throwing rfl

theorem isReadable_assignField {value : Expr} (h : isName name.toList) (hv : value.isReadable) :
    (Stmt.assign (selfField name) value).isReadable := by
  simp +decide [Stmt.isReadable, selfField, Expr.isReadable, Expr.isObject, Expr.tokens,
    Line.isStart, Line.goesOn, h, hv]

theorem isReadable_decodeCall (t : ScalarType) {value : Expr} (hv : value.isReadable)
    (hn : (Expr.name name).isReadable) : (decodeCall t value name).isReadable := by
  have hd : ∀ t ∈ ScalarType.all, (Expr.name
      (helperNamespace ++ "::" ++ (Helper.decode t).name)).isReadable := by
    decide
  have ha : (Expr.addressOf (.name name)).isReadable := by
    rw [Expr.isReadable, hn]
    rfl
  exact Expr.isReadable_callName (hd t t.mem_all) (by simp [Expr.allReadable, hv, ha])

theorem isReadable_storage (t : ScalarType) (h : isName name.toList) :
    Variable.isReadable ⟨false, .storage t, name⟩ := by
  have hb := isBase_storage t
  cases t
  case float t =>
    obtain ⟨single, _⟩ := t
    cases single <;> simp_all [Variable.isReadable, Variable.form, TypeName.storage]
  all_goals simp_all [Variable.isReadable, Variable.form, TypeName.storage]

theorem isReadable_self (h : Usable className) :
    Variable.isReadable ⟨false, classPointer className, "self"⟩ := by
  simp +decide [Variable.isReadable, Variable.form, classPointer, h.isBase]

theorem isReadable_unwrapSelf (h : Usable className) : (unwrapSelf className).isReadable := by
  have hw : className.toList.all isNameChar := by
    refine List.all_eq_true.mpr fun c hc => ?_
    simp [isNameChar, List.all_eq_true.mp (all_isWordChar h.isWord) c hc]
  have hc : ("::ObjectWrap::Unwrap<".toList ++ className.toList ++ ">".toList).all isNameChar := by
    rw [List.all_append, List.all_append, hw]
    decide
  have hl : className.toList.count '<' = 0 :=
    List.count_eq_zero.mpr (h.wellFormed.not_mem (by decide))
  have hn : isName ("Nan".toList ++
      ("::ObjectWrap::Unwrap<".toList ++ className.toList ++ ">".toList)) :=
    isName_append (by decide) hc (by simp [List.count_append, hl])
  have hu : (Expr.name ("Nan::ObjectWrap::Unwrap<" ++ className ++ ">")).isReadable := by
    refine isReadable_name (by simpa using hn) (not_mem_of_mem (d := 'N') (by simp) (by decide)) ?_
    simp
  have ha : Expr.allReadable [(Expr.name "info").method "Holder"] := by decide
  simp [unwrapSelf, Stmt.isReadable, isReadable_self h, Expr.isReadable_callName hu ha]

end Source

namespace AttributePlan

theorem isWord_field (h : Usable a.name) : isWord a.field.toList := by
  rw [field, String.toList_append]
  exact isWord_append h.isWord (by decide)

theorem isWord_getter (h : Usable a.name) : isWord a.getter.toList := by
  rw [getter, String.toList_append]
  exact isWord_append (by decide) (all_isWordChar h.isWord)

theorem isWord_setter {setter : String} (h : Usable a.name) (hs : setter ∈ a.setter?) :
    isWord setter.toList := by
  unfold setter? at hs
  split at hs <;> cases hs
  rw [String.toList_append]
  exact isWord_append (by decide) (all_isWordChar h.isWord)

theorem isReadable_getterEntry (hc : Usable className) (ha : Usable a.name) :
    (a.getterEntry className).isReadable := by
  have hf : isName a.field.toList := isName_of_isWord (isWord_field ha)
  have hs : isName (className ++ "::" ++ a.getter).toList := hc.isName_symbol (isWord_getter ha)
  have hf : (selfField a.field).isReadable := by
    simp +decide [selfField, Expr.isReadable, Expr.isObject, hf]
  have hv := isReadable_answer (isReadable_encodeExpr a.type hf)
  rw [EntryPoint.isReadable, getterEntry, hs]
  simp [Stmt.allReadable, isReadable_unwrapSelf hc, hv]

theorem isReadable_setterEntry {setter : String} (hc : Usable className) (ha : Usable a.name)
    (hs : setter ∈ a.setter?) : (a.setterEntry className setter).isReadable := by
  have hs : isName (className ++ "::" ++ setter).toList := hc.isName_symbol (isWord_setter ha hs)
  have hv : Variable.isReadable ⟨false, .storage a.type, "decoded"⟩ :=
    isReadable_storage a.type (by decide)
  have hd : (Expr.not (decodeCall a.type (.name "value") "decoded")).isReadable := by
    rw [Expr.isReadable, isReadable_decodeCall a.type (by decide) (by decide)]
    rfl
  have hf := isReadable_assignField (isName_of_isWord (isWord_field ha))
    (by decide : (Expr.name "decoded").isReadable)
  rw [EntryPoint.isReadable, setterEntry, hs]
  rw [Stmt.isReadable] at hf
  simp [Stmt.allReadable, Stmt.when, Stmt.isReadable, isReadable_unwrapSelf hc, hv, hd, hf,
    isReadable_throwingText, Expr.isReadable_ofNative]

theorem isReadable_registration (ha : Usable a.name) : a.registration.isReadable := by
  have hf : a.flagsExpr.isReadable := by
    unfold flagsExpr
    split <;> decide
  have hg : (Expr.name a.getter).isReadable :=
    isReadable_word (isWord_getter ha) (not_mem_of_mem (d := '_') (by simp [getter]) (by decide))
  have hs : (a.setter?.elim (Expr.natural 0) Expr.name).isReadable := by
    cases hs : a.setter?
    case none   => rfl
    case some s =>
      refine isReadable_word (isWord_setter ha hs) (not_mem_of_mem (d := '_') ?_ (by decide))
      unfold setter? at hs
      split at hs <;> cases hs
      simp
  have ha : Expr.allReadable [(Expr.name "tpl").arrowMethod "InstanceTemplate", hostName a.name,
      .name a.getter, a.setter?.elim (.natural 0) .name, .callName "v8::Local<v8::Value>" [],
      .name "v8::DEFAULT", a.flagsExpr] := by
    simp only [Expr.allReadable, hg, hs, hf]
    simp +decide [Expr.arrowMethod, Expr.method, hostName, Expr.callName, Expr.isReadable,
      Expr.isObject, Expr.allReadable]
  rw [registration, Stmt.isReadable, Expr.isReadable_callName (by decide) ha]
  simp +decide [Expr.callName, Expr.tokens, Line.isStart, Line.goesOn]

end AttributePlan

namespace ConstructorPlan

variable {c : ConstructorPlan}

theorem isReadable_decodeArgument {q : ParameterPlan} (h : Usable q.name) (n : Nat) :
    (c.decodeArgument n q).isReadable := by
  have hi : (Expr.index (.name "info") (.natural n)).isReadable := by
    simp +decide [Expr.isReadable, Expr.isObject]
  have hf (e : Expr) (he : e = decodeCall q.type (.index (.name "info") (.natural n)) q.name) :
      (Expr.not e).isReadable := by
    rw [he, Expr.isReadable, isReadable_decodeCall q.type hi h.isReadable_name]
    rfl
  have hb (e : Expr) (he : (Expr.not e).isReadable) : (Expr.binary .both
      (.binary .greater (.name "argc") (.natural n)) (.not e)).isReadable := by
    rw [Expr.isReadable, he]
    simp +decide [Expr.isReadable, Expr.level, BinaryOperator.level]
  unfold decodeArgument
  split <;> simp [Stmt.when, Stmt.isReadable, Stmt.allReadable, isReadable_throwingText, hf, hb]

theorem isReadable_arity : (Stmt.when c.arityCondition c.arityThrow).isReadable := by
  have hc : c.arityCondition.isReadable := by
    unfold arityCondition
    split <;> simp +decide [Expr.isReadable, Expr.level, BinaryOperator.level]
  have ht : Stmt.allReadable c.arityThrow := by
    have hm := isReadable_throwing
      (by decide : ((Expr.name "message").method "c_str").isReadable)
    simp +decide [arityThrow, Stmt.allReadable, Stmt.isReadable, Expr.callName, Expr.isReadable,
      Expr.isObject, Expr.allReadable, Expr.level, BinaryOperator.level, Variable.isReadable,
      Variable.form, hm]
  simp [Stmt.when, Stmt.isReadable, Stmt.allReadable, hc, ht]

theorem isReadable_body (hc : Usable c.interface) (h : ∀ q ∈ c.parameters, Usable q.name) :
    Stmt.allReadable c.body := by
  have hv : Stmt.allReadable (c.parameters.map argumentVariable) := by
    refine Stmt.allReadable_iff.mpr (List.forall_mem_map.mpr fun q hq => ?_)
    have hv := isReadable_storage q.type (isName_of_isWord (h q hq).isWord)
    simp [argumentVariable, Stmt.isReadable, hv, Expr.isReadable_ofNative]
  have hd (g : ParameterPlan × Nat → Stmt) (hg : ∀ q n, g (q, n) = c.decodeArgument n q) :
      Stmt.allReadable (c.parameters.zipIdx.map g) := by
    refine Stmt.allReadable_iff.mpr (List.forall_mem_map.mpr fun q hq => ?_)
    rw [hg q.1 q.2]
    exact isReadable_decodeArgument (h q.1 (List.fst_mem_of_mem_zipIdx hq)) q.2
  have hf : Stmt.allReadable
      (c.parameters.map fun q => .assign (selfField (q.name ++ "_")) (.name q.name)) := by
    refine Stmt.allReadable_iff.mpr (List.forall_mem_map.mpr fun q hq => ?_)
    refine isReadable_assignField (isName_of_isWord ?_) (h q hq).isReadable_name
    rw [String.toList_append]
    exact isWord_append (h q hq).isWord (by decide)
  have hn : (Expr.new c.interface).isReadable := by
    simpa [Expr.isReadable] using hc.isReadable_name
  have hr := isReadable_answer (by decide : ((Expr.name "info").method "This").isReadable)
  have hi : (Expr.not ((Expr.name "info").method "IsConstructCall")).isReadable := by decide
  have hl : (Stmt.declare true .int "argc"
      (some ((Expr.name "info").method "Length"))).isReadable := by
    decide
  have hw : (Stmt.evaluate ((Expr.name "self").arrowMethod "Wrap"
      [(Expr.name "info").method "This"])).isReadable := by
    decide
  simp only [body, Stmt.allReadable_append, Stmt.allReadable, hv, hf, hr, hl, hw, isReadable_arity]
  simp [Stmt.when, Stmt.isReadable, Stmt.allReadable, isReadable_throwingText, hi,
    isReadable_self hc, hn, hd]

end ConstructorPlan

namespace InterfacePlan.Named

theorem isReadable_initEntry (h : plan.Named) : plan.initEntry.isReadable := by
  have hr : Stmt.allReadable (plan.fragments.flatMap Fragment.registrations) := by
    rw [registrations_eq, Stmt.allReadable_iff, List.forall_mem_map]
    exact fun a ha => a.isReadable_registration (h.attributes a ha)
  have hs : isName (plan.name ++ "::Init").toList := by
    simpa using h.name.isName_symbol (by decide : isWord "Init".toList)
  rw [EntryPoint.isReadable, initEntry, hs]
  simp +decide [Stmt.allReadable_append, Stmt.allReadable, Stmt.isReadable, Expr.callName,
    Expr.method, Expr.arrowMethod, hostName, Expr.isReadable, Expr.isObject, Expr.allReadable,
    Expr.tokens, Line.isStart, Line.goesOn, Variable.isReadable, Variable.form, hr]

theorem isReadable_entryPoints (h : plan.Named) : ∀ e ∈ plan.entryPoints, e.isReadable := by
  intro e he
  have hi : Usable plan.constructor.interface := h.interface ▸ h.name
  rcases mem_entryPoints.mp he with rfl | he | ⟨a, ha, rfl | ⟨setter, hs, rfl⟩⟩
  · exact h.isReadable_initEntry
  · have hs : isName (plan.constructor.interface ++ "::New").toList := by
      simpa using hi.isName_symbol (by decide : isWord "New".toList)
    rw [List.mem_singleton.mp he, EntryPoint.isReadable, hs]
    exact ConstructorPlan.isReadable_body hi h.usable
  · exact a.isReadable_getterEntry h.name (h.attributes a ha)
  · exact a.isReadable_setterEntry h.name (h.attributes a ha) hs

theorem isReadable_classDeclaration (h : plan.Named) : plan.classDeclaration.isReadable := by
  have he : ∀ d ∈ plan.fragments.flatMap Fragment.entries, isName d.name.toList := by
    simp only [fragments, ConstructorPlan.fragment, AttributePlan.fragment, List.flatMap_cons,
      List.flatMap_map, List.forall_mem_append, List.forall_mem_singleton, List.mem_flatMap]
    refine ⟨by decide, ?_⟩
    rintro d ⟨a, hm, hd⟩
    have ha := h.attributes a hm
    have hd : d = ⟨.getter, a.getter⟩ ∨ ∃ setter ∈ a.setter?, d = ⟨.setter, setter⟩ := by
      simpa [eq_comm] using hd
    rcases hd with rfl | ⟨setter, hs, rfl⟩
    · exact isName_of_isWord (AttributePlan.isWord_getter ha)
    · exact isName_of_isWord (AttributePlan.isWord_setter ha hs)
  have hf : ∀ f ∈ plan.fragments.flatMap Fragment.fields,
      Variable.isReadable ⟨false, f.type, f.name⟩ := by
    simp only [fragments, ConstructorPlan.fragment, AttributePlan.fragment, List.flatMap_cons,
      List.flatMap_map, List.nil_append, List.mem_flatMap, List.mem_singleton]
    rintro f ⟨a, hm, rfl⟩
    exact isReadable_storage a.type
      (isName_of_isWord (AttributePlan.isWord_field (h.attributes a hm)))
  simp only [ClassDeclaration.isReadable, Bool.and_eq_true, List.all_eq_true]
  exact ⟨⟨isName_of_isWord h.name.isWord, he⟩, hf⟩

theorem isReadable_initialiser (h : plan.Named) :
    (Item.initialiser plan.name plan.initialFields).isReadable := by
  refine Bool.and_eq_true_iff.mpr ⟨h.name.isWord, Expr.allReadable_iff.mpr ?_⟩
  simp only [Reading.initialised, initialFields, List.map_map, List.forall_mem_map]
  intro a ha
  have hf : (Expr.name a.field).isReadable :=
    isReadable_word (AttributePlan.isWord_field (h.attributes a ha))
      (not_mem_of_mem (d := '_') (by simp [AttributePlan.field]) (by decide))
  exact Expr.isReadable_callName hf (by simp [Expr.allReadable, Expr.isReadable_ofNative])

theorem isReadable_definitions (h : plan.Named) :
    ∀ item ∈ plan.definitions, item.isReadable := by
  have he : ∀ e ∈ plan.entryPoints, (Item.entryPoint e).isReadable := h.isReadable_entryPoints
  have he := List.forall_mem_cons.mp he
  simp only [definitions, List.forall_mem_append, List.forall_mem_cons, List.forall_mem_map]
  exact ⟨⟨h.isReadable_initialiser, h.name.isWord, he.left, List.forall_mem_nil _⟩, he.right⟩

end InterfacePlan.Named

end Plans

namespace Source

variable {options : Options}

theorem isReadable_header (options : Options) (count : Nat) :
    (header options count).isReadable := by
  have hb : ∀ banner, ∀ l ∈ bannerLines banner, "//".toList.isPrefixOf l.toList := by
    intro banner
    refine List.forall_mem_map.mpr fun l _ => ?_
    have ht := trimEnd_append_cons (by decide : Text.isSpace '/' = false) ['/'] (' ' :: l.toList)
    have hl : (commentLine l).toList = ['/'] ++ '/' :: ' ' :: l.toList := by simp [commentLine]
    simp only [hl, ht, String.toList_ofList]
    rfl
  cases hn : options.banner
  case none   => simp [header, hn, Item.isReadable, commentLine]
  case some b => simpa [header, hn, Item.isReadable, commentLine] using hb b

theorem isReadable_warningItems (options : Options) (ws : List Warning) :
    ∀ item ∈ warningItems options ws, item.isReadable := by
  unfold warningItems
  split
  case isTrue  => nofun
  case isFalse => simp [Item.isReadable, commentLine]

theorem isReadable_initAllEntry {plans : List InterfacePlan} (h : ∀ plan ∈ plans, plan.Named) :
    (initAllEntry plans).isReadable := by
  have hb : Stmt.allReadable (initAllEntry plans).body := by
    refine Stmt.allReadable_iff.mpr (List.forall_mem_map.mpr fun plan hp => ?_)
    have hn := (h plan hp).name
    have hs : isName (plan.name ++ "::Init").toList := by
      simpa using hn.isName_symbol (by decide : isWord "Init".toList)
    have hw {ws : List String} (hw : ∀ w ∈ ws, 'I' ∉ w.toList) : plan.name ++ "::Init" ∉ ws :=
      not_mem_of_mem (by simp) hw
    have hc : (Expr.name (plan.name ++ "::Init")).isReadable := by
      refine isReadable_name hs (hw (by decide)) fun hp => ?_
      have hm : '<' ∈ plan.name.toList := by
        simpa using hp.mem (by decide : '<' ∈ "static_cast<".toList)
      exact hn.wellFormed.not_mem (by decide) hm
    have ht : (plan.name ++ "::Init").toList ≠ "const".toList := by
      have hw : plan.name ++ "::Init" ∉ ["const"] := hw (by decide)
      simpa only [ne_eq, String.toList_inj, List.mem_singleton] using hw
    have hk := keyword_eq_none (hw (by decide))
    rw [Stmt.isReadable, Expr.isReadable_callName hc (by decide), Expr.callName,
      Expr.tokens, Expr.tokens, List.singleton_append, Line.isStart, hk, decide_eq_true ht]
    rfl
  exact Bool.and_eq_true_iff.mpr ⟨(by decide : isName "InitAll".toList), hb⟩

end Source

namespace CompiledUnit

variable {options : Options} {plans : List InterfacePlan}

theorem isReadable_items (hm : Identifier.Usable options.moduleName) (h : Accepted plans) :
    ∀ item ∈ (ofPlans options plans).items, item.isReadable := by
  simp only [ofPlans, unitItems, List.forall_mem_append, List.forall_mem_cons, List.forall_mem_map,
    List.forall_mem_flatMap]
  exact ⟨⟨⟨⟨⟨⟨isReadable_header .., rfl, rfl, List.forall_mem_nil _⟩, isReadable_helperItems _ _⟩,
    fun plan hp => (h.named plan hp).isReadable_classDeclaration⟩,
    fun plan hp => (h.named plan hp).isReadable_definitions⟩,
    isReadable_initAllEntry h.named, isName_of_isWord hm.isWord, List.forall_mem_nil _⟩,
    isReadable_warningItems _ _⟩

-- The source of a unit is read as the items that it was written for.
theorem read?_code (hm : Identifier.Usable options.moduleName) (h : Accepted plans) :
    read? (ofPlans options plans).code =
      some ((ofPlans options plans).items.filterMap Item.bare?) :=
  read?_of_lines (lines_code hm h) (isReadable_items hm h)

end CompiledUnit

section Bare

variable (items : List Item)

-- What takes part in a program is code.
theorem Source.Program.ofItems_bare : ofItems (items.filterMap Item.bare?) = ofItems items := by
  have hf : (items.filterMap Item.bare?).flatMap Item.functions = items.flatMap Item.functions := by
    rw [List.filterMap_eq_flatMap_toList, List.flatMap_assoc]
    exact List.flatMap_congr fun item _ => by cases item <;> simp [Item.bare?, Item.functions]
  have hc : (items.filterMap Item.bare?).filterMap (·.classDeclaration?) =
      items.filterMap (·.classDeclaration?) := by
    rw [List.filterMap_filterMap]
    exact List.filterMap_congr fun item _ => by cases item <;> rfl
  have hi : (items.filterMap Item.bare?).filterMap (·.initialiser?) =
      items.filterMap (·.initialiser?) := by
    rw [List.filterMap_filterMap]
    exact List.filterMap_congr fun item _ => by cases item <;> rfl
  rw [ofItems, ofItems, hf, hc, hi]

theorem entryPoints_bare : (items.filterMap Item.bare?).filterMap (·.entryPoint?) =
    (items.filterMap (·.entryPoint?)).map EntryPoint.bare := by
  rw [List.filterMap_filterMap, List.map_filterMap]
  exact List.filterMap_congr fun item _ => by cases item <;> rfl

end Bare

namespace CompiledUnit

-- The host calls an entry point of the source, whose variables are at first its parameters. The
-- entry point and the program that it belongs to are what a reader finds in the source.
noncomputable def call (u : CompiledUnit) (kind : EntryKind) (symbol : String)
    (parameters : Cells) (host : Host) : Option Host := do
  let items ← read? u.code
  let e ← (items.filterMap (·.entryPoint?)).find? fun e => e.kind = kind ∧ e.symbol = symbol
  ((Program.ofItems items).execAll e.body { locals := parameters, host }).host?

noncomputable def create (u : CompiledUnit) (className : String) (args : List HostValue)
    (host : Host) : Option Host :=
  u.call .method (className ++ "::New") (creationParameters args) host

-- The property of the object behind the receiver is assigned.
noncomputable def assign (u : CompiledUnit) (className property setter : String) (v : HostValue)
    (host : Host) : Option Host :=
  u.call .setter (className ++ "::" ++ setter) (setterParameters property v) host

section Calls

variable {options : Options} {plans : List InterfacePlan} {plan : InterfacePlan}

theorem call_eq (hm : Identifier.Usable options.moduleName) (h : Accepted plans) {kind : EntryKind}
    {symbol : String} {e : EntryPoint} (parameters : Cells) (host : Host)
    (he : (ofPlans options plans).entryPoints.find? (fun e => e.kind = kind ∧ e.symbol = symbol) =
      some e) :
    (ofPlans options plans).call kind symbol parameters host =
      ((ofPlans options plans).program.execAll e.body { locals := parameters, host }).host? := by
  have hb : (((ofPlans options plans).items.filterMap Item.bare?).filterMap (·.entryPoint?)).find?
      (fun e => e.kind = kind ∧ e.symbol = symbol) = some e.bare := by
    rw [entryPoints_bare, List.find?_map]
    exact congrArg (Option.map EntryPoint.bare) he
  rw [call, read?_code hm h, Option.bind_eq_bind, Option.bind_some, hb, Program.ofItems_bare]
  rfl

theorem create_eq (hm : Identifier.Usable options.moduleName) (h : Accepted plans)
    (hp : plan ∈ plans) (args : List HostValue) (host : Host) :
    (ofPlans options plans).create plan.name args host =
      ((ofPlans options plans).program.execAll plan.constructor.body
        { locals := creationParameters args, host }).host? :=
  call_eq hm h _ _ (find?_method h hp)

theorem assign_eq (hm : Identifier.Usable options.moduleName) (h : Accepted plans)
    (hp : plan ∈ plans) {a : AttributePlan} {setter : String} (ha : a ∈ plan.attributes)
    (hs : a.setter? = some setter) (v : HostValue) (host : Host) :
    (ofPlans options plans).assign plan.name a.name setter v host =
      ((ofPlans options plans).program.execAll (a.setterEntry plan.name setter).body
        { locals := setterParameters a.name v, host }).host? :=
  call_eq hm h _ _ (find?_setter h hp ha hs)

end Calls

end CompiledUnit

end AddonBinding
