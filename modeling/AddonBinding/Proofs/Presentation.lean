import AddonBinding.Proofs.HelperDefinitions

namespace AddonBinding

open Source Text

namespace Text

-- A line that holds nothing but blanks, or whose first characters besides blanks are two slashes.
def isRemark (l : String) : Bool :=
  let cs := l.toList.dropWhile isSpace
  cs.isEmpty || ['/', '/'].isPrefixOf cs

def withoutRemarks (ls : List String) : List String :=
  ls.filter (!isRemark ·)

-- The lines outside of all blocks from a first line to the next last line.
def withoutBlocks (first last : String) : (inside : Bool) → List String → List String
  | _, []            => []
  | false, l :: rest =>
    if l = first then withoutBlocks first last true rest
    else l :: withoutBlocks first last false rest
  | true, l :: rest  =>
    if l = last then withoutBlocks first last false rest
    else withoutBlocks first last true rest

section Remarks

variable {s : String} {cs : List Char}

theorem isRemark_of_slashes (h : s.toList = '/' :: '/' :: cs) : isRemark s := by
  have hs : isSpace '/' = false := by decide
  simp [isRemark, h, hs]

theorem isRemark_commentLine (s : String) : isRemark (commentLine s) := by
  have hs : (commentLine s).toList = '/' :: '/' :: ' ' :: s.toList := by simp [commentLine]
  exact isRemark_of_slashes hs

theorem isRemark_bannerLines (banner : String) : ∀ l ∈ bannerLines banner, isRemark l := by
  refine List.forall_mem_map.mpr fun l _ => ?_
  have ht : (String.ofList (trimEnd isSpace (commentLine l).toList)).toList =
      '/' :: '/' :: trimEnd isSpace (' ' :: l.toList) := by
    rw [String.toList_ofList, commentLine, String.toList_append]
    exact trimEnd_append_cons (by decide) ['/'] _
  exact isRemark_of_slashes ht

end Remarks

section Blocks

variable {first last : String} {before inside after : List String}

theorem withoutBlocks_append (h : first ∉ before) :
    withoutBlocks first last false (before ++ after) =
      before ++ withoutBlocks first last false after := by
  induction before
  case nil => rfl
  case cons l before hi =>
    have ⟨hl, h⟩ := List.ne_and_not_mem_of_not_mem_cons h
    rw [List.cons_append, withoutBlocks, if_neg hl.symm, hi h]
    rfl

theorem withoutBlocks_inside (h : last ∉ inside) :
    withoutBlocks first last true (inside ++ last :: after) =
      withoutBlocks first last false after := by
  induction inside
  case nil => rw [List.nil_append, withoutBlocks, if_pos rfl]
  case cons l inside hi =>
    have ⟨hl, h⟩ := List.ne_and_not_mem_of_not_mem_cons h
    rw [List.cons_append, withoutBlocks, if_neg hl.symm, hi h]

-- What a block holds does not matter, nor does what comes after it.
theorem withoutBlocks_block (hb : first ∉ before) (hi : last ∉ inside) :
    withoutBlocks first last false (before ++ (first :: inside ++ last :: after)) =
      before ++ withoutBlocks first last false after := by
  rw [withoutBlocks_append hb, List.cons_append, withoutBlocks, if_pos rfl,
    withoutBlocks_inside hi]

end Blocks

end Text

namespace Source

variable {heads ls : List String} {l : String}

theorem Outlined.not_mem (h : Outlined heads ls) (hi : isHeading l) (hl : l ∉ heads) : l ∉ ls :=
  fun hm => hl <| h.outline ▸ List.mem_filter.mpr ⟨hm, hi⟩

section Remarks

theorem withoutRemarks_eq_nil (h : ∀ l ∈ ls, isRemark l) : withoutRemarks ls = [] :=
  List.filter_eq_nil_iff.mpr fun l hl => by simp [h l hl]

theorem withoutRemarks_spaced (groups : List (List String)) :
    withoutRemarks (spaced groups) = groups.flatMap withoutRemarks := by
  induction groups
  case nil => rfl
  case cons group groups hi =>
    cases groups
    case nil  => simp [spaced]
    case cons =>
      have hs : withoutRemarks [""] = [] := by decide
      have hn (g g' : List String) gs :
          spaced (g :: g' :: gs) = g ++ ([""] ++ spaced (g' :: gs)) := rfl
      rw [hn, List.flatMap_cons, ← hi]
      simp only [withoutRemarks, List.filter_append] at hs ⊢
      rw [hs, List.nil_append]

theorem withoutRemarks_itemLines (items : List Item) :
    withoutRemarks (itemLines items) = items.flatMap (withoutRemarks ·.lines) := by
  rw [itemLines, withoutRemarks_spaced, List.flatMap_map]

theorem withoutRemarks_header (options : Options) (count : Nat) :
    withoutRemarks (header options count).lines = [] := by
  refine withoutRemarks_eq_nil <| List.forall_mem_cons.mpr ⟨isRemark_commentLine _, ?_⟩
  cases options.banner
  case none   => exact nofun
  case some b => exact isRemark_bannerLines b

theorem withoutRemarks_warningItems (options : Options) (ws : List Warning) :
    (warningItems options ws).flatMap (withoutRemarks ·.lines) = [] := by
  unfold warningItems
  split
  case isTrue  => rfl
  case isFalse =>
    rw [List.flatMap_singleton]
    refine withoutRemarks_eq_nil <| List.forall_mem_cons.mpr ⟨isRemark_commentLine _, ?_⟩
    exact List.forall_mem_map.mpr fun w _ => isRemark_commentLine _

-- The banner and the warnings are remarks.
theorem withoutRemarks_unitItems (options : Options) (plans : List InterfacePlan) :
    withoutRemarks (itemLines (unitItems options plans)) = withoutRemarks (itemLines
      (unitItems { options with banner := none, verbose := false } plans)) := by
  simp only [withoutRemarks_itemLines, unitItems, List.flatMap_append, List.flatMap_cons,
    withoutRemarks_header, withoutRemarks_warningItems]

end Remarks

section Helpers

variable {options : Options} {plans : List InterfacePlan}

-- The first and the last line of the namespace of the helpers.
def opening : String :=
  "namespace widl \x7b"

def ending : String :=
  "\x7d  // namespace widl"

def withoutHelpers (ls : List String) : List String :=
  withoutBlocks opening ending false ls

theorem opening_not_mem_preamble (hm : Identifier.Usable options.moduleName) (h : Accepted plans) :
    opening ∉ itemLines (CompiledUnit.preamble options plans.length) ++ [""] := by
  have ⟨rest, _, hi⟩ := CompiledUnit.exists_items options plans
  have hi : (CompiledUnit.ofPlans options plans).items = _ := hi options.coercion
  have hp : ∀ item ∈ CompiledUnit.preamble options plans.length, item.isPlain := fun item hm' =>
    CompiledUnit.isPlain_items hm h item <| hi ▸ List.mem_append_left _ hm'
  have ho : Outlined _ (itemLines (CompiledUnit.preamble options plans.length)) :=
    .spaced fun item hi => Item.outlined_lines (hp item hi)
  exact (ho.append .blank).not_mem (by decide) (by
    simp [CompiledUnit.preamble, header, Item.outline, Item.lines, opening])

theorem ending_not_mem_functions (policy : CoercionPolicy) (helpers : List Helper) :
    ending ∉ "" :: spaced ((helpers.map (Helper.function policy)).map Function.lines) ++ [""] := by
  have ho : Outlined _ (spaced ((helpers.map (Helper.function policy)).map Function.lines)) :=
    .spaced (f := fun f => [f.heading]) <| List.forall_mem_map.mpr fun h _ =>
      Function.outlined_lines (Helper.isPlain_function policy h)
  refine ((Outlined.blank.append ho).append .blank).not_mem (by decide) ?_
  rw [List.nil_append, List.append_nil, ← List.map_eq_flatMap]
  intro hm
  have ⟨f, _, hf⟩ := List.mem_map.mp hm
  have hb := f.begins_heading
  rw [hf] at hb
  exact absurd hb (by decide)

theorem withoutHelpers_itemLines (hm : Identifier.Usable options.moduleName) (h : Accepted plans)
    (policy : CoercionPolicy) (helpers : List Helper) {rest : List Item} (hr : rest ≠ []) :
    let preamble := CompiledUnit.preamble options plans.length
    withoutHelpers (itemLines (preamble ++ ([.helpers (helpers.map (Helper.function policy))] ++
      rest))) = itemLines preamble ++ [""] ++ withoutHelpers ("" :: itemLines rest) := by
  have hl functions : itemLines [.helpers functions] =
      opening :: ("" :: spaced (functions.map (·.lines)) ++ [""]) ++ [ending] := by
    rw [itemLines, List.map_singleton, spaced, lines_helpers]
    simp [opening, ending]
  intro preamble
  rw [itemLines_append (by simp [preamble, CompiledUnit.preamble]) (by simp),
    itemLines_append (by simp) hr, hl, List.append_cons, List.append_assoc (_ :: _),
    List.singleton_append]
  exact withoutBlocks_block (opening_not_mem_preamble hm h) <|
    ending_not_mem_functions policy helpers

-- The policy of the conversions shows in the helpers only.
theorem withoutHelpers_unitItems (hm : Identifier.Usable options.moduleName) (h : Accepted plans)
    (policy : CoercionPolicy) :
    withoutHelpers (itemLines (unitItems options plans)) =
      withoutHelpers (itemLines (unitItems { options with coercion := policy } plans)) := by
  have ⟨rest, hr, hi⟩ := CompiledUnit.exists_items options plans
  have hi policy : unitItems { options with coercion := policy } plans = _ := hi policy
  rw [hi options.coercion, hi policy]
  unfold helperItems
  split
  case isTrue  => rfl
  case isFalse => rw [withoutHelpers_itemLines hm h _ _ hr, withoutHelpers_itemLines hm h _ _ hr]

end Helpers

end Source

section Options

variable {options options' : Options} {interfaces : List Interface} {plans : List InterfacePlan}

open CompiledUnit

theorem compile_eq_error_of_moduleName (hn : options.moduleName = options'.moduleName)
    {r : Rejection} (h : compile options interfaces = .error r) :
    compile options' interfaces = .error r := by
  have he {o : Options} : compile o interfaces = .error r ↔ Rejection.ofList?
      (Rejection.among ((Role.module.check o.moduleName).mapError .single)
        ++ Rejection.among (planAll interfaces)) = some r := orAccept_eq_error_iff
  rw [he, ← hn]
  exact he.mp h

theorem code_withoutRemarks (hm : Identifier.Usable options.moduleName) (h : Accepted plans)
    (hn : options.moduleName = options'.moduleName) (hc : options.coercion = options'.coercion) :
    withoutRemarks (Text.lines (ofPlans options plans).code) =
      withoutRemarks (Text.lines (ofPlans options' plans).code) := by
  rw [lines_code hm h, lines_code (hn ▸ hm) h]
  simp only [ofPlans]
  rw [withoutRemarks_unitItems options, withoutRemarks_unitItems options', hn, hc]

theorem code_withoutHelpers (hm : Identifier.Usable options.moduleName) (h : Accepted plans)
    (hn : options.moduleName = options'.moduleName) (hb : options.banner = options'.banner)
    (hv : options.verbose = options'.verbose) :
    withoutHelpers (Text.lines (ofPlans options plans).code) =
      withoutHelpers (Text.lines (ofPlans options' plans).code) := by
  rw [lines_code hm h, lines_code (hn ▸ hm) h]
  simp only [ofPlans]
  rw [withoutHelpers_unitItems hm h options'.coercion, hn, hb, hv]

end Options

-- Whether a unit is accepted, with which faults if not, and what its manifest and its warnings say
-- depends on no option but the name of the module. A banner and the repetition of the warnings
-- add remarks to the source, and the policy of the conversions changes the helpers.
theorem options_confined {options options' : Options}
    (hn : options.moduleName = options'.moduleName) (interfaces : List Interface) :
    (∃ r, compile options interfaces = .error r ∧ compile options' interfaces = .error r) ∨
    ∃ u u', compile options interfaces = .ok u ∧ compile options' interfaces = .ok u' ∧
      u.manifest = u'.manifest ∧ u.warnings = u'.warnings ∧
      (options.coercion = options'.coercion →
        withoutRemarks (Text.lines u.code) = withoutRemarks (Text.lines u'.code)) ∧
      (options.banner = options'.banner → options.verbose = options'.verbose →
        withoutHelpers (Text.lines u.code) = withoutHelpers (Text.lines u'.code)) := by
  cases hu : compile options interfaces
  case error r => exact .inl ⟨r, rfl, compile_eq_error_of_moduleName hn hu⟩
  case ok u =>
    have ⟨hm, plans, hp, hu⟩ := compile_eq_ok_iff.mp hu
    have hu' : compile options' interfaces = .ok (.ofPlans options' plans) :=
      compile_eq_ok_iff.mpr ⟨hn ▸ hm, plans, hp, rfl⟩
    have hm := Role.check_eq_ok_iff.mp hm
    have ha := planAll_accepted hp
    subst hu
    exact .inr ⟨_, _, rfl, hu', congrArg (Manifest.ofPlans · plans) hn, rfl,
      code_withoutRemarks hm ha hn, code_withoutHelpers hm ha hn⟩

-- The banner reads like a declaration, like the end of a comment and like the helpers.
theorem options_confined_pixel :
    let options : Options := {}
    let banner := "a\nint x;\r\n\n*/ int y;\rint z;\n\x7d  // namespace widl\nnamespace widl \x7b"
    ∃ u u' u'', compile options [pixel] = .ok u ∧
      compile { options with banner := some banner, verbose := true } [pixel] = .ok u' ∧
      compile { options with coercion := { numericStrings := true } } [pixel] = .ok u'' ∧
      withoutRemarks (Text.lines u.code) = withoutRemarks (Text.lines u'.code) ∧
      withoutHelpers (Text.lines u.code) = withoutHelpers (Text.lines u''.code) := by
  intro options banner
  have ⟨u, hu⟩ : ∃ u, compile {} [pixel] = .ok u := ⟨_, rfl⟩
  rcases @options_confined options { options with banner := some banner, verbose := true } rfl
      [pixel] with
    ⟨r, hr, _⟩ | ⟨v, u', hv, hu', _, _, hs, _⟩
  case inl => cases hu.symm.trans hr
  rcases @options_confined options { options with coercion := { numericStrings := true } } rfl
      [pixel] with
    ⟨r, hr, _⟩ | ⟨w, u'', hw, hu'', _, _, _, hs'⟩
  case inl => cases hu.symm.trans hr
  cases hu.symm.trans hv
  cases hu.symm.trans hw
  exact ⟨u, u', u'', hu, hu', hu'', hs rfl, hs' rfl rfl⟩

end AddonBinding
